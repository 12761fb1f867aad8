/-
The data tree of a document text.

Aliases are replaced by what they refer to, plain scalars by what they stand for, and the core tags
by values of their kinds. Tags of one's own stay in the tree. A document is refused when a mapping
has a key twice, when collections are nested more than 128 levels deep, when aliases are followed
more than a hundred times as often as the document has parts, or when a scalar is out of range.
-/

import CrossBuild.Yaml.Node

namespace CrossBuild.Yaml

/-- The deepest nesting of collections. -/
def depthLimit : Nat := 128

/-- The tag of one's own that a resolved tag stands for. -/
def ownTag? (tag : String) : Option String :=
  match tag.toList with
  | ['!'] => some "!"
  | '!' :: rest => some (String.ofList rest)
  | _ => none

/-- The value of a scalar under a tag that is not one's own. -/
def coreValue? (tag text : String) : Option Value :=
  if tag = "tag:yaml.org,2002:bool" then (truthValue? text).map .bool
  else if tag = "tag:yaml.org,2002:int" then
    (wholeNumber? text.toList).bind fun value =>
      if leastInteger ≤ value ∧ value ≤ greatestInteger then some (.number (.int value)) else none
  else if tag = "tag:yaml.org,2002:float" then
    (doubleNumber? text).map fun value => .number (.float value)
  else if tag = "tag:yaml.org,2002:null" then if text ∈ nullTexts then some .null else none
  else some (.string text)

/-- The value of a scalar that has no tag or whose tag is already in the tree. -/
def untaggedScalar? (text : String) (plain : Bool) : Option Value :=
  if plain then plainValue? text else some (.string text)

/-- Loading counts the aliases that it follows and stops beyond a limit. -/
abbrev LoadM := StateT Nat Option

namespace Document

def refuse {α : Type} : LoadM α :=
  fun _ => none

def followAlias (document : Document) (number : Nat) : LoadM Node := do
  let followed := (← get) + 1
  set followed
  if followed > 100 * document.parts then refuse
  match document.anchored.lookup number with
  | some node => return node
  | none => refuse

/-- An own tag, unless the value already stands below it. -/
def tagHere? (tagged : Bool) (tag : Option String) : Option String :=
  if tagged then none else tag.bind ownTag?

def scalarValue (tagged : Bool) (tag : Option String) (text : String) (plain : Bool) :
    LoadM Value :=
  let value? :=
    match tagHere? tagged tag, tag with
    | some own, _ => (untaggedScalar? text plain).map (Value.tagged own)
    | none, some core => if tagged then untaggedScalar? text plain else coreValue? core text
    | none, none => untaggedScalar? text plain
  match value? with
  | some value => return value
  | none => refuse

/-- Put the tag of a collection into the tree. -/
def withTag (own : Option String) (value : Value) : Value :=
  match own with
  | some tag => .tagged tag value
  | none => value

/-- Load items from left to right. -/
def loadItems (load : Node → LoadM Value) : List Node → LoadM (List Value)
  | [] => return []
  | node :: rest => do
      let item ← load node
      return item :: (← loadItems load rest)

/-- Load entries from left to right behind those already loaded; no key may be there twice. -/
def loadEntries (loadKey loadValue : Node → LoadM Value) (loaded : List (Value × Value)) :
    List (Node × Node) → LoadM (List (Value × Value))
  | [] => return loaded.reverse
  | (keyNode, valueNode) :: rest => do
      let key ← loadKey keyNode
      if loaded.any fun entry => key.sameKey entry.1 then refuse
      let value ← loadValue valueNode
      loadEntries loadKey loadValue ((key, value) :: loaded) rest

/-- An alias stands for the node it refers to. -/
def target (document : Document) : Node → LoadM Node
  | .alias number => document.followAlias number
  | other => return other

/-- Load a node. `tagged` tells that its tag is already in the tree, and `depth` is the number of
levels of collections that it may have. The keys of a tagged mapping count as tagged too. -/
def load (document : Document) : Nat → Bool → Node → LoadM Value
  | 0, tagged, node => do
      match ← document.target node with
      | .scalar tag text plain => scalarValue tagged tag text plain
      | _ => refuse
  | depth + 1, tagged, node => do
      match ← document.target node with
      | .alias _ => refuse
      | .scalar tag text plain => scalarValue tagged tag text plain
      | .sequence tag nodes =>
          let items ← loadItems (load document depth false) nodes
          return withTag (tagHere? tagged tag) (.sequence items)
      | .mapping tag nodes =>
          let own := tagHere? tagged tag
          let entries ← loadEntries (load document depth (tagged || own.isSome))
            (load document depth false) [] nodes
          return withTag own (.mapping entries)

end Document

/-- The data tree of a text; an empty text is null. -/
def read? (text : String) : Option Value := do
  match ← Builder.build? (← tokens? text) with
  | none => return .null
  | some document => (document.load depthLimit false document.root).run' 0

end CrossBuild.Yaml
