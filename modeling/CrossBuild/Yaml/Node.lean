/-
Nodes of a document, built from its tokens.

A node is a scalar or a collection with an optional tag, or the alias of a node with an anchor. An
anchor stands for a number, and an alias refers to the last node that was given the number of its
name; a name used again takes the number of the anchors known so far, which another name may take as
well. The grammar of the tokens decides which documents are built at all; a text holds one document
at most.
-/

import CrossBuild.Yaml.Token.Scan

namespace CrossBuild.Yaml

inductive Node where
  | alias (number : Nat)
  | scalar (tag : Option String) (text : String) (plain : Bool)
  | sequence (tag : Option String) (items : List Node)
  | mapping (tag : Option String) (entries : List (Node × Node))
  deriving Inhabited

/-- The tokens to come and what is known of the nodes so far: how many parts have been started and
ended, the numbers of anchor names, the part at which the node of a number starts, and the nodes by
the part at which they start. Newest come first. -/
structure Builder where
  tokens : List Token
  directives : List (String × String)
  parts : Nat
  anchors : List (String × Nat)
  starts : List (Nat × Nat)
  nodes : List (Nat × Node)

/-- A document: its root, the nodes with anchors by their numbers, and the number of its parts. -/
structure Document where
  root : Node
  anchored : List (Nat × Node)
  parts : Nat

abbrev BuildM := StateT Builder Option

namespace Builder

def refuse {α : Type} : BuildM α :=
  fun _ => none

def peek : BuildM (Option Token) := do
  return (← get).tokens.head?

def advance : BuildM Unit :=
  modify fun builder => { builder with tokens := builder.tokens.drop 1 }

def countPart : BuildM Unit :=
  modify fun builder => { builder with parts := builder.parts + 1 }

/-- The tag that a handle and a suffix stand for. -/
def resolveTag (handle suffix : String) : BuildM String := do
  if handle.isEmpty then return suffix
  match (← get).directives.lookup handle with
  | some replacement => return replacement ++ suffix
  | none => refuse

/-- Anchor and tag in front of a node, in either order. -/
def properties : BuildM (Option String × Option String) := do
  match ← peek with
  | some (.anchor name) =>
      advance
      match ← peek with
      | some (.tag handle suffix) =>
          advance
          return (some name, some (← resolveTag handle suffix))
      | _ => return (some name, none)
  | some (.tag handle suffix) =>
      advance
      match ← peek with
      | some (.anchor name) =>
          advance
          return (some name, some (← resolveTag handle suffix))
      | _ => return (none, some (← resolveTag handle suffix))
  | _ => return (none, none)

/-- Give the node that starts here the next number, under its name. -/
def nameStart (anchor : Option String) : BuildM Unit := do
  match anchor with
  | none => return
  | some name =>
      modify fun builder =>
        let number := builder.anchors.length
        { builder with
          anchors := (name, number) :: builder.anchors.filter fun known => known.1 ≠ name
          starts := (number, builder.parts) :: builder.starts }

/-- Store a finished node under the part at which it started. -/
def keep (anchor : Option String) (start : Nat) (node : Node) : BuildM Node := do
  if anchor.isSome then
    modify fun builder => { builder with nodes := (start, node) :: builder.nodes }
  return node

/-- A scalar takes one part; a tag that is only a mark is no tag of a scalar that is written out. -/
def scalarNode (anchor tag : Option String) (text : String) (plain : Bool) : BuildM Node := do
  nameStart anchor
  let start := (← get).parts
  countPart
  keep anchor start (.scalar tag text plain)

def emptyNode : BuildM Node :=
  scalarNode none none "" true

/-- A collection starts with one part and ends with another. -/
def collectionNode (anchor : Option String) (content : BuildM Node) : BuildM Node := do
  nameStart anchor
  let start := (← get).parts
  countPart
  let node ← content
  countPart
  keep anchor start node

def aliasNode (name : String) : BuildM Node := do
  match (← get).anchors.lookup name with
  | some number =>
      countPart
      return .alias number
  | none => refuse

/-- The token ends a part of a block mapping or begins its next one. -/
def endsBlockPart : Option Token → Bool
  | some .key => true
  | some .value => true
  | some .blockEnd => true
  | _ => false

/-- The token ends a part of a flow collection or begins its next one. -/
def endsFlowPart (closing : Token) (token : Option Token) : Bool :=
  token == some .flowEntry || token == some closing

mutual

/-- A node. Without `inBlock` it is part of a flow collection; with `dashes` a sequence may follow
whose dashes open no block of their own. -/
def node (inBlock dashes : Bool) : Nat → BuildM Node
  | 0 => refuse
  | fuel + 1 => do
      match ← peek with
      | some (.alias name) =>
          advance
          aliasNode name
      | _ =>
          let (anchor, tag) ← properties
          match ← peek with
          | some .blockEntry =>
              if dashes then
                collectionNode anchor do
                  return .sequence tag (← openSequence fuel)
              else propertiesOnly anchor tag
          | some (.scalar text plain) =>
              advance
              scalarNode anchor (tag.filter (· ≠ "!")) text plain
          | some .flowSequenceStart =>
              advance
              collectionNode anchor do
                return .sequence tag (← flowSequence true fuel)
          | some .flowMappingStart =>
              advance
              collectionNode anchor do
                return .mapping tag (← flowMapping true fuel)
          | some .blockSequenceStart =>
              if inBlock then
                advance
                collectionNode anchor do
                  return .sequence tag (← blockSequence fuel)
              else propertiesOnly anchor tag
          | some .blockMappingStart =>
              if inBlock then
                advance
                collectionNode anchor do
                  return .mapping tag (← blockMapping fuel)
              else propertiesOnly anchor tag
          | _ => propertiesOnly anchor tag

/-- An anchor or a tag without content belongs to an empty scalar. -/
def propertiesOnly (anchor tag : Option String) : BuildM Node :=
  if anchor.isNone && tag.isNone then refuse else scalarNode anchor tag "" true

/-- Items of a block sequence up to its end. -/
def blockSequence : Nat → BuildM (List Node)
  | 0 => refuse
  | fuel + 1 => do
      match ← peek with
      | some .blockEntry =>
          advance
          let next ← peek
          let item ←
            if next == some .blockEntry || next == some .blockEnd then emptyNode
            else node true false fuel
          return item :: (← blockSequence fuel)
      | some .blockEnd =>
          advance
          return []
      | _ => refuse

/-- Items whose dashes stand in the column of the surrounding mapping. -/
def openSequence : Nat → BuildM (List Node)
  | 0 => refuse
  | fuel + 1 => do
      match ← peek with
      | some .blockEntry =>
          advance
          let next ← peek
          let item ←
            if next == some .blockEntry || endsBlockPart next then emptyNode
            else node true false fuel
          return item :: (← openSequence fuel)
      | _ => return []

/-- Entries of a block mapping up to its end. -/
def blockMapping : Nat → BuildM (List (Node × Node))
  | 0 => refuse
  | fuel + 1 => do
      match ← peek with
      | some .key =>
          advance
          let key ← if endsBlockPart (← peek) then emptyNode else node true true fuel
          let value ← blockValue fuel
          return (key, value) :: (← blockMapping fuel)
      | some .blockEnd =>
          advance
          return []
      | _ => refuse

/-- The value behind a key of a block mapping. -/
def blockValue : Nat → BuildM Node
  | 0 => refuse
  | fuel + 1 => do
      match ← peek with
      | some .value =>
          advance
          if endsBlockPart (← peek) then emptyNode else node true true fuel
      | _ => emptyNode

/-- Items of a flow sequence up to its end. A single pair is a mapping of its own. -/
def flowSequence (first : Bool) : Nat → BuildM (List Node)
  | 0 => refuse
  | fuel + 1 => do
      if (← peek) == some .flowSequenceEnd then
        advance
        return []
      unless first do
        if (← peek) == some .flowEntry then advance else refuse
      match ← peek with
      | some .key =>
          advance
          let pair ← collectionNode none do
            return .mapping none [← flowPair fuel]
          return pair :: (← flowSequence false fuel)
      | some .flowSequenceEnd =>
          advance
          return []
      | _ =>
          let item ← node false false fuel
          return item :: (← flowSequence false fuel)

/-- Key and value of a single pair. A missing key takes the token behind it along. -/
def flowPair : Nat → BuildM (Node × Node)
  | 0 => refuse
  | fuel + 1 => do
      let next ← peek
      let key ←
        if next == some .value || endsFlowPart .flowSequenceEnd next then do
          advance
          emptyNode
        else node false false fuel
      let value ← flowValue .flowSequenceEnd fuel
      return (key, value)

/-- The value behind a key of a flow collection. -/
def flowValue (closing : Token) : Nat → BuildM Node
  | 0 => refuse
  | fuel + 1 => do
      match ← peek with
      | some .value =>
          advance
          if endsFlowPart closing (← peek) then emptyNode else node false false fuel
      | _ => emptyNode

/-- Entries of a flow mapping up to its end. -/
def flowMapping (first : Bool) : Nat → BuildM (List (Node × Node))
  | 0 => refuse
  | fuel + 1 => do
      if (← peek) == some .flowMappingEnd then
        advance
        return []
      unless first do
        if (← peek) == some .flowEntry then advance else refuse
      match ← peek with
      | some .key =>
          advance
          let next ← peek
          let key ←
            if next == some .value || endsFlowPart .flowMappingEnd next then emptyNode
            else node false false fuel
          let value ← flowValue .flowMappingEnd fuel
          return (key, value) :: (← flowMapping false fuel)
      | some .flowMappingEnd =>
          advance
          return []
      | _ =>
          let key ← node false false fuel
          let value ← emptyNode
          return (key, value) :: (← flowMapping false fuel)

end

/-- Directives in front of a document: one version, which has to be 1.1 or 1.2, and one replacement
for each handle. -/
def readDirectives (versionSeen : Bool) (given : List (String × String)) :
    List Token → Option (List (String × String) × List Token)
  | .versionDirective major minor :: rest =>
      if versionSeen || major ≠ 1 || (minor ≠ 1 && minor ≠ 2) then none
      else readDirectives true given rest
  | .tagDirective handle replacement :: rest =>
      if (given.lookup handle).isSome then none
      else readDirectives versionSeen (given ++ [(handle, replacement)]) rest
  | tokens => some (given, tokens)

/-- What the handles stand for unless a directive says otherwise. -/
def defaultDirectives : List (String × String) :=
  [("!", "!"), ("!!", "tag:yaml.org,2002:")]

/-- The tokens that follow a document mark without any content between. -/
def endsDocument : Option Token → Bool
  | none => true
  | some (.versionDirective _ _) => true
  | some (.tagDirective _ _) => true
  | some .documentStart => true
  | some .documentEnd => true
  | _ => false

def document (explicit : Bool) (fuel : Nat) : BuildM Node := do
  if explicit && endsDocument (← peek) then emptyNode else node true false fuel

/-- The one document of the tokens; `some none` stands for a text without any. -/
def build? (tokens : List Token) : Option (Option Document) := do
  if tokens.isEmpty then return none
  let (given, afterDirectives) ← readDirectives false [] tokens
  let explicit := afterDirectives.head? == some .documentStart
  if afterDirectives.length < tokens.length && !explicit then none
  let begin : Builder :=
    { tokens := if explicit then afterDirectives.drop 1 else afterDirectives
      directives := given ++ defaultDirectives
      parts := 0
      anchors := []
      starts := []
      nodes := [] }
  let (root, final) ← (document explicit (2 * tokens.length + 8)).run begin
  if !(final.tokens.all fun token => token == .documentEnd) then none
  let anchored := final.starts.filterMap fun (number, start) =>
    (final.nodes.lookup start).map fun node => (number, node)
  return some { root, anchored, parts := final.parts }

end Builder

end CrossBuild.Yaml
