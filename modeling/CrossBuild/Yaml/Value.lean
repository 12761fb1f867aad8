/-
The data tree of a document.

A document is a tree of scalars, sequences, mappings and tagged values. Mappings keep the order of
their entries and a key may be any value. This file holds the tree and its equality as a key; it
says nothing about text.
-/

import CrossBuild.Decimal.Double

namespace CrossBuild.Yaml

/-- Whole numbers and double-precision numbers are different even when equal in value. Whole numbers
read from text lie between `-2^63` and `2^64 - 1`. -/
inductive Number where
  | int (value : Int)
  | float (value : Double)
  deriving DecidableEq, Inhabited

/-- A node of the tree. A tag is kept without its leading exclamation mark. -/
inductive Value where
  | null
  | bool (value : Bool)
  | number (value : Number)
  | string (text : String)
  | sequence (items : List Value)
  | mapping (entries : List (Value × Value))
  | tagged (tag : String) (value : Value)
  deriving Inhabited

def Number.sameKey : Number → Number → Bool
  | .int left, .int right => left = right
  | .float left, .float right => left.sameKey right
  | _, _ => false

namespace Value

/-- The value below any tags. -/
def untagged : Value → Value
  | .tagged _ value => value.untagged
  | value => value

def isNull (value : Value) : Bool :=
  match value.untagged with
  | .null => true
  | _ => false

def isMapping (value : Value) : Bool :=
  match value.untagged with
  | .mapping _ => true
  | _ => false

def string? (value : Value) : Option String :=
  match value.untagged with
  | .string text => some text
  | _ => none

mutual

/-- Equality as a key of a mapping: entries of a mapping are compared without regard to order, all
else as it stands. -/
def sameKey : Value → Value → Bool
  | .null, .null => true
  | .bool left, .bool right => left == right
  | .number left, .number right => left.sameKey right
  | .string left, .string right => left == right
  | .sequence left, .sequence right => sameItems left right
  | .mapping left, .mapping right => left.length == right.length && entriesWithin left right
  | .tagged leftTag left, .tagged rightTag right => leftTag == rightTag && sameKey left right
  | _, _ => false

def sameItems : List Value → List Value → Bool
  | [], [] => true
  | left :: leftRest, right :: rightRest => sameKey left right && sameItems leftRest rightRest
  | _, _ => false

/-- Every entry of the first list has an equal one in the second. -/
def entriesWithin : List (Value × Value) → List (Value × Value) → Bool
  | [], _ => true
  | (key, value) :: rest, entries =>
      (entries.any fun entry => sameKey key entry.1 && sameKey value entry.2) &&
        entriesWithin rest entries

end

mutual

/-- Some value in the tree carries a tag. -/
def hasTag : Value → Bool
  | .tagged _ _ => true
  | .sequence items => itemsHaveTag items
  | .mapping entries => entriesHaveTag entries
  | _ => false

def itemsHaveTag : List Value → Bool
  | [] => false
  | item :: rest => hasTag item || itemsHaveTag rest

def entriesHaveTag : List (Value × Value) → Bool
  | [] => false
  | (key, value) :: rest => hasTag key || hasTag value || entriesHaveTag rest

end

end Value

end CrossBuild.Yaml
