/-
The entries of one level of a document.

A level is a mapping with string keys. Its reader looks up the keys it knows, an explicit null
counting as absent, and then checks that no other key is there. Looking a key up changes nothing, so
the result does not depend on the order of the look-ups, only the cause named for a refusal does.
-/

import CrossBuild.Config.Error
import CrossBuild.OrderedMap

namespace CrossBuild.Config

open Yaml (Value)

/-- The entries of a level, and the phrase that names it in messages. -/
structure Fields where
  context : String
  entries : List (String × Value)

/-- The keys of a mapping, all of which have to be strings. -/
def stringEntries (context : String) :
    List (Value × Value) → Except Error (List (String × Value))
  | [] => .ok []
  | (.string key, value) :: rest => do
      let others ← stringEntries context rest
      return (key, value) :: others
  | (key, _) :: _ => .error (.wrongType "<key>" context "a string" key)

/-- Strings stand for themselves and numbers for their text. -/
def scalarText? : Value → Option String
  | .string text => some text
  | .number value => some value.text
  | _ => none

/-- Variables of an environment in document order. -/
def readEnvEntries (context : String) (env : Env) :
    List (Value × Value) → Except Error Env
  | [] => .ok env
  | (.string key, value) :: rest =>
      match scalarText? value with
      | some text => readEnvEntries context (env.insert key text) rest
      | none => .error (.wrongType key context "a string or a number" value)
  | (key, _) :: _ => .error (.wrongType "<key>" context "a string" key)

def readEnv (context : String) : Value → Except Error Env
  | .mapping entries => readEnvEntries context .empty entries
  | value => .error (.wrongType "env" context "a mapping" value)

namespace Fields

def ofValue (context : String) : Value → Except Error Fields
  | .mapping entries => do
      let pairs ← stringEntries context entries
      return { context := context, entries := pairs }
  | value => .error (.wrongType "<root>" context "a mapping" value)

/-- The value of a key, unless it is absent or null. -/
def get? (fields : Fields) (key : String) : Option Value :=
  match fields.entries.lookup key with
  | some .null => none
  | found => found

def require (fields : Fields) (key : String) : Except Error Value :=
  match fields.get? key with
  | some value => .ok value
  | none => .error (.missingKey key fields.context)

def asString (fields : Fields) (key : String) : Value → Except Error String
  | .string text => .ok text
  | value => .error (.wrongType key fields.context "a string" value)

def requireString (fields : Fields) (key : String) : Except Error String := do
  fields.asString key (← fields.require key)

def string? (fields : Fields) (key : String) : Except Error (Option String) :=
  match fields.get? key with
  | none => .ok none
  | some value => some <$> fields.asString key value

def bool? (fields : Fields) (key : String) : Except Error (Option Bool) :=
  match fields.get? key with
  | none => .ok none
  | some (.bool value) => .ok (some value)
  | some value => .error (.wrongType key fields.context "a boolean" value)

def list? (fields : Fields) (key : String) : Except Error (Option (List Value)) :=
  match fields.get? key with
  | none => .ok none
  | some (.sequence items) => .ok (some items)
  | some value => .error (.wrongType key fields.context "a list" value)

def env? (fields : Fields) : Except Error (Option Env) :=
  match fields.get? "env" with
  | none => .ok none
  | some value => some <$> readEnv ("'env' of " ++ fields.context) value

/-- The version of the Java toolchain: a string or a bare number. -/
def javaVersion? (fields : Fields) : Except Error (Option String) :=
  match fields.get? "java-version" with
  | none => .ok none
  | some value =>
      match scalarText? value with
      | some text => .ok (some text)
      | none =>
          .error (.wrongType "java-version" fields.context "a string or a number" value)

/-- The strings of a list that holds nothing else. -/
def allStrings? : List Value → Option (List String)
  | [] => some []
  | .string text :: rest => (allStrings? rest).map (text :: ·)
  | _ :: _ => none

/-- Machine labels: one label or a list of them. An empty list counts as absent. -/
def runsOn? (fields : Fields) : Except Error (Option (List String)) :=
  match fields.get? "runs-on" with
  | none => .ok none
  | some (.string label) => .ok (some [label])
  | some value =>
      let labels? := match value with
        | .sequence items => allStrings? items
        | _ => none
      match labels? with
      | some [] => .ok none
      | some labels => .ok (some labels)
      | none =>
          .error (.wrongType "runs-on" fields.context "a string or a list of strings" value)

/-- Refuse a key whose value is assigned elsewhere. -/
def forbid (fields : Fields) (key : String) : Except Error Unit :=
  match fields.get? key with
  | none => .ok ()
  | some _ => .error (.invalid (.assignedKey fields.context key))

/-- Refuse every key that the level does not know. -/
def finish (fields : Fields) (known : List String) : Except Error Unit :=
  match (fields.entries.map Prod.fst).filter fun key => !known.contains key with
  | [] => .ok ()
  | unknown => .error (.unknownKeys fields.context unknown)

/-- A list of steps: required, not empty, mappings only. -/
def steps (fields : Fields) : Except Error (List Value) := do
  match ← fields.list? "steps" with
  | none => throw (.missingKey "steps" fields.context)
  | some [] => throw (.invalid (.emptyList "steps" fields.context))
  | some items =>
      match items.find? fun item => !item.isMapping with
      | some other => throw (.wrongType "steps" fields.context "a list of mappings" other)
      | none => return items

end Fields

end CrossBuild.Config
