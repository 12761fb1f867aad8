/-
Reading a command line.

Arguments are options, the values of options, or positional arguments, and the first positional
argument of the tool names a command, which reads the rest. A value is looked at when the argument
behind it is recognised, so of two mistakes the earlier one is reported unless the later one is an
unknown argument. Options of the log may stand before and behind the command.
-/

import CrossBuild.CommandLine.Command
import CrossBuild.OrderedMap

namespace CrossBuild.CommandLine

open Files (Path)

/-- Why a command line gives no command. Requests for help and for the version are among the
reasons. -/
inductive UsageError where
  | help
  | version
  | helpForMissingCommand
  | invalidCommand
  | missingCommand
  | missingArgument
  | unknownArgument
  | invalidValue
  | malformedValue
  | repeatedArgument
  | needlessValue
  deriving DecidableEq

/-- What a value has to be. -/
inductive ValueKind where
  | path
  | text
  | number
  | choice (words : List String)

structure Parameter where
  name : String
  kind : ValueKind

/-- A number of at most 64 bits, with or without a sign in front. -/
def readNumber? (text : String) : Option Nat :=
  let digits := match text.toList with
    | '+' :: rest => rest
    | chars => chars
  if digits.isEmpty || !digits.all Char.isDigit then none
  else
    let value := digits.foldl (fun value digit => 10 * value + (digit.toNat - '0'.toNat)) 0
    if value ≤ 0xFFFFFFFFFFFFFFFF then some value else none

/-- A path is not empty, a number is one, and a choice is one of its words. -/
def ValueKind.check (kind : ValueKind) (text : String) : Except UsageError Unit :=
  match kind with
  | .path => if text = "" then .error .invalidValue else .ok ()
  | .text => .ok ()
  | .number => if (readNumber? text).isSome then .ok () else .error .malformedValue
  | .choice words => if words.contains text then .ok () else .error .invalidValue

/-- What a part of the command line may consist of: the commands that may follow, positional
arguments and options. Only the part before the command knows the version. -/
structure Grammar where
  commands : List String
  positionals : List Parameter
  options : List Parameter
  knowsVersion : Bool

def levelParameter : Parameter :=
  ⟨"level", .choice (Level.all.map Level.text)⟩

def logOptions : List Parameter :=
  [levelParameter,
   ⟨"log-format", .choice (LogFormat.all.map LogFormat.text)⟩,
   ⟨"log-filter", .text⟩]

/-- How far a part is read. `found` holds the values that have been looked at. The pending parameter
comes next, and has no value yet while its option stands alone. -/
structure Reading where
  found : OrderedMap String
  pending : Option (Parameter × Option String)
  positionals : List Parameter

namespace Reading

def start (grammar : Grammar) : Reading :=
  { found := .empty
    pending := none
    positionals := grammar.positionals }

/-- An option waits for its value. -/
def awaitsValue (reading : Reading) : Bool :=
  match reading.pending with
  | some (_, none) => true
  | _ => false

/-- Look at the pending value. -/
def resolve (reading : Reading) : Except UsageError Reading :=
  match reading.pending with
  | none => .ok reading
  | some (_, none) => .error .invalidValue
  | some (parameter, some value) =>
      if reading.found.contains parameter.name then .error .repeatedArgument
      else match parameter.kind.check value with
        | .ok () =>
            .ok { reading with found := reading.found.insert parameter.name value, pending := none }
        | .error cause => .error cause

/-- An option begins, with a value of its own or without. -/
def beginOption (reading : Reading) (parameter : Parameter) (value : Option String) :
    Except UsageError Reading := do
  let resolved ← reading.resolve
  let begun := { resolved with pending := some (parameter, value) }
  if value.isSome then begun.resolve else return begun

/-- The value of the option that waits for one. -/
def supply (reading : Reading) (value : String) : Reading :=
  { reading with pending := reading.pending.map fun pending => (pending.1, some value) }

/-- A request ends the reading, once the value before it is looked at. -/
def request (reading : Reading) (answer : UsageError) : Except UsageError Reading := do
  let _ ← reading.resolve
  throw answer

end Reading

/-- Split a long option at its equals sign. -/
def splitLong (chars : List Char) : String × Option String :=
  let isName := fun char : Char => char ≠ '='
  let value := match chars.dropWhile isName with
    | _ :: rest => some (String.ofList rest)
    | [] => none
  (String.ofList (chars.takeWhile isName), value)

def readLong (grammar : Grammar) (reading : Reading) (chars : List Char) :
    Except UsageError Reading :=
  let parts := splitLong chars
  let isFlag := parts.1 = "help" || (grammar.knowsVersion && parts.1 = "version")
  if isFlag then
    if parts.2.isSome then .error .needlessValue
    else reading.request (if parts.1 = "help" then .help else .version)
  else match grammar.options.find? fun parameter => parameter.name = parts.1 with
    | some parameter => reading.beginOption parameter parts.2
    | none => .error .unknownArgument

/-- Read a short option. The value of the level may be attached, with or without an equals sign. -/
def readShort (grammar : Grammar) (reading : Reading) : List Char → Except UsageError Reading
  | 'h' :: _ => reading.request .help
  | 'L' :: rest =>
      let attached := match rest with
        | [] => none
        | '=' :: value => some (String.ofList value)
        | value => some (String.ofList value)
      reading.beginOption levelParameter attached
  | 'V' :: _ =>
      if grammar.knowsVersion then reading.request .version else .error .unknownArgument
  | _ => .error .unknownArgument

/-- Read a positional argument. `afterDashes` tells that two dashes came before. -/
def readPositional (grammar : Grammar) (afterDashes : Bool) (reading : Reading) (text : String) :
    Except UsageError Reading :=
  match reading.positionals with
  | parameter :: rest => do
      let resolved ← reading.resolve
      return { resolved with pending := some (parameter, some text), positionals := rest }
  | [] =>
      let namesCommand := text = "help" || grammar.commands.contains text
      if grammar.commands.isEmpty || (afterDashes && namesCommand) then .error .unknownArgument
      else .error .invalidCommand

/-- A request for help on a command: only one command may follow, or the word itself. -/
def answerHelp (grammar : Grammar) : List String → UsageError
  | [] => .help
  | [name] => if name = "help" || grammar.commands.contains name then .help else .invalidCommand
  | _ => .invalidCommand

/-- The arguments behind two dashes, all of them positional. -/
def readRest (grammar : Grammar) (reading : Reading) (arguments : List String) :
    Except UsageError Reading :=
  arguments.foldlM (readPositional grammar true) reading

/-- Read arguments up to the name of a command, and give it with the arguments behind it. -/
def readArguments (grammar : Grammar) (reading : Reading) :
    List String → Except UsageError (Reading × Option (String × List String))
  | [] => .ok (reading, none)
  | argument :: rest =>
      let mayNameCommand := !grammar.commands.isEmpty && !reading.awaitsValue
      if mayNameCommand && argument = "help" then .error (answerHelp grammar rest)
      else if mayNameCommand && grammar.commands.contains argument then
        .ok (reading, some (argument, rest))
      else match argument.toList with
        | ['-', '-'] => (readRest grammar reading rest).map fun reading => (reading, none)
        | '-' :: '-' :: chars => do
            readArguments grammar (← readLong grammar reading chars) rest
        | '-' :: char :: chars => do
            readArguments grammar (← readShort grammar reading (char :: chars)) rest
        | _ =>
            if reading.awaitsValue then readArguments grammar (reading.supply argument) rest
            else do
              readArguments grammar (← readPositional grammar false reading argument) rest

/-- A value that has to be there. -/
def require (found : OrderedMap String) (name : String) : Except UsageError String :=
  match found.get? name with
  | some value => .ok value
  | none => .error .missingArgument

def requirePath (found : OrderedMap String) (name : String) : Except UsageError Path :=
  (require found name).map Files.Path.mk

def requireNumber (found : OrderedMap String) (name : String) : Except UsageError Nat := do
  match readNumber? (← require found name) with
  | some value => return value
  | none => throw .malformedValue

end CrossBuild.CommandLine
