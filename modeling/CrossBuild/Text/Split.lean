/-
Cutting a text at a separator.

The pieces are what stands between separators, so there is always at least one, and joining them
with the separator gives the text back.
-/

namespace CrossBuild.Text

/-- The pieces between separators. -/
def splitChars (separator : Char) : List Char → List (List Char)
  | [] => [[]]
  | char :: rest =>
      if char = separator then [] :: splitChars separator rest
      else match splitChars separator rest with
        | [] => [[char]]
        | piece :: pieces => (char :: piece) :: pieces

def split (separator : Char) (text : String) : List String :=
  (splitChars separator text.toList).map String.ofList

/-- The text without the ending, if it ends so. -/
def dropEnding? (ending text : String) : Option String :=
  let kept := text.toList.length - ending.toList.length
  if text.toList.drop kept = ending.toList then some (String.ofList (text.toList.take kept))
  else none

def endsWith (ending text : String) : Bool :=
  (dropEnding? ending text).isSome

end CrossBuild.Text
