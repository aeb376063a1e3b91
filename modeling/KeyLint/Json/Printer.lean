import KeyLint.Json.Basic
import KeyLint.Json.Quoted

/-!
# Writing JSON

Values are written over several lines, two blanks for each level. An empty array or object stays on
its line.
-/

namespace KeyLint.Json

/-- A new line at a level. -/
def newLine (level : Nat) : Text :=
  '\n' :: List.replicate (2 * level) ' '

/-- A truth value as it is written. -/
def writeBool (b : Bool) : Text :=
  if b then "true".toList else "false".toList

mutual

/-- A value as it is written inside `level` arrays and objects. -/
def writeAt (level : Nat) : Json → Text
  | .null => "null".toList
  | .bool b => writeBool b
  | .number digits => digits
  | .str t => Quoted.write t
  | .array [] => "[]".toList
  | .array (v :: vs) =>
    "[".toList ++ newLine (level + 1) ++ writeAt (level + 1) v ++ writeItems (level + 1) vs
      ++ newLine level ++ "]".toList
  | .object [] => "\x7b\x7d".toList
  | .object ((name, v) :: ms) =>
    "\x7b".toList ++ newLine (level + 1) ++ Quoted.write name ++ ": ".toList
      ++ writeAt (level + 1) v ++ writeMembers (level + 1) ms
      ++ newLine level ++ "\x7d".toList

/-- Items after the first one. -/
def writeItems (level : Nat) : List Json → Text
  | [] => []
  | v :: vs => ",".toList ++ newLine level ++ writeAt level v ++ writeItems level vs

/-- Members after the first one. -/
def writeMembers (level : Nat) : List (Text × Json) → Text
  | [] => []
  | (name, v) :: ms =>
    ",".toList ++ newLine level ++ Quoted.write name ++ ": ".toList ++ writeAt level v
      ++ writeMembers level ms

end

/-- The text that writes a value. -/
def write (v : Json) : Text :=
  writeAt 0 v

end KeyLint.Json
