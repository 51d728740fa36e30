import Dalvik.Text.Numeral
import Dalvik.Text.Unprintable

/-!
# Quoted text and values spelled out

The form in which messages show a string: between double quotes, with escapes
for quotes, backslashes and everything that has no shape of its own. A whole
value is shown as the name of a kind with its parts in parentheses, or with
named parts in braces.
-/

namespace Dalvik.Text

/-- One character inside quotes. -/
def escape (c : Char) : String :=
  match c with
  | '"' => "\\\""
  | '\\' => "\\\\"
  | '\n' => "\\n"
  | '\r' => "\\r"
  | '\t' => "\\t"
  | _ =>
    if c.toNat = 0 then "\\0"
    else if 0x20 ≤ c.toNat && c.toNat < 0x7f then c.toString
    else if isUnprintable c then "\\u\x7b" ++ hex c.toNat ++ "\x7d"
    else c.toString

/-- A string between quotes. -/
def quoted (s : String) : String :=
  "\"" ++ String.join (s.toList.map escape) ++ "\""

/-! ## Values -/

/-- A kind with its parts in order: `Name(a, b)`. -/
def tagged (name : String) (parts : List String) : String :=
  name ++ "(" ++ String.intercalate ", " parts ++ ")"

/-- A kind with named parts, in braces. -/
def record (name : String) (parts : List (String × String)) : String :=
  name ++ " \x7b " ++ String.intercalate ", " (parts.map fun (field, value) => field ++ ": " ++ value) ++ " \x7d"

/-- A part that may be missing. -/
def optional : Option String → String
  | none => "None"
  | some part => tagged "Some" [part]

/-- A list of quoted strings. -/
def quotedList (parts : List String) : String :=
  bracketed (parts.map quoted)

end Dalvik.Text
