import BoxScript.Text.Unprintable

/-!
# Quoted text

Messages quote a piece of source text between double quotes, so that every character can be told
from every other: quotes and backslashes are escaped, the common controls have an escape letter,
and any other character without a printed form is written by its code point.
-/

set_option autoImplicit false

namespace BoxScript.Text

/-- How a character stands between quotes. -/
def escape (c : Char) : List Char :=
  match c with
  | '\x00' => ['\\', '0']
  | '\t' => ['\\', 't']
  | '\n' => ['\\', 'n']
  | '\r' => ['\\', 'r']
  | '"' => ['\\', '"']
  | '\\' => ['\\', '\\']
  | _ => if isUnprintable c then
      ['\\', 'u', '\x7b'] ++ Nat.toDigits 16 c.toNat ++ ['\x7d']
    else [c]

/-- A text between double quotes, with its characters escaped. -/
def quoted (text : String) : String :=
  String.ofList ('"' :: text.toList.flatMap escape ++ ['"'])

example : quoted "a\"b\n\x01" = "\"a\\\"b\\n\\u\x7b1\x7d\"" := by decide +kernel

end BoxScript.Text
