import HomeScenes.Text.Printable

/-!
# Quoted text

Names in messages and labels stand in double quotes. A quote and a backslash get a
backslash; tab, line feed, carriage return and NUL have short escapes; every other
character without a printed form is spelled by its code point. The apostrophe stays.
-/

namespace HomeScenes.Text

/-- The code point of a character in lower-case hexadecimal, between `\u{` and a closing brace. -/
def codePointEscape (c : Char) : List Char :=
  ['\\', 'u', '\x7b'] ++ Nat.toDigits 16 c.toNat ++ ['\x7d']

def quoteChar (c : Char) : List Char :=
  match c with
  | '\x00' => ['\\', '0']
  | '\t' => ['\\', 't']
  | '\n' => ['\\', 'n']
  | '\r' => ['\\', 'r']
  | '\\' => ['\\', '\\']
  | '"' => ['\\', '"']
  | c => if isUnprintable c then codePointEscape c else [c]

def quoted (s : String) : String :=
  String.ofList ('"' :: s.toList.flatMap quoteChar ++ ['"'])

end HomeScenes.Text
