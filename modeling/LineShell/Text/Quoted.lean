/-
Quoted text for the log: between double quotes, with a backslash before
a quote or a backslash, short escapes for tab, line feed, carriage
return and NUL, and the code point in hexadecimal for everything else
that does not show up as itself. A list of texts stands in brackets.
-/
import LineShell.Text.Printable

namespace LineShell.Text

/-- A character's code point between braces. -/
def braced (c : Char) : List Char :=
  '\\' :: 'u' :: '\x7b' :: Nat.toDigits 16 c.toNat ++ ['\x7d']

/-- How one character is written between double quotes. -/
def quotedChar (c : Char) : List Char :=
  if c = '\x00' then ['\\', '0']
  else if c = '\t' then ['\\', 't']
  else if c = '\n' then ['\\', 'n']
  else if c = '\r' then ['\\', 'r']
  else if c = '"' then ['\\', '"']
  else if c = '\\' then ['\\', '\\']
  else if isPlain c then [c]
  else braced c

/-- A text between double quotes. -/
def quoted (s : String) : String :=
  String.ofList ('"' :: s.toList.flatMap quotedChar ++ ['"'])

/-- A list of texts, each quoted. -/
def quotedList (ws : List String) : String :=
  "[" ++ String.intercalate ", " (ws.map quoted) ++ "]"

end LineShell.Text
