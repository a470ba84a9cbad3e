import LiveDesk.Text.Unprintable

/-!
# Quoted texts

A text in quotes can be read on a terminal: what would not be seen there is written by its code.

- `quoteChar`: the written form of one character.
- `quote`: a text in quotes.
- `quoteAll`: a list of texts in quotes.
-/

namespace LiveDesk.Text

/-- The written form of a character inside quotes: a backslash before quotes and backslashes, a
letter for the common controls, and the code in braces for everything else that is not shown. -/
def quoteChar (c : Char) : List Char :=
  if c = '\x00' then ['\\', '0']
  else if c = '\t' then ['\\', 't']
  else if c = '\r' then ['\\', 'r']
  else if c = '\n' then ['\\', 'n']
  else if c = '\\' then ['\\', '\\']
  else if c = '"' then ['\\', '"']
  else if isUnprintable c then '\\' :: 'u' :: '\x7b' :: (Nat.toDigits 16 c.toNat ++ ['\x7d'])
  else [c]

/-- A text in quotes. -/
def quote (s : String) : String :=
  String.ofList ('"' :: s.toList.flatMap quoteChar ++ ['"'])

/-- A list of texts in quotes. -/
def quoteAll (texts : List String) : String :=
  "[" ++ ", ".intercalate (texts.map quote) ++ "]"

end LiveDesk.Text
