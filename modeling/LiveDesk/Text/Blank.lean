/-!
# White space

The characters that count as white space in names, rules and settings, and the two operations
built on them.

- `isBlank`: the characters with the Unicode property White_Space.
- `trim`: drops white space at both ends.
- `collapse`: writes every run of white space as one space.
-/

namespace LiveDesk.Text

/-- The code points with the Unicode property White_Space. -/
def blankPoints : List Nat :=
  [0x09, 0x0A, 0x0B, 0x0C, 0x0D, 0x20, 0x85, 0xA0, 0x1680,
   0x2000, 0x2001, 0x2002, 0x2003, 0x2004, 0x2005, 0x2006, 0x2007, 0x2008, 0x2009, 0x200A,
   0x2028, 0x2029, 0x202F, 0x205F, 0x3000]

/-- A character is blank when it has the Unicode property White_Space. -/
def isBlank (c : Char) : Bool :=
  blankPoints.contains c.toNat

/-- A text is blank when it holds white space only. -/
def allBlank (s : String) : Bool :=
  s.toList.all isBlank

/-- The characters without the white space at both ends. -/
def trimChars (cs : List Char) : List Char :=
  ((cs.dropWhile isBlank).reverse.dropWhile isBlank).reverse

/-- The text without the white space at both ends. -/
def trim (s : String) : String :=
  String.ofList (trimChars s.toList)

/-- Writes every run of white space as one space; `inRun` says that the run at hand is written. -/
def collapse (inRun : Bool) : List Char → List Char
  | [] => []
  | c :: cs =>
    if isBlank c then
      if inRun then collapse true cs else ' ' :: collapse true cs
    else c :: collapse false cs

/-- The ASCII capitals in lower case, every other character as it is. -/
def lowerAscii (s : String) : String :=
  String.ofList (s.toList.map Char.toLower)

end LiveDesk.Text
