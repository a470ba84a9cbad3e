/-!
# One-line texts

Log lines are read back as `key=value` pairs, so a text of unknown origin is put on one line and
cut before it is written into one.

- `oneLine`: line breaks become spaces, and a text longer than the limit ends in three dots.
-/

namespace LiveDesk.Text

/-- A line feed or a carriage return. -/
def isBreak (c : Char) : Bool :=
  c == '\n' || c == '\r'

/-- The characters with a space in the place of each line break. -/
def flatten (cs : List Char) : List Char :=
  cs.map fun c => if isBreak c then ' ' else c

/-- The text on one line, cut to `limit` characters with three dots where something was cut. -/
def oneLine (limit : Nat) (s : String) : String :=
  let flat := flatten s.toList
  if limit < flat.length then
    String.ofList (flat.take limit) ++ "..."
  else String.ofList flat

end LiveDesk.Text
