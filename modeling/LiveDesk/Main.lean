import LiveDesk.Demonstration

/-!
# Command line

Runs the demonstration: without arguments, or with the directory of a log. The log is kept in memory
and ends with the program.
-/

namespace LiveDesk

/-- What is said of a table or a document that cannot be read. -/
def plainWords : Storage.Wording where
  engine := "the table cannot be read"
  document := "the document cannot be read"

/-- Random bits for an identifier. -/
def randomBits : IO (BitVec 128) := do
  let high ← IO.rand 0 0xffffffffffffffff
  let low ← IO.rand 0 0xffffffffffffffff
  return BitVec.ofNat 128 (high * 0x10000000000000000 + low)

end LiveDesk

/-- Prints what the demonstration prints, and ends as it ends. -/
def main (args : List String) : IO UInt32 := do
  let bits ← (List.range 3).mapM fun _ => LiveDesk.randomBits
  let result := LiveDesk.Demonstration.run .debug LiveDesk.plainWords
    (.ofBits fun n => bits.getD n 0) .empty args
  IO.print result.output
  IO.eprint result.complaint
  return result.status
