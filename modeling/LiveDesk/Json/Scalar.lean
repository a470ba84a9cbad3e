import LiveDesk.Json.Record
import LiveDesk.Uuid

/-!
# Scalars of fixed form

Whole numbers of fixed width and identifiers, as they stand in documents.

- `toUInt8?`, `toUInt32?`, `toUInt64?`, `toInt64?`: a number, if it fits.
- `Uuid.read`, `Uuid.toJson`: an identifier as a text.
-/

namespace LiveDesk

/-! ## Whole numbers of fixed width -/

/-- The number as 8 unsigned bits, if it fits. -/
def toUInt8? (n : Int) : Option UInt8 :=
  if 0 ≤ n ∧ n < 0x100 then some (UInt8.ofNat n.toNat) else none

/-- The number as 32 unsigned bits, if it fits. -/
def toUInt32? (n : Int) : Option UInt32 :=
  if 0 ≤ n ∧ n < 0x100000000 then some (UInt32.ofNat n.toNat) else none

/-- The number as 64 unsigned bits, if it fits. -/
def toUInt64? (n : Int) : Option UInt64 :=
  if 0 ≤ n ∧ n < 0x10000000000000000 then some (UInt64.ofNat n.toNat) else none

/-- The number as 64 signed bits, if it fits. -/
def toInt64? (n : Int) : Option Int64 :=
  if -0x8000000000000000 ≤ n ∧ n < 0x8000000000000000 then some (Int64.ofInt n) else none

namespace Uuid

/-- Reads an identifier in any accepted form. -/
def read : Json.Reader Uuid := Json.Reader.named parse?

/-- The identifier as a value. -/
def toJson (u : Uuid) : Json := .text u.text

end Uuid

end LiveDesk
