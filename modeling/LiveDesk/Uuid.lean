/-!
# Record identifiers

A record is identified by 128 bits, written as 32 hexadecimal digits in five groups.

- `Uuid.text`: the one written form, in lower case with hyphens.
- `Uuid.parse?`: the accepted forms: hyphenated, bare digits, hyphenated in braces, and hyphenated
  after `urn:uuid:`; letters of either case.
- `Uuid.random`: a version 4 identifier made from random bits.
-/

namespace LiveDesk

/-- A 128-bit identifier. -/
structure Uuid where
  bits : BitVec 128
  deriving DecidableEq, Repr, Inhabited

namespace Uuid

/-- The identifier with the given number. -/
def ofNat (n : Nat) : Uuid :=
  ⟨BitVec.ofNat 128 n⟩

/-- A hexadecimal digit in lower case. -/
def digit (n : Nat) : Char :=
  "0123456789abcdef".toList.getD (n % 16) '0'

/-- The value of a hexadecimal digit of either case. -/
def digitValue? (c : Char) : Option Nat :=
  if '0' ≤ c ∧ c ≤ '9' then some (c.toNat - '0'.toNat)
  else if 'a' ≤ c ∧ c ≤ 'f' then some (c.toNat - 'a'.toNat + 10)
  else if 'A' ≤ c ∧ c ≤ 'F' then some (c.toNat - 'A'.toNat + 10)
  else none

/-- The lowest `count` hexadecimal digits of `n`, highest first. -/
def digits : Nat → Nat → List Char
  | 0, _ => []
  | count + 1, n => digit (n / Nat.pow 16 count) :: digits count n

/-- The number with the given hexadecimal digits. -/
def valueFrom (acc : Nat) : List Char → Option Nat
  | [] => some acc
  | c :: cs =>
    match digitValue? c with
    | none => none
    | some d => valueFrom (acc * 16 + d) cs

/-- The written form: groups of 8, 4, 4, 4 and 12 digits with hyphens between them. -/
def chars (u : Uuid) : List Char :=
  let n := u.bits.toNat
  digits 8 (n / Nat.pow 16 24) ++ '-' :: digits 4 (n / Nat.pow 16 20) ++
    '-' :: digits 4 (n / Nat.pow 16 16) ++ '-' :: digits 4 (n / Nat.pow 16 12) ++
    '-' :: digits 12 n

/-- The written form as a text. -/
def text (u : Uuid) : String :=
  String.ofList u.chars

/-- Reads 32 digits without hyphens. -/
def parseBare? (cs : List Char) : Option Uuid :=
  if cs.length = 32 then (valueFrom 0 cs).map ofNat else none

/-- Takes the hyphens out of a text that has them at the four places where they belong. -/
def unhyphenate? (cs : List Char) : Option (List Char) :=
  if cs.length = 36 ∧ cs[8]? = some '-' ∧ cs[13]? = some '-' ∧ cs[18]? = some '-' ∧
      cs[23]? = some '-' then
    some (cs.take 8 ++ (cs.drop 9).take 4 ++ (cs.drop 14).take 4 ++ (cs.drop 19).take 4 ++
      cs.drop 24)
  else none

/-- Reads the hyphenated form. -/
def parseHyphenated? (cs : List Char) : Option Uuid :=
  (unhyphenate? cs).bind parseBare?

/-- What stands between two braces. -/
def unbrace? : List Char → Option (List Char)
  | '{' :: cs => if cs.getLast? = some '}' then some cs.dropLast else none
  | _ => none

/-- What stands after `urn:uuid:`, in letters of either case. -/
def unlabel? (cs : List Char) : Option (List Char) :=
  if (cs.take 9).map Char.toLower = "urn:uuid:".toList then some (cs.drop 9) else none

/-- Reads any accepted form; the length decides which form is meant. -/
def parseChars? (cs : List Char) : Option Uuid :=
  match cs.length with
  | 32 => parseBare? cs
  | 36 => parseHyphenated? cs
  | 38 => (unbrace? cs).bind parseHyphenated?
  | 45 => (unlabel? cs).bind parseHyphenated?
  | _ => none

/-- Reads any accepted form of a text. -/
def parse? (s : String) : Option Uuid :=
  parseChars? s.toList

/-- The version number in an identifier. -/
def version (u : Uuid) : Nat :=
  u.bits.toNat / Nat.pow 16 19 % 16

/-- A version 4 identifier: random bits with the version and the variant written over them. -/
def random (bits : BitVec 128) : Uuid :=
  let n := bits.toNat
  let high := n / Nat.pow 16 20 * Nat.pow 16 20
  let middle := 4 * Nat.pow 16 19 + n / Nat.pow 16 16 % Nat.pow 16 3 * Nat.pow 16 16
  let low := (8 + n / Nat.pow 16 15 % 4) * Nat.pow 16 15 + n % Nat.pow 16 15
  ofNat (high + middle + low)

end Uuid

end LiveDesk
