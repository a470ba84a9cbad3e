import LiveDesk.Storage.Binary

/-!
# Table cells

- `Cell`: what a cell holds.
- `Cell.asText`, `Cell.asInteger`: what a column of texts and a column of whole numbers make of a
  value that is put into them.
- `Cell.compare`: the order of the engine: null, numbers, texts, bytes.
-/

namespace LiveDesk.Storage

/-- What a cell holds. -/
inductive Cell where
  | null
  | int (n : Int64)
  /-- An infinite number stands for one beyond all that are finite. -/
  | real (x : Binary)
  | text (s : String)
  /-- A text of another program that is not encoded as texts are. -/
  | garbled (bytes : List UInt8)
  | blob (bytes : List UInt8)
  deriving DecidableEq, Repr, Inhabited

namespace Cell

/-- The name of a cell's type. -/
def typeName : Cell → String
  | .null => "Null"
  | .int _ => "Integer"
  | .real _ => "Real"
  | .text _ | .garbled _ => "Text"
  | .blob _ => "Blob"

/-- A column of texts turns numbers into texts. -/
def asText : Cell → Cell
  | .int n => .text (toString n.toInt)
  | .real x => .text x.text
  | c => c

/-! ## Numbers in texts -/

/-- The blanks that may stand around a number in a text. -/
def isNumberGap (c : Char) : Bool :=
  c == ' ' || ('\t' ≤ c && c ≤ '\r')

/-- A number in a text: its sign, digits and decimal exponent, and whether it is written as a whole
number. -/
structure Written where
  negative : Bool
  mantissa : Nat
  exponent : Int
  whole : Bool
  deriving DecidableEq, Repr

/-- The value of decimal digits. -/
def digitsValue (ds : List Char) : Nat :=
  ds.foldl (fun n c => n * 10 + (c.toNat - '0'.toNat)) 0

/-- Takes a sign from the front. -/
def takeSign : List Char → Bool × List Char
  | '-' :: cs => (true, cs)
  | '+' :: cs => (false, cs)
  | cs => (false, cs)

/-- The number that a text is, blanks around it aside. -/
def written? (s : String) : Option Written :=
  let cs := s.toList.dropWhile isNumberGap
  let (negative, cs) := takeSign cs
  let whole := cs.takeWhile Char.isDigit
  let cs := cs.dropWhile Char.isDigit
  let pointed := cs.head? == some '.'
  let cs := if pointed then cs.tail else cs
  let fraction := if pointed then cs.takeWhile Char.isDigit else []
  let cs := if pointed then cs.dropWhile Char.isDigit else cs
  if whole.isEmpty && fraction.isEmpty then none
  else
    let mantissa := digitsValue (whole ++ fraction)
    let finish (shift : Int) (isWhole : Bool) (rest : List Char) : Option Written :=
      if rest.all isNumberGap then
        some { negative, mantissa, exponent := shift - fraction.length, whole := isWhole }
      else none
    if cs.head? = some 'e' ∨ cs.head? = some 'E' then
      let (down, body) := takeSign cs.tail
      let ds := body.takeWhile Char.isDigit
      if ds.isEmpty then none
      else
        let shift : Int := digitsValue ds
        finish (if down then -shift else shift) false (body.dropWhile Char.isDigit)
    else finish 0 (!pointed) cs

/-- The largest exponent that is computed with. -/
def exponentLimit : Int := 400

/-- A whole number as a cell, if it fits. -/
def ofInt? (n : Int) : Option Cell :=
  if -0x8000000000000000 ≤ n ∧ n < 0x8000000000000000 then some (.int (Int64.ofInt n)) else none

/-- A real number as a column of whole numbers keeps it: as a whole number if it is one that lies
strictly within 64 bits. -/
def ofBinary (x : Binary) : Cell :=
  match x.toInt? with
  | some n =>
    if -0x8000000000000000 < n ∧ n < 0x7fffffffffffffff then .int (Int64.ofInt n) else .real x
  | none => .real x

/-- A column of whole numbers turns texts that are numbers into numbers. -/
def asInteger : Cell → Cell
  | .real x => ofBinary x
  | .text s =>
    match written? s with
    | none => .text s
    | some w =>
      let signed : Int := if w.negative then -w.mantissa else w.mantissa
      match if w.whole then ofInt? signed else none with
      | some c => c
      | none =>
        let exponent := max (-exponentLimit) (min exponentLimit w.exponent)
        ofBinary (.ofDecimal w.negative w.mantissa exponent)
  | c => c

/-! ## Order -/

/-- The order of two lists of bytes. -/
def compareBytes : List UInt8 → List UInt8 → Ordering
  | [], [] => .eq
  | [], _ :: _ => .lt
  | _ :: _, [] => .gt
  | a :: as, b :: bs => (Ord.compare a.toNat b.toNat).then (compareBytes as bs)

/-- The bytes of a text. -/
def encoded (s : String) : List UInt8 :=
  s.toList.flatMap String.utf8EncodeChar

/-- The order of two cells. -/
def compare : Cell → Cell → Ordering
  | .null, .null => .eq
  | .null, _ => .lt
  | _, .null => .gt
  | .int a, .int b => Ord.compare a.toInt b.toInt
  | .int a, .real y => (y.compareInt a.toInt).swap
  | .real x, .int b => x.compareInt b.toInt
  | .real x, .real y => x.compare y
  | .int _, _ => .lt
  | .real _, _ => .lt
  | _, .int _ => .gt
  | _, .real _ => .gt
  | .text s, .text t => if s < t then .lt else if s = t then .eq else .gt
  | .text s, .garbled b => compareBytes (encoded s) b
  | .garbled a, .text t => compareBytes a (encoded t)
  | .garbled a, .garbled b => compareBytes a b
  | .text _, .blob _ => .lt
  | .garbled _, .blob _ => .lt
  | .blob _, .text _ => .gt
  | .blob _, .garbled _ => .gt
  | .blob a, .blob b => compareBytes a b

end Cell

end LiveDesk.Storage
