import LiveDesk.Json.Magnitude

/-!
# Reading JSON text

A document is read in one pass from left to right as a value of a known type, and the first
problem met decides how it fails.

- `Fault`: the three ways to fail: not JSON, ended too early, or good JSON of another shape.
- `Reader`: a function from the characters ahead to a value and the characters after it.
- `skipValue`: passes over one well-formed value of any shape; numbers are not converted and a
  `\u` escape may name half of a surrogate pair.
- `text`, `integer`, `boolean`, `choice`, `list`, `dict`: values of a known type. A value of
  another type is read to its end first, so that a malformed one is reported as malformed.
-/

namespace LiveDesk.Json

/-- How reading a document fails. -/
inductive Fault where
  /-- The text is not JSON. -/
  | malformed
  /-- The text ended before the value did. -/
  | truncated
  /-- The text is JSON so far, but not of the expected shape or range. -/
  | mismatched
  deriving DecidableEq, Repr, Inhabited

/-- Reads a value from the front of the text. -/
abbrev Reader (α : Type) := StateT (List Char) (Except Fault) α

namespace Reader

/-- Fails in the given way. -/
def fault {α : Type} (f : Fault) : Reader α :=
  fun _ => .error f

/-! ## Characters -/

/-- The blanks that may stand between the parts of a document. -/
def isGap (c : Char) : Bool :=
  c == ' ' || c == '\n' || c == '\t' || c == '\r'

/-- Passes over blanks and shows the character that follows, without taking it. -/
def ahead : Reader (Option Char) := fun cs =>
  let rest := cs.dropWhile isGap
  .ok (rest.head?, rest)

/-- Takes one character. -/
def take : Reader Unit := fun cs => .ok ((), cs.tail)

/-- Takes the given characters and no others. -/
def expect : List Char → Reader Unit
  | [] => pure ()
  | c :: cs => fun
    | [] => .error .truncated
    | d :: rest => if d = c then expect cs rest else .error .malformed

/-! ## Text -/

/-- The value of a hexadecimal digit of either case. -/
def hexValue? (c : Char) : Option Nat :=
  if '0' ≤ c ∧ c ≤ '9' then some (c.toNat - '0'.toNat)
  else if 'a' ≤ c ∧ c ≤ 'f' then some (c.toNat - 'a'.toNat + 10)
  else if 'A' ≤ c ∧ c ≤ 'F' then some (c.toNat - 'A'.toNat + 10)
  else none

/-- The number written in the four hexadecimal digits ahead. Fewer than four bytes ahead are a
text that ended too early. -/
def fourDigits (cs : List Char) : Except Fault Nat :=
  match cs.take 4 with
  | [a, b, c, d] =>
    match hexValue? a, hexValue? b, hexValue? c, hexValue? d with
    | some a, some b, some c, some d => .ok (((a * 16 + b) * 16 + c) * 16 + d)
    | _, _, _, _ => .error .malformed
  | short =>
    if short.foldl (fun n c => n + c.utf8Size) 0 < 4 then .error .truncated else .error .malformed

/-- The first half of a surrogate pair. -/
def isHighHalf (n : Nat) : Bool := 0xD800 ≤ n && n ≤ 0xDBFF

/-- The second half of a surrogate pair. -/
def isLowHalf (n : Nat) : Bool := 0xDC00 ≤ n && n ≤ 0xDFFF

/-- The character of a `\u` escape, from behind the `u`, and how many characters it takes. -/
def codeEscape (cs : List Char) : Except Fault (Char × Nat) :=
  match fourDigits cs with
  | .error f => .error f
  | .ok n =>
    if isLowHalf n then .error .malformed
    else if !isHighHalf n then .ok (Char.ofNat n, 4)
    else
      match cs.drop 4 with
      | [] => .error .truncated
      | '\\' :: [] => .error .truncated
      | '\\' :: 'u' :: rest =>
        match fourDigits rest with
        | .error f => .error f
        | .ok m =>
          if isLowHalf m then
            .ok (Char.ofNat (0x10000 + (n - 0xD800) * 0x400 + (m - 0xDC00)), 10)
          else .error .malformed
      | _ => .error .malformed

/-- The character that an escape of one letter stands for. -/
def letterEscape? (c : Char) : Option Char :=
  if c = '"' then some '"'
  else if c = '\\' then some '\\'
  else if c = '/' then some '/'
  else if c = 'b' then some '\x08'
  else if c = 'f' then some '\x0c'
  else if c = 'n' then some '\n'
  else if c = 'r' then some '\r'
  else if c = 't' then some '\t'
  else none

/-- The character of an escape, from behind the backslash, and how many characters it takes. -/
def escape : List Char → Except Fault (Char × Nat)
  | [] => .error .truncated
  | c :: cs =>
    if c = 'u' then
      match codeEscape cs with
      | .error f => .error f
      | .ok (d, n) => .ok (d, n + 1)
    else
      match letterEscape? c with
      | some d => .ok (d, 1)
      | none => .error .malformed

/-- The length of an escape whose character does not matter, from behind the backslash. -/
def escapeLength : List Char → Except Fault Nat
  | [] => .error .truncated
  | c :: cs =>
    if c = 'u' then
      match fourDigits cs with
      | .error f => .error f
      | .ok _ => .ok 5
    else if (letterEscape? c).isSome then .ok 1
    else .error .malformed

/-- The characters up to the closing quote, after passing over `skip` characters that an escape
has used. -/
def textFrom : Nat → List Char → Except Fault (List Char × List Char)
  | _, [] => .error .truncated
  | skip + 1, _ :: cs => textFrom skip cs
  | 0, c :: cs =>
    if c = '"' then .ok ([], cs)
    else if c = '\\' then
      match escape cs with
      | .error f => .error f
      | .ok (d, n) =>
        match textFrom n cs with
        | .error f => .error f
        | .ok (ds, rest) => .ok (d :: ds, rest)
    else if c.toNat < 0x20 then .error .malformed
    else
      match textFrom 0 cs with
      | .error f => .error f
      | .ok (ds, rest) => .ok (c :: ds, rest)

/-- The rest of a text, from behind its opening quote. -/
def textTail : Reader String := fun cs =>
  match textFrom 0 cs with
  | .error f => .error f
  | .ok (ds, rest) => .ok (String.ofList ds, rest)

/-- What follows the closing quote of a text that is passed over. -/
def skipTextFrom : Nat → List Char → Except Fault (List Char)
  | _, [] => .error .truncated
  | skip + 1, _ :: cs => skipTextFrom skip cs
  | 0, c :: cs =>
    if c = '"' then .ok cs
    else if c = '\\' then
      match escapeLength cs with
      | .error f => .error f
      | .ok n => skipTextFrom n cs
    else if c.toNat < 0x20 then .error .malformed
    else skipTextFrom 0 cs

/-! ## Numbers -/

/-- A number as far as it matters: whole numbers within 64 bits, and all others. -/
inductive Numeral where
  | whole (n : Int)
  | other
  deriving DecidableEq, Repr

/-- The value of a decimal digit. -/
def digitValue (c : Char) : Nat := c.toNat - '0'.toNat

/-- The largest mantissa that is kept exactly. -/
def mantissaBound : Nat := 0xffffffffffffffff

/-- Extends a mantissa by digits as long as it stays within its bound; also says how many digits
were used. -/
def extend (mantissa : Nat) : List Char → Nat × Nat
  | [] => (mantissa, 0)
  | c :: cs =>
    let next := mantissa * 10 + digitValue c
    if mantissaBound < next then (mantissa, 0)
    else
      let (m, used) := extend next cs
      (m, used + 1)

/-- The value of a run of digits. -/
def digitsValue (cs : List Char) : Nat :=
  cs.foldl (fun n c => n * 10 + digitValue c) 0

/-- Checks that a number with a mantissa and a decimal exponent is a finite double. -/
def finite (mantissa : Nat) (exponent : Int) : Reader Numeral :=
  if exceedsDouble mantissa exponent then fault .malformed else pure .other

/-- The largest exponent that is read as a number. -/
def exponentBound : Nat := 0x7fffffff

/-- The rest of a number from its exponent mark on. -/
def exponentTail (mantissa : Nat) (exponent : Int) : Reader Numeral := fun cs =>
  let body := cs.tail
  let negative := body.head? == some '-'
  let body := if negative || body.head? == some '+' then body.tail else body
  match body with
  | [] => .error .truncated
  | c :: _ =>
    if !c.isDigit then .error .malformed
    else
      let digits := body.takeWhile Char.isDigit
      let rest := body.dropWhile Char.isDigit
      let shift := digitsValue digits
      if exponentBound < shift then
        if mantissa ≠ 0 ∧ !negative then .error .malformed else .ok (.other, rest)
      else
        finite mantissa (if negative then exponent - shift else exponent + shift) rest

/-- The rest of a number from its exponent mark on, if it has one. -/
def exponentTail? (mantissa : Nat) (exponent : Int) : Reader Numeral := fun cs =>
  if cs.head? = some 'e' ∨ cs.head? = some 'E' then exponentTail mantissa exponent cs
  else finite mantissa exponent cs

/-- The rest of a number from its decimal point on. -/
def fractionTail (mantissa : Nat) (exponent : Int) : Reader Numeral := fun cs =>
  match cs.tail with
  | [] => .error .truncated
  | c :: body =>
    if !c.isDigit then .error .malformed
    else
      let digits := (c :: body).takeWhile Char.isDigit
      let (m, used) := extend mantissa digits
      exponentTail? m (exponent - used) ((c :: body).dropWhile Char.isDigit)

/-- A number without its sign. -/
def unsignedNumber (negative : Bool) : Reader Numeral := fun cs =>
  match cs with
  | [] => .error .truncated
  | c :: body =>
    if !c.isDigit then .error .malformed
    else if c = '0' ∧ (body.head?.any Char.isDigit) then .error .malformed
    else
      let digits := cs.takeWhile Char.isDigit
      let rest := cs.dropWhile Char.isDigit
      let (m, used) := extend 0 digits
      let exponent : Int := digits.length - used
      if rest.head? = some '.' then fractionTail m exponent rest
      else if rest.head? = some 'e' ∨ rest.head? = some 'E' then exponentTail m exponent rest
      else if exponent ≠ 0 then finite m exponent rest
      else if !negative then .ok (.whole m, rest)
      else if m = 0 ∨ 0x8000000000000000 < m then .ok (.other, rest)
      else .ok (.whole (-m), rest)

/-- A number; the character ahead is a minus sign or a digit. -/
def number : Reader Numeral := fun cs =>
  match cs with
  | '-' :: rest => unsignedNumber true rest
  | _ => unsignedNumber false cs

/-- What follows a run of at least one digit. -/
def skipDigits (cs : List Char) : Except Fault (List Char) :=
  if cs.head?.any Char.isDigit then .ok (cs.dropWhile Char.isDigit) else .error .malformed

/-- What follows an exponent, if there is one. -/
def skipExponent (cs : List Char) : Except Fault (List Char) :=
  if cs.head? = some 'e' ∨ cs.head? = some 'E' then
    let body := cs.tail
    skipDigits (if body.head? = some '+' ∨ body.head? = some '-' then body.tail else body)
  else .ok cs

/-- What follows a number that is passed over, from behind its sign. -/
def skipNumber (cs : List Char) : Except Fault (List Char) := do
  let rest ← match cs with
    | '0' :: rest => if rest.head?.any Char.isDigit then .error .malformed else .ok rest
    | _ => skipDigits cs
  let rest ← if rest.head? = some '.' then skipDigits rest.tail else .ok rest
  skipExponent rest

/-! ## Values of any shape -/

mutual

/-- What follows one value that is passed over; `fuel` bounds the values inside it. -/
def skipValueFrom : Nat → List Char → Except Fault (List Char)
  | 0, _ => .error .truncated
  | fuel + 1, cs =>
    match cs.dropWhile isGap with
    | [] => .error .truncated
    | c :: rest =>
      if c = 'n' then (expect "ull".toList rest).map (·.2)
      else if c = 't' then (expect "rue".toList rest).map (·.2)
      else if c = 'f' then (expect "alse".toList rest).map (·.2)
      else if c = '-' then skipNumber rest
      else if c.isDigit then skipNumber (c :: rest)
      else if c = '"' then skipTextFrom 0 rest
      else if c = '[' then
        match rest.dropWhile isGap with
        | [] => .error .truncated
        | d :: after => if d = ']' then .ok after else skipItemsFrom fuel (d :: after)
      else if c = '{' then
        match rest.dropWhile isGap with
        | [] => .error .truncated
        | d :: after => if d = '}' then .ok after else skipFieldsFrom fuel (d :: after)
      else .error .malformed

/-- What follows a list, from its first item or from behind a comma. -/
def skipItemsFrom : Nat → List Char → Except Fault (List Char)
  | 0, _ => .error .truncated
  | fuel + 1, cs =>
    match skipValueFrom fuel cs with
    | .error f => .error f
    | .ok rest =>
      match rest.dropWhile isGap with
      | [] => .error .truncated
      | c :: after =>
        if c = ',' then skipItemsFrom fuel after
        else if c = ']' then .ok after
        else .error .malformed

/-- What follows a record, from its first key or from behind a comma. -/
def skipFieldsFrom : Nat → List Char → Except Fault (List Char)
  | 0, _ => .error .truncated
  | fuel + 1, cs =>
    match cs.dropWhile isGap with
    | [] => .error .truncated
    | c :: key =>
      if c ≠ '"' then .error .malformed
      else
        match skipTextFrom 0 key with
        | .error f => .error f
        | .ok rest =>
          match rest.dropWhile isGap with
          | [] => .error .truncated
          | c :: value =>
            if c ≠ ':' then .error .malformed
            else
              match skipValueFrom fuel value with
              | .error f => .error f
              | .ok rest =>
                match rest.dropWhile isGap with
                | [] => .error .truncated
                | c :: after =>
                  if c = ',' then skipFieldsFrom fuel after
                  else if c = '}' then .ok after
                  else .error .malformed

end

/-- Passes over one well-formed value. -/
def skipValue : Reader Unit := fun cs =>
  match skipValueFrom (2 * cs.length + 2) cs with
  | .error f => .error f
  | .ok rest => .ok ((), rest)

/-! ## Values of a known type -/

/-- Reports a value of another type; a scalar is read to its end first. -/
def otherType {α : Type} (c : Char) : Reader α := do
  if c = 'n' then take; expect "ull".toList; fault .mismatched
  else if c = 't' then take; expect "rue".toList; fault .mismatched
  else if c = 'f' then take; expect "alse".toList; fault .mismatched
  else if c = '-' ∨ c.isDigit then
    let _ ← number
    fault .mismatched
  else if c = '"' then
    take
    let _ ← textTail
    fault .mismatched
  else if c = '[' ∨ c = '{' then fault .mismatched
  else fault .malformed

/-- A text. -/
def text : Reader String := do
  match ← ahead with
  | none => fault .truncated
  | some c => if c = '"' then take; textTail else otherType c

/-- A text that names a value. -/
def named {α : Type} (parse? : String → Option α) : Reader α := do
  match parse? (← text) with
  | some a => pure a
  | none => fault .mismatched

/-- A whole number, if the conversion accepts it. -/
def integer {α : Type} (convert? : Int → Option α) : Reader α := do
  match ← ahead with
  | none => fault .truncated
  | some c =>
    if c = '-' ∨ c.isDigit then
      match ← number with
      | .other => fault .mismatched
      | .whole n =>
        match convert? n with
        | some a => pure a
        | none => fault .mismatched
    else otherType c

/-- A truth value. -/
def boolean : Reader Bool := do
  match ← ahead with
  | none => fault .truncated
  | some c =>
    if c = 't' then take; expect "rue".toList; pure true
    else if c = 'f' then take; expect "alse".toList; pure false
    else otherType c

/-- Null. -/
def nothing : Reader Unit := do
  match ← ahead with
  | none => fault .truncated
  | some c => if c = 'n' then take; expect "ull".toList else otherType c

/-- Null or a value. -/
def optional {α : Type} (value : Reader α) : Reader (Option α) := do
  if (← ahead) = some 'n' then take; expect "ull".toList; pure none
  else some <$> value

/-- The colon behind a key. -/
def colon : Reader Unit := do
  match ← ahead with
  | none => fault .truncated
  | some c => if c = ':' then take else fault .malformed

/-- One of several names, written as a text or as a record whose only key is the name and whose
value is null. -/
def choice {α : Type} (parse? : String → Option α) : Reader α := do
  match ← ahead with
  | none => fault .truncated
  | some c =>
    if c = '"' then named parse?
    else if c = '{' then
      take
      let a ← named parse?
      colon
      nothing
      match ← ahead with
      | none => fault .truncated
      | some c => if c = '}' then take; pure a else fault .malformed
    else fault .malformed

/-- Whether a list has one more item; `first` says that none was read yet. -/
def moreItems (first : Bool) : Reader Bool := do
  match ← ahead with
  | none => fault .truncated
  | some c =>
    if c = ']' then pure false
    else if first then pure true
    else if c = ',' then
      take
      match ← ahead with
      | none => fault .truncated
      | some c => if c = ']' then fault .malformed else pure true
    else fault .malformed

/-- The items of a list up to its closing bracket, which is left. -/
def itemsFrom {α : Type} (item : Reader α) : Nat → Bool → Reader (List α)
  | 0, _ => fault .truncated
  | fuel + 1, first => do
    if ← moreItems first then
      let a ← item
      let rest ← itemsFrom item fuel false
      pure (a :: rest)
    else pure []

/-- The end of a list of which no more items are wanted. -/
def endList : Reader Unit := do
  match ← ahead with
  | none => fault .truncated
  | some c => if c = ']' then take else fault .malformed

/-- A list. -/
def list {α : Type} (item : Reader α) : Reader (List α) := do
  match ← ahead with
  | none => fault .truncated
  | some c =>
    if c = '[' then
      take
      let items ← itemsFrom item ((← get).length + 1) true
      endList
      pure items
    else otherType c

/-- Whether a record has one more field; `first` says that none was read yet. The quote that opens
the key is left. -/
def moreFields (first : Bool) : Reader Bool := do
  match ← ahead with
  | none => fault .truncated
  | some c =>
    if c = '}' then pure false
    else if first then (if c = '"' then pure true else fault .malformed)
    else if c = ',' then
      take
      match ← ahead with
      | none => fault .truncated
      | some c => if c = '"' then pure true else fault .malformed
    else fault .malformed

/-- Folds over the fields of a record up to its closing brace, which is left. -/
def fieldsFrom {σ : Type} (field : String → σ → Reader σ) : Nat → Bool → σ → Reader σ
  | 0, _, _ => fault .truncated
  | fuel + 1, first, s => do
    if ← moreFields first then
      take
      let key ← textTail
      let s ← field key s
      fieldsFrom field fuel false s
    else pure s

/-- The end of a record. -/
def endRecord : Reader Unit := do
  match ← ahead with
  | none => fault .truncated
  | some c => if c = '}' then take else fault .malformed

end Reader

/-- Reads a whole document: one value and nothing after it but blanks. -/
def document {α : Type} (value : Reader α) (s : String) : Except Fault α :=
  match value s.toList with
  | .error f => .error f
  | .ok (a, rest) => if rest.all Reader.isGap then .ok a else .error .malformed

end LiveDesk.Json
