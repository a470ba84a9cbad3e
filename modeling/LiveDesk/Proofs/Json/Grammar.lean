import LiveDesk.Proofs.Json.Values
import Mathlib.Data.List.DropRight

/-!
# Well-formed JSON text

The texts that make up a document, whatever they are read as: with any blanks between their parts,
any escapes inside their quotes, and values of any shape and depth.

- `Gap`, `Spells`, `Loose`, `Unsigned`: blanks, what stands between quotes, numbers.
- `Written`: the text of one value, of the items of a list, of the members of an object.
- **A well-formed value is passed over** (`skipValue_written`): what follows it is left.
- `textTail_spells`: what stands between quotes is read as the characters it spells.
-/

namespace LiveDesk.Json

open Reader

/-! ## Blanks -/

/-- Nothing but blanks. -/
def Gap (g : List Char) : Prop :=
  ∀ c ∈ g, isGap c = true

instance (g : List Char) : Decidable (Gap g) :=
  decidable_of_iff (g.all isGap = true) List.all_eq_true

theorem Gap.nil : Gap [] := by simp [Gap]

/-- Two gaps after each other are a gap. -/
theorem Gap.append {g g' : List Char} (h : Gap g) (h' : Gap g') : Gap (g ++ g') :=
  List.forall_mem_append.mpr ⟨h, h'⟩

/-- A gap is passed over. -/
theorem Gap.dropWhile_append {g : List Char} (h : Gap g) (cs : List Char) :
    (g ++ cs).dropWhile isGap = cs.dropWhile isGap :=
  List.dropWhile_append_of_pos h

/-- A gap is passed over, up to the first other character. -/
theorem Gap.dropWhile_cons {g : List Char} (h : Gap g) {c : Char} (hc : isGap c = false)
    (cs : List Char) : (g ++ c :: cs).dropWhile isGap = c :: cs := by
  rw [h.dropWhile_append, List.dropWhile_cons_of_neg (by simp [hc])]

/-- Blanks may stand behind a value if the value may end where they end. -/
theorem Gap.closes {g rest : List Char} (h : Gap g) (hrest : Closes rest) : Closes (g ++ rest) := by
  cases g with
  | nil => exact hrest
  | cons d g =>
    rintro c hc
    obtain rfl : d = c := by simpa using hc
    exact .inr (.inr (.inr (h d List.mem_cons_self)))

/-! ## What stands between quotes -/

/-- Four hexadecimal digits and their number. -/
inductive Code : List Char → Nat → Prop
  | mk {a b c d : Char} {i j k l : Nat} (ha : hexValue? a = some i) (hb : hexValue? b = some j)
      (hc : hexValue? c = some k) (hd : hexValue? d = some l) :
      Code [a, b, c, d] (((i * 16 + j) * 16 + k) * 16 + l)

/-- A character that stands for itself between quotes. -/
def isPlain (c : Char) : Bool :=
  c != '"' && c != '\\' && !decide (c.toNat < 0x20)

/-- A plain character is no quote, no backslash and no control character. -/
theorem isPlain_iff {c : Char} :
    isPlain c = true ↔ c ≠ '"' ∧ c ≠ '\\' ∧ ¬ c.toNat < 0x20 := by
  simp [isPlain, and_assoc]

/-- The text between two quotes spells the characters: each of them as itself, by the escape of one
letter, by the escape of its code, or by those of the two halves of its code. -/
inductive Spells : List Char → List Char → Prop
  | nil : Spells [] []
  | plain {c : Char} {body cs : List Char} (hplain : isPlain c = true) (tail : Spells body cs) :
      Spells (c :: body) (c :: cs)
  | letter {l c : Char} {body cs : List Char} (hletter : letterEscape? l = some c)
      (tail : Spells body cs) : Spells ('\\' :: l :: body) (c :: cs)
  | code {hex body cs : List Char} {n : Nat} (hcode : Code hex n) (hlow : isLowHalf n = false)
      (hhigh : isHighHalf n = false) (tail : Spells body cs) :
      Spells ('\\' :: 'u' :: (hex ++ body)) (Char.ofNat n :: cs)
  | pair {hex hex' body cs : List Char} {n m : Nat} (hcode : Code hex n)
      (hhigh : isHighHalf n = true) (hcode' : Code hex' m) (hlow : isLowHalf m = true)
      (tail : Spells body cs) :
      Spells ('\\' :: 'u' :: (hex ++ '\\' :: 'u' :: (hex' ++ body)))
        (Char.ofNat (0x10000 + (n - 0xD800) * 0x400 + (m - 0xDC00)) :: cs)

/-- A text between two quotes of which nobody asks what it spells: an escape may name any code, half
a pair among them. -/
inductive Loose : List Char → Prop
  | nil : Loose []
  | plain {c : Char} {body : List Char} (hplain : isPlain c = true) (tail : Loose body) :
      Loose (c :: body)
  | letter {l c : Char} {body : List Char} (hletter : letterEscape? l = some c)
      (tail : Loose body) : Loose ('\\' :: l :: body)
  | code {hex body : List Char} {n : Nat} (hcode : Code hex n) (tail : Loose body) :
      Loose ('\\' :: 'u' :: (hex ++ body))

/-- Characters that need no escape spell themselves. -/
theorem Spells.plains {cs body ds : List Char} (h : cs.all isPlain = true)
    (tail : Spells body ds) : Spells (cs ++ body) (cs ++ ds) := by
  induction cs with
  | nil => exact tail
  | cons c cs ih =>
    obtain ⟨hplain, h⟩ := Bool.and_eq_true_iff.mp h
    exact .plain hplain (ih h)

/-- A text that spells something is loosely a text. -/
theorem Spells.loose {body cs : List Char} (h : Spells body cs) : Loose body := by
  induction h with
  | nil => exact .nil
  | plain hplain _ ih => exact .plain hplain ih
  | letter hletter _ ih => exact .letter hletter ih
  | code hcode _ _ _ ih => exact .code hcode ih
  | pair hcode _ hcode' _ _ ih => exact .code hcode (.code hcode' ih)

theorem Code.length {hex : List Char} {n : Nat} (h : Code hex n) : hex.length = 4 := by
  cases h
  rfl

/-- Four hexadecimal digits are read as the number that they stand for. -/
theorem Code.fourDigits {hex : List Char} {n : Nat} (h : Code hex n) (cs : List Char) :
    fourDigits (hex ++ cs) = .ok n := by
  obtain ⟨ha, hb, hc, hd⟩ := h
  simp [Reader.fourDigits, ha, hb, hc, hd]

/-- The letter of an escape is not the one in front of a code. -/
theorem ne_of_letterEscape? {l c : Char} (h : letterEscape? l = some c) : l ≠ 'u' := by
  rintro rfl
  cases h

/-- The characters that an escape has used are passed over. -/
theorem textFrom_append (used cs : List Char) :
    textFrom used.length (used ++ cs) = textFrom 0 cs := by
  induction used with
  | nil => rfl
  | cons c used ih => exact ih

theorem skipTextFrom_append (used cs : List Char) :
    skipTextFrom used.length (used ++ cs) = skipTextFrom 0 cs := by
  induction used with
  | nil => rfl
  | cons c used ih => exact ih

/-- A code that is no half of a pair stands for one character. -/
theorem codeEscape_code {hex : List Char} {n : Nat} (h : Code hex n) (hlow : isLowHalf n = false)
    (hhigh : isHighHalf n = false) (cs : List Char) :
    codeEscape (hex ++ cs) = .ok (Char.ofNat n, 4) := by
  simp [codeEscape, h.fourDigits, hlow, hhigh]

theorem isLowHalf_of_isHighHalf {n : Nat} (h : isHighHalf n = true) : isLowHalf n = false := by
  simp only [isHighHalf, Bool.and_eq_true, decide_eq_true_eq] at h
  simp only [isLowHalf, Bool.and_eq_false_iff, decide_eq_false_iff_not]
  omega

/-- **A pair of codes stands for one character beyond the first plane.** -/
theorem codeEscape_pair {hex hex' : List Char} {n m : Nat} (h : Code hex n)
    (hhigh : isHighHalf n = true) (h' : Code hex' m) (hlow : isLowHalf m = true)
    (cs : List Char) :
    codeEscape (hex ++ '\\' :: 'u' :: (hex' ++ cs)) =
      .ok (Char.ofNat (0x10000 + (n - 0xD800) * 0x400 + (m - 0xDC00)), 10) := by
  have hdrop : (hex ++ '\\' :: 'u' :: (hex' ++ cs)).drop 4 = '\\' :: 'u' :: (hex' ++ cs) :=
    List.drop_left' h.length
  simp [codeEscape, h.fourDigits, h'.fourDigits, isLowHalf_of_isHighHalf hhigh, hhigh, hlow, hdrop]

/-- An escape of a code, which takes the characters `used` behind the backslash. -/
theorem textFrom_code {used cs ds rest : List Char} {c : Char}
    (hescape : escape (used ++ cs) = .ok (c, used.length))
    (h : textFrom 0 cs = .ok (ds, rest)) :
    textFrom 0 ('\\' :: (used ++ cs)) = .ok (c :: ds, rest) := by
  rw [textFrom, if_neg (by decide), if_pos rfl, hescape]
  simp only [textFrom_append, h]

/-- What stands between quotes is read as the characters that it spells. -/
theorem textFrom_spells {body cs : List Char} (h : Spells body cs) (rest : List Char) :
    textFrom 0 (body ++ '"' :: rest) = .ok (cs, rest) := by
  induction h with
  | nil => rfl
  | plain hplain _ ih =>
    obtain ⟨hquote, hslash, hcontrol⟩ := isPlain_iff.mp hplain
    exact textFrom_plain hquote hslash hcontrol ih
  | letter hletter _ ih => exact textFrom_letter (ne_of_letterEscape? hletter) hletter ih
  | @code hex body cs n hcode hlow hhigh _ ih =>
    have hescape : escape ('u' :: hex ++ (body ++ '"' :: rest)) =
        .ok (Char.ofNat n, ('u' :: hex).length) := by
      rw [List.cons_append, escape, if_pos rfl, codeEscape_code hcode hlow hhigh,
        List.length_cons, hcode.length]
    simpa using textFrom_code hescape ih
  | @pair hex hex' body cs n m hcode hhigh hcode' hlow _ ih =>
    -- the two codes are one escape, of eleven characters behind the first backslash
    have hescape : escape ('u' :: (hex ++ '\\' :: 'u' :: hex') ++ (body ++ '"' :: rest)) =
        .ok (Char.ofNat (0x10000 + (n - 0xD800) * 0x400 + (m - 0xDC00)),
          ('u' :: (hex ++ '\\' :: 'u' :: hex')).length) := by
      have htext : 'u' :: (hex ++ '\\' :: 'u' :: hex') ++ (body ++ '"' :: rest) =
          'u' :: (hex ++ '\\' :: 'u' :: (hex' ++ (body ++ '"' :: rest))) := by simp
      have hlength : ('u' :: (hex ++ '\\' :: 'u' :: hex')).length = 11 := by
        simp [hcode.length, hcode'.length]
      rw [htext, hlength, escape, if_pos rfl, codeEscape_pair hcode hhigh hcode' hlow]
    simpa using textFrom_code hescape ih

/-- **A text is read as what it spells**, up to its quote. -/
theorem textTail_spells {body : List Char} {s : String} (h : Spells body s.toList)
    (rest : List Char) : textTail (body ++ '"' :: rest) = .ok (s, rest) := by
  simp [textTail, textFrom_spells h]

/-- What stands between quotes is passed over. -/
theorem skipTextFrom_loose {body : List Char} (h : Loose body) (rest : List Char) :
    skipTextFrom 0 (body ++ '"' :: rest) = .ok rest := by
  induction h with
  | nil => rfl
  | plain hplain _ ih =>
    obtain ⟨hquote, hslash, hcontrol⟩ := isPlain_iff.mp hplain
    rw [List.cons_append, skipTextFrom, if_neg hquote, if_neg hslash, if_neg hcontrol, ih]
  | @letter l c body hletter _ ih =>
    have hlength : escapeLength (l :: (body ++ '"' :: rest)) = .ok [l].length := by
      rw [escapeLength, if_neg (ne_of_letterEscape? hletter), if_pos (by simp [hletter])]
      rfl
    rw [List.cons_append, List.cons_append, skipTextFrom, if_neg (by decide), if_pos rfl, hlength]
    exact (skipTextFrom_append [l] _).trans ih
  | @code hex body n hcode _ ih =>
    have hlength : escapeLength ('u' :: hex ++ (body ++ '"' :: rest)) =
        .ok ('u' :: hex).length := by
      rw [List.cons_append, escapeLength, if_pos rfl, hcode.fourDigits, List.length_cons,
        hcode.length]
    have htext : '\\' :: 'u' :: (hex ++ body) ++ '"' :: rest =
        '\\' :: ('u' :: hex ++ (body ++ '"' :: rest)) := by simp
    rw [htext, skipTextFrom, if_neg (by decide), if_pos rfl, hlength]
    exact (skipTextFrom_append ('u' :: hex) _).trans ih

/-! ## Numbers -/

/-- One digit or more. -/
def Digits (ds : List Char) : Prop :=
  ds ≠ [] ∧ ∀ c ∈ ds, c.isDigit = true

instance (ds : List Char) : Decidable (Digits ds) :=
  decidable_of_iff (ds ≠ [] ∧ ds.all Char.isDigit = true)
    (and_congr_right fun _ => List.all_eq_true)

/-- A point with digits behind it, or nothing. -/
inductive Fraction : List Char → Prop
  | none : Fraction []
  | some {ds : List Char} (hdigits : Digits ds) : Fraction ('.' :: ds)

/-- The mark of an exponent with a number behind it, or nothing. -/
inductive Exponent : List Char → Prop
  | none : Exponent []
  | some {mark : Char} {sign ds : List Char} (hmark : mark = 'e' ∨ mark = 'E')
      (hsign : sign = [] ∨ sign = ['+'] ∨ sign = ['-']) (hdigits : Digits ds) :
      Exponent (mark :: (sign ++ ds))

/-- A number without its sign. No other digit follows a zero in front. -/
inductive Unsigned : List Char → Prop
  | mk {whole fraction exponent : List Char} (hwhole : Digits whole)
      (hzero : whole.head? = some '0' → whole = ['0']) (hfraction : Fraction fraction)
      (hexponent : Exponent exponent) : Unsigned (whole ++ (fraction ++ exponent))

theorem Digits.eq_cons {ds : List Char} (h : Digits ds) :
    ∃ c cs, ds = c :: cs ∧ c.isDigit = true := by
  obtain ⟨hne, hall⟩ := h
  obtain ⟨c, cs, rfl⟩ := List.exists_cons_of_ne_nil hne
  exact ⟨c, cs, rfl, hall c List.mem_cons_self⟩

/-- Digits are skipped up to what is no digit. -/
theorem skipDigits_append {ds rest : List Char} (h : Digits ds)
    (hrest : ∀ c ∈ rest.head?, c.isDigit = false) : skipDigits (ds ++ rest) = .ok rest := by
  have hdrop := (span_digits h.2 hrest).2
  obtain ⟨c, cs, rfl, hc⟩ := h.eq_cons
  rw [skipDigits, if_pos (by simpa using hc), hdrop]

/-- An exponent is skipped. -/
theorem skipExponent_append {exponent rest : List Char} (h : Exponent exponent)
    (hrest : Closes rest) : skipExponent (exponent ++ rest) = .ok rest := by
  have hends := isDigit_of_closes hrest
  cases h with
  | none =>
    -- what closes the number is no mark of an exponent
    have hmark : ¬ (rest.head? = some 'e' ∨ rest.head? = some 'E') := by
      rintro (h | h)
      · exact (hends _ h).2.2.1 rfl
      · exact (hends _ h).2.2.2 rfl
    rw [List.nil_append, skipExponent, if_neg hmark]
  | @some mark sign ds hmark hsign hdigits =>
    have hdone := skipDigits_append hdigits fun c hc => (hends c hc).1
    obtain ⟨c, cs, rfl, hc⟩ := hdigits.eq_cons
    have hplus : c ≠ '+' := ne_of_isDigit hc rfl
    have hminus : c ≠ '-' := ne_of_isDigit hc rfl
    rw [List.cons_append, skipExponent, if_pos (by simpa using hmark)]
    rcases hsign with rfl | rfl | rfl
    · simpa [hplus, hminus] using hdone
    · simpa using hdone
    · simpa using hdone

/-- Behind the fraction of a number stands neither a digit nor another point. -/
theorem head_exponent {exponent rest : List Char} (h : Exponent exponent) (hrest : Closes rest) :
    ∀ c ∈ (exponent ++ rest).head?, c.isDigit = false ∧ c ≠ '.' := by
  intro c hc
  cases h with
  | none => exact ⟨(isDigit_of_closes hrest c hc).1, (isDigit_of_closes hrest c hc).2.1⟩
  | some hmark _ _ =>
    simp only [List.cons_append, List.head?_cons, Option.mem_some_iff] at hc
    subst hc
    rcases hmark with rfl | rfl <;> decide

/-- Behind the digits in front of a number stands no other digit. -/
theorem head_fraction {fraction exponent rest : List Char} (h : Fraction fraction)
    (hexponent : Exponent exponent) (hrest : Closes rest) :
    ∀ c ∈ (fraction ++ (exponent ++ rest)).head?, c.isDigit = false := by
  intro c hc
  cases h with
  | none => exact (head_exponent hexponent hrest c hc).1
  | some _ =>
    obtain rfl : '.' = c := by simpa using hc
    decide

/-- A fraction and an exponent are skipped. -/
theorem skipFraction_append {fraction exponent rest : List Char} (h : Fraction fraction)
    (hexponent : Exponent exponent) (hrest : Closes rest) :
    (if (fraction ++ (exponent ++ rest)).head? = some '.' then
      skipDigits (fraction ++ (exponent ++ rest)).tail >>= skipExponent
      else skipExponent (fraction ++ (exponent ++ rest))) = .ok rest := by
  have hhead := head_exponent hexponent hrest
  have hend := skipExponent_append hexponent hrest
  cases h with
  | none =>
    have hpoint : (exponent ++ rest).head? ≠ some '.' := fun h => (hhead _ h).2 rfl
    rw [List.nil_append, if_neg hpoint, hend]
  | some hdigits =>
    have hdone := skipDigits_append hdigits fun c hc => (hhead c hc).1
    rw [List.cons_append, List.head?_cons, if_pos rfl, List.tail_cons, hdone]
    exact hend

/-- A number is skipped, up to what ends it. -/
theorem skipNumber_unsigned {cs rest : List Char} (h : Unsigned cs) (hrest : Closes rest) :
    skipNumber (cs ++ rest) = .ok rest := by
  obtain @⟨whole, fraction, exponent, hwhole, hzero, hfraction, hexponent⟩ := h
  have hdigit := head_fraction hfraction hexponent hrest
  have htail := skipFraction_append hfraction hexponent hrest
  have htext : whole ++ (fraction ++ exponent) ++ rest =
      whole ++ (fraction ++ (exponent ++ rest)) := by simp only [List.append_assoc]
  rw [htext]
  by_cases hone : whole = ['0']
  · -- a zero in front is the only digit there
    have hnone : ¬ ((fraction ++ (exponent ++ rest)).head?.any Char.isDigit = true) := by
      rw [Option.any_eq_true]
      rintro ⟨c, hc, hc'⟩
      rw [hdigit c hc] at hc'
      cases hc'
    rw [hone, List.singleton_append, skipNumber, if_neg hnone]
    exact htail
  -- the whole part does not begin with a zero, so all its digits are taken
  · have hfront : ∀ after, whole ++ (fraction ++ (exponent ++ rest)) ≠ '0' :: after := by
      obtain ⟨c, ds, rfl, -⟩ := hwhole.eq_cons
      intro after heq
      exact hone (hzero (congrArg some (List.cons.inj heq).1))
    rw [skipNumber]
    · rw [skipDigits_append hwhole hdigit]
      exact htail
    · exact hfront

/-! ## Values of any shape -/

/-- What a text may be in a document: a value, the items of a list, or the members of an object. -/
inductive Part where
  | value
  | items
  | members

/-- An item of a list with the blanks around it. -/
def itemText (front cs back : List Char) : List Char :=
  front ++ (cs ++ back)

/-- A member of an object with the blanks around its parts. -/
def memberText (front key left right cs back : List Char) : List Char :=
  front ++ '"' :: (key ++ '"' :: (left ++ ':' :: (right ++ (cs ++ back))))

/-- The text is written as JSON demands. -/
inductive Written : Part → List Char → Prop
  | null : Written .value "null".toList
  | yes : Written .value "true".toList
  | no : Written .value "false".toList
  | number {cs : List Char} (hnumber : Unsigned cs) : Written .value cs
  | negative {cs : List Char} (hnumber : Unsigned cs) : Written .value ('-' :: cs)
  | text {body : List Char} (hbody : Loose body) : Written .value ('"' :: (body ++ ['"']))
  | emptyList {g : List Char} (hg : Gap g) : Written .value ('[' :: (g ++ [']']))
  | list {cs : List Char} (hitems : Written .items cs) : Written .value ('[' :: (cs ++ [']']))
  | emptyObject {g : List Char} (hg : Gap g) : Written .value ('{' :: (g ++ ['}']))
  | object {cs : List Char} (hmembers : Written .members cs) :
      Written .value ('{' :: (cs ++ ['}']))
  | lastItem {front cs back : List Char} (hfront : Gap front) (hvalue : Written .value cs)
      (hback : Gap back) : Written .items (itemText front cs back)
  | item {front cs back items : List Char} (hfront : Gap front) (hvalue : Written .value cs)
      (hback : Gap back) (hitems : Written .items items) :
      Written .items (itemText front cs back ++ ',' :: items)
  | lastMember {front key left right cs back : List Char} (hfront : Gap front) (hkey : Loose key)
      (hleft : Gap left) (hright : Gap right) (hvalue : Written .value cs) (hback : Gap back) :
      Written .members (memberText front key left right cs back)
  | member {front key left right cs back members : List Char} (hfront : Gap front)
      (hkey : Loose key) (hleft : Gap left) (hright : Gap right) (hvalue : Written .value cs)
      (hback : Gap back) (hmembers : Written .members members) :
      Written .members (memberText front key left right cs back ++ ',' :: members)

/-- Behind the blanks in front of it, a text begins with neither a blank nor a closing bracket. -/
theorem Written.head {part : Part} {cs : List Char} (h : Written part cs) :
    ∃ g c after, Gap g ∧ cs = g ++ c :: after ∧ isGap c = false ∧ c ≠ ']' ∧ c ≠ '}' := by
  induction h with
  | null => exact ⟨[], 'n', _, .nil, rfl, by decide⟩
  | yes => exact ⟨[], 't', _, .nil, rfl, by decide⟩
  | no => exact ⟨[], 'f', _, .nil, rfl, by decide⟩
  | number hnumber =>
    obtain ⟨hwhole, -, -, -⟩ := hnumber
    obtain ⟨c, ds, rfl, hc⟩ := hwhole.eq_cons
    exact ⟨[], c, _, .nil, rfl, isGap_of_isDigit hc, ne_of_isDigit hc rfl, ne_of_isDigit hc rfl⟩
  | negative _ => exact ⟨[], '-', _, .nil, rfl, by decide⟩
  | text _ => exact ⟨[], '"', _, .nil, rfl, by decide⟩
  | emptyList _ => exact ⟨[], '[', _, .nil, rfl, by decide⟩
  | list _ _ => exact ⟨[], '[', _, .nil, rfl, by decide⟩
  | emptyObject _ => exact ⟨[], '{', _, .nil, rfl, by decide⟩
  | object _ _ => exact ⟨[], '{', _, .nil, rfl, by decide⟩
  -- an item begins as its value does, behind one more gap
  | @lastItem front cs back hfront _ _ ih =>
    obtain ⟨g, c, after, hg, rfl, hc⟩ := ih
    exact ⟨front ++ g, c, after ++ back, hfront.append hg, by simp [itemText], hc⟩
  | @item front cs back items hfront _ _ _ ih _ =>
    obtain ⟨g, c, after, hg, rfl, hc⟩ := ih
    exact ⟨front ++ g, c, after ++ (back ++ ',' :: items), hfront.append hg, by simp [itemText], hc⟩
  | lastMember hfront _ _ _ _ _ _ => exact ⟨_, '"', _, hfront, rfl, by decide⟩
  | @member front _ _ _ _ _ _ hfront _ _ _ _ _ _ _ =>
    exact ⟨front, '"', _, hfront, by rw [memberText, List.append_assoc, List.cons_append],
      by decide⟩

/-! ## What is passed over -/

/-- A gap in front of a value is passed over. -/
theorem skipValueFrom_gap {g : List Char} (hg : Gap g) (fuel : Nat) (cs : List Char) :
    skipValueFrom fuel (g ++ cs) = skipValueFrom fuel cs := by
  cases fuel with
  | zero => rfl
  | succ fuel => simp only [skipValueFrom, hg.dropWhile_append]

/-- The blanks in front of the first item matter as little as those in front of a value. -/
theorem skipItemsFrom_gap {g : List Char} (hg : Gap g) (fuel : Nat) (cs : List Char) :
    skipItemsFrom fuel (g ++ cs) = skipItemsFrom fuel cs := by
  cases fuel with
  | zero => rfl
  | succ fuel => rw [skipItemsFrom, skipItemsFrom, skipValueFrom_gap hg]

/-- A gap in front of a field is passed over. -/
theorem skipFieldsFrom_gap {g : List Char} (hg : Gap g) (fuel : Nat) (cs : List Char) :
    skipFieldsFrom fuel (g ++ cs) = skipFieldsFrom fuel cs := by
  cases fuel with
  | zero => rfl
  | succ fuel => simp only [skipFieldsFrom, hg.dropWhile_append]

/-- A number is skipped as a value. -/
theorem skipValueFrom_number {cs rest : List Char} (h : Unsigned cs) (hrest : Closes rest)
    (fuel : Nat) : skipValueFrom (fuel + 1) (cs ++ rest) = .ok rest := by
  have hread := skipNumber_unsigned h hrest
  obtain ⟨hwhole, -, -, -⟩ := h
  obtain ⟨c, ds, rfl, hc⟩ := hwhole.eq_cons
  rw [skipValueFrom, List.cons_append, List.cons_append,
    List.dropWhile_cons_of_neg (by simp [isGap_of_isDigit hc])]
  dsimp only
  rw [if_neg (ne_of_isDigit hc rfl), if_neg (ne_of_isDigit hc rfl), if_neg (ne_of_isDigit hc rfl),
    if_neg (ne_of_isDigit hc rfl), if_pos hc]
  exact hread

theorem skipValueFrom_emptyList {g : List Char} (hg : Gap g) (fuel : Nat) (rest : List Char) :
    skipValueFrom (fuel + 1) ('[' :: (g ++ ']' :: rest)) = .ok rest := by
  have hdrop := hg.dropWhile_cons (c := ']') (by decide) rest
  rw [skipValueFrom, List.dropWhile_cons_of_neg (by decide)]
  simp [hdrop]

/-- A list with an item in it is skipped by its items. -/
theorem skipValueFrom_list {g : List Char} {c : Char} (hg : Gap g) (hc : isGap c = false)
    (hend : c ≠ ']') (fuel : Nat) (after : List Char) :
    skipValueFrom (fuel + 1) ('[' :: (g ++ c :: after)) = skipItemsFrom fuel (c :: after) := by
  have hdrop := hg.dropWhile_cons hc after
  rw [skipValueFrom, List.dropWhile_cons_of_neg (by decide)]
  simp [hdrop, hend]

theorem skipValueFrom_emptyObject {g : List Char} (hg : Gap g) (fuel : Nat) (rest : List Char) :
    skipValueFrom (fuel + 1) ('{' :: (g ++ '}' :: rest)) = .ok rest := by
  have hdrop := hg.dropWhile_cons (c := '}') (by decide) rest
  rw [skipValueFrom, List.dropWhile_cons_of_neg (by decide)]
  simp [hdrop]

/-- An object with a field in it is skipped by its fields. -/
theorem skipValueFrom_object {g : List Char} {c : Char} (hg : Gap g) (hc : isGap c = false)
    (hend : c ≠ '}') (fuel : Nat) (after : List Char) :
    skipValueFrom (fuel + 1) ('{' :: (g ++ c :: after)) = skipFieldsFrom fuel (c :: after) := by
  have hdrop := hg.dropWhile_cons hc after
  rw [skipValueFrom, List.dropWhile_cons_of_neg (by decide)]
  simp [hdrop, hend]

/-- Behind an item that is passed over, a comma or the closing bracket decides. -/
theorem skipItemsFrom_item {g cs after : List Char} {fuel : Nat} {c : Char}
    (h : skipValueFrom fuel cs = .ok (g ++ c :: after)) (hg : Gap g) (hc : isGap c = false) :
    skipItemsFrom (fuel + 1) cs =
      if c = ',' then skipItemsFrom fuel after
      else if c = ']' then .ok after else .error .malformed := by
  rw [skipItemsFrom, h]
  dsimp only
  rw [hg.dropWhile_cons hc]

/-- Behind a member that is passed over, a comma or the closing brace decides. -/
theorem skipFieldsFrom_member {key left right cs back after : List Char} {fuel : Nat} {c : Char}
    (hkey : Loose key) (hleft : Gap left) (hright : Gap right)
    (h : skipValueFrom fuel cs = .ok (back ++ c :: after)) (hback : Gap back)
    (hc : isGap c = false) :
    skipFieldsFrom (fuel + 1) ('"' :: (key ++ '"' :: (left ++ ':' :: (right ++ cs)))) =
      if c = ',' then skipFieldsFrom fuel after
      else if c = '}' then .ok after else .error .malformed := by
  have hcolon := hleft.dropWhile_cons (c := ':') (by decide) (right ++ cs)
  have hvalue := (skipValueFrom_gap hright fuel cs).trans h
  rw [skipFieldsFrom, List.dropWhile_cons_of_neg (by decide)]
  simp only [ne_eq, not_true, if_false, skipTextFrom_loose hkey, hcolon, hvalue,
    hback.dropWhile_cons hc]

/-- A text is passed over: what follows it is left, if the fuel is twice its length. -/
def Skipped : Part → List Char → Prop
  | .value, cs => ∀ fuel rest, 2 * cs.length ≤ fuel → Closes rest →
      skipValueFrom fuel (cs ++ rest) = .ok rest
  | .items, cs => ∀ fuel rest, 2 * cs.length < fuel →
      skipItemsFrom fuel (cs ++ ']' :: rest) = .ok rest
  | .members, cs => ∀ fuel rest, 2 * cs.length < fuel →
      skipFieldsFrom fuel (cs ++ '}' :: rest) = .ok rest

/-- A list is skipped if its items are. -/
theorem Skipped.list {cs : List Char} (h : Skipped .items cs) (hcs : Written .items cs) :
    Skipped .value ('[' :: (cs ++ [']'])) := by
  intro fuel rest hfuel _
  obtain ⟨g, c, after, hg, rfl, hc, hend, -⟩ := hcs.head
  simp only [List.length_cons, List.length_append] at hfuel
  obtain ⟨fuel, rfl⟩ := Nat.exists_eq_add_one.mpr (show 0 < fuel by omega)
  have hitems := h fuel rest (by simp only [List.length_cons, List.length_append]; omega)
  have htext : '[' :: (g ++ c :: after ++ [']']) ++ rest =
      '[' :: (g ++ c :: (after ++ ']' :: rest)) := by simp
  rw [htext, skipValueFrom_list hg hc hend, ← hitems, List.append_assoc, List.cons_append,
    skipItemsFrom_gap hg]

/-- An object is skipped if its members are. -/
theorem Skipped.object {cs : List Char} (h : Skipped .members cs) (hcs : Written .members cs) :
    Skipped .value ('{' :: (cs ++ ['}'])) := by
  intro fuel rest hfuel _
  obtain ⟨g, c, after, hg, rfl, hc, -, hend⟩ := hcs.head
  simp only [List.length_cons, List.length_append] at hfuel
  obtain ⟨fuel, rfl⟩ := Nat.exists_eq_add_one.mpr (show 0 < fuel by omega)
  have hmembers := h fuel rest (by simp only [List.length_cons, List.length_append]; omega)
  have htext : '{' :: (g ++ c :: after ++ ['}']) ++ rest =
      '{' :: (g ++ c :: (after ++ '}' :: rest)) := by simp
  rw [htext, skipValueFrom_object hg hc hend, ← hmembers, List.append_assoc, List.cons_append,
    skipFieldsFrom_gap hg]

theorem closes_bracket (rest : List Char) : Closes (']' :: rest) := by simp [Closes]

theorem Skipped.lastItem {front cs back : List Char} (h : Skipped .value cs) (hfront : Gap front)
    (hback : Gap back) : Skipped .items (itemText front cs back) := by
  intro fuel rest hfuel
  simp only [itemText, List.length_append] at hfuel
  obtain ⟨fuel, rfl⟩ := Nat.exists_eq_add_one.mpr (show 0 < fuel by omega)
  have hvalue := h fuel _ (by omega) (hback.closes (closes_bracket rest))
  have htext : itemText front cs back ++ ']' :: rest =
      front ++ (cs ++ (back ++ ']' :: rest)) := by simp [itemText]
  rw [htext, skipItemsFrom_gap hfront, skipItemsFrom_item hvalue hback (by decide)]
  rfl

/-- An item and the others behind it are skipped. -/
theorem Skipped.item {front cs back items : List Char} (h : Skipped .value cs)
    (hitems : Skipped .items items) (hfront : Gap front) (hback : Gap back) :
    Skipped .items (itemText front cs back ++ ',' :: items) := by
  intro fuel rest hfuel
  simp only [itemText, List.length_append, List.length_cons] at hfuel
  obtain ⟨fuel, rfl⟩ := Nat.exists_eq_add_one.mpr (show 0 < fuel by omega)
  have hvalue := h fuel _ (by omega) (hback.closes (closes_comma (items ++ ']' :: rest)))
  have htext : itemText front cs back ++ ',' :: items ++ ']' :: rest =
      front ++ (cs ++ (back ++ ',' :: (items ++ ']' :: rest))) := by simp [itemText]
  rw [htext, skipItemsFrom_gap hfront, skipItemsFrom_item hvalue hback (by decide), if_pos rfl]
  exact hitems fuel rest (by omega)

theorem Skipped.lastMember {front key left right cs back : List Char} (h : Skipped .value cs)
    (hfront : Gap front) (hkey : Loose key) (hleft : Gap left) (hright : Gap right)
    (hback : Gap back) : Skipped .members (memberText front key left right cs back) := by
  intro fuel rest hfuel
  simp only [memberText, List.length_append, List.length_cons] at hfuel
  obtain ⟨fuel, rfl⟩ := Nat.exists_eq_add_one.mpr (show 0 < fuel by omega)
  have hvalue := h fuel _ (by omega) (hback.closes (closes_brace rest))
  have htext : memberText front key left right cs back ++ '}' :: rest = front ++
      '"' :: (key ++ '"' :: (left ++ ':' :: (right ++ (cs ++ (back ++ '}' :: rest))))) := by
    simp [memberText]
  rw [htext, skipFieldsFrom_gap hfront,
    skipFieldsFrom_member hkey hleft hright hvalue hback (by decide)]
  rfl

/-- A member and the others behind it are skipped. -/
theorem Skipped.member {front key left right cs back members : List Char}
    (h : Skipped .value cs) (hmembers : Skipped .members members) (hfront : Gap front)
    (hkey : Loose key) (hleft : Gap left) (hright : Gap right) (hback : Gap back) :
    Skipped .members (memberText front key left right cs back ++ ',' :: members) := by
  intro fuel rest hfuel
  simp only [memberText, List.length_append, List.length_cons] at hfuel
  obtain ⟨fuel, rfl⟩ := Nat.exists_eq_add_one.mpr (show 0 < fuel by omega)
  have hvalue := h fuel _ (by omega) (hback.closes (closes_comma (members ++ '}' :: rest)))
  have htext : memberText front key left right cs back ++ ',' :: members ++ '}' :: rest =
      front ++ '"' :: (key ++ '"' :: (left ++ ':' ::
        (right ++ (cs ++ (back ++ ',' :: (members ++ '}' :: rest)))))) := by
    simp [memberText]
  rw [htext, skipFieldsFrom_gap hfront,
    skipFieldsFrom_member hkey hleft hright hvalue hback (by decide), if_pos rfl]
  exact hmembers fuel rest (by omega)

/-- What is written as JSON demands is passed over. -/
theorem Written.skipped {part : Part} {cs : List Char} (h : Written part cs) :
    Skipped part cs := by
  -- a scalar needs fuel for one step only, which its length provides
  have hscalar : ∀ cs : List Char, cs ≠ [] → (∀ fuel rest, Closes rest →
      skipValueFrom (fuel + 1) (cs ++ rest) = .ok rest) → Skipped .value cs := by
    intro cs hne hskip fuel rest hfuel hrest
    have hpos := List.length_pos_of_ne_nil hne
    obtain ⟨fuel, rfl⟩ := Nat.exists_eq_add_one.mpr (show 0 < fuel by omega)
    exact hskip fuel rest hrest
  induction h with
  | null => exact hscalar _ (by decide) fun fuel rest _ => rfl
  | yes => exact hscalar _ (by decide) fun fuel rest _ => rfl
  | no => exact hscalar _ (by decide) fun fuel rest _ => rfl
  | number hnumber =>
    refine hscalar _ ?_ fun fuel rest hrest => skipValueFrom_number hnumber hrest fuel
    obtain ⟨⟨hne, -⟩, -, -, -⟩ := hnumber
    exact List.append_ne_nil_of_left_ne_nil hne _
  | negative hnumber =>
    exact hscalar _ (List.cons_ne_nil _ _) fun fuel rest hrest => skipNumber_unsigned hnumber hrest
  | @text body hbody =>
    refine hscalar _ (List.cons_ne_nil _ _) fun fuel rest _ => ?_
    have htext : '"' :: (body ++ ['"']) ++ rest = '"' :: (body ++ '"' :: rest) := by simp
    rw [htext]
    exact skipTextFrom_loose hbody rest
  | @emptyList g hg =>
    refine hscalar _ (List.cons_ne_nil _ _) fun fuel rest _ => ?_
    have htext : '[' :: (g ++ [']']) ++ rest = '[' :: (g ++ ']' :: rest) := by simp
    rw [htext, skipValueFrom_emptyList hg]
  | list hitems ih => exact ih.list hitems
  | @emptyObject g hg =>
    refine hscalar _ (List.cons_ne_nil _ _) fun fuel rest _ => ?_
    have htext : '{' :: (g ++ ['}']) ++ rest = '{' :: (g ++ '}' :: rest) := by simp
    rw [htext, skipValueFrom_emptyObject hg]
  | object hmembers ih => exact ih.object hmembers
  | lastItem hfront _ hback ih => exact ih.lastItem hfront hback
  | item hfront _ hback _ ih ihitems => exact ih.item ihitems hfront hback
  | lastMember hfront hkey hleft hright _ hback ih =>
    exact ih.lastMember hfront hkey hleft hright hback
  | member hfront hkey hleft hright _ hback _ ih ihmembers =>
    exact ih.member ihmembers hfront hkey hleft hright hback

/-- **A well-formed value is passed over**, whatever its shape and depth. -/
theorem skipValue_written {g cs rest : List Char} (h : Written .value cs) (hg : Gap g)
    (hrest : Closes rest) : skipValue (g ++ (cs ++ rest)) = .ok ((), rest) := by
  have hfuel : 2 * cs.length ≤ 2 * (g ++ (cs ++ rest)).length + 2 := by
    simp only [List.length_append]
    omega
  have hskip := h.skipped _ rest hfuel hrest
  rw [skipValue, skipValueFrom_gap hg, hskip]

end LiveDesk.Json
