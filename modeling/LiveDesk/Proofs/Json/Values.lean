import LiveDesk.Proofs.Json.Reading
import LiveDesk.Json.Scalar
import Mathlib.Data.List.Forall2

/-!
# Reading written values of one type

What is written for a number, a truth value, a name, an optional value or a list is read as the same
value by the reader for its type.

- **A whole number within 64 bits is read as itself** (`reads_integer`): its digits have no zero in
  front (`head_toDigits`), make up the number (`extend_toDigits`), and end where the value ends.
- `reads_boolean`, `reads_named`, `reads_choice`, `reads_optional`: the other scalars.
- **A list is read item by item** (`reads_list`), whatever its items are, if each of them is read.
-/

namespace LiveDesk.Json

open Reader

variable {α : Type}

/-! ## How a written value begins -/

theorem ne_of_isDigit {c d : Char} (hc : c.isDigit = true) (hd : d.isDigit = false) : c ≠ d := by
  rintro rfl
  rw [hc] at hd
  cases hd

/-- A digit is no gap. -/
theorem isGap_of_isDigit {c : Char} (h : c.isDigit = true) : isGap c = false := by
  simp [isGap, ne_of_isDigit h (d := ' ') rfl, ne_of_isDigit h (d := '\n') rfl,
    ne_of_isDigit h (d := '\t') rfl, ne_of_isDigit h (d := '\r') rfl]

/-- The digits of a number. -/
theorem toDigits_eq_cons (n : Nat) :
    ∃ c cs, Nat.toDigits 10 n = c :: cs ∧ c.isDigit = true := by
  cases hdigits : Nat.toDigits 10 n with
  | nil => exact absurd hdigits Nat.toDigits_ne_nil
  | cons c cs =>
    refine ⟨c, cs, rfl, Nat.isDigit_of_mem_toDigits (b := 10) (n := n) (by decide) (by decide) ?_⟩
    rw [hdigits]
    exact List.mem_cons_self

/-- A number begins with a digit or a minus sign. -/
theorem decimal_eq_cons (n : Int) :
    ∃ c cs, decimal n = c :: cs ∧ (c = '-' ∨ c.isDigit = true) := by
  cases n with
  | ofNat k =>
    obtain ⟨c, cs, hdigits, hc⟩ := toDigits_eq_cons k
    exact ⟨c, cs, hdigits, .inr hc⟩
  | negSucc k => exact ⟨'-', _, rfl, .inl rfl⟩

/-- No value begins with a blank or with the end of a list, and only null begins as null does. -/
theorem chars_eq_cons (v : Json) :
    ∃ c cs, v.chars = c :: cs ∧ isGap c = false ∧ c ≠ ']' ∧ (c = 'n' → v = .null) := by
  cases v with
  | null => exact ⟨'n', _, rfl, by decide, by decide, fun _ => rfl⟩
  | bool b =>
    cases b with
    | true => exact ⟨'t', _, rfl, by decide, by decide, fun h => absurd h (by decide)⟩
    | false => exact ⟨'f', _, rfl, by decide, by decide, fun h => absurd h (by decide)⟩
  | int n =>
    obtain ⟨c, cs, hchars, hc⟩ := decimal_eq_cons n
    refine ⟨c, cs, hchars, ?_⟩
    rcases hc with rfl | hc
    · exact ⟨by decide, by decide, fun h => absurd h (by decide)⟩
    · exact ⟨isGap_of_isDigit hc, ne_of_isDigit hc rfl, fun h => absurd h (ne_of_isDigit hc rfl)⟩
  | text s => exact ⟨'"', _, rfl, by decide, by decide, fun h => absurd h (by decide)⟩
  | list items => exact ⟨'[', _, rfl, by decide, by decide, fun h => absurd h (by decide)⟩
  | record fields => exact ⟨'{', _, rfl, by decide, by decide, fun h => absurd h (by decide)⟩

/-! ## Numbers -/

/-- No number is written with a zero in front. -/
theorem head_toDigits {n : Nat} {cs : List Char} (h : Nat.toDigits 10 n = '0' :: cs) :
    cs = [] := by
  induction n using Nat.strongRecOn generalizing cs with
  | ind n ih =>
    by_cases hlt : n < 10
    · rw [Nat.toDigits_of_lt_base hlt] at h
      exact (List.cons.inj h).2.symm
    · have hle : 10 ≤ n := Nat.le_of_not_lt hlt
      rw [Nat.toDigits_of_base_le (by decide) hle] at h
      obtain ⟨c, cs', hdigits, -⟩ := toDigits_eq_cons (n / 10)
      rw [hdigits, List.cons_append] at h
      obtain ⟨rfl, -⟩ := List.cons.inj h
      -- the digits in front are those of a smaller number, which would be zero
      have hnil := ih (n / 10) (by omega) hdigits
      rw [hnil] at hdigits
      have hzero := Nat.ofDigitChars_toDigits (b := 10) (n := n / 10) (by decide) (by decide)
      rw [hdigits] at hzero
      have : n / 10 = 0 := hzero.symm
      omega

theorem le_ofDigitChars (m : Nat) (cs : List Char) : m ≤ Nat.ofDigitChars 10 cs m := by
  induction cs generalizing m with
  | nil => exact Nat.le_refl _
  | cons c cs ih =>
    have hnext : m ≤ 10 * m + (c.toNat - '0'.toNat) := by omega
    exact Nat.le_trans hnext (ih _)

/-- Digits whose number is small enough are all used. -/
theorem extend_eq {m : Nat} {cs : List Char} (h : Nat.ofDigitChars 10 cs m ≤ mantissaBound) :
    extend m cs = (Nat.ofDigitChars 10 cs m, cs.length) := by
  induction cs generalizing m with
  | nil => rfl
  | cons c cs ih =>
    have hnext : m * 10 + digitValue c = 10 * m + (c.toNat - '0'.toNat) := by
      rw [Nat.mul_comm, digitValue]
    have hle : ¬ mantissaBound < 10 * m + (c.toNat - '0'.toNat) :=
      Nat.not_lt.2 (Nat.le_trans (le_ofDigitChars _ cs) h)
    have hlater := ih (m := 10 * m + (c.toNat - '0'.toNat)) h
    simp only [extend, hnext, if_neg hle, hlater]
    rfl

/-- The digits of a number within the bound are read as the number. -/
theorem extend_toDigits {n : Nat} (h : n ≤ mantissaBound) :
    extend 0 (Nat.toDigits 10 n) = (n, (Nat.toDigits 10 n).length) := by
  have hvalue := Nat.ofDigitChars_toDigits (b := 10) (n := n) (by decide) (by decide)
  rw [extend_eq (by rw [hvalue]; exact h), hvalue]

theorem isDigit_of_closes {rest : List Char} (h : Closes rest) :
    ∀ c ∈ rest.head?, c.isDigit = false ∧ c ≠ '.' ∧ c ≠ 'e' ∧ c ≠ 'E' := by
  intro c hc
  rcases h c hc with rfl | rfl | rfl | hgap
  · decide
  · decide
  · decide
  · simp only [isGap, Bool.or_eq_true, beq_iff_eq] at hgap
    rcases hgap with ((rfl | rfl) | rfl) | rfl <;> decide

/-- A run of digits ends where something else follows. -/
theorem span_digits {ds rest : List Char} (hds : ∀ c ∈ ds, c.isDigit = true)
    (hrest : ∀ c ∈ rest.head?, c.isDigit = false) :
    (ds ++ rest).takeWhile Char.isDigit = ds ∧ (ds ++ rest).dropWhile Char.isDigit = rest := by
  rw [List.takeWhile_append_of_pos hds, List.dropWhile_append_of_pos hds]
  cases rest with
  | nil => simp
  | cons c rest => simp [hrest c rfl]

/-- The digits of a number end where the number ends. -/
theorem span_toDigits (n : Nat) {rest : List Char} (hrest : Closes rest) :
    (Nat.toDigits 10 n ++ rest).takeWhile Char.isDigit = Nat.toDigits 10 n ∧
      (Nat.toDigits 10 n ++ rest).dropWhile Char.isDigit = rest :=
  span_digits (fun c hc => Nat.isDigit_of_mem_toDigits (b := 10) (by decide) (by decide) hc)
    fun c hc => (isDigit_of_closes hrest c hc).1

/-- A number without its sign, at most `mantissaBound`. -/
theorem unsignedNumber_toDigits {n : Nat} (hn : n ≤ mantissaBound) (negative : Bool)
    {rest : List Char} (hrest : Closes rest) :
    unsignedNumber negative (Nat.toDigits 10 n ++ rest) =
      .ok (if !negative then .whole n
        else if n = 0 ∨ 0x8000000000000000 < n then .other else .whole (-n), rest) := by
  obtain ⟨c, cs, hdigits, hc⟩ := toDigits_eq_cons n
  obtain ⟨htake, hdrop⟩ := span_toDigits n hrest
  have hends := isDigit_of_closes hrest
  -- a zero is followed by what follows the number
  have hzero : ¬ (c = '0' ∧ (cs ++ rest).head?.any Char.isDigit = true) := by
    rintro ⟨rfl, hany⟩
    rw [head_toDigits hdigits, List.nil_append, Option.any_eq_true] at hany
    obtain ⟨d, hd, hdigit⟩ := hany
    rw [(hends d hd).1] at hdigit
    cases hdigit
  have hpoint : rest.head? ≠ some '.' := fun h => (hends _ h).2.1 rfl
  have hmark : ¬ (rest.head? = some 'e' ∨ rest.head? = some 'E') := by
    rintro (h | h)
    · exact (hends _ h).2.2.1 rfl
    · exact (hends _ h).2.2.2 rfl
  have hcons : Nat.toDigits 10 n ++ rest = c :: (cs ++ rest) := by rw [hdigits, List.cons_append]
  rw [hcons] at htake hdrop ⊢
  unfold unsignedNumber
  simp only [hc, Bool.not_true, Bool.false_eq_true, if_false, if_neg hzero, htake, hdrop,
    extend_toDigits hn, if_neg hpoint, if_neg hmark, Int.sub_self, ne_eq, not_true]
  cases negative with
  | false => simp
  | true =>
    simp only [Bool.not_true, Bool.false_eq_true, if_false]
    split <;> rfl

/-- A whole number within 64 bits. -/
theorem number_decimal {n : Int} (hlow : -0x8000000000000000 ≤ n) (hhigh : n < 0x10000000000000000)
    {rest : List Char} (hrest : Closes rest) :
    number (decimal n ++ rest) = .ok (.whole n, rest) := by
  cases n with
  | ofNat k =>
    have hk : k ≤ mantissaBound := by
      simp only [Int.ofNat_eq_natCast] at hhigh
      simp only [mantissaBound]
      omega
    obtain ⟨c, cs, hdigits, hc⟩ := toDigits_eq_cons k
    have hminus : c ≠ '-' := ne_of_isDigit hc rfl
    have hread := unsignedNumber_toDigits hk false hrest
    have hnumber : number (decimal (.ofNat k) ++ rest)
        = unsignedNumber false (Nat.toDigits 10 k ++ rest) := by
      show number (Nat.toDigits 10 k ++ rest) = _
      rw [hdigits, List.cons_append]
      unfold number
      split
      · next heq => exact absurd (List.cons.inj heq).1 hminus
      · rfl
    rw [hnumber, hread]
    rfl
  | negSucc k =>
    have hk : k + 1 ≤ 0x8000000000000000 := by
      rw [Int.negSucc_eq] at hlow
      omega
    have hread := unsignedNumber_toDigits (n := k + 1) (by simp only [mantissaBound]; omega) true
      hrest
    -- a negative number is read by its size, which is neither zero nor too large
    have hsmall : ¬ (k + 1 = 0 ∨ 0x8000000000000000 < k + 1) := by omega
    show unsignedNumber true (Nat.toDigits 10 (k + 1) ++ rest) = _
    rw [hread]
    simp only [Bool.not_true, Bool.false_eq_true, if_false, if_neg hsmall]
    rfl

/-- **A whole number within 64 bits is read as itself**, if the conversion accepts it. -/
theorem reads_integer {convert? : Int → Option α} {n : Int} {a : α}
    (hlow : -0x8000000000000000 ≤ n) (hhigh : n < 0x10000000000000000)
    (h : convert? n = some a) : Reads (integer convert?) (.int n) a := by
  intro rest hrest
  obtain ⟨c, cs, hchars, hc⟩ := decimal_eq_cons n
  have hgap : isGap c = false := by
    rcases hc with rfl | hc
    · decide
    · exact isGap_of_isDigit hc
  have hnumber := number_decimal hlow hhigh hrest
  show integer convert? (decimal n ++ rest) = _
  rw [hchars, List.cons_append] at hnumber ⊢
  rw [integer, bind_ok (ahead_cons _ hgap)]
  dsimp only
  rw [if_pos hc, bind_ok hnumber]
  dsimp only
  rw [h]
  rfl

/-- A number of 8 bits is read back. -/
theorem reads_toUInt8 (n : UInt8) : Reads (integer toUInt8?) (.ofNat n.toNat) n := by
  have hn := n.toNat_lt
  have hfits : toUInt8? n.toNat = some n := by
    rw [toUInt8?, if_pos (by omega), Int.toNat_natCast, UInt8.ofNat_toNat]
  exact reads_integer (by omega) (by omega) hfits

/-- A number of 32 bits is read back. -/
theorem reads_toUInt32 (n : UInt32) : Reads (integer toUInt32?) (.ofNat n.toNat) n := by
  have hn := n.toNat_lt
  have hfits : toUInt32? n.toNat = some n := by
    rw [toUInt32?, if_pos (by omega), Int.toNat_natCast, UInt32.ofNat_toNat]
  exact reads_integer (by omega) (by omega) hfits

/-- A number of 64 bits is read back. -/
theorem reads_toUInt64 (n : UInt64) : Reads (integer toUInt64?) (.ofNat n.toNat) n := by
  have hn := n.toNat_lt
  have hfits : toUInt64? n.toNat = some n := by
    rw [toUInt64?, if_pos (by omega), Int.toNat_natCast, UInt64.ofNat_toNat]
  exact reads_integer (by omega) (by omega) hfits

/-- A signed number of 64 bits is read back. -/
theorem reads_toInt64 (n : Int64) : Reads (integer toInt64?) (.int n.toInt) n := by
  have hlow := n.le_toInt
  have hhigh := n.toInt_lt
  have hfits : toInt64? n.toInt = some n := by
    rw [toInt64?, if_pos (by omega), Int64.ofInt_toInt]
  exact reads_integer (by omega) (by omega) hfits

/-! ## Truth values, names and optional values -/

/-- A truth value is read back. -/
theorem reads_boolean (b : Bool) : Reads boolean (.bool b) b := by
  intro rest _
  cases b <;> rfl

/-- What is read from a name is read back. -/
theorem reads_named {parse? : String → Option α} {s : String} {a : α} (h : parse? s = some a) :
    Reads (named parse?) (.text s) a := by
  intro rest hrest
  rw [named, bind_ok (reads_text s rest hrest), h]
  rfl

/-- A name is written as a text. -/
theorem reads_choice {parse? : String → Option α} {s : String} {a : α} (h : parse? s = some a) :
    Reads (choice parse?) (.text s) a := by
  intro rest hrest
  have hname := reads_named h rest hrest
  obtain ⟨cs, hcs⟩ : ∃ cs, (Json.text s).chars ++ rest = '"' :: cs := ⟨_, rfl⟩
  rw [hcs] at hname ⊢
  rw [choice, bind_ok (ahead_cons _ (by decide))]
  dsimp only
  rw [if_pos rfl]
  exact hname

/-- Null is read as nothing. -/
theorem reads_nothing (value : Reader α) : Reads (Reader.optional value) .null none := by
  intro rest _
  rfl

/-- A value that is there, and is not null itself. -/
theorem reads_optional {value : Reader α} {v : Json} {a : α} (h : Reads value v a)
    (hv : v ≠ .null) : Reads (Reader.optional value) v (some a) := by
  intro rest hrest
  obtain ⟨c, cs, hchars, hgap, -, hnull⟩ := chars_eq_cons v
  have hvalue := h rest hrest
  rw [hchars, List.cons_append] at hvalue ⊢
  rw [Reader.optional, bind_ok (ahead_cons _ hgap)]
  rw [if_neg fun heq => hv (hnull (Option.some.inj heq)), map_eq_pure_bind, bind_ok hvalue]
  rfl

/-! ## Lists -/

/-- The items of a list as they stand from its opening bracket on, or from the end of another item
on. -/
def itemRun (first : Bool) : List Json → List Char
  | [] => []
  | item :: items => (if first then [] else [',']) ++ itemChars (item :: items)

theorem itemChars_eq (items : List Json) : itemChars items = itemRun true items := by
  cases items <;> simp [itemRun, itemChars]

/-- The first item is written without a comma, the others with one. -/
theorem itemChars_cons (v : Json) (items : List Json) :
    itemChars (v :: items) = v.chars ++ itemRun false items := by
  cases items <;> simp [itemRun, itemChars]

/-- What follows an item ends it. -/
theorem closes_itemRun (items : List Json) (rest : List Char) :
    Closes (itemRun false items ++ ']' :: rest) := by
  cases items with
  | nil => simp [itemRun, Closes]
  | cons item items => exact closes_comma _

theorem length_le_itemChars (items : List Json) : items.length ≤ (itemChars items).length := by
  induction items with
  | nil => simp
  | cons item items ih =>
    obtain ⟨c, cs, hchars, -⟩ := chars_eq_cons item
    have hrun : (itemChars items).length ≤ (itemRun false items).length := by
      cases items <;> simp [itemRun, itemChars]
    rw [itemChars_cons, hchars]
    simp only [List.length_append, List.length_cons]
    omega

theorem moreItems_end (first : Bool) (rest : List Char) :
    moreItems first (']' :: rest) = .ok (false, ']' :: rest) := rfl

theorem moreItems_item (first : Bool) (v : Json) (rest : List Char) :
    moreItems first ((if first then [] else [',']) ++ (v.chars ++ rest))
      = .ok (true, v.chars ++ rest) := by
  obtain ⟨c, cs, hchars, hgap, hend, -⟩ := chars_eq_cons v
  rw [hchars, List.cons_append]
  cases first with
  | true =>
    show moreItems true (c :: (cs ++ rest)) = _
    rw [moreItems, bind_ok (ahead_cons _ hgap)]
    dsimp only
    rw [if_neg hend, if_pos rfl]
    rfl
  | false =>
    show moreItems false (',' :: c :: (cs ++ rest)) = _
    rw [moreItems, bind_ok (ahead_cons _ (by decide))]
    dsimp only
    rw [if_neg (by decide), if_neg (by decide), if_pos rfl, bind_ok (take_cons _ _),
      bind_ok (ahead_cons _ hgap)]
    dsimp only
    rw [if_neg hend]
    rfl

/-- The items up to the closing bracket. -/
theorem itemsFrom_itemRun {item : Reader α} {vs : List Json} {as : List α}
    (h : List.Forall₂ (Reads item) vs as) {fuel : Nat} (hfuel : vs.length < fuel) (first : Bool)
    (rest : List Char) :
    itemsFrom item fuel first (itemRun first vs ++ ']' :: rest) = .ok (as, ']' :: rest) := by
  induction h generalizing fuel first with
  | nil =>
    obtain ⟨fuel, rfl⟩ := Nat.exists_eq_add_of_lt hfuel
    rw [itemsFrom, itemRun, List.nil_append, bind_ok (moreItems_end first rest)]
    rfl
  | @cons v a vs as head tail ih =>
    obtain ⟨fuel, rfl⟩ := Nat.exists_eq_add_of_lt hfuel
    have hrun : itemRun first (v :: vs) ++ ']' :: rest
        = (if first then [] else [',']) ++ (v.chars ++ (itemRun false vs ++ ']' :: rest)) := by
      rw [itemRun, itemChars_cons]
      simp
    -- behind the item there is a comma or the closing bracket, and either closes it
    have hitem := head _ (closes_itemRun vs rest)
    have hfewer : vs.length < (v :: vs).length + fuel := by
      simp only [List.length_cons]
      omega
    have hlater := ih hfewer false
    rw [hrun, itemsFrom, bind_ok (moreItems_item first v _), if_pos rfl, bind_ok hitem,
      bind_ok hlater]
    rfl

/-- **A list is read item by item.** -/
theorem reads_list {item : Reader α} {vs : List Json} {as : List α}
    (h : List.Forall₂ (Reads item) vs as) : Reads (Reader.list item) (.list vs) as := by
  intro rest _
  have hchars : (Json.list vs).chars ++ rest = '[' :: (itemChars vs ++ ']' :: rest) := by
    simp [chars]
  have hlength := length_le_itemChars vs
  have hfuel : vs.length < (itemChars vs ++ ']' :: rest).length + 1 := by
    simp only [List.length_append]
    omega
  have hrun := itemsFrom_itemRun h hfuel true rest
  rw [← itemChars_eq] at hrun
  rw [hchars, Reader.list, bind_ok (ahead_cons _ (by decide))]
  dsimp only
  rw [if_pos rfl, bind_ok (take_cons _ _), bind_ok (get_ok _), bind_ok hrun]
  rfl

/-- A list of values that are all written in one way. -/
theorem reads_list_map {item : Reader α} {toJson : α → Json} (h : ∀ a, Reads item (toJson a) a)
    (as : List α) : Reads (Reader.list item) (.list (as.map toJson)) as :=
  reads_list (List.forall₂_map_left_iff.mpr (List.forall₂_same.mpr fun a _ => h a))

/-- A list of texts is read back. -/
theorem reads_ofTexts (texts : List String) :
    Reads (Reader.list Reader.text) (ofTexts texts) texts :=
  reads_list_map reads_text texts

end LiveDesk.Json
