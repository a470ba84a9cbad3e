import LiveDesk.Proofs.Uuid
import Mathlib

/-!
# Spellings of identifiers

An identifier is written in one way and read in several: the digits may stand without hyphens, and
what is written with them may stand in braces or after a label; letters may be of either case. So a
text that is read as an identifier need not be the one that is written for it.

- `forms`, `Spells`: the four forms of an identifier, and the texts that are one of them in letters
  of either case.
- `digitValue?_eq_some`, `map_toLower_of_valueFrom`: digits of either case are read as the ones that
  are written for the same number.
- `unhyphenate?_eq_some`: what is left without the hyphens says what was there.
- **`parse?_eq_some`**: exactly the spellings of an identifier are read as it.
-/

namespace LiveDesk.Uuid

/-- The forms of an identifier in lower case: its digits, its written form, and the written form in
braces and after a label. -/
def forms (u : Uuid) : List (List Char) :=
  [digits 32 u.bits.toNat, u.chars, '{' :: (u.chars ++ ['}']), "urn:uuid:".toList ++ u.chars]

/-- The text is a form of the identifier, its letters aside, which may be of either case. -/
def Spells (text : String) (u : Uuid) : Prop :=
  text.toList.map Char.toLower ∈ u.forms

instance (text : String) (u : Uuid) : Decidable (Spells text u) :=
  inferInstanceAs (Decidable (_ ∈ _))

/-! ## Letters of either case -/

/-- Only what is no letter stands for something that is none. -/
theorem toLower_eq {c d : Char} (hd : d.isAlpha = false) : c.toLower = d ↔ c = d := by
  constructor
  · intro h
    have hc : c.isAlpha = false := by rw [← Char.isAlpha_toLower_eq_isAlpha, h, hd]
    rwa [Char.toLower_eq_of_not_isUpper fun hupper => by simp [Char.isAlpha, hupper] at hc] at h
  · rintro rfl
    exact Char.toLower_eq_of_not_isUpper fun hupper => by simp [Char.isAlpha, hupper] at hd

theorem digitValue?_ascii : ∀ n < 128,
    (∀ d ∈ digitValue? (Char.ofNat n), d < 16) ∧
      ∀ d < 16, digitValue? (Char.ofNat n) = some d ↔ (Char.ofNat n).toLower = digit d := by
  decide +kernel

/-- A digit has the value of the digit that it is in lower case. -/
theorem digitValue?_eq_some {c : Char} {d : Nat} :
    digitValue? c = some d ↔ d < 16 ∧ c.toLower = digit d := by
  by_cases hascii : c.toNat < 128
  · obtain ⟨hlt, hiff⟩ := digitValue?_ascii c.toNat hascii
    rw [Char.ofNat_toNat] at hlt hiff
    exact ⟨fun h => ⟨hlt d h, (hiff d (hlt d h)).mp h⟩, fun h => (hiff d h.1).mpr h.2⟩
  · -- no digit lies beyond ASCII
    have hupper : ¬ c.isUpper = true := by
      simp only [Char.isUpper, decide_eq_true_eq]
      rintro ⟨-, hle⟩
      exact hascii (Nat.lt_of_le_of_lt (UInt32.le_iff_toNat_le.mp hle) (by decide))
    have hdigit : ∀ k < 16, (digit k).toNat < 128 := by decide
    constructor
    · intro h
      have hnot : ∀ e : Char, e.toNat < 128 → ¬ c ≤ e := fun e he hle =>
        hascii (Nat.lt_of_le_of_lt (UInt32.le_iff_toNat_le.mp hle) he)
      rw [digitValue?, if_neg fun hc => hnot _ (by decide) hc.2,
        if_neg fun hc => hnot _ (by decide) hc.2, if_neg fun hc => hnot _ (by decide) hc.2] at h
      cases h
    · rintro ⟨hd, h⟩
      rw [Char.toLower_eq_of_not_isUpper hupper] at h
      exact absurd (h ▸ hdigit d hd) hascii

/-- Digits are read as the digits that they are in lower case. -/
theorem map_toLower_of_valueFrom {cs : List Char} {acc n : Nat} (h : valueFrom acc cs = some n) :
    cs.map Char.toLower = digits cs.length n ∧ n / 16 ^ cs.length = acc := by
  induction cs generalizing acc with
  | nil =>
    cases h
    exact ⟨rfl, Nat.div_one n⟩
  | cons c cs ih =>
    rw [valueFrom] at h
    cases hc : digitValue? c with
    | none => simp [hc] at h
    | some d =>
      rw [hc] at h
      obtain ⟨hd, hlower⟩ := digitValue?_eq_some.mp hc
      obtain ⟨hrest, hacc⟩ := ih h
      -- the value is read from the left, so the first digit is the highest one
      have hdigit : digit (n / 16 ^ cs.length) = digit d := by
        rw [hacc, digit, digit, Nat.mul_add_mod_of_lt hd, Nat.mod_eq_of_lt hd]
      refine ⟨?_, ?_⟩
      · rw [List.map_cons, hlower, hrest, ← hdigit]
        rfl
      · rw [List.length_cons, Nat.pow_succ, ← Nat.div_div_eq_div_mul, hacc]
        omega

theorem valueFrom_map_toLower (acc : Nat) (cs : List Char) :
    valueFrom acc (cs.map Char.toLower) = valueFrom acc cs := by
  induction cs generalizing acc with
  | nil => rfl
  | cons c cs ih =>
    have hc : digitValue? c.toLower = digitValue? c := Option.ext fun d => by
      rw [digitValue?_eq_some, digitValue?_eq_some, Char.toLower_toLower_eq_toLower]
    rw [List.map_cons, valueFrom, valueFrom, hc]
    cases digitValue? c with
    | none => rfl
    | some d => exact ih _

/-- The digits of an identifier are read as it, and nothing else is that has no hyphens. -/
theorem parseBare?_eq_some {cs : List Char} {u : Uuid} :
    parseBare? cs = some u ↔ cs.map Char.toLower = digits 32 u.bits.toNat := by
  constructor
  · intro h
    rw [parseBare?] at h
    split at h
    · next hlength =>
      obtain ⟨n, hn, rfl⟩ := Option.map_eq_some_iff.mp h
      obtain ⟨hdigits, hzero⟩ := map_toLower_of_valueFrom hn
      rw [hlength] at hdigits hzero
      have hlt : n < 2 ^ 128 := (Nat.div_eq_zero_iff.mp hzero).resolve_left (by decide)
      rw [hdigits, ofNat, BitVec.toNat_ofNat, Nat.mod_eq_of_lt hlt]
    · cases h
  · intro h
    have hlength : cs.length = 32 := by simpa using congrArg List.length h
    have hbits : u.bits.toNat % 16 ^ 32 = u.bits.toNat := Nat.mod_eq_of_lt u.bits.isLt
    rw [parseBare?, if_pos hlength, ← valueFrom_map_toLower, h, valueFrom_digits, hbits]
    simp [ofNat]

/-! ## Hyphens, braces and labels -/

/-- A list behind a place, up to another place and behind that one. -/
theorem drop_eq_take_append {α : Type} {l : List α} {k m : Nat} {a : α} (h : l[k + m]? = some a) :
    l.drop k = (l.drop k).take m ++ a :: l.drop (k + m + 1) := by
  obtain ⟨hlt, ha⟩ := List.getElem?_eq_some_iff.mp h
  have htail : (l.drop k).drop m = a :: l.drop (k + m + 1) := by
    rw [List.drop_drop, List.drop_eq_getElem_cons hlt, ha]
  rw [← htail, List.take_append_drop]

/-- What is read without hyphens has been in five groups with hyphens between them. -/
theorem unhyphenate?_eq_some {cs ds : List Char} (h : unhyphenate? cs = some ds) :
    ∃ a b c d e, a.length = 8 ∧ b.length = 4 ∧ c.length = 4 ∧ d.length = 4 ∧
      cs = a ++ '-' :: (b ++ '-' :: (c ++ '-' :: (d ++ '-' :: e))) ∧
      ds = a ++ (b ++ (c ++ (d ++ e))) := by
  rw [unhyphenate?] at h
  split at h
  · next hplaces =>
    obtain ⟨hlength, h8, h13, h18, h23⟩ := hplaces
    cases h
    refine ⟨cs.take 8, (cs.drop 9).take 4, (cs.drop 14).take 4, (cs.drop 19).take 4, cs.drop 24,
      by simp [hlength], by simp [hlength], by simp [hlength], by simp [hlength], ?_,
      by simp only [List.append_assoc]⟩
    rw [← drop_eq_take_append (k := 19) (m := 4) h23, ← drop_eq_take_append (k := 14) (m := 4) h18,
      ← drop_eq_take_append (k := 9) (m := 4) h13]
    exact drop_eq_take_append (k := 0) (m := 8) h8
  · cases h

/-- The hyphens can be put back in one way only. -/
theorem eq_of_unhyphenate? {cs cs' ds : List Char} (h : unhyphenate? cs = some ds)
    (h' : unhyphenate? cs' = some ds) : cs = cs' := by
  obtain ⟨a, b, c, d, e, ha, hb, hc, hd, rfl, rfl⟩ := unhyphenate?_eq_some h
  obtain ⟨a', b', c', d', e', ha', hb', hc', hd', rfl, hds⟩ := unhyphenate?_eq_some h'
  obtain ⟨rfl, hbcde⟩ := List.append_inj hds (ha.trans ha'.symm)
  obtain ⟨rfl, hcde⟩ := List.append_inj hbcde (hb.trans hb'.symm)
  obtain ⟨rfl, hde⟩ := List.append_inj hcde (hc.trans hc'.symm)
  obtain ⟨rfl, rfl⟩ := List.append_inj hde (hd.trans hd'.symm)
  rfl

theorem unhyphenate?_map_toLower (cs : List Char) :
    unhyphenate? (cs.map Char.toLower) = (unhyphenate? cs).map (List.map Char.toLower) := by
  have hhyphen : ∀ i : Nat, (cs.map Char.toLower)[i]? = some '-' ↔ cs[i]? = some '-' := by
    intro i
    rw [List.getElem?_map]
    cases cs[i]? with
    | none => simp
    | some c => simp [toLower_eq (c := c) (d := '-') (by decide)]
  rw [unhyphenate?, unhyphenate?]
  simp only [List.length_map, hhyphen]
  split
  · simp [List.map_take, List.map_drop]
  · rfl

/-- The written form of an identifier is read as it in letters of either case, and nothing else is
that has hyphens only. -/
theorem parseHyphenated?_eq_some {cs : List Char} {u : Uuid} :
    parseHyphenated? cs = some u ↔ cs.map Char.toLower = u.chars := by
  have hlower := unhyphenate?_map_toLower cs
  constructor
  · intro h
    obtain ⟨ds, hds, hbare⟩ := Option.bind_eq_some_iff.mp h
    rw [hds, Option.map_some, parseBare?_eq_some.mp hbare] at hlower
    exact eq_of_unhyphenate? hlower (unhyphenate?_chars u)
  · intro h
    rw [h, unhyphenate?_chars] at hlower
    obtain ⟨ds, hds, hdigits⟩ := Option.map_eq_some_iff.mp hlower.symm
    exact Option.bind_eq_some_iff.mpr ⟨ds, hds, parseBare?_eq_some.mpr hdigits⟩

theorem unbrace?_eq_some {cs ds : List Char} :
    unbrace? cs = some ds ↔ cs = '{' :: (ds ++ ['}']) := by
  constructor
  · intro h
    unfold unbrace? at h
    split at h
    · next cs =>
      split at h
      · next hlast =>
        cases h
        rw [List.dropLast_append_getLast? _ hlast]
      · cases h
    · cases h
  · rintro rfl
    simp [unbrace?]

theorem parseBraced?_eq_some {cs : List Char} {u : Uuid} :
    (unbrace? cs).bind parseHyphenated? = some u ↔
      cs.map Char.toLower = '{' :: (u.chars ++ ['}']) := by
  simp only [Option.bind_eq_some_iff, unbrace?_eq_some, parseHyphenated?_eq_some]
  constructor
  · rintro ⟨ds, rfl, hds⟩
    rw [List.map_cons, List.map_append, hds]
    rfl
  · intro h
    obtain ⟨open', rest, rfl, hopen, hrest⟩ := List.map_eq_cons_iff.mp h
    obtain ⟨ds, closing, rfl, hds, hclosing⟩ := List.map_eq_append_iff.mp hrest
    obtain ⟨close, rfl, hclose⟩ := List.map_eq_singleton_iff.mp hclosing
    rw [toLower_eq (by decide)] at hopen hclose
    exact ⟨ds, by rw [hopen, hclose], hds⟩

theorem parseLabelled?_eq_some {cs : List Char} {u : Uuid} :
    (unlabel? cs).bind parseHyphenated? = some u ↔
      cs.map Char.toLower = "urn:uuid:".toList ++ u.chars := by
  have hsplit : cs.map Char.toLower =
      (cs.take 9).map Char.toLower ++ (cs.drop 9).map Char.toLower := by
    rw [← List.map_append, List.take_append_drop]
  constructor
  · intro h
    obtain ⟨ds, hds, hu⟩ := Option.bind_eq_some_iff.mp h
    rw [unlabel?] at hds
    split at hds
    · next hlabel =>
      cases hds
      rw [hsplit, hlabel, parseHyphenated?_eq_some.mp hu]
    · cases hds
  · intro h
    have hlength : cs.length = 45 := by simpa [length_chars] using congrArg List.length h
    obtain ⟨hlabel, hchars⟩ := List.append_inj (hsplit.symm.trans h) (by simp [hlength])
    rw [unlabel?, if_pos hlabel]
    exact parseHyphenated?_eq_some.mpr hchars

/-- **Exactly the spellings of an identifier are read as it.** -/
theorem parse?_eq_some {text : String} {u : Uuid} : parse? text = some u ↔ Spells text u := by
  simp only [Spells, forms, List.mem_cons, List.not_mem_nil, or_false]
  rw [parse?, ← parseBare?_eq_some, ← parseHyphenated?_eq_some, ← parseBraced?_eq_some,
    ← parseLabelled?_eq_some]
  generalize text.toList = cs
  constructor
  · intro h
    unfold parseChars? at h
    split at h
    · exact .inl h
    · exact .inr (.inl h)
    · exact .inr (.inr (.inl h))
    · exact .inr (.inr (.inr h))
    · cases h
  · -- the length says which form it is
    unfold parseChars?
    rintro (h | h | h | h)
    · have hlength : cs.length = 32 := by
        simpa using congrArg List.length (parseBare?_eq_some.mp h)
      rwa [hlength]
    · have hlength : cs.length = 36 := by
        simpa [length_chars] using congrArg List.length (parseHyphenated?_eq_some.mp h)
      rwa [hlength]
    · have hlength : cs.length = 38 := by
        simpa [length_chars] using congrArg List.length (parseBraced?_eq_some.mp h)
      rwa [hlength]
    · have hlength : cs.length = 45 := by
        simpa [length_chars] using congrArg List.length (parseLabelled?_eq_some.mp h)
      rwa [hlength]

end LiveDesk.Uuid
