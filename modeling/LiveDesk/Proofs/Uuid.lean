import LiveDesk.Uuid
import Mathlib.Data.List.Basic
import Mathlib.Tactic.Ring

/-!
# Reading written identifiers

An identifier is read back from its written form (`Uuid.parse?_text`), so that **different
identifiers are written differently** (`Uuid.text_injective`). The written form is 32 digits with
four hyphens: without the hyphens it is the digits of one number (`Uuid.unhyphenate?_chars`), and
the digits of a number are read as that number (`Uuid.valueFrom_digits`).
-/

namespace LiveDesk.Uuid

/-! ## Digits -/

/-- A digit is read back as the number that it was written for. -/
theorem digitValue?_digit (n : Nat) : digitValue? (digit n) = some (n % 16) := by
  have all : ∀ k < 16, digitValue? ("0123456789abcdef".toList.getD k '0') = some k := by decide
  exact all (n % 16) (Nat.mod_lt n (by decide))

/-- As many digits are written as were asked for. -/
@[simp] theorem length_digits (count n : Nat) : (digits count n).length = count := by
  induction count with
  | zero => rfl
  | succ count ih => simp [digits, ih]

/-- A run of digits splits where the number is divided. -/
theorem digits_append (high low n : Nat) :
    digits high (n / 16 ^ low) ++ digits low n = digits (high + low) n := by
  induction high with
  | zero => simp [digits]
  | succ high ih =>
    have hpow : n / 16 ^ low / 16 ^ high = n / 16 ^ (high + low) := by
      rw [Nat.div_div_eq_div_mul, Nat.pow_add, Nat.mul_comm]
    rw [Nat.succ_add, digits, digits, List.cons_append, ih]
    exact congrArg (digit · :: _) hpow

/-- Reading the digits of a number continues a number by them. -/
theorem valueFrom_digits (acc count n : Nat) :
    valueFrom acc (digits count n) = some (acc * 16 ^ count + n % 16 ^ count) := by
  induction count generalizing acc with
  | zero => simp [digits, valueFrom, Nat.mod_one]
  | succ count ih =>
    have hsplit : n % 16 ^ (count + 1) = n % 16 ^ count + 16 ^ count * (n / 16 ^ count % 16) := by
      rw [Nat.pow_succ, Nat.mod_mul]
    rw [digits, valueFrom, digitValue?_digit, Nat.pow_eq]
    simp only [ih, hsplit, Option.some.injEq]
    ring

/-! ## The written form -/

/-- Five groups with hyphens between them, of the lengths of a written identifier. -/
theorem unhyphenate?_groups {a b c d e : List Char} (ha : a.length = 8) (hb : b.length = 4)
    (hc : c.length = 4) (hd : d.length = 4) (he : e.length = 12) :
    unhyphenate? (a ++ '-' :: b ++ '-' :: c ++ '-' :: d ++ '-' :: e) =
      some (a ++ b ++ c ++ d ++ e) := by
  simp [unhyphenate?, List.drop_append, List.drop_eq_nil_of_le, ha, hb, hc, hd,
    he]

/-- Taking the hyphens out of the written form leaves the 32 digits. -/
theorem unhyphenate?_chars (u : Uuid) :
    unhyphenate? u.chars = some (digits 32 u.bits.toNat) := by
  have groups : digits 8 (u.bits.toNat / 16 ^ 24) ++ digits 4 (u.bits.toNat / 16 ^ 20) ++
      digits 4 (u.bits.toNat / 16 ^ 16) ++ digits 4 (u.bits.toNat / 16 ^ 12) ++
      digits 12 u.bits.toNat = digits 32 u.bits.toNat := by
    simp only [List.append_assoc, digits_append 4 12, digits_append 4 16, digits_append 4 20,
      digits_append 8 24]
  rw [← groups]
  exact unhyphenate?_groups (by simp) (by simp) (by simp) (by simp) (by simp)

/-- The written form has 36 characters. -/
theorem length_chars (u : Uuid) : u.chars.length = 36 := by
  simp [chars]

theorem parseChars?_chars (u : Uuid) : parseChars? u.chars = some u := by
  have hbits : u.bits.toNat % 16 ^ 32 = u.bits.toNat := Nat.mod_eq_of_lt u.bits.isLt
  have hbare : parseBare? (digits 32 u.bits.toNat) = some u := by
    rw [parseBare?, if_pos (length_digits 32 _), valueFrom_digits, hbits]
    simp [ofNat]
  unfold parseChars?
  rw [length_chars]
  show (unhyphenate? u.chars).bind parseBare? = some u
  rw [unhyphenate?_chars, Option.bind_some, hbare]

/-- **An identifier is read back from its written form.** -/
theorem parse?_text (u : Uuid) : parse? u.text = some u := by
  rw [parse?, text, String.toList_ofList, parseChars?_chars]

/-- Different identifiers have different written forms. -/
theorem text_injective {u v : Uuid} (h : u.text = v.text) : u = v := by
  have hparse : some u = some v := by rw [← parse?_text u, h, parse?_text]
  exact Option.some.inj hparse

@[simp] theorem text_inj {u v : Uuid} : u.text = v.text ↔ u = v :=
  ⟨text_injective, congrArg text⟩

end LiveDesk.Uuid
