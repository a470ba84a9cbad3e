import LiveDesk.Json.Record
import Mathlib.Tactic.SplitIfs

/-!
# Reading written texts

A text between quotes is read back whatever its characters are (`Reader.textTail_quoted`): what the
writer makes of one character, the character itself or an escape, is read as this character
(`Reader.textFrom_quoteChar`). Beside it stand the steps that every reader is made of.
-/

namespace LiveDesk.Json

namespace Reader

variable {α β : Type}

/-! ## Steps of a reader -/

theorem bind_ok {r : Reader α} {a : α} {cs rest : List Char} (h : r cs = .ok (a, rest))
    (f : α → Reader β) : (r >>= f) cs = f a rest := by
  simp [bind, StateT.bind, Except.bind, h]

theorem ahead_cons {c : Char} (cs : List Char) (h : isGap c = false) :
    ahead (c :: cs) = .ok (some c, c :: cs) := by
  simp [ahead, h]

theorem take_cons (c : Char) (cs : List Char) : take (c :: cs) = .ok ((), cs) := rfl

/-! ## Characters inside quotes -/

theorem hexValue?_hexDigit (n : Nat) : hexValue? (hexDigit n) = some (n % 16) := by
  have all : ∀ k < 16, hexValue? ("0123456789abcdef".toList.getD k '0') = some k := by decide
  exact all (n % 16) (Nat.mod_lt n (by decide))

/-- The code of a control character, in four digits. -/
theorem fourDigits_control {n : Nat} (h : n < 0x20) (cs : List Char) :
    fourDigits ('0' :: '0' :: hexDigit (n / 16) :: hexDigit n :: cs) = .ok n := by
  have hzero : hexValue? '0' = some 0 := by decide
  have hsum : n / 16 % 16 * 16 + n % 16 = n := by omega
  simp [fourDigits, hzero, hexValue?_hexDigit, hsum]

theorem codeEscape_control {c : Char} (h : c.toNat < 0x20) (cs : List Char) :
    codeEscape ('0' :: '0' :: hexDigit (c.toNat / 16) :: hexDigit c.toNat :: cs) = .ok (c, 4) := by
  have hlow : isLowHalf c.toNat = false := by simp [isLowHalf]; omega
  have hhigh : isHighHalf c.toNat = false := by simp [isHighHalf]; omega
  simp [codeEscape, fourDigits_control h, hlow, hhigh]

/-- An escape of one letter is read as its character. -/
theorem textFrom_letter {l c : Char} {cs ds rest : List Char} (hl : l ≠ 'u')
    (hc : letterEscape? l = some c) (h : textFrom 0 cs = .ok (ds, rest)) :
    textFrom 0 ('\\' :: l :: cs) = .ok (c :: ds, rest) := by
  simp [textFrom, escape, hl, hc, h]

/-- An escape by a code is read as its character. -/
theorem textFrom_control {c : Char} {cs ds rest : List Char} (hc : c.toNat < 0x20)
    (h : textFrom 0 cs = .ok (ds, rest)) :
    textFrom 0 ('\\' :: 'u' :: '0' :: '0' :: hexDigit (c.toNat / 16) :: hexDigit c.toNat :: cs) =
      .ok (c :: ds, rest) := by
  simp [textFrom, escape, codeEscape_control hc, h]

/-- A character that needs no escape stands for itself. -/
theorem textFrom_plain {c : Char} {cs ds rest : List Char} (hquote : c ≠ '"') (hslash : c ≠ '\\')
    (hc : ¬ c.toNat < 0x20) (h : textFrom 0 cs = .ok (ds, rest)) :
    textFrom 0 (c :: cs) = .ok (c :: ds, rest) := by
  simp [textFrom, hquote, hslash, hc, h]

/-- What is written for a character is read as this character. -/
theorem textFrom_quoteChar (c : Char) {cs ds rest : List Char}
    (h : textFrom 0 cs = .ok (ds, rest)) :
    textFrom 0 (quoteChar c ++ cs) = .ok (c :: ds, rest) := by
  -- One case for each branch of the writer, in its order.
  unfold quoteChar
  split_ifs with h1 h2 h3 h4 h5 h6 h7 h8
  · exact textFrom_letter (by decide) (by subst h1; decide) h
  · exact textFrom_letter (by decide) (by subst h2; decide) h
  · exact textFrom_letter (by decide) (by subst h3; decide) h
  · exact textFrom_letter (by decide) (by subst h4; decide) h
  · exact textFrom_letter (by decide) (by subst h5; decide) h
  · exact textFrom_letter (by decide) (by subst h6; decide) h
  · exact textFrom_letter (by decide) (by subst h7; decide) h
  · exact textFrom_control h8 h
  · exact textFrom_plain h1 h2 h8 h

theorem textFrom_quoted (cs rest : List Char) :
    textFrom 0 (cs.flatMap quoteChar ++ '"' :: rest) = .ok (cs, rest) := by
  induction cs with
  | nil => simp [textFrom]
  | cons c cs ih =>
    rw [List.flatMap_cons, List.append_assoc]
    exact textFrom_quoteChar c ih

/-- A text is read back from behind its opening quote. -/
theorem textTail_quoted (s : String) (rest : List Char) :
    textTail (s.toList.flatMap quoteChar ++ '"' :: rest) = .ok (s, rest) := by
  simp [textTail, textFrom_quoted]

end Reader

end LiveDesk.Json
