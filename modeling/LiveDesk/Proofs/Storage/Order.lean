import LiveDesk.Proofs.Storage.Rows
import Mathlib

/-!
# The order of the engine

The engine compares cells of any types, and that by cases. All of it is one linear order, that of a
rank: the kind of a cell first, then its number, exactly, then its bytes.

- `Binary.value`, `Binary.compares`: numbers are compared by value.
- `charBytes_append_lt`, `ranks_encoded_lt`: texts are in the order of their bytes.
- `Cell.rank`, **`Cell.compares`**: what cells are ordered by.
- `Row.place`, `Row.isBefore_iff`: the place of a row in a list, the later time first, then the
  lesser identifier; `Row.place_le_iff` says so of rows with texts and whole numbers.
- **`Row.sorted_mergeSort`**, `Row.eq_of_sorted`: rows are listed in the order of their places, and
  there is one such list if no two rows have identifiers of the same rank.
-/

namespace LiveDesk.Storage

section Comparisons

variable {α β : Type} [LinearOrder α] [LinearOrder β] {o o' : Ordering} {a b : α}

/-- What is ordered by one thing first and then by another is compared so. -/
theorem compares_then {γ : Type} [LinearOrder γ] {x y : γ} {c d : β}
    (hlt : a < b ∨ a = b ∧ c < d → x < y) (hgt : b < a ∨ b = a ∧ d < c → y < x)
    (heq : a = b → c = d → x = y) (h : o.Compares a b) (h' : o'.Compares c d) :
    (o.then o').Compares x y := by
  cases o with
  | lt => exact hlt (.inl h)
  | gt => exact hgt (.inl h)
  | eq =>
    cases o' with
    | lt => exact hlt (.inr ⟨h, h'⟩)
    | gt => exact hgt (.inr ⟨h.symm, h'⟩)
    | eq => exact heq h h'

/-- Pairs are compared by their first parts, then by their second ones. -/
theorem compares_toLex {c d : β} (h : o.Compares a b) (h' : o'.Compares c d) :
    (o.then o').Compares (toLex (a, c)) (toLex (b, d)) :=
  compares_then Prod.Lex.toLex_lt_toLex.mpr Prod.Lex.toLex_lt_toLex.mpr (by rintro rfl rfl; rfl)
    h h'

/-- Lists are compared by their first elements, then by the others. -/
theorem compares_cons {as bs : List α} (h : o.Compares a b) (h' : o'.Compares as bs) :
    (o.then o').Compares (a :: as) (b :: bs) :=
  compares_then List.cons_lt_cons_iff.mpr List.cons_lt_cons_iff.mpr (by rintro rfl rfl; rfl) h h'

/-- A strictly monotone map respects comparison. -/
theorem compares_strictMono {f : α → β} (hf : StrictMono f) (h : o.Compares a b) :
    o.Compares (f a) (f b) := by
  cases o with
  | lt => exact hf h
  | gt => exact hf h
  | eq => exact congrArg f h

theorem compares_compare (a b : α) : (compare a b).Compares a b :=
  (compare_iff a b).mp rfl

end Comparisons

/-! ## Numbers -/

namespace Binary

/-- The number as a fraction. -/
def value (x : Binary) : ℚ :=
  x.mantissa * 2 ^ x.exponent

theorem value_int (n : ℤ) : (⟨n, 0⟩ : Binary).value = n := by
  simp [value]

/-- Numbers are compared by value. -/
theorem compares (x y : Binary) : (x.compare y).Compares x.value y.value := by
  -- both are compared as multiples of the lower power of two
  have hscaled : ∀ (z : Binary) (low : ℤ), low ≤ z.exponent →
      z.value = ((z.mantissa * Nat.pow 2 (z.exponent - low).toNat : ℤ) : ℚ) * 2 ^ low := by
    intro z low hlow
    obtain ⟨k, hk⟩ := Int.le.dest hlow
    have hpow : (Nat.pow 2 k : ℤ) = 2 ^ k := by norm_cast
    rw [value, ← hk, add_sub_cancel_left, Int.toNat_natCast, Int.cast_mul, hpow,
      zpow_add₀ two_ne_zero, mul_assoc, mul_comm (2 ^ low)]
    norm_cast
  have hmono : ∀ low : ℤ, StrictMono fun n : ℤ => (n : ℚ) * 2 ^ low := fun low =>
    (Int.cast_strictMono (R := ℚ)).mul_const (zpow_pos two_pos low)
  rw [hscaled x _ (min_le_left x.exponent y.exponent),
    hscaled y _ (min_le_right x.exponent y.exponent)]
  exact compares_strictMono (hmono _) (compares_compare _ _)

/-- A binary number is compared with a whole number by its value. -/
theorem compares_int (x : Binary) (n : ℤ) : (x.compareInt n).Compares x.value n := by
  have h := x.compares ⟨n, 0⟩
  rwa [value_int] at h

end Binary

/-! ## Texts -/

/-- The bytes of the character with the given number. -/
def charBytes (v : ℕ) : List ℕ :=
  if v < 128 then [v]
  else if v < 2048 then [v / 64 + 192, v % 64 + 128]
  else if v < 65536 then [v / 64 / 64 + 224, v / 64 % 64 + 128, v % 64 + 128]
  else [v / 64 / 64 / 64 + 240, v / 64 / 64 % 64 + 128, v / 64 % 64 + 128, v % 64 + 128]

theorem charBytes_ne_nil (v : ℕ) : charBytes v ≠ [] := by
  unfold charBytes
  split_ifs <;> simp

/-- The bytes of a character by its code. -/
theorem map_toNat_utf8EncodeChar (c : Char) :
    (String.utf8EncodeChar c).map UInt8.toNat = charBytes c.toNat := by
  have hc : c.toNat ≤ 1114111 := c.toNat_le_max
  simp only [String.utf8EncodeChar, charBytes, Char.toNat_val]
  generalize c.toNat = v at hc
  split_ifs <;> first | omega | skip
  all_goals simp [Nat.div_div_eq_div_mul]
  all_goals omega

/-- The lesser character has the lesser bytes, whatever comes behind them. -/
theorem charBytes_append_lt {v w : ℕ} (h : v < w) (as bs : List ℕ) :
    charBytes v ++ as < charBytes w ++ bs := by
  -- the bytes are the digits to base 64, the first one aside
  have hdigit : ∀ v w : ℕ, v < w → v / 64 < w / 64 ∨ v / 64 = w / 64 ∧ v % 64 < w % 64 := by omega
  have hthree := hdigit v w h
  have htwo := hdigit (v / 64) (w / 64)
  have hone := hdigit (v / 64 / 64) (w / 64 / 64)
  unfold charBytes
  split_ifs <;> simp only [List.cons_append, List.nil_append, List.cons_lt_cons_iff] <;> omega

/-- Bytes as numbers. -/
def ranks (bytes : List UInt8) : List ℕ :=
  bytes.map UInt8.toNat

/-- Bytes are compared as the lists of their ranks. -/
theorem compares_bytes (as bs : List UInt8) :
    (Cell.compareBytes as bs).Compares (ranks as) (ranks bs) := by
  induction as generalizing bs with
  | nil =>
    cases bs with
    | nil => exact (rfl : ranks [] = ranks [])
    | cons b bs => exact List.nil_lt_cons b.toNat (ranks bs)
  | cons a as ih =>
    cases bs with
    | nil => exact List.nil_lt_cons a.toNat (ranks as)
    | cons b bs => exact compares_cons (compares_compare a.toNat b.toNat) (ih bs)

/-- Texts stand in the order of their bytes. -/
theorem ranks_flatMap_lt {cs ds : List Char} (h : cs < ds) :
    ranks (cs.flatMap String.utf8EncodeChar) < ranks (ds.flatMap String.utf8EncodeChar) := by
  have hcons : ∀ (c : Char) (cs : List Char), ranks ((c :: cs).flatMap String.utf8EncodeChar) =
      charBytes c.toNat ++ ranks (cs.flatMap String.utf8EncodeChar) := fun c cs => by
    rw [List.flatMap_cons, ranks, List.map_append, map_toNat_utf8EncodeChar]
    rfl
  induction ds generalizing cs with
  | nil => cases h
  | cons d ds ih =>
    rw [hcons]
    cases cs with
    | nil =>
      obtain ⟨b, bs, hb⟩ := List.exists_cons_of_ne_nil (charBytes_ne_nil d.toNat)
      rw [hb]
      exact List.nil_lt_cons _ _
    | cons c cs =>
      rw [hcons]
      -- the first characters decide by their bytes, or the rest does
      obtain hcd | ⟨rfl, hlt⟩ := List.cons_lt_cons_iff.mp h
      · exact charBytes_append_lt (UInt32.lt_iff_toNat_lt.mp hcd) _ _
      · exact List.append_left_lt (ih hlt)

/-- Texts are in the order of their bytes. -/
theorem ranks_encoded_lt {s t : String} (h : s < t) :
    ranks (Cell.encoded s) < ranks (Cell.encoded t) :=
  ranks_flatMap_lt h

/-- **Texts are compared as their bytes are.** -/
theorem compares_text (s t : String) :
    (if s < t then Ordering.lt else if s = t then .eq else .gt).Compares
      (ranks (Cell.encoded s)) (ranks (Cell.encoded t)) := by
  split_ifs with hlt heq
  · exact ranks_encoded_lt hlt
  · exact congrArg (fun s => ranks (Cell.encoded s)) heq
  · exact ranks_encoded_lt (lt_of_le_of_ne (not_lt.mp hlt) (Ne.symm heq))

/-! ## Cells -/

namespace Cell

/-- What cells are ordered by: their kinds, numbers and bytes. -/
abbrev Rank := ℕ ×ₗ ℚ ×ₗ List ℕ

/-- What a cell is ordered by: nothing comes first, then numbers, texts and bytes. -/
def rank : Cell → Rank
  | .null => toLex (0, toLex (0, []))
  | .int n => toLex (1, toLex ((n.toInt : ℚ), []))
  | .real x => toLex (1, toLex (x.value, []))
  | .text s => toLex (2, toLex (0, ranks (encoded s)))
  | .garbled bytes => toLex (2, toLex (0, ranks bytes))
  | .blob bytes => toLex (3, toLex (0, ranks bytes))

section Kinds

variable {o : Ordering}

/-- Cells of different kinds are compared by their kinds. -/
theorem compares_kind {m n : ℕ} (h : m < n) (x y : ℚ ×ₗ List ℕ) :
    Ordering.lt.Compares (toLex (m, x) : Rank) (toLex (n, y)) :=
  Prod.Lex.toLex_lt_toLex.mpr (.inl h)

/-- Numbers are compared by their values. -/
theorem compares_number {x y : ℚ} (h : o.Compares x y) :
    o.Compares (toLex (1, toLex (x, [])) : Rank) (toLex (1, toLex (y, []))) := by
  have hvalue : (o.then .eq).Compares (toLex (x, ([] : List ℕ))) (toLex (y, [])) :=
    compares_toLex h rfl
  rw [Ordering.then_eq] at hvalue
  exact compares_toLex (o := .eq) rfl hvalue

theorem compares_ranks {as bs : List ℕ} (kind : ℕ) (h : o.Compares as bs) :
    o.Compares (toLex (kind, toLex (0, as)) : Rank) (toLex (kind, toLex (0, bs))) :=
  compares_toLex (o := .eq) rfl (compares_toLex (o := .eq) rfl h)

end Kinds

/-- **Cells are in the order of their ranks.** -/
theorem compares (a b : Cell) : (a.compare b).Compares a.rank b.rank := by
  cases a with
  | null =>
    cases b with
    | null => exact (rfl : rank .null = rank .null)
    | int | real | text | garbled | blob => exact compares_kind (by decide) _ _
  | int m =>
    cases b with
    | int n =>
      exact compares_number (compares_strictMono Int.cast_strictMono (compares_compare _ _))
    | real y => exact compares_number (Ordering.compares_swap.mpr (y.compares_int _))
    | null | text | garbled | blob => exact compares_kind (by decide) _ _
  | real x =>
    cases b with
    | int n => exact compares_number (x.compares_int _)
    | real y => exact compares_number (x.compares y)
    | null | text | garbled | blob => exact compares_kind (by decide) _ _
  | text s =>
    cases b with
    | text t => exact compares_ranks 2 (compares_text s t)
    | garbled bs => exact compares_ranks 2 (compares_bytes _ bs)
    | null | int | real | blob => exact compares_kind (by decide) _ _
  | garbled as =>
    cases b with
    | text t => exact compares_ranks 2 (compares_bytes as _)
    | garbled bs => exact compares_ranks 2 (compares_bytes as bs)
    | null | int | real | blob => exact compares_kind (by decide) _ _
  | blob as =>
    cases b with
    | blob bs => exact compares_ranks 3 (compares_bytes as bs)
    | null | int | real | text | garbled => exact compares_kind (by decide) _ _

end Cell

/-! ## Rows -/

namespace Row

/-- What rows are listed by: the later time first, then the lesser identifier. -/
def place (r : Row) : Cell.Rankᵒᵈ ×ₗ Cell.Rank :=
  toLex (OrderDual.toDual r.updatedAt.rank, r.uuid.rank)

/-- A row stands before another one if its place is not behind. -/
theorem isBefore_iff {a b : Row} : a.isBefore b = true ↔ a.place ≤ b.place := by
  rw [isBefore, Ordering.isLE_then_iff_or, place, place, Prod.Lex.toLex_le_toLex]
  have htime := b.updatedAt.compares a.updatedAt
  have huuid := a.uuid.compares b.uuid
  rw [Ordering.isLE_iff_ne_gt]
  exact or_congr htime.eq_lt (and_congr (htime.eq_eq.trans eq_comm) huuid.ne_gt)

/-- Rows with texts and whole numbers in their places are listed by these. -/
theorem place_le_iff {a b : Row} {s t : String} {m n : Int64} (ha : a.uuid = .text s)
    (hb : b.uuid = .text t) (hm : a.updatedAt = .int m) (hn : b.updatedAt = .int n) :
    a.place ≤ b.place ↔ n.toInt < m.toInt ∨ n.toInt = m.toInt ∧ s ≤ t := by
  obtain ⟨_, name, spec, _⟩ := a
  obtain ⟨_, name', spec', _⟩ := b
  cases ha
  cases hb
  cases hm
  cases hn
  rw [← isBefore_iff, isBefore_text, Key.le, decide_eq_true_iff]

/-- The rows stand in the order of a list. -/
def Sorted (rows : List Row) : Prop :=
  rows.Pairwise fun a b => a.place ≤ b.place

/-- The rows of a table can be sorted by their places. -/
theorem sorted_mergeSort (rows : List Row) : Sorted (rows.mergeSort isBefore) := by
  have hsorted : (rows.mergeSort isBefore).Pairwise fun a b => a.isBefore b = true := by
    refine List.pairwise_mergeSort (fun a b c hab hbc => ?_) (fun a b => ?_) rows
    · rw [isBefore_iff] at *
      exact hab.trans hbc
    · rw [Bool.or_eq_true, isBefore_iff, isBefore_iff]
      exact le_total _ _
  exact hsorted.imp isBefore_iff.mp

/-- Rows with different identifiers stand in one order only. -/
theorem eq_of_sorted {rows listed other : List Row} (hnodup : (rows.map (·.uuid.rank)).Nodup)
    (hlisted : listed.Perm rows) (hother : other.Perm rows) (hsorted : Sorted listed)
    (hsorted' : Sorted other) : other = listed := by
  refine List.Perm.eq_of_pairwise (fun a b ha hb hab hba => ?_) hsorted' hsorted
    (hother.trans hlisted.symm)
  have huuid : a.uuid.rank = b.uuid.rank := congrArg (fun p => (ofLex p).2) (le_antisymm hab hba)
  exact List.inj_on_of_nodup_map hnodup (hother.mem_iff.mp ha) (hlisted.mem_iff.mp hb) huuid

end Row

end LiveDesk.Storage
