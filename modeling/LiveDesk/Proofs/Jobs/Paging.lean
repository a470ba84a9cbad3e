import LiveDesk.Feature.Jobs
import Mathlib.Algebra.Group.Nat.Defs

/-!
# Rows behind a page

Whether rows exist behind a page is decided in 64 bits, by a product of two numbers of 32 bits and
the number of rows on the page.

- `reach`: the number of rows up to the end of a page, as a natural number; `State.reach`: that of
  the page at hand.
- `toNat_offset`: the rows before a page never exceed 64 bits.
- `reach_lt_iff`: how many rows a page may have so that the sum fits for every filter.
- **`hasMore_exact`**: below that bound the decision is the one over the natural numbers.
- `hasMore_exact_full`: two pages at the bound.
-/

namespace LiveDesk.Jobs

/-- The number of rows up to the end of a page with `n` rows. -/
def reach (filter : JobFilter) (n : Nat) : Nat :=
  filter.page.toNat * filter.pageSize.toNat + n

namespace State

/-- The number of rows up to the end of the page at hand. -/
def reach (s : State) : Nat :=
  Jobs.reach s.filter s.items.length

end State

/-! ## The rows before a page -/

/-- The largest product is that of the largest page and the largest page size. -/
theorem product_le (a b : UInt32) : a.toNat * b.toNat ≤ (2 ^ 32 - 1) * (2 ^ 32 - 1) := by
  have ha := a.toNat_lt
  have hb := b.toNat_lt
  exact Nat.mul_le_mul (by omega) (by omega)

theorem toNat_offset (filter : JobFilter) :
    filter.offset.toNat = filter.page.toNat * filter.pageSize.toNat := by
  have hle := product_le filter.page filter.pageSize
  rw [JobFilter.offset, UInt64.toNat_mul, UInt32.toNat_toUInt64, UInt32.toNat_toUInt64]
  exact Nat.mod_eq_of_lt (by omega)

/-! ## The rows up to its end -/

/-- The last page of the largest size has the largest number of rows before it. -/
def lastFilter : JobFilter :=
  { status := none, search := "", page := 0xffffffff, pageSize := 0xffffffff }

theorem reach_lastFilter (n : Nat) : reach lastFilter n = (2 ^ 32 - 1) * (2 ^ 32 - 1) + n := rfl

/-- A page may have so many rows that the sum fits in 64 bits whatever the filter is. -/
theorem reach_lt_iff {n : Nat} : (∀ filter, reach filter n < 2 ^ 64) ↔ n < 2 ^ 33 - 1 := by
  constructor
  · intro h
    have hlast := h lastFilter
    rw [reach_lastFilter] at hlast
    omega
  · intro h filter
    have hle := product_le filter.page filter.pageSize
    rw [reach]
    omega

/-- The sum in 64 bits. -/
theorem toNat_end (s : State) :
    (s.filter.offset + UInt64.ofNat s.items.length).toNat = s.reach % 2 ^ 64 := by
  rw [UInt64.toNat_add, toNat_offset, UInt64.toNat_ofNat', Nat.add_mod_mod, State.reach, reach]

theorem toNat_end_of_lt {s : State} (h : s.reach < 2 ^ 64) :
    (s.filter.offset + UInt64.ofNat s.items.length).toNat = s.reach := by
  rw [toNat_end, Nat.mod_eq_of_lt h]

theorem hasMore_iff {s : State} (h : s.reach < 2 ^ 64) :
    s.hasMore = true ↔ s.reach < s.total.toNat := by
  rw [State.hasMore, decide_eq_true_iff, UInt64.lt_iff_toNat_lt, toNat_end_of_lt h]

/-- **Whether rows exist behind a page is decided exactly.** For every page at hand:

- the number of rows before it fits in 64 bits;
- with fewer than `2 ^ 33 - 1` rows on it, the number of rows up to its end fits as well, and rows
  exist behind it if and only if this number is below the total;
- no larger number of rows would do for every filter: on the last page of the largest size
  `2 ^ 33 - 1` rows reach `2 ^ 64` exactly, which is zero in 64 bits. -/
theorem hasMore_exact :
    (∀ s : State, s.filter.offset.toNat = s.filter.page.toNat * s.filter.pageSize.toNat ∧
      s.filter.page.toNat * s.filter.pageSize.toNat < 2 ^ 64) ∧
    (∀ s : State, s.items.length < 2 ^ 33 - 1 →
      s.reach < 2 ^ 64 ∧
      (s.filter.offset + UInt64.ofNat s.items.length).toNat = s.reach ∧
      (s.hasMore = true ↔
        s.filter.page.toNat * s.filter.pageSize.toNat + s.items.length < s.total.toNat)) ∧
    (∀ n, (∀ filter, reach filter n < 2 ^ 64) ↔ n < 2 ^ 33 - 1) ∧
    (∀ s : State, s.filter.page.toNat = 2 ^ 32 - 1 → s.filter.pageSize.toNat = 2 ^ 32 - 1 →
      s.items.length = 2 ^ 33 - 1 →
      s.reach = 2 ^ 64 ∧ s.filter.offset + UInt64.ofNat s.items.length = 0) := by
  refine ⟨fun s => ⟨toNat_offset s.filter, ?_⟩, fun s hlength => ?_, fun n => reach_lt_iff,
    fun s hpage hsize hlength => ?_⟩
  · rw [← toNat_offset]
    exact UInt64.toNat_lt _
  · have hreach : s.reach < 2 ^ 64 := reach_lt_iff.mpr hlength s.filter
    exact ⟨hreach, toNat_end_of_lt hreach, hasMore_iff hreach⟩
  · have hreach : s.reach = 2 ^ 64 := by
      have hsum : s.reach =
          s.filter.page.toNat * s.filter.pageSize.toNat + s.items.length := rfl
      rw [hpage, hsize, hlength] at hsum
      omega
    refine ⟨hreach, UInt64.toNat.inj ?_⟩
    rw [toNat_end, hreach]
    rfl

section Examples

/-- The last page of the largest size with a number of equal jobs, of as many rows as 64 bits can
count. -/
def farPage (n : Nat) : State :=
  { items := List.replicate n default, total := 0xffffffffffffffff, filter := lastFilter,
    isLoading := false, isLoaded := true }

theorem length_farPage (n : Nat) : (farPage n).items.length = n := List.length_replicate

/-- With one row less than the most that 64 bits can count, one row is left; with this number, none
is; and one row more does not fit. -/
theorem hasMore_exact_full :
    (farPage (2 ^ 33 - 3)).items.length < 2 ^ 33 - 1 ∧
      (farPage (2 ^ 33 - 3)).hasMore = true ∧
    (farPage (2 ^ 33 - 2)).items.length < 2 ^ 33 - 1 ∧
      (farPage (2 ^ 33 - 2)).hasMore = false ∧
    (farPage (2 ^ 33 - 1)).reach = 2 ^ 64 := by
  obtain ⟨-, hexact, -, htight⟩ := hasMore_exact
  have hfits : (farPage (2 ^ 33 - 3)).items.length < 2 ^ 33 - 1 := by
    rw [length_farPage]
    omega
  have hfull : (farPage (2 ^ 33 - 2)).items.length < 2 ^ 33 - 1 := by
    rw [length_farPage]
    omega
  refine ⟨hfits, (hexact _ hfits).2.2.mpr ?_, hfull, Bool.eq_false_iff.mpr fun hmore => ?_,
    (htight _ rfl rfl (length_farPage _)).1⟩
  · rw [length_farPage]
    decide
  · have hlt := (hexact _ hfull).2.2.mp hmore
    rw [length_farPage] at hlt
    revert hlt
    decide

end Examples

end LiveDesk.Jobs
