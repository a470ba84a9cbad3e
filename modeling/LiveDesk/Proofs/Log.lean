import LiveDesk.Log
import LiveDesk.Text.Line
import LiveDesk.Uuid
import Mathlib.Data.List.Basic

/-!
# Entries on one line

An entry is on one line if all its parts are, and only then.

- `Text.IsLine`: a text without line breaks.
- `isLine_append`, `isLine_intercalate`: a text is on one line if its parts are.
- `isLine_repr`, `isLine_uuid`: numbers and identifiers are.
- `isLine_oneLine`: a text of unknown origin is, once it is put on one line.
- **`LogEntry.isLine_line`**: the text of an entry.
-/

namespace LiveDesk

namespace Text

/-- A text is on one line if there is no line feed and no carriage return in it. -/
def IsLine (s : String) : Prop :=
  ∀ c ∈ s.toList, isBreak c = false

instance : DecidablePred IsLine := fun s =>
  List.decidableBAll (fun c => isBreak c = false) s.toList

/-- A text in two pieces is one line if both are. -/
@[simp] theorem isLine_append {s t : String} : IsLine (s ++ t) ↔ IsLine s ∧ IsLine t := by
  simp only [IsLine, String.toList_append, List.mem_append, or_imp, forall_and]

/-- Texts with a separator between them. -/
theorem isLine_intercalate {separator : String} (h : IsLine separator) (texts : List String) :
    IsLine (separator.intercalate texts) ↔ ∀ s ∈ texts, IsLine s := by
  induction texts with
  | nil => simp [IsLine]
  | cons s texts ih =>
    cases texts with
    | nil => simp
    | cons t texts =>
      rw [String.intercalate_cons_cons, isLine_append, isLine_append, ih]
      simp only [h, and_true, List.forall_mem_cons]

/-- A digit breaks no line. -/
theorem isBreak_of_isDigit {c : Char} (h : c.isDigit = true) : isBreak c = false := by
  have hne : ∀ d : Char, d.isDigit = false → c ≠ d := by
    rintro d hd rfl
    exact absurd (h.symm.trans hd) (by decide)
  simp [isBreak, hne '\n' (by decide), hne '\r' (by decide)]

/-- A number is written on one line. -/
@[simp] theorem isLine_repr (n : Nat) : IsLine n.repr := by
  intro c hc
  rw [Nat.toList_repr] at hc
  exact isBreak_of_isDigit (Nat.isDigit_of_mem_toDigits (by decide) (by decide) hc)

@[simp] theorem isLine_toString_uInt32 (n : UInt32) : IsLine (toString n) :=
  isLine_repr n.toNat

@[simp] theorem isLine_toString_uInt64 (n : UInt64) : IsLine (toString n) :=
  isLine_repr n.toNat

@[simp] theorem isLine_toString_bool (b : Bool) : IsLine (toString b) := by
  cases b <;> decide

theorem isBreak_digit (n : Nat) : isBreak (Uuid.digit n) = false := by
  have all : ∀ k < 16, isBreak ("0123456789abcdef".toList.getD k '0') = false := by decide
  exact all (n % 16) (Nat.mod_lt n (by decide))

/-- No digit of an identifier breaks a line. -/
theorem isBreak_of_mem_digits {count n : Nat} {c : Char} (h : c ∈ Uuid.digits count n) :
    isBreak c = false := by
  induction count with
  | zero => cases h
  | succ count ih =>
    rcases List.mem_cons.mp h with rfl | h
    · exact isBreak_digit _
    · exact ih h

/-- An identifier is written on one line. -/
@[simp] theorem isLine_uuid (u : Uuid) : IsLine u.text := by
  intro c hc
  rw [Uuid.text, String.toList_ofList] at hc
  simp only [Uuid.chars, List.mem_append, List.mem_cons] at hc
  rcases hc with ((((h | rfl | h) | rfl | h) | rfl | h) | rfl | h) <;>
    first | exact isBreak_of_mem_digits h | rfl

/-- A text that is put on one line is there, cut or not. -/
theorem isLine_oneLine (limit : Nat) (s : String) : IsLine (oneLine limit s) := by
  have hflat : ∀ c ∈ flatten s.toList, isBreak c = false := by
    intro c hc
    obtain ⟨d, -, rfl⟩ := List.mem_map.mp hc
    split
    · decide
    · next hbreak => exact Bool.eq_false_iff.mpr hbreak
  unfold oneLine
  dsimp only
  split
  · refine isLine_append.mpr ⟨fun c hc => ?_, by decide⟩
    rw [String.toList_ofList] at hc
    exact hflat c (List.mem_of_mem_take hc)
  · intro c hc
    rw [String.toList_ofList] at hc
    exact hflat c hc

end Text

namespace LogEntry

open Text

/-- **The text of an entry is on one line if and only if all its parts are.** -/
theorem isLine_line {e : LogEntry} :
    IsLine e.line ↔ IsLine e.event ∧ IsLine e.origin ∧ IsLine e.status ∧
      e.details.Forall fun pair => IsLine pair.1 ∧ IsLine pair.2 := by
  rw [line, isLine_intercalate (by decide), List.forall_iff_forall_mem]
  simp only [List.map_cons, List.forall_mem_cons, List.forall_mem_map, isLine_append]
  simp only [show IsLine "event" by decide, show IsLine "module" by decide,
    show IsLine "status" by decide, show IsLine "=" by decide, true_and, and_true]

end LogEntry

end LiveDesk
