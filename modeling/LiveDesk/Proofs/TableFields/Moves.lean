import LiveDesk.Proofs.TableFields.Places
import Mathlib.Data.Fintype.EquivFin
import Mathlib.Order.Hom.Set

/-!
# Moving a column

A column is taken out of the list and put in at another place, and then all columns are numbered
again. A place that does not exist is ignored.

- `content`, `Shifts`, `Relocated`: what becomes of columns when one of them is moved, said without
  taking out and putting in.
- `shifted`: the place where a column goes, which moving back undoes.
- `relocated_moved`, **`Relocated.unique`**, `Relocated.symm`: a move does this, there is only one
  way to do it, and moving back does it the other way round.
- `relocate?`: a move where taking out and putting in may fail.
- **`relocation`**: what comes of a move in every state of every run, and of moving back later on.
- `relocation_there_and_back`: the last column is moved to the front and back.
-/

namespace LiveDesk.TableFields

open Observable Session

variable {V : Type}

/-! ## Places of a moved column and of the others -/

/-- All of a column but its position. -/
def content (f : TableField) : String × String × Bool :=
  (f.key, f.label, f.visible)

/-- The column at `source` goes to `target`, and the others keep their order. -/
structure Shifts (source target : Nat) {n m : Nat} (place : Fin n ≃ Fin m) : Prop where
  taken : ∀ i : Fin n, (i : Nat) = source → (place i : Nat) = target
  kept : ∀ i j : Fin n, (i : Nat) ≠ source → (j : Nat) ≠ source → i < j → place i < place j

/-- The same columns, the one at `source` now at `target` and the others in their order. Their
positions are left out. -/
def Relocated (source target : Nat) (before after : List TableField) : Prop :=
  ∃ place : Fin before.length ≃ Fin after.length, Shifts source target place ∧
    ∀ i, content after[place i] = content before[i]

namespace Shifts

variable {source target n m : Nat} {place : Fin n ≃ Fin m}

theorem eq_target_iff (h : Shifts source target place) (hsource : source < n) (i : Fin n) :
    (place i : Nat) = target ↔ (i : Nat) = source := by
  refine ⟨fun hi => ?_, h.taken i⟩
  have hplace : place i = place ⟨source, hsource⟩ :=
    Fin.ext (hi.trans (h.taken ⟨source, hsource⟩ rfl).symm)
  exact congrArg Fin.val (place.injective hplace)

/-- The other columns, in their order. -/
def others (h : Shifts source target place) (hsource : source < n) :
    {i : Fin n // (i : Nat) ≠ source} ≃o {j : Fin m // (j : Nat) ≠ target} where
  toEquiv := place.subtypeEquiv fun i => not_congr (h.eq_target_iff hsource i).symm
  map_rel_iff' := by
    have hmono : StrictMono fun i : {i : Fin n // (i : Nat) ≠ source} => place i :=
      fun i j hij => h.kept i j i.2 j.2 hij
    exact fun {i j} => hmono.le_iff_le

/-- **The column at `source` goes to `target` in one way only.** -/
theorem unique (h : Shifts source target place) (hsource : source < n) {m' : Nat}
    {place' : Fin n ≃ Fin m'} (h' : Shifts source target place') (i : Fin n) :
    (place i : Nat) = place' i := by
  obtain rfl : n = m := Fin.equiv_iff_eq.mp ⟨place⟩
  obtain rfl : n = m' := Fin.equiv_iff_eq.mp ⟨place'⟩
  by_cases hi : (i : Nat) = source
  · rw [h.taken i hi, h'.taken i hi]
  · have hothers : h.others hsource = h'.others hsource := Subsingleton.elim _ _
    exact congrArg (fun f => (f ⟨i, hi⟩ : Nat)) hothers

theorem symm (h : Shifts source target place) (hsource : source < n) :
    Shifts target source place.symm where
  taken j hj := by
    rw [← h.eq_target_iff hsource, Equiv.apply_symm_apply]
    exact hj
  kept i j hi hj hij := by
    have hne : ∀ {k : Fin m}, (k : Nat) ≠ target → (place.symm k : Nat) ≠ source := by
      intro k hk hsymm
      rw [← h.eq_target_iff hsource, Equiv.apply_symm_apply] at hsymm
      exact hk hsymm
    by_contra hle
    rcases (not_lt.mp hle).lt_or_eq with hlt | heq
    · have := h.kept _ _ (hne hj) (hne hi) hlt
      simp only [Equiv.apply_symm_apply] at this
      exact absurd hij this.asymm
    · exact hij.ne' (place.symm.injective heq)

theorem cast (h : Shifts source target place) {k : Nat} (hk : m = k) :
    Shifts source target (place.trans (finCongr hk)) := by
  subst hk
  exact ⟨h.taken, h.kept⟩

end Shifts

namespace Relocated

variable {source target : Nat} {before after other : List TableField}

theorem refl (source : Nat) (fields : List TableField) :
    Relocated source source fields fields :=
  ⟨Equiv.refl _, ⟨fun _ => id, fun _ _ _ _ => id⟩, fun _ => rfl⟩

theorem length_eq (h : Relocated source target before after) : before.length = after.length := by
  obtain ⟨place, -⟩ := h
  exact Fin.equiv_iff_eq.mp ⟨place⟩

/-- **There is only one way to move a column.** -/
theorem unique (h : Relocated source target before after) (hsource : source < before.length)
    (h' : Relocated source target before other) : other.map content = after.map content := by
  have hlength : other.length = after.length := h'.length_eq.symm.trans h.length_eq
  obtain ⟨place, hplace, hcontent⟩ := h
  obtain ⟨place', hplace', hcontent'⟩ := h'
  refine List.ext_getElem (by simpa using hlength) fun k hk hk' => ?_
  rw [List.length_map] at hk hk'
  obtain ⟨i, hi⟩ := place.surjective ⟨k, hk'⟩
  have hi' : place' i = ⟨k, hk⟩ :=
    Fin.ext ((hplace.unique hsource hplace' i).symm.trans (congrArg Fin.val hi))
  rw [List.getElem_map, List.getElem_map]
  calc content other[k] = content other[place' i] :=
        congrArg (fun j : Fin _ => content other[j]) hi'.symm
    _ = content before[i] := hcontent' i
    _ = content after[place i] := (hcontent i).symm
    _ = content after[k] := congrArg (fun j : Fin _ => content after[j]) hi

theorem symm (h : Relocated source target before after) (hsource : source < before.length) :
    Relocated target source after before := by
  obtain ⟨place, hplace, hcontent⟩ := h
  refine ⟨place.symm, hplace.symm hsource, fun j => ?_⟩
  calc content before[place.symm j] = content after[place (place.symm j)] :=
        (hcontent (place.symm j)).symm
    _ = content after[j] := congrArg (fun k : Fin _ => content after[k]) (place.apply_symm_apply j)

/-- What is in the columns is all that matters. -/
theorem congr_content (h : Relocated source target before after)
    (hother : other.map content = after.map content) : Relocated source target before other := by
  obtain ⟨place, hplace, hcontent⟩ := h
  have hlength : after.length = other.length := by simpa using (congrArg List.length hother).symm
  refine ⟨place.trans (finCongr hlength), hplace.cast hlength, fun i => ?_⟩
  have hplaced := List.getElem_of_eq hother (i := place i) (by simp [← hlength])
  rw [List.getElem_map, List.getElem_map] at hplaced
  exact hplaced.trans (hcontent i)

end Relocated

/-! ## A move -/

/-- The place where a column goes when the one at `source` goes to `target`. -/
def shifted (source target i : Nat) : Nat :=
  if i = source then target
  else if source < i ∧ i ≤ target then i - 1
  else if target ≤ i ∧ i < source then i + 1
  else i

/-- Moving back undoes it. -/
theorem shifted_shifted (source target i : Nat) :
    shifted target source (shifted source target i) = i := by
  unfold shifted
  split_ifs <;> omega

theorem shifted_lt {source target i n : Nat} (hsource : source < n) (htarget : target < n)
    (hi : i < n) : shifted source target i < n := by
  unfold shifted
  split_ifs <;> omega

/-- The places of columns, as one of them is moved. -/
def shift {n : Nat} (source target : Fin n) : Fin n ≃ Fin n where
  toFun i := ⟨shifted source target i, shifted_lt source.2 target.2 i.2⟩
  invFun i := ⟨shifted target source i, shifted_lt target.2 source.2 i.2⟩
  left_inv i := Fin.ext (shifted_shifted source target i)
  right_inv i := Fin.ext (shifted_shifted target source i)

theorem shifts_shift {n : Nat} (source target : Fin n) :
    Shifts (source : Nat) target (shift source target) where
  taken i hi := if_pos hi
  kept i j hi hj hij := by
    show shifted source target i < shifted source target j
    unfold shifted
    rw [if_neg hi, if_neg hj]
    split_ifs <;> omega

/-- What is taken out at `source` and put in at `target` has shifted the rest. -/
theorem getElem?_insertIdx_eraseIdx {α : Type} {l : List α} {source target i : Nat} {a : α}
    (hsource : l[source]? = some a) (htarget : target < l.length) (hi : i < l.length) :
    ((l.eraseIdx source).insertIdx target a)[shifted source target i]? = l[i]? := by
  have hlt : source < l.length := (List.getElem?_eq_some_iff.mp hsource).1
  have hlength := List.length_eraseIdx_of_lt hlt
  rw [List.getElem?_insertIdx]
  unfold shifted
  by_cases heq : i = source
  · rw [if_pos heq, if_neg (lt_irrefl target), if_pos rfl, if_pos (by omega), heq, hsource]
  · rw [if_neg heq]
    simp only [List.getElem?_eraseIdx]
    split_ifs <;> first | omega | exact congrArg (l[·]?) (by omega)

theorem content_renumberFrom (place : Nat) (fields : List TableField) :
    (renumberFrom place fields).map content = fields.map content := by
  induction fields generalizing place with
  | nil => rfl
  | cons f rest ih => exact congrArg (content f :: ·) (ih (place + 1))

/-- **A move does what it should.** -/
theorem relocated_moved {source target : Nat} {fields : List TableField}
    (hsource : source < fields.length) (htarget : target < fields.length) :
    Relocated source target fields (moved source target fields) := by
  have hlength : fields.length = (moved source target fields).length :=
    (length_moved hsource htarget).symm
  have hcontents : (moved source target fields).map content
      = ((fields.eraseIdx source).insertIdx target fields[source]).map content := by
    rw [moved, List.getElem?_eq_getElem hsource]
    exact content_renumberFrom 0 _
  refine ⟨(shift ⟨source, hsource⟩ ⟨target, htarget⟩).trans (finCongr hlength),
    (shifts_shift ⟨source, hsource⟩ ⟨target, htarget⟩).cast hlength, fun i => ?_⟩
  have hi : shifted source target i < fields.length := shifted_lt hsource htarget i.2
  have hplaced := congrArg (·[shifted source target i]?) hcontents
  simp only [List.getElem?_map,
    getElem?_insertIdx_eraseIdx (List.getElem?_eq_getElem hsource) htarget i.2] at hplaced
  rw [List.getElem?_eq_getElem (hlength ▸ hi), List.getElem?_eq_getElem i.2] at hplaced
  exact Option.some.inj hplaced

/-- Numbered columns are what is in them. -/
theorem eq_of_content {a b : List TableField} (ha : Numbered a) (hb : Numbered b)
    (h : a.map content = b.map content) : a = b := by
  have hlength : a.length = b.length := by simpa using congrArg List.length h
  refine List.ext_getElem hlength fun i hi hi' => ?_
  have hposition : a[i].position = b[i].position := (ha i hi).trans (hb i hi').symm
  have hcontent := List.getElem_of_eq h (i := i) (by simpa using hi)
  rw [List.getElem_map, List.getElem_map] at hcontent
  generalize a[i] = f at hposition hcontent
  generalize b[i] = g at hposition hcontent
  cases f
  cases g
  simp_all [content]

/-- The columns with the one at `source` taken out, where there must be one, and put in at `target`,
which must not lie behind the end of the others. -/
def relocate? (source target : Nat) (fields : List TableField) : Option (List TableField) :=
  match fields[source]? with
  | none => none
  | some f =>
    let others := fields.eraseIdx source
    if target ≤ others.length then some (renumber (others.insertIdx target f)) else none

/-- A move fails exactly if one of its places does not exist. -/
theorem relocate?_eq (source target : Nat) (fields : List TableField) :
    relocate? source target fields
      = if source < fields.length ∧ target < fields.length then some (moved source target fields)
        else none := by
  by_cases hsource : source < fields.length
  · have hlength := List.length_eraseIdx_of_lt hsource
    rw [relocate?, moved, List.getElem?_eq_getElem hsource]
    dsimp only
    rw [hlength]
    exact if_congr (by omega) rfl rfl
  · rw [relocate?, List.getElem?_eq_none (Nat.le_of_not_lt hsource), if_neg fun h => hsource h.1]

section Runs

variable [DecidableEq V] {s : Session feature V}

/-- A move that changes nothing is ignored. -/
theorem step_ignored_move {source target : Nat} (hfree : s.isFree = true)
    (h : ¬ (source < s.state.fields.length ∧ target < s.state.fields.length) ∨ source = target) :
    s.step (.edit (Edit.move source target)) = (s, []) := by
  refine step_of_ignored hfree (if_neg ?_)
  rintro ⟨hsource, htarget, hne⟩
  exact h.elim (· ⟨hsource, htarget⟩) hne

/-- Every other move moves a column, and marks the columns as edited. -/
theorem state_move {source target : Nat} (hfree : s.isFree = true)
    (hsource : source < s.state.fields.length) (htarget : target < s.state.fields.length)
    (hne : source ≠ target) :
    (s.step (.edit (Edit.move source target))).1.state
      = { s.state with fields := moved source target s.state.fields, isDirty := true } := by
  have hedit : feature.edit (Edit.move source target) s.state = some _ :=
    if_pos ⟨hsource, htarget, hne⟩
  have hstate := (s.course (.edit (Edit.move source target))).state.2
  rw [turn_of_edit hfree hedit] at hstate
  exact hstate

/-- The columns after a move, whether or not it changes anything. -/
theorem relocated_step {source target : Nat} (hfree : s.isFree = true)
    (hsource : source < s.state.fields.length) (htarget : target < s.state.fields.length) :
    Relocated source target s.state.fields
      (s.step (.edit (Edit.move source target))).1.state.fields := by
  by_cases hne : source = target
  · rw [step_ignored_move hfree (.inr hne), ← hne]
    exact .refl source s.state.fields
  · rw [state_move hfree hsource htarget hne]
    exact relocated_moved hsource htarget

theorem numbered_step {source target : Nat} (hfree : s.isFree = true)
    (hnumbered : Numbered s.state.fields) :
    Numbered (s.step (.edit (Edit.move source target))).1.state.fields := by
  by_cases hreal : (source < s.state.fields.length ∧ target < s.state.fields.length) ∧
      source ≠ target
  · obtain ⟨⟨hsource, htarget⟩, hne⟩ := hreal
    rw [state_move hfree hsource htarget hne]
    exact numbered_moved hnumbered source target
  · rw [step_ignored_move hfree (by tauto)]
    exact hnumbered

theorem answer_move (x : State) (source target : Nat) :
    feature.answer (Edit.move source target) x
      = some (decide (source < x.fields.length ∧ target < x.fields.length)) := by
  simp [feature, answer]

/-- A move is undone by moving back. -/
theorem fields_moved_back {t : Session feature V} {source target : Nat} (hfree : s.isFree = true)
    (hfree' : t.isFree = true) (hnumbered : Numbered s.state.fields)
    (hsource : source < s.state.fields.length) (htarget : target < s.state.fields.length)
    (ht : t.state.fields = (s.step (.edit (Edit.move source target))).1.state.fields) :
    (t.step (.edit (Edit.move target source))).1.state.fields = s.state.fields := by
  have hthere := relocated_step hfree hsource htarget
  rw [← ht] at hthere
  have hlength : s.state.fields.length = t.state.fields.length := hthere.length_eq
  have hback := relocated_step hfree' (hlength ▸ htarget) (hlength ▸ hsource)
  have hsame := (hthere.symm hsource).unique (hlength ▸ htarget) hback
  refine eq_of_content (numbered_step hfree' ?_) hnumbered hsame
  rw [ht]
  exact numbered_step hfree hnumbered

/-- **Moving a column.** In every state of every run, and for all places:

- a move is answered with yes exactly if there are columns at both places. Otherwise, or if they are
  the same place, nothing happens;
- a move of a column to another place never fails. The column at `source` is then at `target`, the
  others have kept their order, and there is no other way to do this; the columns are marked as
  edited, and nothing else is changed;
- if the columns are changed by their own methods only, they are numbered again, and moving the
  column back, at once or whenever these columns are at hand, gives what was there before. -/
theorem relocation {ms : List (Session.Move feature V)} (source target : Nat)
    (hfree : ((opening .opening : Session feature V).after ms).isFree = true) :
    let s := (opening .opening : Session feature V).after ms
    let fields := s.state.fields
    let inRange := source < fields.length ∧ target < fields.length
    let result := (s.step (.edit (Edit.move source target))).1
    feature.answer (Edit.move source target) s.state = some (decide inRange) ∧
      (¬ inRange ∨ source = target → s.step (.edit (Edit.move source target)) = (s, [])) ∧
      (inRange →
        (source ≠ target → relocate? source target fields = some result.state.fields) ∧
        result.state = { s.state with
          fields := result.state.fields, isDirty := s.state.isDirty || source != target } ∧
        (∀ l, Relocated source target fields l ↔
          l.map content = result.state.fields.map content) ∧
        ((∀ m ∈ ms, ∀ p, m ≠ .publish p) →
          (∀ l, Relocated source target fields l ∧ Numbered l ↔ l = result.state.fields) ∧
          ∀ later, (result.after later).isFree = true →
            (result.after later).state.fields = result.state.fields →
            feature.answer (Edit.move target source) (result.after later).state = some true ∧
            ((result.after later).step (.edit (Edit.move target source))).1.state.fields
              = fields)) := by
  intro s fields inRange result
  refine ⟨answer_move s.state source target, step_ignored_move hfree, ?_⟩
  rintro ⟨hsource, htarget⟩
  have hmoved : Relocated source target fields result.state.fields :=
    relocated_step hfree hsource htarget
  -- what a move comes to is settled up to the numbers of the columns
  have hunique : ∀ l, Relocated source target fields l ↔
      l.map content = result.state.fields.map content :=
    fun l => ⟨hmoved.unique hsource, hmoved.congr_content⟩
  refine ⟨fun hne => ?_, ?_, hunique, fun hown => ⟨fun l => ?_, fun later hlater hfields => ?_⟩⟩
  · rw [relocate?_eq, if_pos ⟨hsource, htarget⟩]
    exact congrArg (fun x => some (State.fields x)) (state_move hfree hsource htarget hne).symm
  · by_cases heq : source = target
    · have hsame : (s.step (.edit (Edit.move source target))).1 = s := by
        rw [step_ignored_move hfree (.inr heq)]
      rw [show result = s from hsame, bne_eq_false_iff_eq.mpr heq, Bool.or_false]
      rfl
    · rw [show result.state = _ from state_move hfree hsource htarget heq, bne_iff_ne.mpr heq,
        Bool.or_true]
  · have hnumbered : Numbered result.state.fields := numbered_step hfree (numbered_after hown)
    constructor
    · rintro ⟨hl, hl'⟩
      exact eq_of_content hl' hnumbered ((hunique l).mp hl)
    · rintro rfl
      exact ⟨hmoved, hnumbered⟩
  · have hlength : fields.length = (result.after later).state.fields.length :=
      hfields ▸ hmoved.length_eq
    exact ⟨(answer_move _ target source).trans
        (congrArg some (decide_eq_true ⟨hlength ▸ htarget, hlength ▸ hsource⟩)),
      fields_moved_back hfree hlater (numbered_after hown) hsource htarget hfields⟩

end Runs

section Examples

/-- The articles have a title, an author and a date. -/
def arrangedArticles : List (Session.Move feature Nat) :=
  crowdedArticles ++ catchUp

theorem isFree_arrangedArticles :
    ((opening .opening : Session feature Nat).after arrangedArticles).isFree = true := by cbv

theorem fields_arrangedArticles :
    ((opening .opening : Session feature Nat).after arrangedArticles).state.fields
      = [title, author, { date with position := 2 }] := by cbv

/-- The date is moved to the front. -/
def dateInFront : Session feature Nat :=
  (((opening .opening : Session feature Nat).after arrangedArticles).step
    (.edit (Edit.move 2 0))).1

theorem isFree_dateInFront : (dateInFront.after catchUp).isFree = true := by cbv

theorem fields_dateInFront_after :
    (dateInFront.after catchUp).state.fields = dateInFront.state.fields := by cbv

/-- The date is moved to the front and back. -/
theorem relocation_there_and_back :
    let s := (opening .opening : Session feature Nat).after arrangedArticles
    s.isFree = true ∧ 2 < s.state.fields.length ∧ 0 < s.state.fields.length ∧
      relocate? 2 0 s.state.fields = some dateInFront.state.fields ∧
      dateInFront.state.isDirty = true ∧
      ((dateInFront.after catchUp).step (.edit (Edit.move 0 2))).1.state.fields
        = s.state.fields := by
  intro s
  have hfree : s.isFree = true := isFree_arrangedArticles
  have hfields : s.state.fields = _ := fields_arrangedArticles
  have hrange : 2 < s.state.fields.length ∧ 0 < s.state.fields.length := by
    rw [hfields]
    decide
  have hown : ∀ m ∈ arrangedArticles, ∀ p, m ≠ .publish p := by
    simp [arrangedArticles, crowdedArticles, catchUp]
  obtain ⟨-, -, hmove⟩ := relocation (V := Nat) 2 0 isFree_arrangedArticles
  obtain ⟨hmoved, hstate, -, hback⟩ := hmove hrange
  obtain ⟨-, hback⟩ := hback hown
  refine ⟨hfree, hrange.1, hrange.2, hmoved (by decide), ?_,
    (hback catchUp isFree_dateInFront fields_dateInFront_after).2⟩
  rw [show dateInFront.state.isDirty = _ from congrArg State.isDirty hstate]
  exact Bool.or_true s.state.isDirty

end Examples

end LiveDesk.TableFields
