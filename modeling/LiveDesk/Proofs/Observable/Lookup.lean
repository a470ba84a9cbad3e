import LiveDesk.Observable.Store
import Mathlib

/-!
# Projections by name

What each operation of a store does to the projection with a given name, and which parts of the
store it leaves alone. The later modules look at a store only through `Store.get?` and these lemmas.

- `Store.get?_modify`, `Store.get?_remove`, `Store.get?_addProjection`: the look-up after a change.
- **`Store.sweep_induction`**: what survives the removal of one projection that nothing refers to
  survives a sweep.
-/

namespace LiveDesk.Observable

namespace Store

variable {S V H : Type}

/-- What is found under a name has that name. -/
theorem get?_id {s : Store S V H} {p : ProjectionId} {q : Projection S V}
    (h : s.get? p = some q) : q.id = p := by
  have := List.find?_some h
  simpa using this

/-- A look-up in a mapped list, for a map that keeps the names. -/
theorem find?_map_id (l : List (Projection S V)) (f : Projection S V → Projection S V)
    (hf : ∀ q, (f q).id = q.id) (p : ProjectionId) :
    (l.map f).find? (fun q => q.id == p) = (l.find? fun q => q.id == p).map f := by
  rw [List.find?_map]
  congr 2
  funext q
  simp [hf]

/-- A changed record is found under its name, and the others as they were. -/
theorem get?_modify (s : Store S V H) (p r : ProjectionId) (f : Projection S V → Projection S V)
    (hf : ∀ q, (f q).id = q.id) :
    (s.modify p f).get? r = if r = p then (s.get? r).map f else s.get? r := by
  have hg : ∀ q : Projection S V, (if q.id == p then f q else q).id = q.id := by
    intro q
    split
    · exact hf q
    · rfl
  have hmap : (s.modify p f).get? r
      = (s.get? r).map fun q => if q.id == p then f q else q :=
    find?_map_id _ _ hg r
  rw [hmap]
  cases hq : s.get? r with
  | none => simp
  | some q =>
    have := get?_id hq
    by_cases h : r = p
    · simp [this, h]
    · simp [this, h]

@[simp] theorem get?_modifyChannel (s : Store S V H) (p r : ProjectionId)
    (f : Channel V → Channel V) :
    (s.modifyChannel p f).get? r
      = if r = p then (s.get? r).map fun q => { q with channel := f q.channel }
        else s.get? r :=
  get?_modify s p r _ fun _ => rfl

@[simp] theorem modify_channel (s : Store S V H) (p : ProjectionId)
    (f : Projection S V → Projection S V) : (s.modify p f).channel = s.channel := rfl

@[simp] theorem modifyChannel_channel (s : Store S V H) (p : ProjectionId)
    (f : Channel V → Channel V) : (s.modifyChannel p f).channel = s.channel := rfl

/-! ## Adding and removing -/

/-- A new projection is found under its name; a source that another projection is loses nothing. -/
theorem get?_addProjection (s : Store S V H) (origin : Origin S V) (v : V) (r : ProjectionId) :
    (s.addProjection origin v).get? r
      = if r = s.nextProjection then
          some { id := s.nextProjection, origin, entry := s.nextObserver, value := v,
                 channel := .empty, handles := 1 }
        else
          match origin with
          | .store _ => s.get? r
          | .view source _ =>
            (s.modifyChannel source (·.add
              { id := s.nextObserver, target := .projection s.nextProjection, held := true })).get?
              r := by
  by_cases h : r = s.nextProjection
  · subst h
    cases origin <;> simp [addProjection, get?]
  · have h' : ¬ s.nextProjection = r := fun e => h e.symm
    cases origin <;> simp [addProjection, get?, h, h']

/-- What a new projection is at first. -/
def newborn (s : Store S V H) (origin : Origin S V) (v : V) : Projection S V :=
  { id := s.nextProjection, origin, entry := s.nextObserver, value := v, channel := .empty,
    handles := 1 }

/-- What can be read off without the observers shows the new projection and no other change. -/
theorem read_addProjection {α : Type} (s : Store S V H) (origin : Origin S V) (v : V)
    (r : ProjectionId) (read : Projection S V → α)
    (hread : ∀ q o, read { q with channel := q.channel.add o } = read q) :
    ((s.addProjection origin v).get? r).map read
      = if r = s.nextProjection then some (read (s.newborn origin v))
        else (s.get? r).map read := by
  rw [get?_addProjection]
  split
  · rfl
  · cases origin with
    | store => rfl
    | view source =>
      dsimp only
      rw [get?_modifyChannel]
      split
      · cases s.get? r <;> simp [hread]
      · rfl

/-- The look-up without a projection. -/
theorem get?_filtered (s : Store S V H) (p r : ProjectionId) :
    ({ s with projections := s.projections.filter fun q => q.id != p } : Store S V H).get? r
      = if r = p then none else s.get? r := by
  simp only [get?, List.find?_filter]
  by_cases h : r = p
  · rw [if_pos h, List.find?_eq_none]
    intro q _
    simp [h]
  · rw [if_neg h]
    congr 1
    funext q
    by_cases hq : q.id = r
    · simp [hq, h]
    · simp [hq]

/-- A projection that is removed is not found any more, and its source has lost its entry. -/
theorem get?_remove (s : Store S V H) (q : Projection S V) (r : ProjectionId) :
    (s.remove q).get? r
      = if r = q.id then none
        else
          match q.origin with
          | .store _ => s.get? r
          | .view source _ =>
            if r = source then
              (s.get? r).map fun x => { x with channel := x.channel.remove q.entry }
            else s.get? r := by
  unfold remove
  cases q.origin with
  | store select => exact get?_filtered s q.id r
  | view source select =>
    rw [get?_modifyChannel, get?_filtered]
    by_cases h : r = q.id <;> simp [h]

/-- What can be read off without the observers shows the removed projection and no other change. -/
theorem read_remove {α : Type} (s : Store S V H) (q : Projection S V) (r : ProjectionId)
    (read : Projection S V → α)
    (hread : ∀ x e, read { x with channel := x.channel.remove e } = read x) :
    ((s.remove q).get? r).map read = if r = q.id then none else (s.get? r).map read := by
  rw [get?_remove]
  split
  · rfl
  · cases q.origin with
    | store => rfl
    | view source =>
      dsimp only
      split
      · cases s.get? r <;> simp [hread]
      · rfl

@[simp] theorem remove_initial (s : Store S V H) (q : Projection S V) :
    (s.remove q).initial = s.initial := by
  unfold remove
  cases q.origin <;> rfl

@[simp] theorem remove_current (s : Store S V H) (q : Projection S V) :
    (s.remove q).current = s.current := by
  unfold remove
  cases q.origin <;> rfl

@[simp] theorem remove_stack (s : Store S V H) (q : Projection S V) :
    (s.remove q).stack = s.stack := by
  unfold remove
  cases q.origin <;> rfl

@[simp] theorem remove_nextProjection (s : Store S V H) (q : Projection S V) :
    (s.remove q).nextProjection = s.nextProjection := by
  unfold remove
  cases q.origin <;> rfl

@[simp] theorem remove_nextObserver (s : Store S V H) (q : Projection S V) :
    (s.remove q).nextObserver = s.nextObserver := by
  unfold remove
  cases q.origin <;> rfl

/-- What the removal of a projection that nothing refers to keeps, a sweep below a bound keeps. -/
theorem sweepBelow_induction {P : Store S V H → Prop}
    (hremove : ∀ t p q, P t → t.get? p = some q → t.isPinned q = false → P (t.remove q)) :
    ∀ (n : Nat) (s : Store S V H), P s → P (sweepBelow n s)
  | 0, _, h => h
  | n + 1, s, h => by
    unfold sweepBelow
    split
    · exact sweepBelow_induction hremove n s h
    · next q hq =>
      split
      · exact sweepBelow_induction hremove n s h
      · next hp =>
        exact sweepBelow_induction hremove n _
          (hremove s n q h hq (Bool.eq_false_iff.mpr hp))

/-- **A sweep is a series of removals**: what the removal of a projection that nothing refers to
keeps, a sweep keeps. -/
theorem sweep_induction {P : Store S V H → Prop}
    (hremove : ∀ t p q, P t → t.get? p = some q → t.isPinned q = false → P (t.remove q))
    {s : Store S V H} (h : P s) : P s.sweep :=
  sweepBelow_induction hremove _ s h

end Store

end LiveDesk.Observable
