import LiveDesk.Proofs.Observable.Lookup

/-!
# Sources

The store and each of its projections have an observer list, a queue and a flag of their own. A
`Source` names one of them, so that what holds of both kinds is said once.

- `Store.observersOf`, `Store.queue`, `Store.isPublishing`: the channel of a source.
- `Store.link?`: where a projection takes its values from, and under which entry.
- `Store.value?`, `Store.newest?`: what a source last took.
- `Delivery`, `Store.deliveries`: the channels being emptied, the innermost first.

The lemmas say how the elementary changes of a store show in these.
-/

namespace LiveDesk.Observable

namespace Signal

variable {S V : Type}

/-- A source gives signals of one kind. -/
def Fits : Source → Signal S V → Prop
  | .store, .snapshot _ => True
  | .view _, .view _ => True
  | _, _ => False

end Signal

/-- A channel that is being emptied: the signal at hand and the observers still to be told. -/
structure Delivery (S V : Type) where
  source : Source
  now : Option (Signal S V × List Observer)

namespace Frame

variable {S V H : Type}

/-- The delivery that a frame stands for. -/
def delivery? : Frame S V H → Option (Delivery S V)
  | .publishing now => some ⟨.store, now.map fun (x, rest) => (.snapshot x, rest)⟩
  | .emitting p now => some ⟨.view p, now.map fun (v, rest) => (.view v, rest)⟩
  | .callback _ | .replay _ _ | .code _ => none

/-- A frame that the caller's own code put on the stack. -/
def isOwn : Frame S V H → Bool
  | .replay _ _ | .code _ => true
  | .publishing _ | .emitting _ _ | .callback _ => false

/-- The name of a subscriber whose entry is still to be added. -/
def unborn? : Frame S V H → Option ObserverId
  | .replay o _ => some o
  | .publishing _ | .emitting _ _ | .callback _ | .code _ => none

/-- The code that a caller runs is no delivery. -/
theorem delivery?_eq_none_of_isOwn {f : Frame S V H} (h : f.isOwn = true) :
    f.delivery? = none := by
  cases f <;> simp_all [isOwn, delivery?]

/-- A frame of a delivery does not wait for an entry to be made. -/
theorem unborn?_of_delivery? {f : Frame S V H} {d : Delivery S V} (h : f.delivery? = some d) :
    f.unborn? = none := by
  cases f <;> simp_all [delivery?, unborn?]

/-- The signal at hand is of the kind of the source. -/
theorem fits_of_delivery? {f : Frame S V H} {d : Delivery S V} (h : f.delivery? = some d)
    {signal : Signal S V} {rest : List Observer} (hnow : d.now = some (signal, rest)) :
    signal.Fits d.source := by
  cases f with
  | publishing now =>
    cases now <;> simp [delivery?] at h <;> subst h <;> simp at hnow
    obtain ⟨rfl, -⟩ := hnow
    trivial
  | emitting p now =>
    cases now <;> simp [delivery?] at h <;> subst h <;> simp at hnow
    obtain ⟨rfl, -⟩ := hnow
    trivial
  | callback | replay | code => simp [delivery?] at h

end Frame

namespace Store

variable {S V H : Type}

/-- The observer list of a source. -/
def observersOf (s : Store S V H) : Source → List Observer
  | .store => s.channel.observers
  | .view p => ((s.get? p).map (·.channel.observers)).getD []

/-- The signals of a source that wait for their delivery. -/
def queue (s : Store S V H) : Source → List (Signal S V)
  | .store => s.channel.pending.map .snapshot
  | .view p => ((s.get? p).map fun q => q.channel.pending.map .view).getD []

/-- Whether the channel of a source is marked as being emptied. -/
def isPublishing (s : Store S V H) : Source → Bool
  | .store => s.channel.publishing
  | .view p => ((s.get? p).map (·.channel.publishing)).getD false

/-- What a living projection keeps for life: its origin and its entry. -/
def link? (s : Store S V H) (p : ProjectionId) : Option (Origin S V × ObserverId) :=
  (s.get? p).map fun q => (q.origin, q.entry)

/-- The value of a living projection. -/
def value? (s : Store S V H) (p : ProjectionId) : Option V :=
  (s.get? p).map (·.value)

/-- The signal that a living source took last. -/
def newest? (s : Store S V H) : Source → Option (Signal S V)
  | .store => some (.snapshot s.current)
  | .view p => (s.value? p).map .view

/-- The deliveries under way, the innermost first. -/
def deliveries (s : Store S V H) : List (Delivery S V) :=
  s.stack.filterMap Frame.delivery?

/-- The subscribers that are called for their first value and have no entry yet. -/
def unborn (s : Store S V H) : List ObserverId :=
  s.stack.filterMap Frame.unborn?

/-- What a living projection is derived from, and by which entry, is in its record. -/
theorem link?_of_get? {s : Store S V H} {p : ProjectionId} {q : Projection S V}
    (h : s.get? p = some q) : s.link? p = some (q.origin, q.entry) := by
  simp [link?, h]

/-- A projection that is derived from something has a record. -/
theorem get?_of_link? {s : Store S V H} {p : ProjectionId} {l : Origin S V × ObserverId}
    (h : s.link? p = some l) : ∃ q, s.get? p = some q ∧ q.origin = l.1 ∧ q.entry = l.2 := by
  obtain ⟨q, hq, rfl⟩ := Option.map_eq_some_iff.mp h
  exact ⟨q, hq, rfl, rfl⟩

/-! ## A change of one projection -/

/-- Changing the channel or the value of a projection leaves the links as they are. -/
theorem link?_modify (s : Store S V H) (p : ProjectionId) (f : Projection S V → Projection S V)
    (hid : ∀ q, (f q).id = q.id) (ho : ∀ q, (f q).origin = q.origin)
    (he : ∀ q, (f q).entry = q.entry) : (s.modify p f).link? = s.link? := by
  funext r
  rw [link?, get?_modify s p r f hid, link?]
  split
  · cases s.get? r <;> simp [ho, he]
  · rfl

/-- A change that leaves the value of a record leaves all values. -/
theorem value?_modify (s : Store S V H) (p : ProjectionId) (f : Projection S V → Projection S V)
    (hid : ∀ q, (f q).id = q.id) (hv : ∀ q, (f q).value = q.value) :
    (s.modify p f).value? = s.value? := by
  funext r
  rw [value?, get?_modify s p r f hid, value?]
  split
  · cases s.get? r <;> simp [hv]
  · rfl

/-- A change that leaves the list of a record leaves all lists. -/
theorem observersOf_modify (s : Store S V H) (p : ProjectionId)
    (f : Projection S V → Projection S V) (hid : ∀ q, (f q).id = q.id)
    (ho : ∀ q, (f q).channel.observers = q.channel.observers) :
    (s.modify p f).observersOf = s.observersOf := by
  funext src
  cases src with
  | store => rfl
  | view r =>
    rw [observersOf, get?_modify s p r f hid, observersOf]
    split
    · cases s.get? r <;> simp [ho]
    · rfl

/-- A change that leaves the queue of a record leaves all queues. -/
theorem queue_modify (s : Store S V H) (p : ProjectionId) (f : Projection S V → Projection S V)
    (hid : ∀ q, (f q).id = q.id) (hp : ∀ q, (f q).channel.pending = q.channel.pending) :
    (s.modify p f).queue = s.queue := by
  funext src
  cases src with
  | store => rfl
  | view r =>
    rw [queue, get?_modify s p r f hid, queue]
    split
    · cases s.get? r <;> simp [hp]
    · rfl

theorem isPublishing_modify (s : Store S V H) (p : ProjectionId)
    (f : Projection S V → Projection S V) (hid : ∀ q, (f q).id = q.id)
    (hp : ∀ q, (f q).channel.publishing = q.channel.publishing) :
    (s.modify p f).isPublishing = s.isPublishing := by
  funext src
  cases src with
  | store => rfl
  | view r =>
    rw [isPublishing, get?_modify s p r f hid, isPublishing]
    split
    · cases s.get? r <;> simp [hp]
    · rfl

/-! ## A change of every observer list -/

/-- The same edit of every observer list. -/
def editObservers (s : Store S V H) (edit : List Observer → List Observer) : Store S V H :=
  { s with
    channel := { s.channel with observers := edit s.channel.observers }
    projections := s.projections.map fun q =>
      { q with channel := { q.channel with observers := edit q.channel.observers } } }

/-- Editing the lists shows in a record as an edit of its own list. -/
theorem get?_editObservers (s : Store S V H) (edit : List Observer → List Observer)
    (p : ProjectionId) :
    (s.editObservers edit).get? p = (s.get? p).map fun q =>
      { q with channel := { q.channel with observers := edit q.channel.observers } } :=
  find?_map_id s.projections (fun q =>
    { q with channel := { q.channel with observers := edit q.channel.observers } })
    (fun _ => rfl) p

/-- Editing the lists leaves what the projections are derived from. -/
theorem link?_editObservers (s : Store S V H) (edit : List Observer → List Observer) :
    (s.editObservers edit).link? = s.link? := by
  funext p
  rw [link?, get?_editObservers, link?]
  cases s.get? p <;> rfl

/-- Editing the lists leaves the values. -/
theorem value?_editObservers (s : Store S V H) (edit : List Observer → List Observer) :
    (s.editObservers edit).value? = s.value? := by
  funext p
  rw [value?, get?_editObservers, value?]
  cases s.get? p <;> rfl

theorem queue_editObservers (s : Store S V H) (edit : List Observer → List Observer) :
    (s.editObservers edit).queue = s.queue := by
  funext src
  cases src with
  | store => rfl
  | view p =>
    rw [queue, get?_editObservers, queue]
    cases s.get? p <;> rfl

theorem isPublishing_editObservers (s : Store S V H) (edit : List Observer → List Observer) :
    (s.editObservers edit).isPublishing = s.isPublishing := by
  funext src
  cases src with
  | store => rfl
  | view p =>
    rw [isPublishing, get?_editObservers, isPublishing]
    cases s.get? p <;> rfl

/-- The list of a source is edited; a source that is gone has none before and after. -/
theorem observersOf_editObservers (s : Store S V H) (edit : List Observer → List Observer)
    (hnil : edit [] = []) (src : Source) :
    (s.editObservers edit).observersOf src = edit (s.observersOf src) := by
  cases src with
  | store => rfl
  | view p =>
    rw [observersOf, get?_editObservers, observersOf]
    cases s.get? p with
    | none => exact hnil.symm
    | some q => rfl

/-- Whether an entry stays when a subscription ends. -/
def survives (o : ObserverId) (e : Observer) : Bool :=
  !(e.id == o && e.target == .subscriber && e.held)

/-- An entry after a subscription was let go of. -/
def letGo (o : ObserverId) (e : Observer) : Observer :=
  if e.id == o && e.target == .subscriber then { e with held := false } else e

/-- To unsubscribe is to edit the lists and to sweep up what nothing refers to any more. -/
theorem unsubscribe_eq (s : Store S V H) (o : ObserverId) :
    s.unsubscribe o = (s.editObservers (List.filter (survives o))).sweep := rfl

/-- To let go of an entry is to edit the lists and to sweep up likewise. -/
theorem detach_eq (s : Store S V H) (o : ObserverId) :
    s.detach o = (s.editObservers (List.map (letGo o))).sweep := rfl

@[simp] theorem letGo_id (o : ObserverId) (e : Observer) : (letGo o e).id = e.id := by
  unfold letGo
  split <;> rfl

@[simp] theorem letGo_target (o : ObserverId) (e : Observer) :
    (letGo o e).target = e.target := by
  unfold letGo
  split <;> rfl

end Store

end LiveDesk.Observable
