import LiveDesk.Proofs.Observable.Sound

/-!
# What a move can do

Every move that is possible in a sound store, a failure apart, is of one of a few kinds. Most are
quiet: no state and no value changes, only who observes what, which projections live and what is
being delivered.

- `Store.allows`: the moves that are possible and no failure.
- `Move.spares`, `Move.retag`: what a move does to the entry of a subscriber.
- `Store.Quiet`: what a quiet move leaves as it is.
- `Store.Outcome`: the kinds of moves.
- **`Store.Sound.outcome`**: a possible move is of one of these kinds.
-/

namespace LiveDesk.Observable

namespace Move

variable {S V H : Type}

/-- The change that a move makes. -/
def change? : Move S V H → Option (Change S)
  | .change c => some c
  | .tick | .observe _ | .ret | .panic | .enter _ | .leave => none

/-- Whether an entry stays where it is. -/
def spares : Move S V H → Observer → Bool
  | .observe (.unsubscribe o), e => Store.survives o e
  | _, _ => true

/-- An entry after a move that it outlives. -/
def retag : Move S V H → Observer → Observer
  | .observe (.detach o), e => Store.letGo o e
  | _, e => e

@[simp] theorem retag_id (m : Move S V H) (e : Observer) : (m.retag e).id = e.id := by
  unfold retag
  split
  · exact Store.letGo_id _ _
  · rfl

@[simp] theorem retag_target (m : Move S V H) (e : Observer) :
    (m.retag e).target = e.target := by
  unfold retag
  split
  · exact Store.letGo_target _ _
  · rfl

/-- A move that neither ends a subscription nor lets go of one. -/
def Leaves (m : Move S V H) : Prop :=
  ∀ e, m.spares e = true ∧ m.retag e = e

end Move

namespace Store

variable {S V H : Type}

/-- Whether a move is possible, and no failure. -/
def allows (s : Store S V H) : Move S V H → Bool
  | .tick => !s.isWaiting
  | .panic => false
  | .observe a => (Move.observe a : Move S V H).givesUp || s.isWaiting
  | .change _ | .ret | .enter _ | .leave => s.isWaiting

/-- A move that is possible and not the store's own is made by the caller's code, or only gives
something up. -/
theorem givesUp_or_isWaiting {s : Store S V H} {m : Move S V H} (h : s.allows m = true)
    (hm : m ≠ .tick) : m.givesUp = true ∨ s.isWaiting = true := by
  cases m with
  | tick => exact absurd rfl hm
  | panic => cases h
  | observe a => exact (Bool.or_eq_true _ _).mp h
  | change | ret | enter | leave => exact Or.inr h

/-- A move of the caller is made while it has control, or gives something up. -/
theorem step_eq_perform [DecidableEq V] {s : Store S V H} {m : Move S V H}
    (hm : m.givesUp = true ∨ s.isWaiting = true) : s.step m = s.perform m :=
  if_pos ((Bool.or_eq_true _ _).mpr hm)

theorem step_tick [DecidableEq V] {s : Store S V H} (hwait : ¬ s.isWaiting = true) :
    s.step .tick = s.tick :=
  if_neg hwait

/-- A source that is there to be observed. -/
def Living (s : Store S V H) : Source → Prop
  | .store => True
  | .view p => (s.link? p).isSome = true

/-- What a move does to the entries: they come and go, but only a subscription that is being ended
loses its entry while its source lives. -/
structure Entries (m : Move S V H) (s t : Store S V H) : Prop where
  nextObserver : s.nextObserver ≤ t.nextObserver
  replays : ∀ {o p}, .replay o p ∈ t.stack → .replay o p ∈ s.stack ∨ s.nextObserver ≤ o
  retained : ∀ {src e}, e ∈ s.observersOf src → e.target = .subscriber → m.spares e = true →
    t.Living src → m.retag e ∈ t.observersOf src
  appeared : ∀ {src e}, e ∈ t.observersOf src →
    (∃ a ∈ s.observersOf src, m.spares a = true ∧ e = m.retag a) ∨
      (∃ p, src = .view p ∧ .replay e.id p ∈ s.stack) ∨ s.nextObserver ≤ e.id

/-- What a quiet move leaves as it is. -/
structure Quiet (m : Move S V H) (s t : Store S V H) : Prop extends Entries m s t where
  initial : t.initial = s.initial
  current : t.current = s.current
  link? : ∀ {p l}, t.link? p = some l → s.link? p = some l
  value? : ∀ {p v}, t.value? p = some v → s.value? p = some v
  nextProjection : t.nextProjection = s.nextProjection

/-- The queues of the sources that live on are the same. -/
def SameQueues (s t : Store S V H) : Prop :=
  ∀ {src}, t.Living src → t.queue src = s.queue src

/-- A projection that lives on keeps its value in a quiet move. -/
theorem Quiet.value?_eq {m : Move S V H} {s t : Store S V H} (h : Quiet m s t) {p : ProjectionId}
    (hliving : t.Living (.view p)) : t.value? p = s.value? p := by
  obtain ⟨l, hl⟩ := Option.isSome_iff_exists.mp hliving
  obtain ⟨q, hget, -⟩ := get?_of_link? hl
  have hv : t.value? p = some q.value := by rw [Store.value?, hget]; rfl
  rw [hv, h.value? hv]

/-- What lives after a projection has gone lived before. -/
theorem Living.of_remove {s : Store S V H} {q : Projection S V} {src : Source}
    (h : (s.remove q).Living src) : s.Living src ∧ src ≠ .view q.id := by
  cases src with
  | store => exact ⟨trivial, by simp⟩
  | view r =>
    obtain ⟨l, hl⟩ := Option.isSome_iff_exists.mp h
    obtain ⟨hr, hl⟩ := link?_of_remove hl
    exact ⟨Option.isSome_of_eq_some hl, by simpa using hr⟩

/-- The lists may stay as they are. -/
theorem Entries.of_same {m : Move S V H} {s t : Store S V H} (hm : m.Leaves)
    (hsame : s.SameLists t) (hr : ∀ {o p}, .replay o p ∈ t.stack → .replay o p ∈ s.stack) :
    Entries m s t where
  nextObserver := hsame.nextObserver.ge
  replays h := Or.inl (hr h)
  retained {src e} he _ _ _ := by
    rw [hsame.observersOf, (hm e).2]
    exact he
  appeared {src e} he := by
    rw [hsame.observersOf] at he
    exact Or.inl ⟨e, he, (hm e).1, (hm e).2.symm⟩

namespace Quiet

variable {m : Move S V H} {s t u : Store S V H}

/-- What lives after a quiet move lived before. -/
theorem living (h : Quiet m s t) {src : Source} (hliving : t.Living src) : s.Living src := by
  cases src with
  | store => trivial
  | view p =>
    obtain ⟨l, hl⟩ := Option.isSome_iff_exists.mp hliving
    show (s.link? p).isSome = true
    rw [h.link? hl]
    rfl

/-- A store that differs at most in its deliveries, its queues and its handles. -/
theorem of_same (hm : m.Leaves) (hsame : s.SameState t)
    (hr : ∀ {o p}, .replay o p ∈ t.stack → .replay o p ∈ s.stack) : Quiet m s t where
  toEntries := .of_same hm hsame.toSameLists hr
  initial := hsame.initial
  current := hsame.current
  link? h := hsame.link? ▸ h
  value? h := hsame.value? ▸ h
  nextProjection := hsame.nextProjection

theorem refl (hm : m.Leaves) (s : Store S V H) : Quiet m s s :=
  of_same hm (sameState_stack s s.stack) id

/-- Removing a projection that nothing refers to is quiet. -/
theorem trans_remove (h : Quiet m s t) (ht : t.Sound) {p : ProjectionId} {q : Projection S V}
    (hq : t.get? p = some q) : Quiet m s (t.remove q) where
  initial := by rw [remove_initial, h.initial]
  current := by rw [remove_current, h.current]
  link? hl := h.link? (link?_of_remove hl).2
  value? {r v} hv := by
    rw [value?_remove] at hv
    split at hv
    · cases hv
    · exact h.value? hv
  nextProjection := by rw [remove_nextProjection, h.nextProjection]
  nextObserver := by rw [remove_nextObserver]; exact h.nextObserver
  replays hr := by
    rw [remove_stack] at hr
    exact h.replays hr
  retained {src e} he htarget hspare hsrc := by
    -- the entry that goes leads to a projection
    refine ht.wired.stays hq (h.retained he htarget hspare hsrc.of_remove.1) hsrc.of_remove.2 ?_
    rw [m.retag_target, htarget]
    simp
  appeared he := h.appeared (mem_observersOf_remove.mp he).2.1

end Quiet

/-- A quiet move stays quiet when what nothing refers to is swept away, and the queues of the
sources that live on stay the same. -/
theorem Quiet.sweep {m : Move S V H} {s t : Store S V H} (h : Quiet m s t)
    (hq : s.SameQueues t) (ht : t.Sound) : Quiet m s t.sweep ∧ s.SameQueues t.sweep := by
  have : (Quiet m s t.sweep ∧ s.SameQueues t.sweep) ∧ t.sweep.Sound :=
    sweep_induction (P := fun u => (Quiet m s u ∧ s.SameQueues u) ∧ u.Sound)
      (fun u p q ⟨⟨hu, hqu⟩, hs⟩ hget hpin => by
        refine ⟨⟨hu.trans_remove hs hget, fun {src} hsrc => ?_⟩, hs.remove hget hpin⟩
        rw [queue_remove, if_neg hsrc.of_remove.2]
        exact hqu hsrc.of_remove.1)
      ⟨⟨h, hq⟩, ht⟩
  exact this.1

/-- A sweep leaves the deliveries alone. -/
@[simp] theorem sweep_stack (s : Store S V H) : s.sweep.stack = s.stack :=
  sweep_induction (P := fun t => t.stack = s.stack)
    (fun t _ q ht _ _ => by rw [remove_stack, ht]) rfl

/-- What only gives something up leaves the deliveries alone, if it is no failure. -/
theorem step_stack_of_givesUp [DecidableEq V] {s : Store S V H} {m : Move S V H}
    (hm : m.givesUp = true) (hallowed : s.allows m = true) : (s.step m).1.stack = s.stack := by
  rw [step_eq_perform (Or.inl hm)]
  cases m with
  | tick | change | ret | enter | leave => cases hm
  | panic => cases hallowed
  | observe a =>
    cases a with
    | project | chain | share | subscribe | watch => cases hm
    | drop | unsubscribe | detach => exact sweep_stack _

/-! ## The quiet moves -/

namespace Sound

variable {s : Store S V H}

theorem quiet_share (p : ProjectionId) :
    Quiet (.observe (.share p)) s (s.share p) ∧ s.SameQueues (s.share p) := by
  have hm : (Move.observe (.share p) : Move S V H).Leaves := fun _ => ⟨rfl, rfl⟩
  unfold Store.share
  split
  · exact ⟨.refl hm s, fun _ => rfl⟩
  · let more : Projection S V → Projection S V := fun q => { q with handles := q.handles + 1 }
    have hsame : s.SameState (s.modify p more) :=
      ⟨⟨link?_modify s p more (fun _ => rfl) (fun _ => rfl) fun _ => rfl,
        observersOf_modify s p more (fun _ => rfl) fun _ => rfl, rfl, rfl⟩, rfl, rfl,
        value?_modify s p more (fun _ => rfl) fun _ => rfl⟩
    refine ⟨.of_same hm hsame id, fun _ => ?_⟩
    rw [queue_modify s p more (fun _ => rfl) fun _ => rfl]

/-- Giving up a handle is quiet. -/
theorem quiet_drop (h : s.Sound) (p : ProjectionId) :
    Quiet (.observe (.drop p)) s (s.drop p) ∧ s.SameQueues (s.drop p) := by
  have hm : (Move.observe (.drop p) : Move S V H).Leaves := fun _ => ⟨rfl, rfl⟩
  let less : Projection S V → Projection S V := fun q => { q with handles := q.handles - 1 }
  have hsame : s.SameState (s.modify p less) :=
    ⟨⟨link?_modify s p less (fun _ => rfl) (fun _ => rfl) fun _ => rfl,
      observersOf_modify s p less (fun _ => rfl) fun _ => rfl, rfl, rfl⟩, rfl, rfl,
      value?_modify s p less (fun _ => rfl) fun _ => rfl⟩
  refine Quiet.sweep (.of_same hm hsame id) (fun _ => ?_)
    (h.modify p less (fun _ => rfl) (fun _ => rfl) (fun _ => rfl) fun _ => rfl)
  rw [queue_modify s p less (fun _ => rfl) fun _ => rfl]

/-- Subscribing to the snapshots is quiet. -/
theorem quiet_subscribe :
    Quiet (.observe .subscribe) s s.subscribe ∧ s.SameQueues s.subscribe := by
  refine ⟨⟨⟨Nat.le_succ _, Or.inl, ?_, ?_⟩, rfl, rfl, id, id, rfl⟩, fun {src} _ => ?_⟩
  · intro src e he _ _ _
    cases src with
    | store => exact List.mem_append_left _ he
    | view => exact he
  · intro src e he
    cases src with
    | store =>
      rcases List.mem_append.mp he with he | he
      · exact Or.inl ⟨e, he, rfl, rfl⟩
      · rw [List.mem_singleton.mp he]
        exact Or.inr (Or.inr (Nat.le_refl _))
    | view => exact Or.inl ⟨e, he, rfl, rfl⟩
  · cases src <;> rfl

/-- Ending a subscription is quiet. -/
theorem quiet_unsubscribe (h : s.Sound) (o : ObserverId) :
    Quiet (.observe (.unsubscribe o)) s (s.unsubscribe o) ∧ s.SameQueues (s.unsubscribe o) := by
  rw [unsubscribe_eq]
  have hobs := observersOf_editObservers s (List.filter (survives o)) rfl
  refine Quiet.sweep ⟨⟨Nat.le_refl _, Or.inl, ?_, ?_⟩, rfl, rfl, fun hl => ?_, fun hv => ?_, rfl⟩
    (fun _ => by rw [queue_editObservers]) (h.filterSurvivors o)
  · intro src e he _ hspare _
    rw [hobs]
    exact List.mem_filter.mpr ⟨he, hspare⟩
  · intro src e he
    rw [hobs] at he
    obtain ⟨he, hspare⟩ := List.mem_filter.mp he
    exact Or.inl ⟨e, he, hspare, rfl⟩
  · rwa [link?_editObservers] at hl
  · rwa [value?_editObservers] at hv

/-- Letting go of a subscription is quiet. -/
theorem quiet_detach (h : s.Sound) (o : ObserverId) :
    Quiet (.observe (.detach o)) s (s.detach o) ∧ s.SameQueues (s.detach o) := by
  rw [detach_eq]
  have hobs := observersOf_editObservers s (List.map (letGo o)) rfl
  refine Quiet.sweep ⟨⟨Nat.le_refl _, Or.inl, ?_, ?_⟩, rfl, rfl, fun hl => ?_, fun hv => ?_, rfl⟩
    (fun _ => by rw [queue_editObservers]) (h.mapLetGo o)
  · intro src e he _ _ _
    rw [hobs]
    exact List.mem_map_of_mem he
  · intro src e he
    rw [hobs] at he
    obtain ⟨a, ha, rfl⟩ := List.mem_map.mp he
    exact Or.inl ⟨a, ha, rfl, rfl⟩
  · rwa [link?_editObservers] at hl
  · rwa [value?_editObservers] at hv

/-- The entry that is added when a subscriber's code for its first value returns is the only change
of the lists. -/
theorem quiet_ret (h : s.Sound) : Quiet .ret s s.ret ∧ s.SameQueues s.ret := by
  have hm : (Move.ret : Move S V H).Leaves := fun _ => ⟨rfl, rfl⟩
  unfold Store.ret
  split
  · next o below hst =>
    refine ⟨.of_same hm (sameState_stack s below) fun hr => ?_, fun _ => rfl⟩
    rw [hst]
    exact List.mem_cons_of_mem _ hr
  · next o p below hst =>
    have halive : (s.link? p).isSome = true :=
      h.stacked.alive (hst ▸ List.mem_cons_self ..) (by simp [Frame.keeps])
    let grow : Projection S V → Projection S V :=
      fun q => { q with channel := q.channel.add ⟨o, .subscriber, true⟩ }
    have hobs := observersOf_add halive ⟨o, .subscriber, true⟩
    have hlink := link?_modify s p grow (fun _ => rfl) (fun _ => rfl) fun _ => rfl
    have hvalue := value?_modify s p grow (fun _ => rfl) fun _ => rfl
    have hqueue := queue_modify s p grow (fun _ => rfl) fun _ => rfl
    -- before the sweep nothing but the list of the projection is different
    refine Quiet.sweep ⟨⟨Nat.le_refl _, fun hr => ?_, ?_, ?_⟩, rfl, rfl, fun hl => ?_,
      fun hv => ?_, rfl⟩ (fun {src} _ => congrFun hqueue src) (h.addReplayed hst)
    · rw [hst]
      exact Or.inl (List.mem_cons_of_mem _ hr)
    · intro src e he _ _ _
      show e ∈ (s.modifyChannel p (·.add ⟨o, .subscriber, true⟩)).observersOf src
      rw [hobs]
      split
      · exact List.mem_append_left _ he
      · exact he
    · intro src e he
      replace he : e ∈ (s.modifyChannel p (·.add ⟨o, .subscriber, true⟩)).observersOf src := he
      rw [hobs] at he
      split at he
      · next hsrc =>
        rcases List.mem_append.mp he with he | he
        · exact Or.inl ⟨e, he, rfl, rfl⟩
        · rw [List.mem_singleton.mp he, hst]
          exact Or.inr (Or.inl ⟨p, hsrc, List.mem_cons_self ..⟩)
      · exact Or.inl ⟨e, he, rfl, rfl⟩
    · exact (congrFun hlink _).symm.trans hl
    · exact (congrFun hvalue _).symm.trans hv
  · exact ⟨.refl hm s, fun _ => rfl⟩

/-- A frame comes to the top, or goes from it, that has nothing to do with the lists. -/
theorem quiet_stack {m : Move S V H} (hm : m.Leaves) (st : List (Frame S V H))
    (hr : ∀ {o p}, .replay o p ∈ st → .replay o p ∈ s.stack) :
    Quiet m s { s with stack := st } ∧ s.SameQueues { s with stack := st } :=
  ⟨.of_same hm (sameState_stack s st) hr, fun _ => rfl⟩

end Sound

/-! ## The kinds of moves -/

/-- The origin of the projection that the caller asks for. -/
def origin? : Observation S V → Option (Origin S V)
  | .project select => some (.store select)
  | .chain source select => some (.view source select)
  | .share _ | .drop _ | .subscribe | .watch _ | .unsubscribe _ | .detach _ => none

/-- The kinds of moves, with what they change and the events they cause. In the store's own steps
`ds` are the deliveries under the innermost one. -/
inductive Outcome [DecidableEq V] (s : Store S V H) :
    Move S V H → Store S V H → List (Event S V) → Prop where
  | quiet {m : Move S V H} {t : Store S V H} : m ≠ .tick → m.change? = none → Quiet m s t →
    s.SameQueues t → t.deliveries = s.deliveries → Outcome s m t []
  /-- A subscriber is called with the value that a projection has. -/
  | replayed {p : ProjectionId} {v : V} {t : Store S V H} : s.value? p = some v →
    Quiet (.observe (.watch p)) s t → s.SameQueues t → t.deliveries = s.deliveries →
    s.nextObserver < t.nextObserver →
    Outcome s (.observe (.watch p)) t [.called s.nextObserver (.view v)]
  /-- A snapshot becomes current and is queued, and its delivery begins unless one is running. -/
  | changed {c : Change S} {t : Store S V H} : Entries (.change c) s t →
    t.initial = s.initial → t.current = s.following c → s.SameLists t →
    t.value? = s.value? →
    t.queue = Function.update s.queue .store
      (s.queue .store ++ [.snapshot (s.following c)]) →
    (s.deliveries ≠ [] ∧ t.deliveries = s.deliveries ∨
      s.deliveries = [] ∧ t.deliveries = [⟨.store, none⟩]) →
    Outcome s (.change c) t [.published (s.following c)]
  /-- A projection is derived from what its source took last. -/
  | created {a : Observation S V} {origin : Origin S V} {signal : Signal S V} {v : V} :
    origin? a = some origin → s.newest? origin.source = some signal →
    origin.image? signal = some v →
    (∀ p, origin.source = .view p → (s.link? p).isSome = true) →
    Outcome s (.observe a) (s.addProjection origin v) [.evaluated s.nextProjection signal v]
  /-- The next signal is taken from the queue, for the observers of this moment. -/
  | took {src : Source} {signal : Signal S V} {later : List (Signal S V)} {t : Store S V H}
    {ds : List (Delivery S V)} : s.deliveries = ⟨src, none⟩ :: ds →
    s.queue src = signal :: later → Quiet .tick s t →
    t.queue = Function.update s.queue src later →
    t.deliveries = ⟨src, some (signal, s.observersOf src)⟩ :: ds → Outcome s .tick t []
  /-- An observer that is gone is passed. -/
  | passed {src : Source} {signal : Signal S V} {o : Observer} {rest : List Observer}
    {t : Store S V H} {ds : List (Delivery S V)} :
    s.deliveries = ⟨src, some (signal, o :: rest)⟩ :: ds →
    (∀ e ∈ s.observersOf src, e.id ≠ o.id) → Quiet .tick s t → t.queue = s.queue →
    t.deliveries = ⟨src, some (signal, rest)⟩ :: ds → Outcome s .tick t []
  /-- A subscriber's code is called. -/
  | called {src : Source} {signal : Signal S V} {o : Observer} {rest : List Observer}
    {t : Store S V H} {ds : List (Delivery S V)} :
    s.deliveries = ⟨src, some (signal, o :: rest)⟩ :: ds →
    (∃ e ∈ s.observersOf src, e.id = o.id ∧ e.target = .subscriber) → signal.Fits src →
    Quiet .tick s t → t.queue = s.queue → t.deliveries = ⟨src, some (signal, rest)⟩ :: ds →
    Outcome s .tick t [.called o.id signal]
  /-- A projection derives the value that it has. -/
  | kept {src : Source} {signal : Signal S V} {o : Observer} {rest : List Observer}
    {p : ProjectionId} {origin : Origin S V} {v : V} {t : Store S V H}
    {ds : List (Delivery S V)} :
    s.deliveries = ⟨src, some (signal, o :: rest)⟩ :: ds → s.link? p = some (origin, o.id) →
    origin.source = src → origin.image? signal = some v → s.value? p = some v →
    Quiet .tick s t → t.queue = s.queue → t.deliveries = ⟨src, some (signal, rest)⟩ :: ds →
    t.link? = s.link? → Outcome s .tick t [.evaluated p signal v]
  /-- A projection derives another value, takes it and begins to deliver it. -/
  | accepted {src : Source} {signal : Signal S V} {o : Observer} {rest : List Observer}
    {p : ProjectionId} {origin : Origin S V} {v w : V} {t : Store S V H}
    {ds : List (Delivery S V)} :
    s.deliveries = ⟨src, some (signal, o :: rest)⟩ :: ds → s.link? p = some (origin, o.id) →
    origin.source = src → origin.image? signal = some v → s.value? p = some w → w ≠ v →
    Entries .tick s t → t.initial = s.initial → t.current = s.current → s.SameLists t →
    t.value? = Function.update s.value? p (some v) →
    t.queue = Function.update s.queue (.view p) (s.queue (.view p) ++ [.view v]) →
    t.isWaiting = false →
    t.deliveries = ⟨.view p, none⟩ :: ⟨src, some (signal, rest)⟩ :: ds →
    Outcome s .tick t [.evaluated p signal v, .emitted p v]
  /-- Every observer has been told the signal at hand. -/
  | done {src : Source} {signal : Signal S V} {t : Store S V H} {ds : List (Delivery S V)} :
    s.deliveries = ⟨src, some (signal, [])⟩ :: ds → Quiet .tick s t → t.queue = s.queue →
    t.deliveries = ⟨src, none⟩ :: ds → Outcome s .tick t []
  /-- The queue is empty, and the delivery ends. -/
  | ended {src : Source} {t : Store S V H} {ds : List (Delivery S V)} :
    s.deliveries = ⟨src, none⟩ :: ds → s.queue src = [] → Quiet .tick s t → s.SameQueues t →
    t.deliveries = ds → Outcome s .tick t []

/-- The frames of subscribers that wait for their entries do not depend on where a delivery is. -/
theorem Delivers.replays {s t : Store S V H} {d d' : Delivery S V} {below : List (Frame S V H)}
    (h : s.Delivers d below) (h' : t.Delivers d' below) {o : ObserverId} {p : ProjectionId}
    (hr : .replay o p ∈ t.stack) : .replay o p ∈ s.stack := by
  obtain ⟨f, hf, hst⟩ := h
  obtain ⟨g, hg, hgt⟩ := h'
  rw [hgt] at hr
  rw [hst]
  rcases List.mem_cons.mp hr with rfl | hr
  · cases hg
  · exact List.mem_cons_of_mem _ hr

namespace Sound

variable {s : Store S V H}

/-- The next observer is told. -/
theorem outcome_told [DecidableEq V] {src : Source} {signal : Signal S V} {o : Observer}
    {rest : List Observer} {t u : Store S V H} {es : List (Event S V)}
    {ds : List (Delivery S V)} (hdel : s.deliveries = ⟨src, some (signal, o :: rest)⟩ :: ds)
    (hentry : ∃ e ∈ s.observersOf src, e.id = o.id ∧ e.target = o.target)
    (hfits : signal.Fits src) (hsame : s.SameState t) (hqueue : t.queue = s.queue)
    (hr : ∀ {o p}, .replay o p ∈ t.stack → .replay o p ∈ s.stack)
    (hdt : t.deliveries = ⟨src, some (signal, rest)⟩ :: ds)
    (htold : Told t src o signal u es) : Outcome s .tick u es := by
  have hm : (Move.tick : Move S V H).Leaves := fun _ => ⟨rfl, rfl⟩
  cases htold with
  | called htarget hsame' _ hqueue' hst =>
    refine .called hdel (htarget ▸ hentry) hfits (.of_same hm (hsame.trans hsame') fun hr' => ?_)
      (hqueue'.trans hqueue) ?_
    · rw [hst] at hr'
      rcases List.mem_cons.mp hr' with h | h
      · cases h
      · exact hr h
    · rw [deliveries, hst, ← hdt]
      rfl
  | kept _ hlink hsource himage hvalue =>
    rw [hsame.link?] at hlink
    rw [hsame.value?] at hvalue
    exact .kept hdel hlink hsource himage hvalue (.of_same hm hsame hr) hqueue hdt hsame.link?
  | took _ hlink hsource himage hvalue hne hlists hi hc hvalue' _ hqueue' hst =>
    have hlists' := hsame.toSameLists.trans hlists
    rw [hsame.link?] at hlink
    rw [hsame.value?] at hvalue hvalue'
    rw [hqueue] at hqueue'
    refine .accepted hdel hlink hsource himage hvalue hne
      (.of_same hm hlists' fun hr' => ?_) (hi.trans hsame.initial) (hc.trans hsame.current)
      hlists' hvalue' hqueue' ?_ ?_
    · rw [hst] at hr'
      rcases List.mem_cons.mp hr' with h | h
      · cases h
      · exact hr h
    · rw [isWaiting, hst]
    · rw [deliveries, hst, ← hdt]
      rfl

/-- **What the delivery does by itself has an outcome.** -/
theorem outcome_tick [DecidableEq V] (h : s.Sound) {d : Delivery S V}
    {below : List (Frame S V H)} (htop : s.Delivers d below) :
    Outcome s .tick s.tick.1 s.tick.2 := by
  have hm : (Move.tick : Move S V H).Leaves := fun _ => ⟨rfl, rfl⟩
  have hdel := deliveries_of_delivers htop
  have hcases := tick_cases htop (h.alive_of_delivers htop)
  generalize s.tick.1 = u, s.tick.2 = es at hcases ⊢
  cases hcases with
  | took hq hsame _ hqueue ht =>
    exact .took hdel hq (.of_same hm hsame (htop.replays ht)) hqueue (deliveries_of_delivers ht)
  | passed hgone hsame _ hqueue ht =>
    exact .passed hdel hgone (.of_same hm hsame (htop.replays ht)) hqueue
      (deliveries_of_delivers ht)
  | told hin hsame hb hqueue ht =>
    obtain ⟨-, hentry, hfits, -, htold⟩ := h.told_cases htop hin hsame hb ht
    exact outcome_told hdel hentry hfits hsame hqueue (htop.replays ht)
      (deliveries_of_delivers ht) htold
  | done hsame _ hqueue ht =>
    exact .done hdel (.of_same hm hsame (htop.replays ht)) hqueue (deliveries_of_delivers ht)
  | @ended src t u hq hsame hb hqueue hst hu =>
    obtain ⟨f, hf, hst'⟩ := htop
    -- before the sweep the store is sound, and nothing but the stack and the flag is different
    have ht : t.Sound := h.ended hf hst' hsame hb hst
    have hquiet : Quiet .tick s t := by
      refine .of_same hm hsame fun hr => ?_
      rw [hst']
      rw [hst] at hr
      exact List.mem_cons_of_mem _ hr
    have hqueues : s.SameQueues t := fun _ => by rw [hqueue]
    rcases hu with rfl | rfl
    · exact .ended hdel hq hquiet hqueues (by rw [deliveries, hst])
    · obtain ⟨hquiet, hqueues⟩ := hquiet.sweep hqueues ht
      exact .ended hdel hq hquiet hqueues (by rw [deliveries, sweep_stack, hst])

/-- What it comes to that the state is changed. -/
theorem outcome_change [DecidableEq V] (h : s.Sound) (c : Change S) :
    Outcome s (.change c) (s.change c).1 (s.change c).2 := by
  have hm : (Move.change c : Move S V H).Leaves := fun _ => ⟨rfl, rfl⟩
  have hlists := s.sameLists_queued c
  -- the snapshot is queued whether or not a delivery begins with it
  have hqueue : ∀ st : List (Frame S V H), ({ s with
      current := s.following c
      channel := { s.channel.push (s.following c) with publishing := true }
      stack := st } : Store S V H).queue
        = Function.update s.queue .store (s.queue .store ++ [.snapshot (s.following c)]) := by
    intro st
    funext src
    cases src with
    | store => simp [queue, Channel.push]
    | view p => simp [queue, get?]
  unfold Store.change
  dsimp only
  split
  · next hpub =>
    have hsrc : s.sources ≠ [] := by
      have := (h.stacked.busy .store).mp hpub
      exact List.ne_nil_of_mem this
    exact .changed (.of_same hm (hlists s.stack) id) rfl rfl (hlists s.stack) rfl
      (hqueue s.stack) (Or.inl ⟨fun hnil => hsrc (by rw [sources, hnil]; rfl), rfl⟩)
  · next hpub =>
    have hsrc : s.sources = [] := h.stacked.sources_eq_nil (Bool.eq_false_iff.mpr hpub)
    have hnil : s.deliveries = [] := List.map_eq_nil_iff.mp hsrc
    have hst := hlists (.publishing none :: s.stack)
    refine .changed (.of_same hm hst fun hr => ?_) rfl rfl hst rfl
      (hqueue (.publishing none :: s.stack)) (Or.inr ⟨hnil, ?_⟩)
    · rcases List.mem_cons.mp hr with h | h
      · cases h
      · exact h
    · show ⟨.store, none⟩ :: s.deliveries = _
      rw [hnil]

theorem outcome_watch [DecidableEq V] (s : Store S V H) (p : ProjectionId) :
    Outcome s (.observe (.watch p)) (s.watch p).1 (s.watch p).2 := by
  have hm : (Move.observe (.watch p) : Move S V H).Leaves := fun _ => ⟨rfl, rfl⟩
  unfold Store.watch
  split
  · exact .quiet (by simp) rfl (.refl hm s) (fun _ => rfl) rfl
  · next q hq =>
    have hvalue : s.value? p = some q.value := by rw [value?, handled?_eq_some hq]; rfl
    refine .replayed hvalue ⟨⟨Nat.le_succ _, fun hr => ?_, ?_, ?_⟩, rfl, rfl, id, id, rfl⟩
      (fun _ => rfl) rfl (Nat.lt_succ_self _)
    · rcases List.mem_cons.mp hr with h | h
      · cases h
        exact Or.inr (Nat.le_refl _)
      · exact Or.inl h
    · intro src e he _ _ _
      exact he
    · intro src e he
      exact Or.inl ⟨e, he, rfl, rfl⟩

/-- **Whatever the caller asks for has an outcome.** -/
theorem outcome_observe [DecidableEq V] (h : s.Sound) (a : Observation S V) :
    Outcome s (.observe a) (s.observe a).1 (s.observe a).2 := by
  cases a with
  | project select =>
    show Outcome s _ (s.addProjection (.store select) (select s.current.state)) _
    exact .created rfl rfl rfl fun _ hp => by cases hp
  | chain source select =>
    have hm : (Move.observe (.chain source select) : Move S V H).Leaves :=
      fun _ => ⟨rfl, rfl⟩
    show Outcome s _ (s.chain source select).1 (s.chain source select).2
    unfold Store.chain
    split
    · exact .quiet (by simp) rfl (.refl hm s) (fun _ => rfl) rfl
    · next q hq =>
      have hget := handled?_eq_some hq
      show Outcome s _ (s.addProjection (.view source select) (select q.value)) _
      refine .created rfl ?_ rfl fun p hp => ?_
      · show (s.value? source).map _ = _
        rw [value?, hget]
        rfl
      · cases hp
        rw [link?_of_get? hget]
        rfl
  | share p =>
    obtain ⟨hquiet, hqueues⟩ := quiet_share (s := s) p
    refine .quiet (by simp) rfl hquiet hqueues ?_
    show (s.share p).deliveries = _
    unfold Store.share
    split <;> rfl
  | drop p =>
    obtain ⟨hquiet, hqueues⟩ := h.quiet_drop p
    refine .quiet (by simp) rfl hquiet hqueues ?_
    show (s.drop p).deliveries = _
    rw [deliveries, Store.drop, sweep_stack]
    rfl
  | subscribe => exact .quiet (by simp) rfl quiet_subscribe.1 quiet_subscribe.2 rfl
  | watch p => exact outcome_watch s p
  | unsubscribe o =>
    obtain ⟨hquiet, hqueues⟩ := h.quiet_unsubscribe o
    refine .quiet (by simp) rfl hquiet hqueues ?_
    show (s.unsubscribe o).deliveries = _
    rw [deliveries, Store.unsubscribe, sweep_stack]
    rfl
  | detach o =>
    obtain ⟨hquiet, hqueues⟩ := h.quiet_detach o
    refine .quiet (by simp) rfl hquiet hqueues ?_
    show (s.detach o).deliveries = _
    rw [deliveries, Store.detach, sweep_stack]
    rfl

/-- **A possible move is of one of the kinds.** -/
theorem outcome [DecidableEq V] (h : s.Sound) {m : Move S V H} (hm : s.allows m = true) :
    Outcome s m (s.step m).1 (s.step m).2 := by
  by_cases htick : m = .tick
  · subst htick
    have hwait : ¬ s.isWaiting = true := by simpa [allows] using hm
    obtain ⟨d, below, htop⟩ := delivers_of_not_isWaiting hwait
    rw [step_tick hwait]
    exact h.outcome_tick htop
  · rw [step_eq_perform (givesUp_or_isWaiting hm htick)]
    cases m with
    | tick => exact absurd rfl htick
    | panic => cases hm
    | change c => exact h.outcome_change c
    | observe a => exact h.outcome_observe a
    -- what returns is code, so the deliveries on the stack are the same
    | ret =>
      refine .quiet (by simp) rfl h.quiet_ret.1 h.quiet_ret.2 ?_
      show s.ret.deliveries = _
      unfold Store.ret
      split
      · next hst => rw [deliveries, deliveries, hst]; rfl
      · next hst => rw [deliveries, sweep_stack, deliveries, hst]; rfl
      · rfl
    | enter c =>
      obtain ⟨hquiet, hqueues⟩ := quiet_stack (s := s) (m := .enter c) (fun _ => ⟨rfl, rfl⟩)
        (.code c :: s.stack) fun hr => (List.mem_cons.mp hr).resolve_left (by simp)
      exact .quiet (by simp) rfl hquiet hqueues rfl
    | leave =>
      have hleaves : (Move.leave : Move S V H).Leaves := fun _ => ⟨rfl, rfl⟩
      show Outcome s .leave s.leave []
      unfold Store.leave
      split
      · next c below hst =>
        obtain ⟨hquiet, hqueues⟩ := quiet_stack (s := s) hleaves below fun hr => by
          rw [hst]
          exact List.mem_cons_of_mem _ hr
        refine .quiet (by simp) rfl hquiet hqueues ?_
        rw [deliveries, deliveries, hst]
        rfl
      · exact .quiet (by simp) rfl (.refl hleaves s) (fun _ => rfl) rfl

end Sound

end Store

end LiveDesk.Observable
