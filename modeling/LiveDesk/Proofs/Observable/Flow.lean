import LiveDesk.Proofs.Observable.Runs

/-!
# How signals pass through a channel

A source takes a signal, queues it, begins to deliver it, and is done with it. In a calm run nothing
is lost and nothing changes its order on the way.

- `Store.taken`: the signals that a source took, read off the events.
- `Store.begins`, `Store.begun`: the signals whose delivery begins.
- `Store.outstanding`: the signal at hand and the queue of a source.
- `Store.Steady`: the deliveries are in order, and so are the snapshots that wait.
- `Store.Orderly`: beside this, outstanding signals end with what the source took last, and only a
  channel that is being emptied has any.
- **`Orderly.step`**: every possible move keeps it.
- **`Orderly.induction`**: what every possible move of an orderly store keeps holds after every calm
  run.
- **`Orderly.flow`**: what was queued and what is taken is what begins and what is still queued.
-/

namespace LiveDesk.Observable

variable {S V H : Type}

namespace Signal

/-- The number of a snapshot. -/
def version : Signal S V → Nat
  | .snapshot x => x.version
  | .view _ => 0

end Signal

namespace Event

/-- The signal that an event makes the newest of a source. -/
def taken? (src : Source) : Event S V → Option (Signal S V)
  | .published x => if src = .store then some (.snapshot x) else none
  | .emitted p v => if src = .view p then some (.view v) else none
  | .called _ _ | .evaluated _ _ _ => none

end Event

namespace Delivery

/-- The signal at hand, if the delivery is one of the source. -/
def hand (src : Source) (d : Delivery S V) : List (Signal S V) :=
  if d.source = src then (d.now.map (·.1)).toList else []

theorem hand_of_ne {src : Source} {d : Delivery S V} (h : d.source ≠ src) : d.hand src = [] :=
  if_neg h

/-- What is not being delivered is not at hand. -/
theorem flatMap_hand_of_not_mem {src : Source} {ds : List (Delivery S V)}
    (h : src ∉ ds.map (·.source)) : ds.flatMap (·.hand src) = [] := by
  refine List.flatMap_eq_nil_iff.mpr fun d hd => hand_of_ne ?_
  rintro rfl
  exact h (List.mem_map_of_mem hd)

end Delivery

namespace Store

/-- The signals that a source took. -/
def taken (src : Source) (es : List (Event S V)) : List (Signal S V) :=
  es.filterMap (Event.taken? src)

@[simp] theorem taken_append (src : Source) (es es' : List (Event S V)) :
    taken src (es ++ es') = taken src es ++ taken src es' :=
  List.filterMap_append ..

/-- The signal of a source whose delivery begins in a move. -/
def begins (s : Store S V H) (src : Source) : Move S V H → List (Signal S V)
  | .tick =>
    match s.deliveries with
    | ⟨src', none⟩ :: _ => if src' = src then (s.queue src).take 1 else []
    | _ => []
  | _ => []

/-- The signals of a source whose delivery begins in a run. -/
def begun [DecidableEq V] (s : Store S V H) (src : Source) :
    List (Move S V H) → List (Signal S V)
  | [] => []
  | m :: ms => s.begins src m ++ (s.step m).1.begun src ms

/-- The signals of a source that are at hand. -/
def hand (s : Store S V H) (src : Source) : List (Signal S V) :=
  s.deliveries.flatMap (·.hand src)

/-- The signals of a source that are not done with. -/
def outstanding (s : Store S V H) (src : Source) : List (Signal S V) :=
  s.hand src ++ s.queue src

/-- The deliveries are in order, and so are the snapshots that wait, whether they are being
delivered or not. -/
structure Steady (s : Store S V H) : Prop extends s.Sound where
  /-- A projection delivers a value as soon as it has taken it. -/
  prompt : ∀ {p}, s.queue (.view p) ≠ [] → s.isWaiting = false ∧
    ∃ signal ds, s.queue (.view p) = [signal] ∧ s.deliveries = ⟨.view p, none⟩ :: ds
  numbered : (s.outstanding .store).Pairwise fun a b => a.version < b.version
  current : ∀ {signal}, signal ∈ s.outstanding .store → signal.version ≤ s.current.version

/-- The queues and the deliveries are in order. -/
structure Orderly (s : Store S V H) : Prop extends s.Steady where
  /-- Only a channel that is being emptied has a queue. -/
  idle : ∀ {src}, src ∉ s.sources → s.queue src = []
  latest : ∀ {src signal}, (s.outstanding src).getLast? = some signal →
    s.newest? src = some signal
  /-- Only the innermost delivery is between two signals. -/
  inner : ∀ {d}, d ∈ s.deliveries.tail → d.now.isSome = true

/-- Nothing is queued while nothing is being delivered. -/
theorem Orderly.queue_of_deliveries_nil {s : Store S V H} (hs : s.Orderly)
    (hdel : s.deliveries = []) (src : Source) : s.queue src = [] := by
  refine hs.idle ?_
  rw [sources, hdel]
  exact List.not_mem_nil

/-! ## Sources that are gone -/

/-- A source that is gone has nothing queued. -/
theorem queue_eq_nil_of_not_living {s : Store S V H} {src : Source} (h : ¬ s.Living src) :
    s.queue src = [] := by
  cases src with
  | store => exact absurd trivial h
  | view p =>
    have : s.get? p = none := by simpa [Living, link?] using h
    simp [queue, this]

/-- A source that is gone has no observers. -/
theorem observersOf_eq_nil_of_not_living {s : Store S V H} {src : Source} (h : ¬ s.Living src) :
    s.observersOf src = [] := by
  cases src with
  | store => exact absurd trivial h
  | view p =>
    have : s.get? p = none := by simpa [Living, link?] using h
    simp [observersOf, this]

/-- What is being delivered is there. -/
theorem Sound.living {s : Store S V H} (h : s.Sound) {src : Source} (hsrc : src ∈ s.sources) :
    s.Living src := by
  cases src with
  | store => trivial
  | view p =>
    obtain ⟨f, hf, hk⟩ := keeps_of_mem_sources hsrc
    exact h.stacked.alive hf hk

/-- The snapshots are being delivered while a frame for that is on the stack. -/
theorem store_mem_sources {s : Store S V H} :
    .store ∈ s.sources ↔ ∃ now, .publishing now ∈ s.stack := by
  constructor
  · intro hmem
    obtain ⟨d, hd, hsrc⟩ := List.mem_map.mp hmem
    obtain ⟨f, hf, hfd⟩ := List.mem_filterMap.mp hd
    cases f with
    | publishing now => exact ⟨now, hf⟩
    | emitting p now =>
      simp only [Frame.delivery?, Option.some.injEq] at hfd
      subst hfd
      cases hsrc
    | callback | replay | code => cases hfd
  · rintro ⟨now, hf⟩
    exact List.mem_map.mpr ⟨_, List.mem_filterMap.mpr ⟨_, hf, rfl⟩, rfl⟩

/-- Without a delivery of snapshots there is no delivery. -/
theorem Sound.deliveries_eq_nil {s : Store S V H} (h : s.Sound)
    (hnone : ∀ now, .publishing now ∉ s.stack) : s.deliveries = [] := by
  by_contra hne
  have hsrc : s.sources ≠ [] := fun hnil => hne (List.map_eq_nil_iff.mp hnil)
  obtain ⟨now, hf⟩ := store_mem_sources.mp (h.stacked.nested.store_mem hsrc)
  exact hnone now hf

/-- The next name is free. -/
theorem Sound.not_living_next {s : Store S V H} (h : s.Sound) :
    ¬ s.Living (.view s.nextProjection) := by
  intro hliving
  obtain ⟨l, hl⟩ := Option.isSome_iff_exists.mp hliving
  exact lt_irrefl _ (h.wired.named hl)

/-- The innermost delivery is the only one of its source. -/
theorem Sound.not_mem_tail {s : Store S V H} (h : s.Sound) {d : Delivery S V}
    {ds : List (Delivery S V)} (hdel : s.deliveries = d :: ds) :
    d.source ∉ ds.map (·.source) := by
  have hnest := h.stacked.nested
  rw [sources, hdel] at hnest
  exact hnest.not_mem_tail h.wired.older

theorem mem_sources {s : Store S V H} {d : Delivery S V} {ds : List (Delivery S V)}
    (hdel : s.deliveries = d :: ds) : d.source ∈ s.sources := by
  rw [sources, hdel]
  exact List.mem_cons_self ..

theorem sources_cons {s : Store S V H} {d : Delivery S V} {ds : List (Delivery S V)}
    (hdel : s.deliveries = d :: ds) : s.sources = d.source :: ds.map (·.source) := by
  rw [sources, hdel, List.map_cons]

theorem hand_cons {s : Store S V H} {d : Delivery S V} {ds : List (Delivery S V)}
    (hdel : s.deliveries = d :: ds) (src : Source) :
    s.hand src = d.hand src ++ ds.flatMap (·.hand src) := by
  rw [hand, hdel, List.flatMap_cons]

theorem hand_of_not_mem {s : Store S V H} {src : Source} (h : src ∉ s.sources) :
    s.hand src = [] :=
  Delivery.flatMap_hand_of_not_mem h

/-- While the caller's code has control, no value of a projection is queued. -/
theorem Steady.queue_view {s : Store S V H} (h : s.Steady) (hwait : s.isWaiting = true)
    (p : ProjectionId) : s.queue (.view p) = [] := by
  by_contra hne
  rw [(h.prompt hne).1] at hwait
  cases hwait

/-- The only value of a projection that is queued belongs to the innermost delivery. -/
theorem Steady.queue_view_of_ne {s : Store S V H} (h : s.Steady) {d : Delivery S V}
    {ds : List (Delivery S V)} (hdel : s.deliveries = d :: ds) {p : ProjectionId}
    (hd : d ≠ ⟨.view p, none⟩) : s.queue (.view p) = [] := by
  by_contra hne
  obtain ⟨-, signal, ds', -, hdel'⟩ := h.prompt hne
  rw [hdel] at hdel'
  exact hd (List.cons.inj hdel').1

/-! ## The queues after a quiet move -/

/-- A source that goes has nothing queued. -/
theorem Steady.same_queues {s t : Store S V H} (h : s.Steady) (hq : s.SameQueues t)
    (hliving : ∀ src, src ∈ s.sources → t.Living src ∨ s.queue src = []) :
    t.queue = s.queue := by
  funext src
  by_cases hsrc : t.Living src
  · exact hq hsrc
  · rw [queue_eq_nil_of_not_living hsrc]
    by_contra hne
    have hmem : src ∈ s.sources := by
      cases src with
      | store => exact absurd trivial hsrc
      | view p =>
        obtain ⟨-, _, _, -, hdel⟩ := h.prompt fun hnil => hne hnil.symm
        exact mem_sources hdel
    exact hne ((hliving src hmem).resolve_left hsrc).symm

/-! ## One move -/

/-- Only the store's own moves begin a delivery. -/
theorem begins_of_ne_tick (s : Store S V H) (src : Source) {m : Move S V H} (hm : m ≠ .tick) :
    s.begins src m = [] := by
  cases m with
  | tick => exact absurd rfl hm
  | change | observe | ret | panic | enter | leave => rfl

/-- While a signal is at hand, no other one is taken. -/
theorem begins_eq_nil {s : Store S V H} {d : Delivery S V} {ds : List (Delivery S V)}
    (hdel : s.deliveries = d :: ds) (src : Source) (hd : d.now.isSome = true) :
    s.begins src .tick = [] := by
  obtain ⟨src', _ | now⟩ := d
  · cases hd
  · rw [begins, hdel]

/-- From an empty queue no signal is taken. -/
theorem begins_of_queue_nil {s : Store S V H} {src' : Source} {ds : List (Delivery S V)}
    (hdel : s.deliveries = ⟨src', none⟩ :: ds) (hnil : s.queue src' = []) (src : Source) :
    s.begins src .tick = [] := by
  rw [begins, hdel]
  by_cases hsrc : src' = src
  · subst hsrc
    simp [hnil]
  · simp [hsrc]

/-- A new projection delivers nothing. -/
theorem deliveries_addProjection (s : Store S V H) (origin : Origin S V) (v : V) :
    (s.addProjection origin v).deliveries = s.deliveries := by
  cases origin <;> rfl

theorem hand_eq {s t : Store S V H} (h : t.deliveries = s.deliveries) : t.hand = s.hand := by
  funext src
  rw [hand, h, hand]

/-- The queues of a quiet move that leaves the deliveries as they are. -/
theorem Steady.quiet_queues {s t : Store S V H} (h : s.Steady) (ht : t.Sound)
    (hq : s.SameQueues t) (hdel : t.deliveries = s.deliveries) : t.queue = s.queue := by
  refine h.same_queues hq fun src hsrc => Or.inl (ht.living ?_)
  rw [sources, hdel]
  exact hsrc

/-- The queues when a delivery ends. -/
theorem Steady.ended_queues {s t : Store S V H} (h : s.Steady) (ht : t.Sound)
    (hq : s.SameQueues t) {src : Source} {ds : List (Delivery S V)}
    (hdel : s.deliveries = ⟨src, none⟩ :: ds) (hnil : s.queue src = [])
    (hdt : t.deliveries = ds) : t.queue = s.queue := by
  refine h.same_queues hq fun src' hsrc => ?_
  -- the source whose delivery ends may go, but its queue was empty already
  rw [sources_cons hdel] at hsrc
  rcases List.mem_cons.mp hsrc with rfl | hsrc
  · exact Or.inr hnil
  · refine Or.inl (ht.living ?_)
    rw [sources, hdt]
    exact hsrc

/-- The queue of one source takes a signal in at one end. -/
theorem update_queue_append (f : Source → List (Signal S V)) (src src' : Source)
    (signal : Signal S V) :
    Function.update f src' (f src' ++ [signal]) src
      = f src ++ if src = src' then [signal] else [] := by
  rw [Function.update_apply]
  by_cases h : src = src'
  · rw [if_pos h, if_pos h, h]
  · rw [if_neg h, if_neg h, List.append_nil]

theorem Orderly.opening (initial : S) : (opening initial : Store S V H).Orderly where
  toSound := .opening initial
  idle {src} _ := by cases src <;> simp [queue, get?, Store.opening, Channel.empty]
  latest {src _} hl := by
    cases src <;> simp [outstanding, hand, deliveries, queue, get?, Store.opening,
      Channel.empty] at hl
  inner hd := by cases hd
  prompt {p} hp := by simp [queue, get?, Store.opening] at hp
  numbered := .nil
  current h := by cases h

variable [DecidableEq V]

/-- In one move, what was queued and what is taken is what begins and what is still queued. -/
theorem Steady.flow_step {s t : Store S V H} {m : Move S V H} {es : List (Event S V)}
    (h : s.Steady) (ht : t.Sound) (ho : Outcome s m t es) (src : Source) :
    s.queue src ++ taken src es = s.begins src m ++ t.queue src := by
  cases ho with
  | quiet hm _ _ hq hdt =>
    rw [begins_of_ne_tick s src hm, h.quiet_queues ht hq hdt]
    exact List.append_nil _
  | replayed _ _ hq hdt =>
    rw [h.quiet_queues ht hq hdt]
    exact List.append_nil _
  | changed _ _ _ _ _ hqueue _ =>
    rw [hqueue, update_queue_append]
    by_cases hsrc : src = .store <;> simp [taken, Event.taken?, hsrc, begins]
  | @created a origin _ v _ _ _ _ =>
    rw [queue_addProjection]
    by_cases hsrc : src = .view s.nextProjection
    · rw [if_pos hsrc, hsrc, queue_eq_nil_of_not_living h.not_living_next]
      rfl
    · rw [if_neg hsrc]
      exact List.append_nil _
  -- the first signal of the queue begins to be delivered
  | @took src' signal later t ds hdel hq _ hqueue _ =>
    rw [hqueue, begins, hdel, Function.update_apply]
    by_cases hsrc : src = src'
    · subst hsrc
      simp [hq, taken]
    · simp [hsrc, Ne.symm hsrc, taken]
  | passed hdel _ _ hqueue _ =>
    rw [hqueue, begins_eq_nil hdel src rfl]
    exact List.append_nil _
  | called hdel _ _ _ hqueue _ =>
    rw [hqueue, begins_eq_nil hdel src rfl]
    exact List.append_nil _
  | kept hdel _ _ _ _ _ hqueue _ =>
    rw [hqueue, begins_eq_nil hdel src rfl]
    exact List.append_nil _
  -- the projection takes the value, which waits in its queue
  | @accepted _ _ _ _ p _ v _ _ _ hdel _ _ _ _ _ _ _ _ _ _ hqueue _ _ =>
    rw [hqueue, begins_eq_nil hdel src rfl, update_queue_append]
    by_cases hsrc : src = .view p <;> simp [taken, List.filterMap_cons, Event.taken?, hsrc]
  | done hdel _ hqueue _ =>
    rw [hqueue, begins_eq_nil hdel src rfl]
    exact List.append_nil _
  | @ended src' t ds hdel hnil _ hq hdt =>
    rw [h.ended_queues ht hq hdel hnil hdt, begins_of_queue_nil hdel hnil]
    exact List.append_nil _

/-- What is at hand was at hand before, or its delivery begins. -/
theorem Steady.hand_step {s t : Store S V H} {m : Move S V H} {es : List (Event S V)}
    (h : s.Steady) (ho : Outcome s m t es) (src : Source) :
    t.hand src <:+ s.hand src ++ s.begins src m := by
  cases ho with
  | quiet hm _ _ _ hdt =>
    rw [hand_eq hdt, begins_of_ne_tick s src hm, List.append_nil]
  | replayed _ _ _ hdt =>
    rw [hand_eq hdt, begins_of_ne_tick s src (by simp), List.append_nil]
  | changed _ _ _ _ _ _ hdel =>
    rw [begins_of_ne_tick s src (by simp), List.append_nil]
    rcases hdel with ⟨-, hdt⟩ | ⟨hnil, hdt⟩
    · rw [hand_eq hdt]
    · rw [hand_cons hdt, hand, hnil]
      by_cases hsrc : Source.store = src <;> simp [Delivery.hand, hsrc]
  | created =>
    rw [hand_eq (deliveries_addProjection s _ _), begins_of_ne_tick s src (by simp),
      List.append_nil]
  | @took src' signal later _ ds hdel hq _ _ hdt =>
    rw [hand_cons hdt, hand_cons hdel, begins, hdel]
    by_cases hsrc : src' = src
    · subst hsrc
      rw [Delivery.flatMap_hand_of_not_mem (h.not_mem_tail hdel)]
      simp [Delivery.hand, hq]
    · simp [Delivery.hand, hsrc]
  | passed hdel _ _ _ hdt | called hdel _ _ _ _ hdt | kept hdel _ _ _ _ _ _ hdt =>
    rw [hand_cons hdt, hand_cons hdel, begins_eq_nil hdel src rfl, List.append_nil]
    exact List.suffix_rfl
  | accepted hdel _ _ _ _ _ _ _ _ _ _ _ _ hdt =>
    rw [hand_cons hdt, hand_cons hdel, begins_eq_nil hdel src rfl, List.append_nil,
      List.flatMap_cons]
    simp [Delivery.hand]
  | done hdel _ _ hdt =>
    rw [hand_cons hdt, hand_cons hdel, begins_eq_nil hdel src rfl, List.append_nil]
    simp [Delivery.hand]
  | ended hdel hnil _ _ hdt =>
    rw [hand_cons hdel, hand, hdt, begins_of_queue_nil hdel hnil, List.append_nil]
    exact List.suffix_append ..

/-- What is outstanding was outstanding before, or is taken. -/
theorem Steady.outstanding_step {s t : Store S V H} {m : Move S V H} {es : List (Event S V)}
    (h : s.Steady) (ht : t.Sound) (ho : Outcome s m t es) (src : Source) :
    t.outstanding src <:+ s.outstanding src ++ taken src es := by
  rw [outstanding, outstanding, List.append_assoc, h.flow_step ht ho, ← List.append_assoc,
    List.suffix_append_self_iff]
  exact h.hand_step ho src

/-- What is being delivered was there before. -/
theorem Outcome.living {s t : Store S V H} {m : Move S V H} {es : List (Event S V)}
    (hs : s.Sound) (ht : t.Sound) (ho : Outcome s m t es) {src : Source}
    (hsrc : src ∈ t.sources) : s.Living src := by
  have hliving := ht.living hsrc
  have hsame : s.SameLists t → s.Living src := by
    intro hlists
    cases src with
    | store => trivial
    | view p => rwa [Living, hlists.link?] at hliving
  cases ho with
  | quiet _ _ hq | replayed _ hq | took _ _ hq | passed _ _ hq | called _ _ _ hq
  | kept _ _ _ _ _ hq | done _ hq | ended _ _ hq =>
    exact hq.living hliving
  | changed _ _ _ hlists => exact hsame hlists
  | created =>
    rw [sources, deliveries_addProjection] at hsrc
    exact hs.living hsrc
  | accepted _ _ _ _ _ _ _ _ _ hlists => exact hsame hlists

/-- A source that is being emptied took last what it took in the move, if it took anything. -/
theorem Outcome.newest? {s t : Store S V H} {m : Move S V H} {es : List (Event S V)}
    (hs : s.Sound) (ht : t.Sound) (ho : Outcome s m t es) {src : Source} (hsrc : t.Living src)
    (hold : s.Living src) :
    t.newest? src = ((taken src es).getLast?).or (s.newest? src) := by
  have hquiet : ∀ {m : Move S V H}, Quiet m s t → t.newest? src = s.newest? src := by
    intro m hq
    cases src with
    | store => rw [Store.newest?, Store.newest?, hq.current]
    | view p => rw [Store.newest?, Store.newest?, hq.value?_eq hsrc]
  cases ho with
  | quiet _ _ hq | replayed _ hq | took _ _ hq | passed _ _ hq | called _ _ _ hq
  | kept _ _ _ _ _ hq | done _ hq | ended _ _ hq =>
    exact hquiet hq
  | changed _ _ hc _ hv =>
    cases src with
    | store => rw [Store.newest?, hc]; rfl
    | view p => rw [Store.newest?, hv]; rfl
  | @created a origin signal v =>
    cases src with
    | store => cases origin <;> rfl
    | view p =>
      obtain ⟨l, hl⟩ := Option.isSome_iff_exists.mp hold
      rw [Store.newest?, value?_addProjection, if_neg (hs.wired.named hl).ne]
      rfl
  | @accepted _ _ _ _ p _ v _ _ _ _ _ _ _ _ _ _ _ hc _ hv =>
    cases src with
    | store => rw [Store.newest?, hc]; rfl
    | view r =>
      rw [Store.newest?, hv, Function.update_apply]
      by_cases hr : r = p <;> simp [taken, List.filterMap_cons, Event.taken?, hr, Store.newest?]

/-- The snapshot stays, or the one that follows it is taken. -/
theorem Outcome.current {s t : Store S V H} {m : Move S V H} {es : List (Event S V)}
    (ho : Outcome s m t es) :
    taken .store es = [] ∧ t.current = s.current ∨
      taken .store es = [.snapshot t.current] ∧
        t.current.version = s.current.version + 1 := by
  cases ho with
  | quiet _ _ hq | replayed _ hq | took _ _ hq | passed _ _ hq | called _ _ _ hq
  | kept _ _ _ _ _ hq | done _ hq | ended _ _ hq =>
    exact Or.inl ⟨rfl, hq.current⟩
  | changed _ _ hc => exact Or.inr ⟨by rw [hc]; rfl, by rw [hc]; rfl⟩
  | @created a origin => exact Or.inl ⟨rfl, by cases origin <;> rfl⟩
  | accepted _ _ _ _ _ _ _ _ hc => exact Or.inl ⟨rfl, hc⟩

/-- After a move, only a channel that is being emptied has a queue. -/
theorem Orderly.idle_step {s t : Store S V H} {m : Move S V H} {es : List (Event S V)}
    (h : s.Orderly) (ht : t.Sound) (ho : Outcome s m t es) {src : Source}
    (hsrc : src ∉ t.sources) : t.queue src = [] := by
  have hsame : ∀ {src'}, t.deliveries = s.deliveries → src' ∉ t.sources → s.queue src' = [] := by
    intro src' hdel hsrc'
    refine h.idle ?_
    rw [sources, ← hdel]
    exact hsrc'
  cases ho with
  | quiet _ _ _ hq hdt | replayed _ _ hq hdt =>
    rw [h.quiet_queues ht hq hdt]
    exact hsame hdt hsrc
  | changed _ _ _ _ _ hqueue hdel =>
    -- the delivery of the store is the lowest of those under way, or it has just begun
    have hne : src ≠ .store := by
      rintro rfl
      refine hsrc (ht.stacked.nested.store_mem ?_)
      rcases hdel with ⟨hne, hdt⟩ | ⟨-, hdt⟩
      · simpa [sources, hdt] using hne
      · simp [sources, hdt]
    rw [hqueue, Function.update_of_ne hne]
    refine h.idle fun hmem => ?_
    rcases hdel with ⟨-, hdt⟩ | ⟨hnil, -⟩
    · exact hsrc (by rw [sources, hdt]; exact hmem)
    · rw [sources, hnil] at hmem
      cases hmem
  | created =>
    rw [queue_addProjection]
    split
    · rfl
    · exact hsame (deliveries_addProjection s _ _) hsrc
  | took hdel _ _ hqueue hdt =>
    rw [sources_cons hdt, List.mem_cons, not_or] at hsrc
    rw [hqueue, Function.update_of_ne hsrc.1]
    refine h.idle ?_
    rw [sources_cons hdel, List.mem_cons, not_or]
    exact hsrc
  | passed hdel _ _ hqueue hdt | called hdel _ _ _ hqueue hdt
  | kept hdel _ _ _ _ _ hqueue hdt | done hdel _ hqueue hdt =>
    rw [hqueue]
    refine h.idle ?_
    rw [sources_cons hdel]
    rw [sources_cons hdt] at hsrc
    exact hsrc
  | accepted hdel _ _ _ _ _ _ _ _ _ _ hqueue _ hdt =>
    rw [sources_cons hdt, List.mem_cons, not_or, List.map_cons] at hsrc
    rw [hqueue, Function.update_of_ne hsrc.1]
    refine h.idle ?_
    rw [sources_cons hdel]
    exact hsrc.2
  | @ended src' _ ds hdel hnil _ hq hdt =>
    rw [h.ended_queues ht hq hdel hnil hdt]
    by_cases heq : src = src'
    · rw [heq, hnil]
    · refine h.idle ?_
      rw [sources_cons hdel, List.mem_cons, not_or]
      rw [sources, hdt] at hsrc
      exact ⟨heq, hsrc⟩

/-- After a move, only the innermost delivery is between two signals. -/
theorem Orderly.inner_step {s t : Store S V H} {m : Move S V H} {es : List (Event S V)}
    (h : s.Orderly) (ho : Outcome s m t es) {d : Delivery S V}
    (hd : d ∈ t.deliveries.tail) : d.now.isSome = true := by
  cases ho with
  | quiet _ _ _ _ hdt | replayed _ _ _ hdt =>
    rw [hdt] at hd
    exact h.inner hd
  | changed _ _ _ _ _ _ hdel =>
    rcases hdel with ⟨-, hdt⟩ | ⟨-, hdt⟩
    · rw [hdt] at hd
      exact h.inner hd
    · rw [hdt] at hd
      cases hd
  | created =>
    rw [deliveries_addProjection] at hd
    exact h.inner hd
  | took hdel _ _ _ hdt | passed hdel _ _ _ hdt | called hdel _ _ _ _ hdt
  | kept hdel _ _ _ _ _ _ hdt | done hdel _ _ hdt =>
    rw [hdt] at hd
    refine h.inner ?_
    rw [hdel]
    exact hd
  -- the delivery of the value is the innermost one, and the others were within a signal before
  | accepted hdel _ _ _ _ _ _ _ _ _ _ _ _ hdt =>
    rw [hdt] at hd
    rcases List.mem_cons.mp hd with rfl | hd
    · rfl
    · refine h.inner ?_
      rw [hdel]
      exact hd
  | ended hdel _ _ _ hdt =>
    rw [hdt] at hd
    refine h.inner ?_
    rw [hdel]
    exact List.mem_of_mem_tail hd

/-- After a move, a value that a projection has taken is delivered next. -/
theorem Steady.prompt_step {s t : Store S V H} {m : Move S V H} {es : List (Event S V)}
    (h : s.Steady) (ht : t.Sound) (hm : s.allows m = true) (ho : Outcome s m t es)
    (hstack : m.givesUp = true → t.stack = s.stack) {p : ProjectionId}
    (hp : t.queue (.view p) ≠ []) : t.isWaiting = false ∧
      ∃ signal ds, t.queue (.view p) = [signal] ∧ t.deliveries = ⟨.view p, none⟩ :: ds := by
  -- only the move that accepts a value leaves one in the queue of a projection
  cases ho with
  | quiet hne _ _ hq hdt =>
    rw [h.quiet_queues ht hq hdt] at hp ⊢
    rcases givesUp_or_isWaiting hm hne with hgives | hwait
    · rw [isWaiting, hstack hgives, hdt]
      exact h.prompt hp
    · exact absurd (h.queue_view hwait p) hp
  | replayed _ _ hq hdt =>
    rw [h.quiet_queues ht hq hdt] at hp
    exact absurd (h.queue_view hm p) hp
  | changed _ _ _ _ _ hqueue =>
    rw [hqueue, Function.update_of_ne (by simp)] at hp
    exact absurd (h.queue_view hm p) hp
  | @created a origin _ _ horigin =>
    have hwait : s.isWaiting = true := by
      cases a with
      | project | chain => exact hm
      | share | drop | subscribe | watch | unsubscribe | detach => cases horigin
    rw [queue_addProjection] at hp
    split at hp
    · exact absurd rfl hp
    · exact absurd (h.queue_view hwait p) hp
  | @took src signal later _ ds hdel hq _ hqueue _ =>
    rw [hqueue, Function.update_apply] at hp
    by_cases hsrc : .view p = src
    · rw [if_pos hsrc] at hp
      subst hsrc
      obtain ⟨-, signal', _, hq', -⟩ := h.prompt (p := p) (by rw [hq]; simp)
      rw [hq] at hq'
      exact absurd (List.cons.inj hq').2 hp
    · rw [if_neg hsrc] at hp
      refine absurd (h.queue_view_of_ne hdel ?_) hp
      intro heq
      exact hsrc (congrArg Delivery.source heq).symm
  | passed hdel _ _ hqueue _ | called hdel _ _ _ hqueue _ | kept hdel _ _ _ _ _ hqueue _
  | done hdel _ hqueue _ =>
    rw [hqueue] at hp
    exact absurd (h.queue_view_of_ne hdel (by simp)) hp
  | @accepted _ _ _ _ r _ v _ _ _ hdel _ _ _ _ _ _ _ _ _ _ hqueue hwait hdt =>
    have hnil : ∀ r, s.queue (.view r) = [] := fun r => h.queue_view_of_ne hdel (by simp)
    rw [hqueue, Function.update_apply] at hp ⊢
    by_cases hr : Source.view p = .view r
    · rw [if_pos hr, hnil r]
      rw [Source.view.injEq] at hr
      subst hr
      exact ⟨hwait, _, _, rfl, hdt⟩
    · rw [if_neg hr] at hp
      exact absurd (hnil p) hp
  | @ended src _ ds hdel hnil _ hq hdt =>
    rw [h.ended_queues ht hq hdel hnil hdt] at hp
    obtain ⟨-, _, _, -, hdel'⟩ := h.prompt hp
    rw [hdel] at hdel'
    have : src = .view p := congrArg Delivery.source (List.cons.inj hdel').1
    rw [this] at hnil
    exact absurd hnil hp

/-- Every possible move keeps the deliveries in order, and the snapshots that wait. -/
theorem Steady.step {s : Store S V H} (h : s.Steady) {m : Move S V H}
    (hm : s.allows m = true) : (s.step m).1.Steady := by
  have ht := h.toSound.step m
  have ho := h.toSound.outcome hm
  have hstack : m.givesUp = true → (s.step m).1.stack = s.stack :=
    fun hgives => step_stack_of_givesUp hgives hm
  generalize (s.step m).1 = t, (s.step m).2 = es at ht ho hstack
  -- a snapshot that is taken has the next number
  have hpair : (s.outstanding .store ++ taken .store es).Pairwise
      (fun a b => a.version < b.version) ∧
      ∀ signal ∈ s.outstanding .store ++ taken .store es,
        signal.version ≤ t.current.version := by
    rcases ho.current with ⟨htaken, hc⟩ | ⟨htaken, hc⟩
    · rw [htaken, List.append_nil, hc]
      exact ⟨h.numbered, fun _ => h.current⟩
    · have hle : ∀ signal ∈ s.outstanding .store, signal.version < t.current.version := by
        intro signal hmem
        rw [hc]
        exact Nat.lt_succ_of_le (h.current hmem)
      rw [htaken]
      refine ⟨List.pairwise_append.mpr ⟨h.numbered, List.pairwise_singleton _ _, ?_⟩, ?_⟩
      · intro a ha b hb
        rw [List.mem_singleton.mp hb]
        exact hle a ha
      · intro signal hmem
        rcases List.mem_append.mp hmem with hmem | hmem
        · exact (hle signal hmem).le
        · rw [List.mem_singleton.mp hmem]
          exact Nat.le_refl _
  have hsuffix := h.outstanding_step ht ho .store
  refine ⟨ht, h.prompt_step ht hm ho hstack, hpair.1.sublist hsuffix.sublist, ?_⟩
  intro signal hmem
  exact hpair.2 signal (hsuffix.subset hmem)

/-- **Every possible move keeps the queues and the deliveries in order.** -/
theorem Orderly.step {s : Store S V H} (h : s.Orderly) {m : Move S V H}
    (hm : s.allows m = true) : (s.step m).1.Orderly := by
  have hsteady := h.toSteady.step hm
  have ht := h.toSound.step m
  have ho := h.toSound.outcome hm
  generalize (s.step m).1 = t, (s.step m).2 = es at hsteady ht ho
  have hidle : ∀ {src}, src ∉ t.sources → t.queue src = [] := h.idle_step ht ho
  refine ⟨hsteady, hidle, ?_, h.inner_step ho⟩
  intro src signal hlast
  -- a source that has a signal outstanding is being emptied
  have hmem : src ∈ t.sources := by
    by_contra hsrc
    rw [outstanding, hidle hsrc, hand_of_not_mem hsrc] at hlast
    cases hlast
  -- the last signal that is outstanding was taken in the move, or was the last one before
  obtain ⟨done, heq⟩ := h.outstanding_step ht ho src
  have hlast' := congrArg List.getLast? heq
  rw [List.getLast?_append, hlast, Option.some_or, List.getLast?_append] at hlast'
  rw [ho.newest? h.toSound ht (ht.living hmem) (ho.living h.toSound ht hmem)]
  cases htaken : (taken src es).getLast? with
  | some a =>
    rw [htaken, Option.some_or] at hlast'
    rw [Option.some_or, hlast']
  | none =>
    rw [htaken, Option.none_or] at hlast'
    rw [Option.none_or]
    exact h.latest hlast'.symm

/-! ## Runs -/

/-- Every calm run keeps the queues and the deliveries in order. -/
theorem Orderly.after {s : Store S V H} (h : s.Orderly) {ms : List (Move S V H)}
    (hcalm : s.Calm ms) : (s.after ms).Orderly :=
  hcalm.induction (fun _ _ _ hm h => h.step hm) h.toSound h

/-- **What every possible move of an orderly store keeps holds after every calm run.** -/
theorem Orderly.induction {P : Store S V H → Prop}
    (hstep : ∀ {s t : Store S V H} {m : Move S V H} {es : List (Event S V)},
      P s → s.Orderly → t.Sound → Outcome s m t es → P t)
    {s : Store S V H} (hs : s.Orderly) {ms : List (Move S V H)} (hcalm : s.Calm ms) (h : P s) :
    P (s.after ms) := by
  have hboth : (s.after ms).Orderly ∧ P (s.after ms) := by
    refine Calm.induction (P := fun s => s.Orderly ∧ P s) ?_ hcalm hs.toSound ⟨hs, h⟩
    intro s m hsound hm hp
    exact ⟨hp.1.step hm, hstep hp.2 hp.1 (hsound.step m) (hsound.outcome hm)⟩
  exact hboth.2

@[simp] theorem begun_append (s : Store S V H) (src : Source) (ms ms' : List (Move S V H)) :
    s.begun src (ms ++ ms') = s.begun src ms ++ (s.after ms).begun src ms' := by
  induction ms generalizing s with
  | nil => rfl
  | cons m ms ih =>
    rw [List.cons_append, begun, ih, begun, after_cons, List.append_assoc]

/-- **What was queued and what is taken is what begins and what is still queued.** -/
theorem Orderly.flow {s : Store S V H} (h : s.Orderly) {ms : List (Move S V H)}
    (hcalm : s.Calm ms) (src : Source) :
    s.queue src ++ taken src (s.events ms) = s.begun src ms ++ (s.after ms).queue src := by
  induction ms generalizing s with
  | nil => exact List.append_nil _
  | cons m ms ih =>
    obtain ⟨hm, hcalm⟩ := hcalm
    have hstep := h.flow_step (h.toSound.step m) (h.toSound.outcome hm) src
    rw [events_cons, taken_append, ← List.append_assoc, hstep, List.append_assoc,
      ih (h.step hm) hcalm, begun, after_cons, List.append_assoc]

end Store

end LiveDesk.Observable
