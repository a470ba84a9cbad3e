import LiveDesk.Proofs.Observable.Replay
import LiveDesk.Proofs.Observable.Evaluations

/-!
# Failures

The caller's code may fail while it has control, or when it goes in the middle of a delivery, and
then everything on the stack is given up. The deliveries under way end where they are, and their
channels are ready for the next one. Nothing that was queued is lost, and nothing that was at hand
is queued again.

- `Store.canFail`: the moments at which something can fail.
- `Store.admits`, `Store.Feasible`: the runs in which every move is possible, failures included.
- `Store.Upshot`: what such a move comes to.
- **`Sound.unmarked_panic`**, **`Steady.queue_panic`**: a failure leaves no channel marked, and
  every queue as it is.
- **`Steady.advance`**, **`Steady.flow`**: what waits stays in order, and is neither dropped nor
  doubled, in every run.
- `Store.Homed`: every name belongs to one source.
- **`Homed.step`**: every move keeps it.
-/

namespace LiveDesk.Observable

namespace Store

variable {S V H : Type}

/-! ## What a failure leaves -/

/-- Whether something can fail: not between the emission of a value and the start of its delivery,
where a projection makes no pause. -/
def canFail (s : Store S V H) : Bool :=
  match s.stack with
  | .emitting p none :: _ => (s.queue (.view p)).isEmpty
  | _ => true

section Panic

variable {s : Store S V H}

theorem canFail_of_isWaiting (hwait : s.isWaiting = true) : s.canFail = true := by
  unfold isWaiting at hwait
  unfold canFail
  split
  · next hst =>
    rw [hst] at hwait
    cases hwait
  · rfl

theorem canFail_of_queue_view (h : ∀ p, s.queue (.view p) = []) : s.canFail = true := by
  unfold canFail
  split
  · rw [h, List.isEmpty_nil]
  · rfl

/-- Where something can fail, no value of a projection is queued. -/
theorem Steady.queue_view_of_canFail (h : s.Steady) (hfail : s.canFail = true)
    (p : ProjectionId) : s.queue (.view p) = [] := by
  by_contra hne
  obtain ⟨hwait, signal, ds, -, hdel⟩ := h.prompt hne
  obtain ⟨d, below, htop⟩ := delivers_of_not_isWaiting (by rw [hwait]; simp)
  rw [Sound.deliveries_of_delivers htop] at hdel
  obtain rfl := (List.cons.inj hdel).1
  obtain ⟨f, hf, hst⟩ := htop
  cases f with
  | emitting q now =>
    cases now with
    | some => cases hf
    | none =>
      cases hf
      rw [canFail, hst] at hfail
      exact hne (List.isEmpty_iff.mp hfail)
  | publishing | callback | replay | code => cases hf

theorem queue_abandon (s : Store S V H) (f : Frame S V H) : (s.abandon f).queue = s.queue := by
  cases f with
  | publishing =>
    funext src
    cases src <;> rfl
  | emitting p => exact queue_modify s p _ (fun _ => rfl) fun _ => rfl
  | callback | replay | code => rfl

theorem queue_foldl_abandon (st : List (Frame S V H)) (s : Store S V H) :
    (st.foldl abandon s).queue = s.queue := by
  induction st generalizing s with
  | nil => rfl
  | cons f st ih => rw [List.foldl_cons, ih, queue_abandon]

@[simp] theorem panic_stack (s : Store S V H) : s.panic.stack = [] :=
  sweep_stack _

@[simp] theorem panic_deliveries (s : Store S V H) : s.panic.deliveries = [] := by
  rw [deliveries, panic_stack]
  rfl

/-- A failure changes no state and no value, and nothing is queued or dropped. -/
theorem Sound.quiet_panic (h : s.Sound) :
    Quiet .panic s s.panic ∧ s.SameQueues s.panic := by
  have hsame := (foldl_abandon s.stack s).1.stack []
  refine Quiet.sweep (.of_same (fun _ => ⟨rfl, rfl⟩) hsame fun hr => (by cases hr))
    (fun {src} _ => ?_) h.giveUp
  exact congrFun (queue_foldl_abandon s.stack s) src

/-- **After a failure no channel is marked.** -/
theorem Sound.unmarked_panic (h : s.Sound) (src : Source) :
    s.panic.isPublishing src = false := by
  rw [Bool.eq_false_iff]
  intro hpub
  have hsrc := (h.panic.stacked.busy src).mp hpub
  rw [sources, panic_deliveries] at hsrc
  cases hsrc

/-- **A failure leaves every queue as it is.** -/
theorem Steady.queue_panic (h : s.Steady) (hfail : s.canFail = true) :
    s.panic.queue = s.queue := by
  refine h.same_queues h.quiet_panic.2 fun src _ => ?_
  cases src with
  | store => exact Or.inl trivial
  | view p => exact Or.inr (h.queue_view_of_canFail hfail p)

theorem outstanding_of_deliveries_nil (hdel : s.deliveries = []) (src : Source) :
    s.outstanding src = s.queue src := by
  rw [outstanding, hand, hdel]
  rfl

/-- What waits is in order after a failure. -/
theorem Steady.panic (h : s.Steady) (hfail : s.canFail = true) : s.panic.Steady := by
  have hqueue := h.queue_panic hfail
  have hsub : (s.panic.outstanding .store).Sublist (s.outstanding .store) := by
    rw [outstanding_of_deliveries_nil s.panic_deliveries, hqueue]
    exact List.sublist_append_right _ _
  refine ⟨h.toSound.panic, fun {p} hp => ?_, h.numbered.sublist hsub, fun hmem => ?_⟩
  · rw [hqueue] at hp
    exact absurd (h.queue_view_of_canFail hfail p) hp
  · rw [h.quiet_panic.1.current]
    exact h.current (hsub.subset hmem)

/-- The update after a failure begins a delivery, of what was queued and then of itself, and from
there everything is in order as if nothing had failed. -/
theorem Steady.orderly_change [DecidableEq V] (h : s.Steady) (hwait : s.isWaiting = true)
    (hdel : s.deliveries = []) (c : Change S) :
    (s.step (.change c)).1.Orderly ∧ (s.step (.change c)).1.isWaiting = false ∧
      (s.step (.change c)).1.deliveries = [⟨.store, none⟩] ∧
      (s.step (.change c)).1.queue .store
        = s.queue .store ++ [.snapshot (s.step (.change c)).1.current] := by
  have hm : s.allows (.change c) = true := hwait
  have hsteady := h.step hm
  have ho := h.toSound.outcome hm
  -- nothing is being delivered, so the channel is not marked and the change begins a delivery
  have hgoes : (s.step (.change c)).1.isWaiting = false := by
    have hpub : s.channel.publishing = false := by
      rw [Bool.eq_false_iff]
      intro hpub
      have hsrc := (h.stacked.busy .store).mp hpub
      rw [sources, hdel] at hsrc
      cases hsrc
    rw [show s.step (.change c) = s.change c from if_pos hwait, Store.change]
    dsimp only
    rw [if_neg (by simp [hpub])]
    rfl
  generalize (s.step (.change c)).1 = t, (s.step (.change c)).2 = es at hsteady ho hgoes
  cases ho with
  | quiet _ hnone => cases hnone
  | changed _ _ hc _ _ hqueue hdt =>
    obtain ⟨hne, -⟩ | ⟨-, hdt⟩ := hdt
    · exact absurd hdel hne
    have hstore : t.queue .store = s.queue .store ++ [.snapshot t.current] := by
      rw [hqueue, Function.update_self, hc]
    have hview : ∀ p, t.queue (.view p) = [] := by
      intro p
      rw [hqueue, Function.update_of_ne (by simp)]
      exact h.queue_view hwait p
    have hhand : ∀ src, t.hand src = [] := by
      intro src
      rw [hand_cons hdt]
      by_cases hsrc : Source.store = src <;> simp [Delivery.hand, hsrc]
    refine ⟨⟨hsteady, fun {src} hsrc => ?_, fun {src signal} hlast => ?_, fun {d} hd => ?_⟩,
      hgoes, hdt, hstore⟩
    · cases src with
      | store => exact absurd (mem_sources hdt) hsrc
      | view p => exact hview p
    · rw [outstanding, hhand, List.nil_append] at hlast
      cases src with
      | store =>
        rw [hstore, List.getLast?_append] at hlast
        exact hlast
      | view p =>
        rw [hview] at hlast
        cases hlast
    · rw [hdt] at hd
      cases hd

end Panic

/-! ## Names -/

/-- Every name that is given belongs to one source. -/
def Homed (s : Store S V H) : Prop :=
  ∀ o < s.nextObserver, ∃ src, s.Belongs src o

theorem Homed.opening (initial : S) : (opening initial : Store S V H).Homed :=
  fun _ ho => absurd ho (Nat.not_lt_zero _)

section Names

variable {s : Store S V H}

theorem sweep_nextObserver (s : Store S V H) : s.sweep.nextObserver = s.nextObserver :=
  sweep_induction (P := fun t => t.nextObserver = s.nextObserver)
    (fun t _ q ht _ _ => by rw [remove_nextObserver, ht]) rfl

/-- The entry of a new projection belongs to its source. -/
theorem Sound.belongs_addProjection (h : s.Sound) {origin : Origin S V} {v : V}
    (hsource : ∀ p, origin.source = .view p → (s.link? p).isSome = true) :
    (s.addProjection origin v).Belongs origin.source s.nextObserver := by
  have hfresh := h.stacked.stranger_of_le (Nat.le_refl s.nextObserver)
  have hstack : (s.addProjection origin v).stack = s.stack := by cases origin <;> rfl
  refine ⟨Nat.lt_succ_self _, fun {src e} he hid => ?_,
    fun {d} hd {signal rest} hnow {e} he hid => ?_, fun {p} hr => ?_⟩
  · have hold : e ∉ s.observersOf src := fun he => (h.wired.fresh he).ne hid
    rw [observersOf_addProjection s origin v src hsource] at he
    split at he
    · cases he
    · split at he
      · next hsrc => exact hsrc
      · exact absurd he hold
  · rw [deliveries_addProjection] at hd
    exact absurd hid (hfresh.2 d hd signal rest hnow e he)
  · rw [hstack] at hr
    exact absurd (unborn_of_replay hr) hfresh.1

/-- A name that is given in a move belongs to one source. -/
theorem Sound.belongs_observe (h : s.Sound) {a : Observation S V} {o : ObserverId}
    (hold : s.nextObserver ≤ o) (hnew : o < (s.observe a).1.nextObserver) :
    ∃ src, (s.observe a).1.Belongs src o := by
  have hgiven : (s.observe a).1.nextObserver = s.nextObserver + 1 → o = s.nextObserver := by
    intro hnext
    rw [hnext] at hnew
    exact Nat.le_antisymm (Nat.lt_succ_iff.mp hnew) hold
  -- where no name is given, there is nothing to show
  have hnone : (s.observe a).1.nextObserver = s.nextObserver →
      ∃ src, (s.observe a).1.Belongs src o := by
    intro hnext
    rw [hnext] at hnew
    exact absurd hnew (Nat.not_lt.mpr hold)
  cases a with
  | project select =>
    obtain rfl := hgiven rfl
    have hbelongs : (s.addProjection (.store select) (select s.current.state)).Belongs .store
        s.nextObserver := h.belongs_addProjection fun _ hp => by cases hp
    exact ⟨.store, hbelongs⟩
  | chain source select =>
    cases hq : s.handled? source with
    | none =>
      refine hnone ?_
      show (s.chain source select).1.nextObserver = _
      rw [Store.chain, hq]
    | some q =>
      have hchain : (s.observe (.chain source select)).1
          = s.addProjection (.view source select) (select q.value) := by
        show (s.chain source select).1 = _
        rw [Store.chain, hq]
      obtain rfl := hgiven (by rw [hchain]; rfl)
      rw [hchain]
      refine ⟨_, h.belongs_addProjection fun p hp => ?_⟩
      cases hp
      rw [link?_of_get? (handled?_eq_some hq)]
      rfl
  | subscribe =>
    obtain rfl := hgiven rfl
    exact ⟨.store, h.follows_subscribe.1.toBelongs⟩
  | watch p =>
    cases hq : s.handled? p with
    | none =>
      refine hnone ?_
      show (s.watch p).1.nextObserver = _
      rw [Store.watch, hq]
    | some q =>
      obtain rfl := hgiven (by show (s.watch p).1.nextObserver = _; rw [Store.watch, hq])
      exact ⟨_, (h.replaying_watch hq).1.toBelongs⟩
  | share p =>
    refine hnone ?_
    show (s.share p).nextObserver = _
    unfold Store.share
    split <;> rfl
  | drop p | unsubscribe o | detach o => exact hnone (sweep_nextObserver _)

end Names

/-! ## Runs with failures -/

/-- Whether a move is possible. -/
def admits (s : Store S V H) : Move S V H → Bool
  | .tick => !s.isWaiting
  | .panic => s.canFail
  | .observe a => (Move.observe a : Move S V H).givesUp || s.isWaiting
  | .change _ | .ret | .enter _ | .leave => s.isWaiting

theorem admits_cases {s : Store S V H} {m : Move S V H} (h : s.admits m = true) :
    s.allows m = true ∨ m = .panic ∧ s.canFail = true := by
  cases m with
  | panic => exact Or.inr ⟨rfl, h⟩
  | tick | change | observe | ret | enter | leave => exact Or.inl h

theorem admits_of_allows {s : Store S V H} {m : Move S V H} (h : s.allows m = true) :
    s.admits m = true := by
  cases m with
  | panic => cases h
  | tick | change | observe | ret | enter | leave => exact h

variable [DecidableEq V]

/-- Every move is possible when it is made. -/
def Feasible (s : Store S V H) : List (Move S V H) → Prop
  | [] => True
  | m :: ms => s.admits m = true ∧ (s.step m).1.Feasible ms

instance Feasible.decide (s : Store S V H) : (ms : List (Move S V H)) → Decidable (s.Feasible ms)
  | [] => .isTrue trivial
  | m :: ms =>
    have := Feasible.decide (s.step m).1 ms
    inferInstanceAs (Decidable (s.admits m = true ∧ (s.step m).1.Feasible ms))

theorem feasible_append {s : Store S V H} {ms ms' : List (Move S V H)} :
    s.Feasible (ms ++ ms') ↔ s.Feasible ms ∧ (s.after ms).Feasible ms' := by
  induction ms generalizing s with
  | nil => exact ⟨fun h => ⟨trivial, h⟩, fun h => h.2⟩
  | cons m ms ih =>
    show s.admits m = true ∧ (s.step m).1.Feasible (ms ++ ms') ↔ _
    rw [ih, ← and_assoc]
    rfl

/-- A calm run is one of these. -/
theorem Calm.feasible {s : Store S V H} {ms : List (Move S V H)} (h : s.Calm ms) :
    s.Feasible ms := by
  induction ms generalizing s with
  | nil => trivial
  | cons m ms ih => exact ⟨admits_of_allows h.1, ih h.2⟩

/-- What a possible move comes to. -/
inductive Upshot (s : Store S V H) :
    Move S V H → Store S V H → List (Event S V) → Prop where
  | moved {m : Move S V H} {t : Store S V H} {es : List (Event S V)} :
    s.allows m = true → Outcome s m t es → Upshot s m t es
  /-- The caller's code fails. -/
  | failed {t : Store S V H} : Quiet .panic s t → t.queue = s.queue → t.deliveries = [] →
    Upshot s .panic t []

section Steps

variable {s t : Store S V H} {m : Move S V H} {es : List (Event S V)}

theorem step_panic (s : Store S V H) : s.step .panic = (s.panic, []) :=
  step_eq_perform (Or.inl rfl)

theorem Steady.upshot (h : s.Steady) (hm : s.admits m = true) :
    Upshot s m (s.step m).1 (s.step m).2 := by
  rcases admits_cases hm with hm | ⟨rfl, hfail⟩
  · exact .moved hm (h.toSound.outcome hm)
  · rw [step_panic]
    exact .failed h.quiet_panic.1 (h.queue_panic hfail) s.panic_deliveries

/-- **Every move keeps what waits in order, a failure too.** -/
theorem Steady.advance (h : s.Steady) (hm : s.admits m = true) : (s.step m).1.Steady := by
  rcases admits_cases hm with hm | ⟨rfl, hfail⟩
  · exact h.step hm
  · rw [step_panic]
    exact h.panic hfail

/-- Only the store's own step brings a projection to the start of a delivery. -/
theorem Steady.canFail_step (h : s.Steady) (hm : s.admits m = true) (hne : m ≠ .tick)
    (hfail : s.canFail = true) : (s.step m).1.canFail = true := by
  have hqueue := h.queue_view_of_canFail hfail
  rcases admits_cases hm with hm | ⟨rfl, -⟩
  · have ht := h.toSound.step m
    have ho := h.toSound.outcome hm
    generalize (s.step m).1 = t, (s.step m).2 = es at ht ho ⊢
    refine canFail_of_queue_view fun p => ?_
    cases ho with
    | quiet _ _ _ hq hdt | replayed _ _ hq hdt => rw [h.quiet_queues ht hq hdt, hqueue]
    | changed _ _ _ _ _ hq => rw [hq, Function.update_of_ne (by simp), hqueue]
    | created =>
      rw [queue_addProjection]
      split
      · rfl
      · exact hqueue p
    | took | passed | called | kept | accepted | done | ended => exact absurd rfl hne
  · rw [step_panic, canFail, panic_stack]

/-- What only gives something up leaves possible what was so. -/
theorem Steady.admits_of_givesUp (h : s.Steady) {a : Observation S V}
    (ha : (Move.observe a : Move S V H).givesUp = true) (hm : s.admits m = true)
    (hfail : s.canFail = true) : (s.step (.observe a)).1.admits m = true := by
  have hallowed : s.allows (.observe a) = true := (Bool.or_eq_true _ _).mpr (Or.inl ha)
  have hstack := step_stack_of_givesUp ha hallowed
  have hwait : (s.step (.observe a)).1.isWaiting = s.isWaiting := by
    rw [isWaiting, hstack, isWaiting]
  cases m with
  | panic => exact h.canFail_step (admits_of_allows hallowed) (by simp) hfail
  | tick | change | observe | ret | enter | leave =>
    rw [admits, hwait]
    exact hm

theorem Upshot.entries (hs : s.Sound) (hu : Upshot s m t es) : Entries m s t := by
  cases hu with
  | moved _ ho => exact ho.entries hs
  | failed hq => exact hq.toEntries

theorem Upshot.nextProjection_le (hu : Upshot s m t es) :
    s.nextProjection ≤ t.nextProjection := by
  cases hu with
  | moved _ ho => exact ho.projections.1
  | failed hq => exact hq.nextProjection.ge

theorem Upshot.link? (hu : Upshot s m t es) {p : ProjectionId} {l : Origin S V × ObserverId}
    (hl : t.link? p = some l) (hp : p < s.nextProjection) : s.link? p = some l := by
  cases hu with
  | moved _ ho => exact ho.link? hl hp
  | failed hq => exact hq.link? hl

/-- What is queued and what is taken is what begins and what is still queued, in every move. -/
theorem Upshot.flow (hs : s.Steady) (ht : t.Sound) (hu : Upshot s m t es) (src : Source) :
    s.queue src ++ taken src es = s.begins src m ++ t.queue src := by
  cases hu with
  | moved _ ho => exact hs.flow_step ht ho src
  | failed _ hqueue =>
    rw [hqueue]
    exact List.append_nil _

/-- A move makes its change current and takes it, and no other move changes the version. -/
theorem Steady.version_step (hs : s.Steady) (hm : s.admits m = true) :
    (s.step m).1.current.version = s.current.version + m.change?.toList.length ∧
      (taken .store (s.step m).2).map Signal.version
        = List.range' (s.current.version + 1) m.change?.toList.length := by
  rcases admits_cases hm with hm | ⟨rfl, -⟩
  · obtain ⟨-, hc, htaken⟩ := hs.toSound.state_step hm
    rw [hc, htaken]
    cases m.change? with
    | none => exact ⟨rfl, rfl⟩
    | some c => exact ⟨rfl, rfl⟩
  · rw [step_panic]
    exact ⟨congrArg Snapshot.version hs.quiet_panic.1.current, rfl⟩

/-- Where nothing is being delivered, only an update begins a delivery or queues a snapshot. -/
theorem Upshot.unchanged (hu : Upshot s m t es) (hdel : s.deliveries = [])
    (hm : m.change? = none) : t.deliveries = [] ∧ t.queue .store = s.queue .store := by
  cases hu with
  | failed _ hqueue hdt => exact ⟨hdt, congrFun hqueue _⟩
  | moved _ ho =>
    cases ho with
    | quiet _ _ _ hq hdt | replayed _ _ hq hdt => exact ⟨hdt.trans hdel, hq trivial⟩
    | changed => cases hm
    | created =>
      rw [deliveries_addProjection, queue_addProjection, if_neg (by simp)]
      exact ⟨hdel, rfl⟩
    | took hdel' | passed hdel' | called hdel' | kept hdel' | accepted hdel' | done hdel'
    | ended hdel' =>
      rw [hdel] at hdel'
      cases hdel'

end Steps

section Runs

variable {s : Store S V H} {ms : List (Move S V H)}

theorem Steady.after (h : s.Steady) (hrun : s.Feasible ms) : (s.after ms).Steady := by
  induction ms generalizing s with
  | nil => exact h
  | cons m ms ih => exact ih (h.advance hrun.1) hrun.2

/-- **In every run, what was queued and what is taken is what begins and what is still queued**, in
that order. -/
theorem Steady.flow (h : s.Steady) (hrun : s.Feasible ms) (src : Source) :
    s.queue src ++ taken src (s.events ms) = s.begun src ms ++ (s.after ms).queue src := by
  induction ms generalizing s with
  | nil => exact List.append_nil _
  | cons m ms ih =>
    obtain ⟨hm, hrun⟩ := hrun
    have hstep := (h.upshot hm).flow h (h.toSound.step m) src
    rw [events_cons, taken_append, ← List.append_assoc, hstep, List.append_assoc,
      ih (h.advance hm) hrun, begun, after_cons, List.append_assoc]

/-- The snapshots of a run are numbered in their order. -/
theorem Steady.versions (h : s.Steady) (hrun : s.Feasible ms) :
    (taken .store (s.events ms)).map Signal.version
      = List.range' (s.current.version + 1) (changes ms).length := by
  induction ms generalizing s with
  | nil => rfl
  | cons m ms ih =>
    obtain ⟨hm, hrun⟩ := hrun
    obtain ⟨hversion, htaken⟩ := h.version_step hm
    have hlength : (changes (m :: ms)).length = m.change?.toList.length + (changes ms).length := by
      rw [changes, List.filterMap_cons]
      cases m.change? with
      | none => exact (Nat.zero_add _).symm
      | some c => exact (Nat.add_comm _ _)
    rw [events_cons, taken_append, List.map_append, htaken, ih (h.advance hm) hrun, hversion,
      hlength, ← List.range'_append_1]
    congr 2
    omega

/-- **In every run, the snapshots that are outstanding and those that are taken are in the order of
their versions.** -/
theorem Steady.sorted (h : s.Steady) (hrun : s.Feasible ms) :
    (s.outstanding .store ++ taken .store (s.events ms)).Pairwise
      fun a b => a.version < b.version := by
  have hversions := h.versions hrun
  refine List.pairwise_append.mpr ⟨h.numbered, ?_, fun a ha b hb => ?_⟩
  · rw [← List.pairwise_map (f := Signal.version) (R := fun a b => a < b), hversions]
    exact List.pairwise_lt_range'
  · have hmem := List.mem_map_of_mem (f := Signal.version) hb
    rw [hversions] at hmem
    exact (Nat.lt_succ_of_le (h.current ha)).trans_le (List.left_le_of_mem_range' hmem)

/-- Until the next update, what waits after a failure goes on waiting. -/
theorem Steady.unchanged (h : s.Steady) (hrun : s.Feasible ms) (hdel : s.deliveries = [])
    (hnone : changes ms = []) :
    (s.after ms).deliveries = [] ∧ (s.after ms).queue .store = s.queue .store := by
  induction ms generalizing s with
  | nil => exact ⟨hdel, rfl⟩
  | cons m ms ih =>
    obtain ⟨hm, hrun⟩ := hrun
    have hnone := List.filterMap_eq_nil_iff.mp hnone
    obtain ⟨hdt, hqueue⟩ := (h.upshot hm).unchanged hdel (hnone m (List.mem_cons_self ..))
    have hrest : changes ms = [] :=
      List.filterMap_eq_nil_iff.mpr fun m' hm' => hnone m' (List.mem_cons_of_mem _ hm')
    obtain ⟨hafter, hlater⟩ := ih (h.advance hm) hrun hdt hrest
    exact ⟨hafter, hlater.trans hqueue⟩

end Runs

/-! ## Names along a run -/

section Homes

variable {s t : Store S V H} {m : Move S V H} {es : List (Event S V)}

/-- The store's own steps give no names. -/
theorem Sound.tick_nextObserver (h : s.Sound) {d : Delivery S V} {below : List (Frame S V H)}
    (htop : s.Delivers d below) : s.tick.1.nextObserver = s.nextObserver := by
  have hcases := tick_cases htop (h.alive_of_delivers htop)
  generalize s.tick.1 = u, s.tick.2 = es at hcases ⊢
  cases hcases with
  | took _ hsame | passed _ hsame | done hsame => exact hsame.nextObserver
  | @told src signal o rest t hin hsame hb _ ht =>
    obtain ⟨-, -, -, -, htold⟩ := h.told_cases htop hin hsame hb ht
    generalize (t.tell o signal).1 = u, (t.tell o signal).2 = es at htold ⊢
    cases htold with
    | called _ hsame' => exact hsame'.nextObserver.trans hsame.nextObserver
    | kept => exact hsame.nextObserver
    | took _ _ _ _ _ _ hlists => exact hlists.nextObserver.trans hsame.nextObserver
  | ended _ hsame _ _ _ hu =>
    rcases hu with rfl | rfl
    · exact hsame.nextObserver
    · exact (sweep_nextObserver _).trans hsame.nextObserver

/-- Only who begins to observe is given a name. -/
theorem Sound.step_nextObserver (h : s.Sound) (hm : ∀ a, m ≠ .observe a) :
    (s.step m).1.nextObserver = s.nextObserver := by
  unfold Store.step
  split
  · cases m with
    | tick | enter => rfl
    | observe a => exact absurd rfl (hm a)
    | change c =>
      show (s.change c).1.nextObserver = _
      unfold Store.change
      dsimp only
      split <;> rfl
    | ret =>
      show s.ret.nextObserver = _
      unfold Store.ret
      split
      · rfl
      · exact sweep_nextObserver _
      · rfl
    | leave =>
      show s.leave.nextObserver = _
      unfold Store.leave
      split <;> rfl
    | panic =>
      exact (sweep_nextObserver _).trans (foldl_abandon s.stack s).1.nextObserver
  · next hwait =>
    split
    · obtain ⟨d, below, htop⟩ := delivers_of_not_isWaiting hwait
      exact h.tick_nextObserver htop
    · rfl

/-- What goes by a name belongs to the same source after a move. -/
theorem Belongs.advance {src : Source} {o : ObserverId} (h : s.Belongs src o) (hs : s.Sound)
    (hu : Upshot s m t es) : t.Belongs src o := by
  cases hu with
  | moved _ ho => exact h.step hs ho
  | failed hq _ hdt =>
    refine h.keep hq.toEntries fun {d} hd => ?_
    rw [hdt] at hd
    cases hd

/-- **Every move keeps the names apart.** -/
theorem Homed.step (h : s.Homed) (hs : s.Steady) (hm : s.admits m = true) :
    (s.step m).1.Homed := by
  intro o ho
  by_cases hold : o < s.nextObserver
  · obtain ⟨src, hb⟩ := h o hold
    exact ⟨src, hb.advance hs.toSound (hs.upshot hm)⟩
  · have hold := Nat.not_lt.mp hold
    by_cases hobserve : ∃ a, m = .observe a
    · obtain ⟨a, rfl⟩ := hobserve
      have hstep : s.step (.observe a) = s.observe a := if_pos hm
      rw [hstep] at ho ⊢
      exact hs.toSound.belongs_observe hold ho
    · rw [not_exists] at hobserve
      rw [hs.toSound.step_nextObserver hobserve] at ho
      exact absurd ho (Nat.not_lt.mpr hold)

theorem Homed.after (h : s.Homed) (hs : s.Steady) {ms : List (Move S V H)}
    (hrun : s.Feasible ms) : (s.after ms).Homed := by
  induction ms generalizing s with
  | nil => exact h
  | cons m ms ih => exact ih (h.step hs hrun.1) (hs.advance hrun.1) hrun.2

end Homes

end Store

end LiveDesk.Observable
