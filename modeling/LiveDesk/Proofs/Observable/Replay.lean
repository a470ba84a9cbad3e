import LiveDesk.Proofs.Observable.Consistency

/-!
# The first value of a subscriber

A subscriber of a projection is called with the value that the projection has, and gets its entry
when its code has returned. What its code makes the projection take in the meantime is not told to
it, neither then nor later. A projection takes nothing in the meantime if a delivery was under way.

- `Store.Replaying`: the code of the subscriber runs for its first value.
- `Store.Within`: the same, inside a delivery.
- **`Store.Sound.follows_ret`**: when the code returns, the subscriber follows the projection.
- **`Sound.taken_chain`**: a projection never takes the value that it has.
- **`Store.replay_gap`**: what the subscriber is told, and when it misses something.
-/

namespace LiveDesk.Observable

namespace Store

variable {S V H : Type}

/-- The code of the subscriber runs for its first value, a value of the projection. -/
structure Replaying (s : Store S V H) (o : ObserverId) (p : ProjectionId) : Prop
    extends s.Belongs (.view p) o where
  running : .replay o p ∈ s.stack

theorem unborn_of_replay {s : Store S V H} {o : ObserverId} {p : ProjectionId}
    (h : .replay o p ∈ s.stack) : o ∈ s.unborn :=
  List.mem_filterMap.mpr ⟨_, h, rfl⟩

/-- The code of the subscriber begins to run. -/
theorem Sound.replaying_watch {s : Store S V H} (h : s.Sound) {p : ProjectionId}
    {q : Projection S V} (hq : s.handled? p = some q) :
    (s.watch p).1.Replaying s.nextObserver p ∧
      (s.watch p).2 = [.called s.nextObserver (.view q.value)] ∧
      (s.watch p).1.stack = .replay s.nextObserver p :: s.stack := by
  have hfresh := h.stacked.stranger_of_le (Nat.le_refl s.nextObserver)
  have hwatch : s.watch p = ({ s with
      stack := .replay s.nextObserver p :: s.stack
      nextObserver := s.nextObserver + 1 }, [.called s.nextObserver (.view q.value)]) := by
    rw [Store.watch, hq]
  rw [hwatch]
  refine ⟨⟨⟨Nat.lt_succ_self _, ?_, ?_, ?_⟩, List.mem_cons_self ..⟩, rfl, rfl⟩
  · intro src e he hid
    have he' : e ∈ s.observersOf src := he
    exact absurd hid (h.wired.fresh he').ne
  · intro d hd signal rest hnow e he hid
    exact absurd hid (hfresh.2 d hd signal rest hnow e he)
  · intro r hr
    rcases List.mem_cons.mp hr with heq | hr
    · cases heq
      rfl
    · exact absurd (unborn_of_replay hr) hfresh.1

section Runs

variable [DecidableEq V] {s : Store S V H}

theorem Belongs.after {src : Source} {o : ObserverId} (h : s.Belongs src o) (hs : s.Sound)
    {ms : List (Move S V H)} (hcalm : s.Calm ms) : (s.after ms).Belongs src o :=
  (Calm.induction (P := fun t => t.Belongs src o)
    (fun _ _ ht hm hb => hb.step ht (ht.outcome hm)) hcalm hs h)

/-- A frame of a subscriber that runs at the end of a run was there from the start. -/
theorem Sound.replay_mem (hs : s.Sound) {ms : List (Move S V H)} (hcalm : s.Calm ms)
    {o : ObserverId} {p : ProjectionId} (ho : o < s.nextObserver)
    (hr : .replay o p ∈ (s.after ms).stack) : .replay o p ∈ s.stack := by
  induction ms generalizing s with
  | nil => exact hr
  | cons m ms ih =>
    obtain ⟨hm, hcalm⟩ := hcalm
    have hentries := (hs.outcome hm).entries hs
    rcases hentries.replays (ih (hs.step m) hcalm (lt_of_lt_of_le ho hentries.nextObserver) hr)
      with hr | hnew
    · exact hr
    · exact absurd ho (Nat.not_lt.mpr hnew)

/-- While its code runs for the first value, a subscriber is told nothing else. -/
theorem Sound.unheard_replay (hs : s.Sound) {ms : List (Move S V H)} (hcalm : s.Calm ms)
    {o : ObserverId} {p : ProjectionId} (ho : o < s.nextObserver)
    (hr : .replay o p ∈ (s.after ms).stack) : heard o (s.events ms) = [] := by
  induction ms generalizing s with
  | nil => rfl
  | cons m ms ih =>
    have hunborn := unborn_of_replay (hs.replay_mem hcalm ho hr)
    obtain ⟨hm, hcalm⟩ := hcalm
    have hle := ((hs.outcome hm).entries hs).nextObserver
    have hnil : heard o (s.step m).2 = [] := by
      have hout := hs.outcome hm
      generalize (s.step m).1 = t, (s.step m).2 = es at hout
      cases hout with
      | replayed => rw [heard_called, if_neg ho.ne']
      -- who is called has an entry, and the subscriber has none yet
      | called _ hentry =>
        obtain ⟨e, he, hid, -⟩ := hentry
        rw [heard_called, if_neg]
        rintro rfl
        exact hs.stacked.unbornAbsent hunborn he hid
      | quiet | changed | created | took | passed | kept | accepted | done | ended => rfl
    rw [events_cons, heard_append, hnil, ih (hs.step m) hcalm (lt_of_lt_of_le ho hle) hr]
    rfl

end Runs

/-- A sweep leaves the entry of a subscription that is held. -/
theorem Sound.sweep_entry {s : Store S V H} (h : s.Sound) {p : ProjectionId} {o : ObserverId}
    (hmem : ⟨o, .subscriber, true⟩ ∈ s.observersOf (.view p)) :
    ⟨o, .subscriber, true⟩ ∈ s.sweep.observersOf (.view p) := by
  have : ⟨o, .subscriber, true⟩ ∈ s.sweep.observersOf (.view p) ∧ s.sweep.Sound :=
    sweep_induction (P := fun t => ⟨o, .subscriber, true⟩ ∈ t.observersOf (.view p) ∧ t.Sound)
      (fun t r q ⟨hin, ht⟩ hget hpin => by
        refine ⟨ht.wired.stays hget hin (fun hsrc => ?_) (by simp), ht.remove hget hpin⟩
        -- the entry keeps the projection
        rw [hsrc, get?_id hget, observersOf, hget] at hin
        exact absurd ((isPinned_eq_false hpin).1 _ hin) (by simp)) ⟨hmem, h⟩
  exact this.1

/-- **When its code has returned, the subscriber follows the projection**, and nothing is owed to
it. -/
theorem Sound.follows_ret {s : Store S V H} (h : s.Sound) {o : ObserverId} {p : ProjectionId}
    {below : List (Frame S V H)} (hst : s.stack = .replay o p :: below)
    (hb : s.ret.Belongs (.view p) o) :
    s.ret.Follows (.view p) ⟨o, .subscriber, true⟩ ∧ s.ret.owed (.view p) o = [] := by
  have halive : (s.link? p).isSome = true :=
    h.stacked.alive (hst ▸ List.mem_cons_self ..) (by simp [Frame.keeps])
  have hret : s.ret = ({ s with stack := below }.modifyChannel p
      (·.add ⟨o, .subscriber, true⟩)).sweep := by
    unfold Store.ret
    rw [hst]
    rfl
  have hstack : s.ret.stack = below := by rw [hret, sweep_stack]; rfl
  have hunborn : s.unborn = o :: below.filterMap Frame.unborn? := by
    rw [unborn, hst]
    rfl
  -- no other frame waits for an entry of this name
  have hnodup := h.stacked.unbornOnce
  rw [hunborn, List.nodup_cons] at hnodup
  have hmem : o ∈ s.unborn := by
    rw [hunborn]
    exact List.mem_cons_self ..
  refine ⟨⟨hb, rfl, fun _ => ?_, fun hsrc => ?_, fun hr => ?_⟩, owed_eq_nil ?_⟩
  · rw [hret]
    refine (h.addReplayed hst).sweep_entry ?_
    show _ ∈ (s.modifyChannel p (·.add ⟨o, .subscriber, true⟩)).observersOf (.view p)
    rw [observersOf_add halive, if_pos rfl]
    exact List.mem_append_right _ (List.mem_singleton.mpr rfl)
  · cases hsrc
    obtain ⟨l, hl⟩ := Option.isSome_iff_exists.mp halive
    rw [h.quiet_ret.1.nextProjection]
    exact h.wired.named hl
  · rw [hstack] at hr
    exact hnodup.1 (List.mem_filterMap.mpr ⟨_, hr, rfl⟩)
  · intro d hd signal rest hnow e he hid
    have hd' : d ∈ s.deliveries := by
      rw [deliveries, hst]
      rw [deliveries, hstack] at hd
      exact hd
    exact ((h.stacked.telling hd' hnow).fresh he).2 (hid ▸ hmem)

/-! ## The values that a projection takes -/

section Values

theorem newest?_eq_none {s : Store S V H} {p : ProjectionId} :
    s.newest? (.view p) = none ↔ ¬ s.Living (.view p) := by
  simp [newest?, value?, Living, link?]

variable [DecidableEq V] {s t : Store S V H} {p : ProjectionId}

/-- A projection takes nothing in a move, or a value that it did not have. -/
theorem Outcome.taken_view {m : Move S V H} {es : List (Event S V)} (ho : Outcome s m t es)
    (p : ProjectionId) : taken (.view p) es = [] ∨
      ∃ w v, w ≠ v ∧ s.newest? (.view p) = some (.view w) ∧ taken (.view p) es = [.view v] ∧
        t.newest? (.view p) = some (.view v) := by
  cases ho with
  | @accepted _ _ _ _ r _ v w _ _ _ _ _ _ hvalue hne _ _ _ _ hvalue' =>
    by_cases hr : p = r
    · subst hr
      refine Or.inr ⟨w, v, hne, ?_, ?_, ?_⟩
      · rw [Store.newest?, hvalue]
        rfl
      · simp [taken, List.filterMap_cons, Event.taken?]
      · rw [Store.newest?, hvalue', Function.update_self]
        rfl
    · exact Or.inl (by simp [taken, List.filterMap_cons, Event.taken?, hr])
  | quiet | replayed | changed | created | took | passed | called | kept | done | ended =>
    exact Or.inl rfl

/-- A projection that is gone takes nothing more. -/
theorem Sound.taken_gone (hs : s.Sound) {ms : List (Move S V H)} (hcalm : s.Calm ms)
    (hp : p < s.nextProjection) (hgone : ¬ s.Living (.view p)) :
    taken (.view p) (s.events ms) = [] ∧ ¬ (s.after ms).Living (.view p) := by
  induction ms generalizing s with
  | nil => exact ⟨rfl, hgone⟩
  | cons m ms ih =>
    obtain ⟨hm, hcalm⟩ := hcalm
    have ho := hs.outcome hm
    obtain ⟨hle, hliving⟩ := ho.projections
    -- the name is not given to another projection
    have hgone' : ¬ (s.step m).1.Living (.view p) := by
      intro h
      refine hgone (hliving h fun hsrc => ?_)
      cases hsrc
      exact hp
    obtain ⟨hnil, hafter⟩ := ih (hs.step m) hcalm (lt_of_lt_of_le hp hle) hgone'
    refine ⟨?_, hafter⟩
    rw [events_cons, taken_append, hnil, List.append_nil]
    rcases ho.taken_view p with hnil | ⟨w, v, -, hsome, -⟩
    · exact hnil
    · rw [newest?_eq_none.mpr hgone] at hsome
      cases hsome

/-- **A projection never takes the value that it has**, and the value that it has is the one it took
last. -/
theorem Sound.taken_chain (hs : s.Sound) {ms : List (Move S V H)} (hcalm : s.Calm ms)
    (hp : p < s.nextProjection) :
    ((s.newest? (.view p)).toList ++ taken (.view p) (s.events ms)).IsChain (· ≠ ·) ∧
      ∀ y, (s.after ms).newest? (.view p) = some y →
        ((s.newest? (.view p)).toList ++ taken (.view p) (s.events ms)).getLast? = some y := by
  induction ms generalizing s with
  | nil =>
    rw [events_nil, after_nil]
    cases s.newest? (.view p) <;> simp [taken]
  | cons m ms ih =>
    obtain ⟨hm, hcalm⟩ := hcalm
    have ho := hs.outcome hm
    have hle := ho.projections.1
    obtain ⟨hchain, hlast⟩ := ih (hs.step m) hcalm (lt_of_lt_of_le hp hle)
    rw [events_cons, taken_append, after_cons]
    rcases ho.taken_view p with hnil | ⟨w, v, hne, hw, htaken, hv⟩
    · rw [hnil, List.nil_append]
      by_cases hliving : (s.step m).1.Living (.view p)
      · have hold : s.Living (.view p) := by
          refine ho.projections.2 hliving fun hsrc => ?_
          cases hsrc
          exact hp
        have hsame := ho.newest? hs (hs.step m) hliving hold
        rw [hnil] at hsame
        rw [show s.newest? (.view p) = (s.step m).1.newest? (.view p) from hsame.symm]
        exact ⟨hchain, hlast⟩
      · obtain ⟨hnone, hgone⟩ :=
          (hs.step m).taken_gone hcalm (lt_of_lt_of_le hp hle) hliving
        rw [hnone, newest?_eq_none.mpr hgone]
        cases s.newest? (.view p) <;> simp
    -- the value that is taken differs from the one before, and is the one from then on
    · rw [hv] at hchain hlast
      rw [hw, htaken]
      refine ⟨List.isChain_cons_cons.mpr ⟨?_, hchain⟩, fun y hy => ?_⟩
      · simpa using hne
      · rw [← hlast y hy]
        simp

end Values

/-! ## Inside a delivery -/

/-- The code of the subscriber runs for its first value, above a delivery. -/
def Within (s : Store S V H) (o : ObserverId) (p : ProjectionId) : Prop :=
  ∃ top below, s.stack = top ++ .replay o p :: below ∧ (∀ g ∈ top, g.isOwn = true) ∧
    below.filterMap Frame.delivery? ≠ []

namespace Within

variable {s : Store S V H} {o : ObserverId} {p : ProjectionId}

theorem deliveries (h : s.Within o p) : s.deliveries ≠ [] := by
  obtain ⟨top, below, hst, -, hne⟩ := h
  rw [Store.deliveries, hst, List.filterMap_append]
  exact List.append_ne_nil_of_right_ne_nil _ hne

/-- The caller's code has control. -/
theorem isWaiting (h : s.Within o p) : s.isWaiting = true := by
  obtain ⟨top, below, hst, hown, -⟩ := h
  rw [Store.isWaiting, hst]
  cases top with
  | nil => rfl
  | cons g top =>
    have hg := hown g (List.mem_cons_self ..)
    cases g with
    | replay | code => rfl
    | publishing | emitting | callback => cases hg

end Within

section Frames

variable [DecidableEq V] {s : Store S V H}

/-- Inside a delivery, what the caller's code does changes at most the top of the stack. -/
theorem Sound.stack_step (hs : s.Sound) {m : Move S V H} (hm : s.allows m = true)
    (hne : m ≠ .tick) (hdel : s.deliveries ≠ []) :
    (s.step m).1.stack = s.stack ∨
      (∃ f, f.isOwn = true ∧ (s.step m).1.stack = f :: s.stack) ∨
      ∃ f, s.stack = f :: (s.step m).1.stack := by
  rw [step_eq_perform (givesUp_or_isWaiting hm hne)]
  cases m with
  | tick => exact absurd rfl hne
  | panic => cases hm
  | change c =>
    -- a delivery of snapshots is under way, so the new one is only queued
    have hsrc : s.sources ≠ [] := fun hnil => hdel (List.map_eq_nil_iff.mp hnil)
    have hpub : s.channel.publishing = true :=
      (hs.stacked.busy .store).mpr (hs.stacked.nested.store_mem hsrc)
    refine Or.inl ?_
    show (s.change c).1.stack = s.stack
    unfold Store.change
    dsimp only
    rw [if_pos hpub]
  | enter c => exact Or.inr (Or.inl ⟨.code c, rfl, rfl⟩)
  | leave =>
    show s.leave.stack = s.stack ∨ (∃ f, f.isOwn = true ∧ s.leave.stack = f :: s.stack) ∨
      ∃ f, s.stack = f :: s.leave.stack
    unfold Store.leave
    split
    · next hst => exact Or.inr (Or.inr ⟨_, hst⟩)
    · exact Or.inl rfl
  | ret =>
    show s.ret.stack = s.stack ∨ (∃ f, f.isOwn = true ∧ s.ret.stack = f :: s.stack) ∨
      ∃ f, s.stack = f :: s.ret.stack
    unfold Store.ret
    split
    · next hst => exact Or.inr (Or.inr ⟨_, hst⟩)
    · next hst =>
      rw [sweep_stack]
      exact Or.inr (Or.inr ⟨_, hst⟩)
    · exact Or.inl rfl
  | observe a =>
    cases a with
    | project select => exact Or.inl rfl
    | chain source select =>
      refine Or.inl ?_
      show (s.chain source select).1.stack = s.stack
      unfold Store.chain
      split <;> rfl
    | share p =>
      refine Or.inl ?_
      show (s.share p).stack = s.stack
      unfold Store.share
      split <;> rfl
    | drop p => exact Or.inl (sweep_stack _)
    | subscribe => exact Or.inl rfl
    | watch p =>
      show (s.watch p).1.stack = s.stack ∨
        (∃ f, f.isOwn = true ∧ (s.watch p).1.stack = f :: s.stack) ∨
        ∃ f, s.stack = f :: (s.watch p).1.stack
      unfold Store.watch
      split
      · exact Or.inl rfl
      · exact Or.inr (Or.inl ⟨_, rfl, rfl⟩)
    | unsubscribe o => exact Or.inl (sweep_stack _)
    | detach o => exact Or.inl (sweep_stack _)

/-- The code stays inside the delivery for as long as it runs. -/
theorem Within.step {o : ObserverId} {p : ProjectionId} (h : s.Within o p) (hs : s.Sound)
    {m : Move S V H} (hm : s.allows m = true) (hr : .replay o p ∈ (s.step m).1.stack) :
    m ≠ .tick ∧ (s.step m).1.Within o p := by
  have hne : m ≠ .tick := by
    rintro rfl
    rw [allows, h.isWaiting] at hm
    cases hm
  refine ⟨hne, ?_⟩
  have hstack := hs.stack_step hm hne h.deliveries
  obtain ⟨top, below, hst, hown, hbelow⟩ := h
  rcases hstack with hsame | ⟨f, hf, hpush⟩ | ⟨f, hpop⟩
  · exact ⟨top, below, hsame.trans hst, hown, hbelow⟩
  · refine ⟨f :: top, below, ?_, ?_, hbelow⟩
    · rw [hpush, hst, List.cons_append]
    · intro g hg
      rcases List.mem_cons.mp hg with rfl | hg
      · exact hf
      · exact hown g hg
  · rw [hst] at hpop
    cases top with
    | nil =>
      -- the code would have returned, and its name would be on the stack twice
      have hnodup := hs.stacked.unbornOnce
      rw [unborn, hst] at hnodup
      have hnot : o ∉ below.filterMap Frame.unborn? := (List.nodup_cons.mp hnodup).1
      rw [← (List.cons.inj hpop).2] at hr
      exact (hnot (List.mem_filterMap.mpr ⟨_, hr, rfl⟩)).elim
    | cons g top =>
      refine ⟨top, below, (List.cons.inj hpop).2.symm, fun g' hg' => ?_, hbelow⟩
      exact hown g' (List.mem_cons_of_mem _ hg')

/-- Inside a delivery no projection takes a value while the code runs. -/
theorem Within.taken {o : ObserverId} {p : ProjectionId} (h : s.Within o p) (hs : s.Sound)
    {ms : List (Move S V H)} (hcalm : s.Calm ms) (ho : o < s.nextObserver)
    (hr : .replay o p ∈ (s.after ms).stack) (r : ProjectionId) :
    taken (.view r) (s.events ms) = [] := by
  induction ms generalizing s with
  | nil => rfl
  | cons m ms ih =>
    obtain ⟨hm, hcalm⟩ := hcalm
    have hout := hs.outcome hm
    have hlt := lt_of_lt_of_le ho (hout.entries hs).nextObserver
    obtain ⟨hne, hwithin⟩ := h.step hs hm ((hs.step m).replay_mem hcalm hlt hr)
    have hnil : Store.taken (.view r) (s.step m).2 = [] := by
      generalize (s.step m).1 = t, (s.step m).2 = es at hout
      cases hout with
      | accepted => exact absurd rfl hne
      | quiet | replayed | changed | created | took | passed | called | kept | done | ended => rfl
    rw [events_cons, taken_append, hnil, ih hwithin (hs.step m) hcalm hlt hr]
    rfl

end Frames

/-! ## What the subscriber is told -/

section Told

variable [DecidableEq V]

/-- The subscriber is told the value that the projection has, and then what it takes from the return
of the subscriber's code on. -/
theorem Orderly.heard_watch {s : Store S V H} (hs : s.Orderly) {p : ProjectionId}
    {q : Projection S V} (hq : s.handled? p = some q) {b c d : List (Move S V H)}
    (hcalm : s.Calm (.observe (.watch p) :: (b ++ .ret :: (c ++ d))))
    (hret : (s.after (.observe (.watch p) :: b)).stack.head? = some (.replay s.nextObserver p))
    (hlasts : Move.lasts ⟨s.nextObserver, .subscriber, true⟩ c = true)
    (hends : ∀ m ∈ d.head?, Move.lasts ⟨s.nextObserver, .subscriber, true⟩ (c ++ [m]) = false) :
    let returned := (s.after (.observe (.watch p) :: b)).after [.ret]
    heard s.nextObserver (s.events (.observe (.watch p) :: (b ++ .ret :: (c ++ d))))
        ++ (returned.after c).owed (.view p) s.nextObserver ++ (returned.after c).queue (.view p)
      = .view q.value :: taken (.view p) (returned.events c) := by
  intro returned
  obtain ⟨hm, hcalm⟩ := hcalm
  obtain ⟨hb, hr, hcd⟩ := calm_append.mp hcalm
  have hu := hs.step hm
  have hw : s.step (.observe (.watch p)) = s.watch p := if_pos hm
  obtain ⟨hreplaying, hevents, -⟩ := hs.toSound.replaying_watch hq
  rw [hw] at hb hr hcd hu
  rw [after_cons, hw] at hret
  have hreturned : returned = ((s.watch p).1.after b).ret := by
    show ((s.after (.observe (.watch p) :: b)).step .ret).1 = _
    rw [after_cons, hw, show ((s.watch p).1.after b).step .ret = _ from if_pos hr]
    rfl
  -- the code returns
  have hv := hu.after hb
  have hbelongs := hreplaying.toBelongs.after hu.toSound hb
  obtain ⟨below, hst⟩ : ∃ below, ((s.watch p).1.after b).stack
      = .replay s.nextObserver p :: below := by
    cases hstack : ((s.watch p).1.after b).stack with
    | nil =>
      rw [hstack] at hret
      cases hret
    | cons f below =>
      rw [hstack] at hret
      cases hret
      exact ⟨below, rfl⟩
  have hstep : ((s.watch p).1.after b).step .ret = (((s.watch p).1.after b).ret, []) := if_pos hr
  have hbelongs' := hbelongs.step hv.toSound (hv.toSound.outcome hr)
  have hv' := hv.step hr
  rw [hstep] at hcd hbelongs' hv'
  obtain ⟨hfollows, howed⟩ := hv.toSound.follows_ret hst hbelongs'
  have hreceived := hfollows.received hv'.toSound hcd hlasts hends
  have hflow := hv'.flow (calm_append.mp hcd).1 (.view p)
  have hqueue : ((s.watch p).1.after b).ret.queue (.view p) = [] := by
    by_cases hliving : ((s.watch p).1.after b).ret.Living (.view p)
    · rw [hv.toSound.quiet_ret.2 hliving]
      exact hv.queue_view hr p
    · exact queue_eq_nil_of_not_living hliving
  -- until then the subscriber was told its first value only
  have hsilent := hu.toSound.unheard_replay hb hreplaying.given
    (hst ▸ List.mem_cons_self ..)
  rw [howed, List.nil_append] at hreceived
  rw [hqueue, List.nil_append] at hflow
  rw [hreturned, events_cons, heard_append, hw, hevents, heard_called, if_pos rfl, events_append,
    heard_append, hsilent, List.nil_append, events_cons, hstep, List.nil_append, List.append_assoc,
    List.append_assoc, hflow, ← hreceived, List.append_assoc]
  rfl

/-- **Who has been told the value that a projection had and all that it took** has never been told a
value twice in a row, and the last one is the value that the projection has. -/
theorem Sound.told_chain {s : Store S V H} (hs : s.Sound) {p : ProjectionId} {q : Projection S V}
    (hq : s.handled? p = some q) {ms : List (Move S V H)} (hcalm : (s.watch p).1.Calm ms)
    (hsound : (s.watch p).1.Sound) {told rest : List (Signal S V)}
    (hall : told ++ rest = .view q.value :: taken (.view p) ((s.watch p).1.events ms)) :
    told.IsChain (· ≠ ·) ∧ (rest = [] →
      ((s.watch p).1.after ms).Living (.view p) →
        told.getLast? = ((s.watch p).1.after ms).newest? (.view p)) := by
  have hget := Sound.handled?_eq_some hq
  have hnewest : (s.watch p).1.newest? (.view p) = some (.view q.value) := by
    rw [Store.watch, hq]
    show (s.value? p).map _ = _
    rw [value?, hget]
    rfl
  have hp : p < (s.watch p).1.nextProjection := by
    rw [Store.watch, hq]
    exact hs.wired.named (link?_of_get? hget)
  have hchain := hsound.taken_chain hcalm hp
  rw [hnewest, Option.toList_some, List.singleton_append, ← hall] at hchain
  refine ⟨hchain.1.left_of_append, fun hrest hliving => ?_⟩
  obtain ⟨v, hv⟩ := hliving.value?
  have hlast : ((s.watch p).1.after ms).newest? (.view p) = some (.view v) := by
    rw [newest?, hv]
    rfl
  rw [hlast, ← hchain.2 _ hlast, hrest, List.append_nil]

/-- **The gap after the first value.** A subscriber of a projection is called with the value that
the projection has, and is told nothing else until its code has returned. What the projection takes
until then is `missed`.

- The subscriber is told the first value and then, in order, every value that the projection takes
  from the return on while the subscription lasts, except for what is owed to it or queued at the
  end.
- That is every value since the subscription if and only if nothing was missed.
- Nothing is missed if a delivery was under way when it subscribed.
- If nothing was missed, it is never told a value twice in a row, and while no snapshot is being
  delivered the last value it was told is the one that the projection has. -/
theorem replay_gap (initial : S) (a ms : List (Move S V H)) (p : ProjectionId)
    (q : Projection S V)
    (hcalm : (opening initial : Store S V H).Calm (a ++ .observe (.watch p) :: ms))
    (hq : ((opening initial : Store S V H).after a).handled? p = some q) :
    let start : Store S V H := opening initial
    let s := start.after a
    let o := s.nextObserver
    let watching := s.after [.observe (.watch p)]
    let told := heard o (start.events (a ++ .observe (.watch p) :: ms))
    (.replay o p ∈ (watching.after ms).stack → told = [.view q.value]) ∧
    ∀ b c d, ms = b ++ .ret :: (c ++ d) →
      let returned := (watching.after b).after [.ret]
      let t := returned.after c
      let missed := taken (.view p) (watching.events b)
      (watching.after b).stack.head? = some (.replay o p) →
      Move.lasts ⟨o, .subscriber, true⟩ c = true →
      (∀ m ∈ d.head?, Move.lasts ⟨o, .subscriber, true⟩ (c ++ [m]) = false) →
      told ++ t.owed (.view p) o ++ t.queue (.view p)
          = .view q.value :: taken (.view p) (returned.events c) ∧
        (told ++ t.owed (.view p) o ++ t.queue (.view p)
            = .view q.value :: taken (.view p) (watching.events (b ++ .ret :: c)) ↔
          missed = []) ∧
        (s.deliveries ≠ [] → missed = []) ∧
        (missed = [] → told.IsChain (· ≠ ·) ∧
          ((∀ now, .publishing now ∉ t.stack) → (t.get? p).isSome = true →
            told.getLast? = t.newest? (.view p))) := by
  intro start s o watching told
  obtain ⟨ha, hrun⟩ := calm_append.mp hcalm
  have hs : s.Orderly := (Orderly.opening initial).after ha
  have htold : told = heard o (s.events (.observe (.watch p) :: ms)) := by
    show heard o (start.events _) = _
    rw [events_append, heard_append, (Sound.opening initial).unheard ha (Nat.le_refl _)]
    rfl
  have hm := hrun.1
  have hstep : s.step (.observe (.watch p)) = s.watch p := if_pos hm
  have hw : watching = (s.watch p).1 := by
    show (s.step (.observe (.watch p))).1 = (s.watch p).1
    rw [hstep]
  obtain ⟨hreplaying, hevents, hstack⟩ := hs.toSound.replaying_watch hq
  rw [← hw] at hreplaying hstack
  have hwatching : watching.Sound := hs.toSound.step (.observe (.watch p))
  refine ⟨fun hr => ?_, ?_⟩
  · have hsilent := hwatching.unheard_replay hrun.2 hreplaying.given hr
    rw [htold, events_cons, heard_append, hstep, hevents, heard_called, if_pos rfl, ← hw, hsilent]
    rfl
  rintro b c d rfl returned t missed hret hlasts hends
  have hheard : told ++ t.owed (.view p) o ++ t.queue (.view p)
      = .view q.value :: taken (.view p) (returned.events c) := by
    rw [htold]
    exact hs.heard_watch hq hrun hret hlasts hends
  obtain ⟨hb, hr, hcd⟩ := calm_append.mp hrun.2
  have hc := (calm_append.mp hcd).1
  have hsplit : taken (.view p) (watching.events (b ++ .ret :: c))
      = missed ++ taken (.view p) (returned.events c) := by
    have hsilent : ((watching.after b).step .ret).2 = [] := by
      rw [show (watching.after b).step .ret = _ from if_pos hr]
      rfl
    rw [events_append, taken_append, events_cons, hsilent]
    rfl
  refine ⟨hheard, ?_, fun hdel => ?_, fun hmissed => ?_⟩
  · rw [hheard, hsplit, List.cons.injEq, List.self_eq_append_left]
    exact and_iff_right rfl
  · have hwithin : watching.Within o p := ⟨[], s.stack, hstack, by simp, hdel⟩
    refine hwithin.taken hwatching hb hreplaying.given ?_ p
    cases hst : (watching.after b).stack with
    | nil =>
      rw [hst] at hret
      cases hret
    | cons f below =>
      rw [hst] at hret
      cases hret
      exact List.mem_cons_self ..
  · -- everything that is taken from the subscription on is told, owed or queued
    have hall : told ++ (t.owed (.view p) o ++ t.queue (.view p))
        = .view q.value :: taken (.view p) (watching.events (b ++ .ret :: c)) := by
      rw [← List.append_assoc, hheard, hsplit, hmissed, List.nil_append]
    have hrun' : watching.Calm (b ++ .ret :: c) := calm_append.mpr ⟨hb, hr, hc⟩
    have hend : watching.after (b ++ .ret :: c) = t := after_append ..
    rw [hw] at hall hrun' hend hwatching
    obtain ⟨hchain, hlast⟩ := hs.toSound.told_chain hq hrun' hwatching hall
    rw [hend] at hlast
    refine ⟨hchain, fun hnone halive => ?_⟩
    have ht : t.Orderly := ((hs.step hm).after hb).step hr |>.after hc
    have hidle := ht.deliveries_eq_nil hnone
    refine hlast ?_ ?_
    · rw [owed_of_deliveries_nil hidle, ht.queue_of_deliveries_nil hidle, List.append_nil]
    · obtain ⟨q', hq'⟩ := Option.isSome_iff_exists.mp halive
      exact Option.isSome_of_eq_some (link?_of_get? hq')

/-- A subscriber changes the state while it is called with its first value. The state is changed
back when it has returned. -/
def gapRun : List (Move Nat Nat Unit) :=
  [.observe (.project id), .observe (.watch 0), .change (.update fun _ => 1), .tick, .tick, .tick,
    .tick, .tick, .tick, .tick, .ret, .change (.update fun _ => 0), .tick, .tick, .tick, .tick,
    .ret, .tick, .tick, .tick, .tick]

/-- The subscriber is told the same value twice. -/
theorem replay_gap_repeats :
    (opening 0 : Store Nat Nat Unit).Calm gapRun ∧
      heard 1 ((opening 0 : Store Nat Nat Unit).events gapRun) = [.view 0, .view 0] := by
  have hcalm : (opening 0 : Store Nat Nat Unit).Calm gapRun := by decide +kernel
  have hgap := (replay_gap 0 (gapRun.take 1) (gapRun.drop 2) 0
    { id := 0, origin := .store id, entry := 0, value := 0, channel := .empty, handles := 1 }
    hcalm rfl).2
  have hends : ∀ m ∈ ([] : List (Move Nat Nat Unit)).head?,
      Move.lasts ⟨1, .subscriber, true⟩ (gapRun.drop 11 ++ [m]) = false := by
    intro m hm
    cases hm
  refine ⟨hcalm, ?_⟩
  exact (hgap ((gapRun.drop 2).take 8) (gapRun.drop 11) [] rfl rfl rfl hends).1

/-- Before the state is changed back, the subscriber was not told the value that the projection
has. -/
theorem replay_gap_missed :
    (opening 0 : Store Nat Nat Unit).Calm (gapRun.take 11) ∧
      ((opening 0 : Store Nat Nat Unit).after (gapRun.take 11)).stack = [] ∧
      heard 1 ((opening 0 : Store Nat Nat Unit).events (gapRun.take 11)) = [.view 0] ∧
      ((opening 0 : Store Nat Nat Unit).after (gapRun.take 11)).newest? (.view 0)
        = some (.view 1) :=
  ⟨by decide +kernel, rfl, rfl, rfl⟩

end Told

end Store

end LiveDesk.Observable
