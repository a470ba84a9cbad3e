import LiveDesk.Proofs.Observable.Evaluations

/-!
# Projections in lockstep with the store

Every level of a chain of projections has a queue of its own, and the levels deliver inside one
another. Still they move in lockstep: whatever the delivery of a snapshot causes, at any depth, is
over before anybody is told of the next snapshot. So a projection has nothing queued when it begins
to deliver a value, and it delivers the values that its selector gives, without those that equal the
one before.

- `Store.told?`: the snapshot that a move tells of, itself or a value derived from it.
- `Store.Behind`: whatever is delivered from now on is of a version or a later one.
- `Nested.hand_store`: deliveries lie upon the delivery of one snapshot.
- **`Behind.step`**: every possible move keeps it.
- **`Orderly.evaluations_born`**: a new projection in the run that follows.
- **`Store.lockstep`**: what a projection derives and delivers, and when.
-/

namespace LiveDesk.Observable

namespace Event

variable {S V : Type}

/-- Whether an observer is told something in an event: its code is called, or its selector is
applied. -/
def tells : Event S V → Bool
  | .called _ _ | .evaluated _ _ _ => true
  | .published _ | .emitted _ _ => false

end Event

/-- Deliveries that lie upon one another lie upon one delivery of the store. -/
theorem Nested.hand_store {S V : Type}
    {link? : ProjectionId → Option (Origin S V × ObserverId)} :
    ∀ {ds : List (Delivery S V)}, Nested link? (ds.map (·.source)) → ds ≠ [] →
      ∃ d ∈ ds, d.source = .store ∧ ds.flatMap (·.hand .store) = d.hand .store
  | [], _, hne => absurd rfl hne
  | [d], h, _ => by
    refine ⟨d, List.mem_singleton.mpr rfl, h, ?_⟩
    rw [List.flatMap_cons, List.flatMap_nil, List.append_nil]
  | d :: outer :: rest, ⟨⟨p, l, hp, _, _⟩, h⟩, _ => by
    obtain ⟨d', hd', hsrc, hhand⟩ :=
      hand_store (show Nested link? ((outer :: rest).map (·.source)) from h) (by simp)
    have hview : d.source ≠ .store := by
      rw [show d.source = .view p from hp]
      simp
    refine ⟨d', List.mem_cons_of_mem _ hd', hsrc, ?_⟩
    rw [List.flatMap_cons, hhand, Delivery.hand_of_ne hview, List.nil_append]

namespace Store

variable {S V H : Type}

section Moves

variable {s t : Store S V H} {m : Move S V H} {es : List (Event S V)}

/-- Under a signal that is being delivered there is a snapshot at hand. -/
theorem Orderly.hand_store (hs : s.Orderly) {d : Delivery S V} {ds : List (Delivery S V)}
    (hdel : s.deliveries = d :: ds) (hd : d.now.isSome = true) :
    ∃ x, s.hand .store = [.snapshot x] := by
  have hne : s.deliveries ≠ [] := by simp [hdel]
  obtain ⟨d', hd', hsrc, hhand⟩ := hs.stacked.nested.hand_store hne
  -- every delivery but the innermost one is within a signal
  have hnow : d'.now.isSome = true := by
    rw [hdel] at hd'
    rcases List.mem_cons.mp hd' with rfl | hd'
    · exact hd
    · refine hs.inner ?_
      rw [hdel]
      exact hd'
  obtain ⟨⟨signal, rest⟩, hnow⟩ := Option.isSome_iff_exists.mp hnow
  obtain ⟨f, -, hf⟩ := List.mem_filterMap.mp hd'
  have hfits := Frame.fits_of_delivery? hf hnow
  rw [hsrc] at hfits
  cases signal with
  | view v => cases hfits
  | snapshot x =>
    refine ⟨x, ?_⟩
    rw [hand, hhand, Delivery.hand, if_pos hsrc, hnow]
    rfl

/-- The store begins to deliver a snapshot when nothing else is being delivered. -/
theorem Sound.deliveries_of_begins (hs : s.Sound) (hbegins : s.begins .store m ≠ []) :
    s.deliveries = [⟨.store, none⟩] := by
  have htick : m = .tick := by
    by_contra hm
    exact hbegins (begins_of_ne_tick s .store hm)
  subst htick
  rcases hdel : s.deliveries with _ | ⟨⟨src, now⟩, ds⟩
  · rw [begins, hdel] at hbegins
    exact absurd rfl hbegins
  cases now with
  | some now => exact absurd (begins_eq_nil hdel .store rfl) hbegins
  | none =>
    have hsrc : src = .store := by
      by_contra hne
      rw [begins, hdel] at hbegins
      exact hbegins (if_neg hne)
    subst hsrc
    -- under the delivery of the store there is no other one
    have hnest := hs.stacked.nested
    rw [sources, hdel] at hnest
    cases ds with
    | nil => rfl
    | cons d ds =>
      obtain ⟨⟨p, l, hp, -, -⟩, -⟩ := hnest
      cases hp

/-- In the store's own steps no code of a subscriber is on the stack. -/
theorem Sound.not_callback (hs : s.Sound) (hwait : s.isWaiting = false) (o : ObserverId) :
    .callback o ∉ s.stack := by
  obtain ⟨d, below, htop⟩ := delivers_of_not_isWaiting (by rw [hwait]; simp)
  exact (hs.driven htop).not_callback o

variable [DecidableEq V]

/-- The version of the snapshot that an observer is told of in a move: the one at hand, if the move
is a step of a delivery and tells somebody something. -/
def told? (s : Store S V H) (m : Move S V H) : Option Nat :=
  match m with
  | .tick =>
    if (s.step .tick).2.any Event.tells then (s.hand .store).head?.map Signal.version else none
  | _ => none

/-- A step of a delivery that tells an observer something has a signal at hand. -/
theorem Outcome.delivers_of_tells (ho : Outcome s .tick t es) (htells : es.any Event.tells = true) :
    ∃ d ds, s.deliveries = d :: ds ∧ d.now.isSome = true := by
  cases ho with
  | called hdel | kept hdel | accepted hdel => exact ⟨_, _, hdel, rfl⟩
  | quiet | took | passed | done | ended => cases htells

/-- **An observer is told of one snapshot, and no code of a subscriber is on the stack.** -/
theorem Orderly.told (hs : s.Orderly) (hm : s.allows .tick = true)
    (htells : (s.step .tick).2.any Event.tells = true) :
    (∀ o, .callback o ∉ s.stack) ∧
      ∃ x, s.hand .store = [.snapshot x] ∧ s.told? .tick = some x.version := by
  obtain ⟨d, ds, hdel, hd⟩ := (hs.toSound.outcome hm).delivers_of_tells htells
  obtain ⟨x, hx⟩ := hs.hand_store hdel hd
  refine ⟨hs.toSound.not_callback (by simpa [allows] using hm), x, hx, ?_⟩
  rw [told?, if_pos htells, hx]
  rfl

/-- A projection that takes a value has none queued, and begins to deliver it at once. -/
theorem Orderly.emitted (hs : s.Orderly) (ho : Outcome s m t es) {p : ProjectionId} {v : V}
    (hmem : .emitted p v ∈ es) :
    s.queue (.view p) = [] ∧ s.isPublishing (.view p) = false ∧ t.queue (.view p) = [.view v] ∧
      ∃ ds, t.deliveries = ⟨.view p, none⟩ :: ds := by
  cases ho with
  | @accepted src signal o rest r origin u w _ ds hdel hlink hsource _ _ _ _ _ _ _ _ hqueue _
      hdt =>
    have hp : p = r ∧ v = u := by simpa using hmem
    obtain ⟨rfl, rfl⟩ := hp
    have hnil : s.queue (.view p) = [] := hs.queue_view_of_ne hdel (by simp)
    -- a projection is not being emptied while its source tells it something
    have hnot : .view p ∉ s.sources := by
      have hnest := hs.stacked.nested
      rw [sources_cons hdel] at hnest ⊢
      exact hnest.not_mem_of_link hs.wired.older hlink hsource
    have hidle : s.isPublishing (.view p) = false :=
      Bool.eq_false_iff.mpr fun h => hnot ((hs.stacked.busy _).mp h)
    refine ⟨hnil, hidle, ?_, _, hdt⟩
    rw [hqueue, Function.update_self, hnil, List.nil_append]
  | created | kept | called | replayed | changed => simp at hmem
  | quiet | took | passed | done | ended => cases hmem

/-- Whatever is delivered from now on is of the version or a later one. -/
structure Behind (s : Store S V H) (k : Nat) : Prop where
  due : ∀ signal ∈ s.outstanding .store, k ≤ signal.version
  current : k ≤ s.current.version

/-- **Every possible move keeps the versions that are still to come.** -/
theorem Behind.step {k : Nat} (h : s.Behind k) (hs : s.Orderly) (ht : t.Sound)
    (ho : Outcome s m t es) : t.Behind k := by
  have hsuffix := (hs.outstanding_step ht ho .store).subset
  rcases ho.current with ⟨htaken, hc⟩ | ⟨htaken, hc⟩
  · rw [htaken, List.append_nil] at hsuffix
    exact ⟨fun signal hmem => h.due signal (hsuffix hmem), hc ▸ h.current⟩
  · have hle : k ≤ t.current.version := by
      rw [hc]
      exact h.current.trans (Nat.le_succ _)
    refine ⟨fun signal hmem => ?_, hle⟩
    rcases List.mem_append.mp (hsuffix hmem) with hold | hnew
    · exact h.due signal hold
    · rw [htaken, List.mem_singleton] at hnew
      rw [hnew]
      exact hle

theorem Behind.after {k : Nat} (h : s.Behind k) (hs : s.Orderly) {ms : List (Move S V H)}
    (hcalm : s.Calm ms) : (s.after ms).Behind k :=
  hs.induction Behind.step hcalm h

/-- A snapshot that an observer is told of is not older than what is still to come, and nothing
older is still to come. -/
theorem Orderly.behind_told (hs : s.Orderly) {k : Nat} (htold : s.told? m = some k) :
    s.Behind k ∧ ∀ {j}, s.Behind j → j ≤ k := by
  cases m with
  | change | observe | ret | panic | enter | leave => cases htold
  | tick =>
    rw [told?] at htold
    by_cases htells : (s.step .tick).2.any Event.tells = true
    · rw [if_pos htells] at htold
      obtain ⟨signal, hsignal, rfl⟩ := Option.map_eq_some_iff.mp htold
      obtain ⟨rest, hhand⟩ := List.head?_eq_some_iff.mp hsignal
      have hout : s.outstanding .store = signal :: (rest ++ s.queue .store) := by
        rw [outstanding, hhand, List.cons_append]
      have hmem : signal ∈ s.outstanding .store := by
        rw [hout]
        exact List.mem_cons_self ..
      -- outstanding snapshots are numbered in their order
      have hnumbered := hs.numbered
      rw [hout, List.pairwise_cons] at hnumbered
      refine ⟨⟨fun a ha => ?_, hs.current hmem⟩, fun h => h.due signal hmem⟩
      rw [hout] at ha
      rcases List.mem_cons.mp ha with rfl | ha
      · exact Nat.le_refl _
      · exact (hnumbered.1 a ha).le
    · rw [if_neg htells] at htold
      cases htold

/-- Observers are told of snapshots in the order of their versions. -/
theorem Orderly.told_le (hs : s.Orderly) {ms : List (Move S V H)} {m' : Move S V H} {j k : Nat}
    (hcalm : s.Calm (m :: ms)) (hj : s.told? m = some j)
    (hk : (s.after (m :: ms)).told? m' = some k) : j ≤ k :=
  ((hs.after hcalm).behind_told hk).2 ((hs.behind_told hj).1.after hs hcalm)

end Moves

/-! ## Projections -/

section Projections

variable [DecidableEq V] {s : Store S V H}

/-- **A new projection in the run that follows**: its selector is applied to the newest signal of
its source, and then to what its source begins to deliver while it lives; it takes the results that
differ from the one before. -/
theorem Orderly.evaluations_born (hs : s.Orderly) {a : Observation S V} {origin : Origin S V}
    {signal : Signal S V} {seed : V} {later : List (Move S V H)}
    (himage : origin.image? signal = some seed)
    (hstep : s.step (.observe a)
      = (s.addProjection origin seed, [.evaluated s.nextProjection signal seed]))
    (hcalm : s.Calm (.observe a :: later)) :
    let p := s.nextProjection
    let made := s.after [.observe a]
    ∃ results, evaluations p (s.events (.observe a :: later)) = (signal, seed) :: results ∧
      (∀ e ∈ (signal, seed) :: results, origin.image? e.1 = some e.2) ∧
      (∃ life rest, later = life ++ rest ∧ (made.after life).Living (.view p) ∧
        (∀ m ∈ rest.head?, ¬ (made.after (life ++ [m])).Living (.view p)) ∧
        results.map (·.1) ++ (made.after life).owed origin.source s.nextObserver
          = made.begun origin.source life) ∧
      taken (.view p) (s.events (.observe a :: later))
        = ((seed :: results.map (·.2)).destutter (· ≠ ·)).tail.map .view := by
  obtain ⟨hm, hcalm⟩ := hcalm
  intro p made
  have hmade : made = s.addProjection origin seed := congrArg Prod.fst hstep
  have hevents : (s.step (.observe a)).2 = [.evaluated p signal seed] := congrArg Prod.snd hstep
  have hms : made.Orderly := hs.step hm
  have hlink : made.link? p = some (origin, s.nextObserver) := by
    rw [hmade, link?_addProjection, if_pos rfl]
  have hvalue : made.value? p = some seed := by
    rw [hmade, value?_addProjection, if_pos rfl]
  -- nothing that is under way is for the new entry
  have howed : made.owed origin.source s.nextObserver = [] := by
    rw [hmade, owed_eq (deliveries_addProjection ..)]
    exact owed_eq_nil (hs.stacked.stranger_of_le (Nat.le_refl _)).2
  have hbirth : s.events (.observe a :: later) = .evaluated p signal seed :: made.events later := by
    rw [events_cons, hevents]
    rfl
  obtain ⟨himages, life, rest, hlater, hliving, hend, hsignals⟩ :=
    hms.evaluations_life hlink hcalm
  refine ⟨evaluations p (made.events later), ?_, ?_,
    ⟨life, rest, hlater, hliving, hend, by rw [hsignals, howed]; rfl⟩, ?_⟩
  · rw [hbirth, evaluations_self]
  · exact List.forall_mem_cons.mpr ⟨himage, himages⟩
  · rw [hbirth]
    exact hms.taken_evaluations hvalue hcalm

end Projections

/-! ## Lockstep -/

section Lockstep

variable [DecidableEq V]

/-- **Lockstep.** In every run without failures, from a new store on, with any updates by the
observers themselves:

- the selector of a projection, at any depth of a chain, is applied once when the projection is
  created, and from then on once to every signal that its source begins to deliver while the
  projection lives, but for one that had not got to it when it went or the run ended; a projection
  takes the results that differ from the one before, without the first, and delivers what it takes,
  before the code of any observer runs;
- whoever is told something in a step of a delivery is told of the snapshot at hand, when no code of
  a subscriber is on the stack any more;
- observers are told of snapshots in the order of their versions;
- the store begins to deliver a snapshot when nothing else is being delivered, no code of a
  subscriber is on the stack and no value of a projection is queued;
- a projection that takes a value delivers nothing at that time and has nothing queued, and it goes
  on to deliver the value. -/
theorem lockstep (initial : S) (ms : List (Move S V H))
    (hcalm : (opening initial : Store S V H).Calm ms) :
    let start : Store S V H := opening initial
    (∀ p, p < (start.after ms).nextProjection →
      ∃ before a later origin signal seed results,
        ms = before ++ .observe a :: later ∧ origin? a = some origin ∧
        (start.after before).nextProjection = p ∧
        (start.after before).newest? origin.source = some signal ∧
        evaluations p (start.events ms) = (signal, seed) :: results ∧
        (∀ e ∈ (signal, seed) :: results, origin.image? e.1 = some e.2) ∧
        (let made := start.after (before ++ [.observe a])
          ∃ life rest, later = life ++ rest ∧ (made.after life).Living (.view p) ∧
            (∀ m ∈ rest.head?, ¬ (made.after (life ++ [m])).Living (.view p)) ∧
            results.map (·.1)
                ++ (made.after life).owed origin.source (start.after before).nextObserver
              = made.begun origin.source life ∧
            ((∀ now, .publishing now ∉ (made.after life).stack) →
              (made.after life).owed origin.source (start.after before).nextObserver = [])) ∧
        taken (.view p) (start.events ms)
          = ((seed :: results.map (·.2)).destutter (· ≠ ·)).tail.map .view ∧
        taken (.view p) (start.events ms)
          = start.begun (.view p) ms ++ (start.after ms).queue (.view p) ∧
        ((start.after ms).isWaiting = true → (start.after ms).queue (.view p) = [])) ∧
    (∀ b c, ms = b ++ .tick :: c → ((start.after b).step .tick).2.any Event.tells = true →
      (∀ o, .callback o ∉ (start.after b).stack) ∧
        ∃ x, (start.after b).hand .store = [.snapshot x] ∧
          (start.after b).told? .tick = some x.version) ∧
    (∀ b m c m' d j k, ms = b ++ m :: (c ++ m' :: d) → (start.after b).told? m = some j →
      (start.after (b ++ m :: c)).told? m' = some k → j ≤ k) ∧
    (∀ b m c, ms = b ++ m :: c → (start.after b).begins .store m ≠ [] →
      (start.after b).deliveries = [⟨.store, none⟩] ∧
        (∀ o, .callback o ∉ (start.after b).stack) ∧
        ∀ p, (start.after b).queue (.view p) = []) ∧
    ∀ b m c p v, ms = b ++ m :: c → .emitted p v ∈ ((start.after b).step m).2 →
      (start.after b).queue (.view p) = [] ∧ (start.after b).isPublishing (.view p) = false ∧
        (start.after (b ++ [m])).queue (.view p) = [.view v] ∧
        ∃ ds, (start.after (b ++ [m])).deliveries = ⟨.view p, none⟩ :: ds := by
  intro start
  have hstart : start.Orderly := .opening initial
  refine ⟨fun p hp => ?_, fun b c hms htells => ?_, fun b m c m' d j k hms hj hk => ?_,
    fun b m c hms hbegins => ?_, fun b m c p v hms hmem => ?_⟩
  · obtain ⟨before, a, later, origin, signal, seed, rfl, hname, ha, hnewest, himage, hstep⟩ :=
      hstart.toSound.created hcalm (Nat.zero_le p) hp
    obtain ⟨hbefore, hlater⟩ := calm_append.mp hcalm
    have hs := hstart.after hbefore
    subst hname
    obtain ⟨results, hevaluations, himages, hsplits, htaken⟩ :=
      hs.evaluations_born himage hstep hlater
    obtain ⟨life, rest, hsplit, hliving, hend, hsignals⟩ := hsplits
    obtain ⟨hunevaluated, huntaken⟩ :=
      hstart.toSound.evaluations_unborn hbefore (Nat.le_refl (start.after before).nextProjection)
    have hmade := after_append start before [.observe a]
    have hlife : ((start.after (before ++ [.observe a])).after life).Orderly := by
      rw [hmade]
      rw [hsplit] at hlater
      exact (hs.step hlater.1).after (calm_append.mp hlater.2).1
    have hflow := hstart.flow hcalm (.view (start.after before).nextProjection)
    refine ⟨before, a, later, origin, signal, seed, results, rfl, ha, rfl, hnewest, ?_, himages,
      ⟨life, rest, hsplit, ?_, ?_, ?_, fun hnone => ?_⟩, ?_, ?_, fun hwait => ?_⟩
    · rw [events_append, evaluations_append, hunevaluated, hevaluations]
      rfl
    · rw [hmade]
      exact hliving
    · rw [hmade]
      exact hend
    · rw [hmade]
      exact hsignals
    · exact owed_of_deliveries_nil (hlife.toSound.deliveries_eq_nil hnone) _ _
    · rw [events_append, taken_append, huntaken, htaken]
      rfl
    · rw [← hflow, hstart.queue_of_deliveries_nil rfl]
      rfl
    · exact (hstart.after hcalm).queue_view hwait _
  · subst hms
    obtain ⟨hb, hm, -⟩ := calm_append.mp hcalm
    exact (hstart.after hb).told hm htells
  · subst hms
    obtain ⟨hb, hc⟩ := calm_append.mp hcalm
    rw [← List.cons_append] at hc
    rw [after_append] at hk
    exact (hstart.after hb).told_le (calm_append.mp hc).1 hj hk
  · subst hms
    obtain ⟨hb, hm, -⟩ := calm_append.mp hcalm
    have hs := hstart.after hb
    have hdel := hs.toSound.deliveries_of_begins hbegins
    have htick : m = .tick := by
      by_contra hne
      exact hbegins (begins_of_ne_tick _ _ hne)
    subst htick
    refine ⟨hdel, hs.toSound.not_callback (by simpa [allows] using hm), fun p => ?_⟩
    exact hs.queue_view_of_ne hdel (by simp)
  · subst hms
    obtain ⟨hb, hm, -⟩ := calm_append.mp hcalm
    rw [after_append]
    exact (hstart.after hb).emitted ((hstart.after hb).toSound.outcome hm) hmem

/-- A projection over another one is watched, and its subscriber updates the state twice while it is
called with the first value. -/
def chainedRun : List (Move Nat Nat Unit) :=
  [.observe (.project (· / 2)), .observe (.chain 0 (· + 5)), .observe (.watch 1), .ret,
    .change (.update (· + 2)), .tick, .tick, .tick, .tick, .tick, .tick, .change (.update (· + 1)),
    .change (.update (· + 1)), .ret, .tick, .tick, .tick, .tick, .tick, .tick, .tick, .tick, .tick,
    .tick, .tick, .tick, .tick, .tick, .ret, .tick, .tick, .tick, .tick, .tick, .tick]

/-- The lower projection drops one of the three results, and the upper one derives only from those
that are delivered. -/
theorem lockstep_chained :
    (opening 0 : Store Nat Nat Unit).Calm chainedRun ∧
      evaluations 0 ((opening 0 : Store Nat Nat Unit).events chainedRun)
        = [(.snapshot ⟨0, 0⟩, 0), (.snapshot ⟨1, 2⟩, 1), (.snapshot ⟨2, 3⟩, 1),
          (.snapshot ⟨3, 4⟩, 2)] ∧
      taken (.view 0) ((opening 0 : Store Nat Nat Unit).events chainedRun)
        = [.view 1, .view 2] ∧
      evaluations 1 ((opening 0 : Store Nat Nat Unit).events chainedRun)
        = [(.view 0, 5), (.view 1, 6), (.view 2, 7)] := by
  have hcalm : (opening 0 : Store Nat Nat Unit).Calm chainedRun := by decide +kernel
  have hlower : evaluations 0 ((opening 0 : Store Nat Nat Unit).events chainedRun)
      = [(.snapshot ⟨0, 0⟩, 0), (.snapshot ⟨1, 2⟩, 1), (.snapshot ⟨2, 3⟩, 1),
        (.snapshot ⟨3, 4⟩, 2)] := by rfl
  refine ⟨hcalm, hlower, ?_, by rfl⟩
  obtain ⟨_, _, _, _, signal, seed, results, -, -, -, -, hevaluations, -, -, htaken, -⟩ :=
    (lockstep 0 chainedRun hcalm).1 0 (by decide +kernel)
  rw [hlower] at hevaluations
  cases hevaluations
  exact htaken

end Lockstep

end Store

end LiveDesk.Observable
