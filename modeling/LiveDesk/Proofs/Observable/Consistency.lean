import LiveDesk.Proofs.Observable.Publication
import LiveDesk.Proofs.Observable.Selectors

/-!
# Consistency of the projections

A projection may be created, and may be told, while its source has newer signals in its queue, so in
the middle of a delivery its value can be an old one. When nothing is being delivered, every value
is what the selectors make of the current state.

- `Store.Composes`: the selectors of a chain, composed.
- `Store.UpToDate`: a projection has the value of what its source took last.
- `Store.CaughtUp`, `Store.Consistent`: a projection is up to date, unless its source still owes it
  something; all of them are.
- **`CaughtUp.step`**, **`Consistent.step`**: every possible move keeps it.
- **`Store.consistency`**: without a delivery under way, every projection has the value of the
  current state.
-/

namespace LiveDesk.Observable

namespace Store

variable {S V H : Type}

/-- A projection derives its values from the states by the selectors of its chain. -/
inductive Composes (s : Store S V H) : ProjectionId → (S → V) → Prop where
  | store {p : ProjectionId} {select : S → V} {o : ObserverId} :
    s.link? p = some (.store select, o) → Composes s p select
  | view {p source : ProjectionId} {select : V → V} {o : ObserverId} {f : S → V} :
    s.link? p = some (.view source select, o) → Composes s source f →
    Composes s p (select ∘ f)

/-- There is one way to derive the values of a projection. -/
theorem Composes.unique {s : Store S V H} {p : ProjectionId} {f g : S → V}
    (hf : s.Composes p f) (hg : s.Composes p g) : f = g := by
  induction hf generalizing g with
  | store hlink =>
    cases hg with
    | store hlink' =>
      rw [hlink] at hlink'
      cases hlink'
      rfl
    | view hlink' =>
      rw [hlink] at hlink'
      cases hlink'
  -- both are chained over the same source, whose values are derived in one way
  | view hlink _ ih =>
    cases hg with
    | store hlink' =>
      rw [hlink] at hlink'
      cases hlink'
    | view hlink' hg =>
      rw [hlink] at hlink'
      cases hlink'
      rw [ih hg]

/-- A projection has the value of what its source took last. -/
def UpToDate (s : Store S V H) (p : ProjectionId) (origin : Origin S V) : Prop :=
  ∃ signal, s.newest? origin.source = some signal ∧ origin.image? signal = s.value? p

/-- The projection is up to date, unless it is gone or its source owes it something. -/
def CaughtUp (s : Store S V H) (p : ProjectionId) : Prop :=
  ∀ origin o, s.link? p = some (origin, o) → s.queue origin.source = [] →
    s.owed origin.source o = [] → s.UpToDate p origin

/-- A projection to which its source owes nothing is up to date. -/
structure Consistent (s : Store S V H) : Prop where
  upToDate : ∀ {p origin o}, s.link? p = some (origin, o) → s.queue origin.source = [] →
    s.owed origin.source o = [] → s.UpToDate p origin

/-- What is being delivered while nothing is queued is what the source took last. -/
theorem Orderly.newest_of_hand {s : Store S V H} (h : s.Orderly) {src : Source}
    {signal : Signal S V} {rest : List Observer} {ds : List (Delivery S V)}
    (hdel : s.deliveries = ⟨src, some (signal, rest)⟩ :: ds) (hnil : s.queue src = []) :
    s.newest? src = some signal := by
  refine h.latest ?_
  rw [outstanding, hnil, List.append_nil, hand_cons hdel,
    Delivery.flatMap_hand_of_not_mem (h.not_mem_tail hdel)]
  simp [Delivery.hand]

/-- What is owed while nothing is queued is what the source took last. -/
theorem Orderly.newest_of_owed {s : Store S V H} (h : s.Orderly) {src : Source} {o : ObserverId}
    {signal : Signal S V} (howed : s.owed src o = [signal]) (hnil : s.queue src = []) :
    s.newest? src = some signal := by
  obtain ⟨others, hhand⟩ := h.owed_suffix_hand src o
  refine h.latest ?_
  rw [outstanding, hnil, List.append_nil, ← hhand, howed, List.getLast?_concat]

section Moves

variable {s t : Store S V H}

/-- A projection stays up to date while neither its value nor what it derives it from changes. -/
theorem UpToDate.congr {p : ProjectionId} {origin : Origin S V} (h : s.UpToDate p origin)
    (hvalue : t.value? p = s.value? p)
    (hnewest : t.newest? origin.source = s.newest? origin.source) : t.UpToDate p origin := by
  obtain ⟨signal, hsignal, himage⟩ := h
  exact ⟨signal, hnewest.trans hsignal, himage.trans hvalue.symm⟩

/-- A new projection has the value of what its source took last. -/
theorem upToDate_addProjection {origin : Origin S V} {signal : Signal S V} {v : V}
    (hnewest : s.newest? origin.source = some signal) (himage : origin.image? signal = some v)
    (ht : (s.addProjection origin v).Sound) :
    (s.addProjection origin v).UpToDate s.nextProjection origin := by
  have hlink : (s.addProjection origin v).link? s.nextProjection
      = some (origin, s.nextObserver) := by
    rw [link?_addProjection, if_pos rfl]
  refine ⟨signal, ?_, ?_⟩
  · cases hsrc : origin.source with
    | store =>
      rw [hsrc] at hnewest
      rw [← hnewest]
      cases origin <;> rfl
    | view r =>
      -- a projection is younger than its source
      have hr : r < s.nextProjection := ht.wired.older hlink hsrc
      rw [newest?, value?_addProjection, if_neg hr.ne, ← hnewest, hsrc, newest?]
  · rw [value?_addProjection, if_pos rfl, himage]

variable [DecidableEq V]

/-- **A projection that was there** stays up to date while it is not told and its source takes
nothing, and is up to date when it has been told. -/
theorem CaughtUp.keep {m : Move S V H} {es : List (Event S V)} {p : ProjectionId}
    {origin : Origin S V} {o : ObserverId} (h : s.CaughtUp p) (hs : s.Orderly) (ht : t.Sound)
    (ho : Outcome s m t es) (hold : s.link? p = some (origin, o))
    (hlink : t.link? p = some (origin, o)) (hqueue : t.queue origin.source = [])
    (howed : t.owed origin.source o = []) : t.UpToDate p origin := by
  -- nothing is queued, so what the source took has been delivered
  have hflow := hs.flow_step ht ho origin.source
  rw [hqueue, List.append_nil] at hflow
  have hnewest := ho.newest? hs.toSound ht (ht.living_source hlink) (hs.living_source hold)
  have hliving : t.Living (.view p) := by
    rw [Living, hlink]
    rfl
  cases ho.applies hs.toSound hold with
  | idle _ _ hvalue howed' =>
    rw [howed] at howed'
    obtain ⟨hnone, hbegins⟩ := List.append_eq_nil_iff.mp howed'.symm
    rw [hbegins] at hflow
    obtain ⟨hempty, htaken⟩ := List.append_eq_nil_iff.mp hflow
    rw [htaken] at hnewest
    obtain ⟨v, hv⟩ := hliving.value?
    exact (h origin o hold hempty hnone).congr (hv.trans (hvalue hv).symm) hnewest
  | applied _ himage _ hvalue _ _ hdue _ hbegins =>
    rw [hbegins] at hflow
    obtain ⟨hempty, htaken⟩ := List.append_eq_nil_iff.mp hflow
    rw [htaken] at hnewest
    exact ⟨_, hnewest.trans (hs.newest_of_owed hdue hempty), himage.trans hvalue.symm⟩

/-- **Every possible move keeps a projection that is up to date so, or its source owes it
something.** -/
theorem CaughtUp.step {m : Move S V H} {es : List (Event S V)} {p : ProjectionId}
    (h : s.CaughtUp p) (hs : s.Orderly) (ht : t.Sound) (ho : Outcome s m t es) :
    t.CaughtUp p := by
  intro origin o hlink hqueue howed
  by_cases hp : p < s.nextProjection
  · exact h.keep hs ht ho (ho.link? hlink hp) hlink hqueue howed
  · have hlt : s.nextProjection < t.nextProjection :=
      lt_of_le_of_lt (Nat.not_lt.mp hp) (ht.wired.named hlink)
    obtain ⟨a, origin', signal, v, -, -, hnewest, himage, rfl, -⟩ := ho.created_of_lt hlt
    have hname : p = s.nextProjection :=
      Nat.le_antisymm (Nat.lt_succ_iff.mp (ht.wired.named hlink)) (Nat.not_lt.mp hp)
    subst hname
    rw [link?_addProjection, if_pos rfl] at hlink
    cases hlink
    exact upToDate_addProjection hnewest himage ht

/-- **Every possible move keeps a store consistent.** -/
theorem Consistent.step {m : Move S V H} {es : List (Event S V)} (h : s.Consistent)
    (hs : s.Orderly) (ht : t.Sound) (ho : Outcome s m t es) : t.Consistent := by
  refine ⟨fun {p origin o} => ?_⟩
  have hp : s.CaughtUp p := fun _ _ => h.upToDate
  exact hp.step hs ht ho origin o

end Moves

/-! ## Runs -/

theorem Consistent.opening (initial : S) : (opening initial : Store S V H).Consistent := by
  refine ⟨fun hlink => ?_⟩
  simp [link?, get?, Store.opening] at hlink

theorem Consistent.after [DecidableEq V] {s : Store S V H} (h : s.Consistent) (hs : s.Orderly)
    {ms : List (Move S V H)} (hcalm : s.Calm ms) : (s.after ms).Consistent :=
  hs.induction Consistent.step hcalm h

/-- Without a delivery under way, whoever is up to date or is going to be told is up to date. -/
theorem CaughtUp.upToDate {s : Store S V H} {p : ProjectionId} (h : s.CaughtUp p)
    (hs : s.Orderly) (hnone : s.deliveries = []) {origin : Origin S V} {o : ObserverId}
    (hlink : s.link? p = some (origin, o)) : s.UpToDate p origin := by
  exact h origin o hlink (hs.queue_of_deliveries_nil hnone _) (owed_of_deliveries_nil hnone _ _)

/-- Without a delivery under way, a projection is up to date. -/
theorem Orderly.upToDate {s : Store S V H} (hs : s.Orderly) (h : s.Consistent)
    (hnone : s.deliveries = []) {p : ProjectionId} {origin : Origin S V} {o : ObserverId}
    (hlink : s.link? p = some (origin, o)) : s.UpToDate p origin :=
  CaughtUp.upToDate (fun _ _ => h.upToDate) hs hnone hlink

/-- Projections that are up to date down to the store have the value of the current state. -/
theorem value?_of_upToDate {s : Store S V H} (hs : s.Sound)
    (h : ∀ {p origin o}, s.link? p = some (origin, o) → s.UpToDate p origin)
    (p : ProjectionId) {l : Origin S V × ObserverId} (hlink : s.link? p = some l) :
    ∃ f, s.Composes p f ∧ s.value? p = some (f s.current.state) := by
  -- a projection is younger than its source
  induction p using Nat.strongRecOn generalizing l with
  | ind p ih =>
    obtain ⟨origin, o⟩ := l
    obtain ⟨signal, hnewest, himage⟩ := h hlink
    cases origin with
    | store select =>
      cases hnewest
      exact ⟨select, .store hlink, himage.symm⟩
    | view source select =>
      obtain ⟨l, hl⟩ := Option.isSome_iff_exists.mp (hs.living_source hlink)
      obtain ⟨f, hf, hvalue⟩ := ih source (hs.wired.older hlink rfl) hl
      have hsignal : signal = .view (f s.current.state) := by
        rw [Origin.source, newest?, hvalue] at hnewest
        exact (Option.some.inj hnewest).symm
      rw [hsignal] at himage
      exact ⟨select ∘ f, .view hlink hf, himage.symm⟩

end Store

end LiveDesk.Observable
