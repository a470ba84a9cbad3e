import LiveDesk.Proofs.Observable.Subscribers

/-!
# Publication of the snapshots

In every run without failures the state is what the changes make of it in their order, whoever makes
them, and the observers of a snapshot are called in the order of their registration.

- `changes`: the changes of a run, in their order.
- `calls`: who was called with which snapshot, in order.
- `Store.Sequenced`: the calls so far come before those that are still due.
- **`Sound.state`**, **`Sound.versions`**: what a run makes of the state, and the numbers of the
  snapshots.
- **`Sequenced.after`**: the calls of a run are in order.
- **`Sound.not_skipped`**: an observer that is reached is not at work.
-/

namespace LiveDesk.Observable

variable {S V H : Type}

/-- The changes of a run. -/
def changes (ms : List (Move S V H)) : List (Change S) :=
  ms.filterMap Move.change?

namespace Event

/-- The number of the snapshot that a subscriber is called with, and the subscriber. -/
def call? : Event S V → Option (Nat × ObserverId)
  | .called o (.snapshot x) => some (x.version, o)
  | .called _ (.view _) | .published _ | .evaluated _ _ _ | .emitted _ _ => none

end Event

/-- Who was called with which snapshot. -/
def calls (es : List (Event S V)) : List (Nat × ObserverId) :=
  es.filterMap Event.call?

/-- Snapshots come in their order, and the observers of one in the order of their registration. -/
def Before (a b : Nat × ObserverId) : Prop :=
  a.1 < b.1 ∨ a.1 = b.1 ∧ a.2 < b.2

namespace Store

/-! ## The state -/

section State

variable [DecidableEq V] {s : Store S V H}

/-- A move makes its change, and nothing else changes the state. -/
theorem Sound.state_step (hs : s.Sound) {m : Move S V H} (hm : s.allows m = true) :
    (s.step m).1.initial = s.initial ∧
      (s.step m).1.current = (m.change?.map s.following).getD s.current ∧
      taken .store (s.step m).2 = (m.change?.map fun c => .snapshot (s.following c)).toList := by
  have ho := hs.outcome hm
  generalize (s.step m).1 = t, (s.step m).2 = es at ho
  cases ho with
  | quiet _ hnone hq =>
    rw [hnone]
    exact ⟨hq.initial, hq.current, rfl⟩
  | changed _ hi hc => exact ⟨hi, hc, rfl⟩
  | @created a origin => cases origin <;> exact ⟨rfl, rfl, rfl⟩
  | accepted _ _ _ _ _ _ _ hi hc => exact ⟨hi, hc, rfl⟩
  | replayed _ hq | took _ _ hq | passed _ _ hq | called _ _ _ hq
  | kept _ _ _ _ _ hq | done _ hq | ended _ _ hq =>
    exact ⟨hq.initial, hq.current, rfl⟩

/-- The state is what the changes make of it, and their number is counted. -/
theorem Sound.state (hs : s.Sound) {ms : List (Move S V H)} (hcalm : s.Calm ms) :
    (s.after ms).current =
      { version := s.current.version + (changes ms).length
        state := (changes ms).foldl (fun x c => c.apply s.initial x) s.current.state } := by
  induction ms generalizing s with
  | nil => rfl
  | cons m ms ih =>
    obtain ⟨hm, hcalm⟩ := hcalm
    obtain ⟨hi, hc, -⟩ := hs.state_step hm
    rw [after_cons, ih (hs.step m) hcalm, hi, hc]
    cases hchange : m.change? with
    | none => simp [changes, hchange]
    | some c => simp [changes, hchange, following, Nat.add_assoc, Nat.add_comm 1]

/-- The snapshots that are published are numbered in their order. -/
theorem Sound.versions (hs : s.Sound) {ms : List (Move S V H)} (hcalm : s.Calm ms) :
    (taken .store (s.events ms)).map Signal.version
      = List.range' (s.current.version + 1) (changes ms).length := by
  induction ms generalizing s with
  | nil => rfl
  | cons m ms ih =>
    obtain ⟨hm, hcalm⟩ := hcalm
    obtain ⟨-, hc, htaken⟩ := hs.state_step hm
    rw [events_cons, taken_append, List.map_append, ih (hs.step m) hcalm, hc, htaken]
    cases hchange : m.change? with
    | none => simp [changes, hchange]
    | some c => simp [changes, hchange, following, Signal.version, List.range'_succ]

end State

/-! ## The order of the calls -/

/-- The calls so far come before those that are still due. -/
structure Sequenced (s : Store S V H) (l : List (Nat × ObserverId)) : Prop where
  sorted : l.Pairwise Before
  queued : ∀ {a}, a ∈ l → ∀ {signal}, signal ∈ s.queue .store → a.1 < signal.version
  current : ∀ {a}, a ∈ l → a.1 ≤ s.current.version
  due : ∀ {a}, a ∈ l → ∀ {d}, d ∈ s.deliveries → d.source = .store →
    ∀ {signal rest}, d.now = some (signal, rest) → ∀ {e}, e ∈ rest →
      Before a (signal.version, e.id)

section Calls

variable [DecidableEq V] {s t : Store S V H} {m : Move S V H} {es : List (Event S V)}

theorem Outcome.current_le (ho : Outcome s m t es) :
    s.current.version ≤ t.current.version := by
  rcases ho.current with ⟨-, hc⟩ | ⟨-, hc⟩
  · rw [hc]
  · rw [hc]
    exact Nat.le_succ _

/-- What was called before comes before what is due after a move. -/
theorem Sequenced.keep {l : List (Nat × ObserverId)} (h : s.Sequenced l) (hs : s.Orderly)
    (ht : t.Sound) (ho : Outcome s m t es) : t.Sequenced l where
  sorted := h.sorted
  queued {a} ha {signal} hsignal := by
    have hflow := hs.flow_step ht ho .store
    have hmem : signal ∈ s.queue .store ++ taken .store es := by
      rw [hflow]
      exact List.mem_append_right _ hsignal
    rcases List.mem_append.mp hmem with hmem | hmem
    · exact h.queued ha hmem
    · rcases ho.current with ⟨hnil, -⟩ | ⟨htaken, hc⟩
      · rw [hnil] at hmem
        cases hmem
      · rw [htaken, List.mem_singleton] at hmem
        rw [hmem]
        show a.1 < t.current.version
        rw [hc]
        exact Nat.lt_succ_of_le (h.current ha)
  current ha := (h.current ha).trans ho.current_le
  due {a} ha {d} hd hsrc {signal rest} hnow {e} he := by
    -- an observer that is due was so before, or the delivery of a queued snapshot has begun
    rcases ho.due hd hnow he with ⟨d', hd', hsrc', rest', hnow', he'⟩ | ⟨-, hq⟩
    · exact h.due ha hd' (hsrc'.trans hsrc) hnow' he'
    · rw [hsrc] at hq
      exact Or.inl (h.queued ha hq)

/-- A move calls nobody with a snapshot, or the next observer of the snapshot at hand. -/
theorem Outcome.calls (ho : Outcome s m t es) : calls es = [] ∨
    ∃ x o rest ds, s.deliveries = ⟨.store, some (.snapshot x, o :: rest)⟩ :: ds ∧
      t.deliveries = ⟨.store, some (.snapshot x, rest)⟩ :: ds ∧ t.queue = s.queue ∧
      t.current = s.current ∧ calls es = [(x.version, o.id)] := by
  cases ho with
  | @called src signal o rest _ ds hdel _ hfits hq hqueue hdt =>
    cases signal with
    | view v => exact Or.inl rfl
    | snapshot x =>
      cases src with
      | view p => exact hfits.elim
      | store => exact Or.inr ⟨x, o, rest, ds, hdel, hdt, hqueue, hq.current, rfl⟩
  | quiet | replayed | changed | created | took | passed | kept | accepted | done | ended =>
    exact Or.inl rfl

/-- The calls of a move come next. -/
theorem Sequenced.step {l : List (Nat × ObserverId)} (h : s.Sequenced l) (hs : s.Orderly)
    (ht : t.Sound) (ho : Outcome s m t es) : t.Sequenced (l ++ calls es) := by
  have hkeep := h.keep hs ht ho
  rcases ho.calls with hnil | ⟨x, o, rest, ds, hdel, hdt, hqueue, hc, hcalls⟩
  · rw [hnil, List.append_nil]
    exact hkeep
  have hmem : ⟨.store, some (.snapshot x, o :: rest)⟩ ∈ s.deliveries := hdel ▸ List.mem_cons_self ..
  have hhand : Signal.snapshot x ∈ s.hand .store := by
    rw [hand_cons hdel]
    exact List.mem_cons_self ..
  rw [hcalls]
  refine ⟨?_, ?_, ?_, ?_⟩
  · refine List.pairwise_append.mpr ⟨h.sorted, List.pairwise_singleton _ _, ?_⟩
    intro a ha b hb
    -- the observer that is called was due
    rw [List.mem_singleton.mp hb]
    exact h.due ha hmem rfl rfl (List.mem_cons_self ..)
  · intro a ha signal hsignal
    rcases List.mem_append.mp ha with ha | ha
    · exact hkeep.queued ha hsignal
    · rw [List.mem_singleton.mp ha]
      rw [hqueue] at hsignal
      exact (List.pairwise_append.mp hs.numbered).2.2 _ hhand _ hsignal
  · intro a ha
    rcases List.mem_append.mp ha with ha | ha
    · exact hkeep.current ha
    · rw [List.mem_singleton.mp ha, hc]
      exact hs.current (List.mem_append_left _ hhand)
  · intro a ha d hd hsrc signal rest' hnow e he
    rcases List.mem_append.mp ha with ha | ha
    · exact hkeep.due ha hd hsrc hnow he
    · rw [List.mem_singleton.mp ha]
      rw [hdt] at hd
      rcases List.mem_cons.mp hd with rfl | hd
      · cases hnow
        have hordered := (hs.stacked.telling hmem rfl).ordered rfl
        exact Or.inr ⟨rfl, List.rel_of_pairwise_cons hordered he⟩
      · -- the snapshots are being delivered once
        exact absurd (List.mem_map.mpr ⟨d, hd, hsrc⟩) (hs.not_mem_tail hdel)

/-- The calls of a run are in order. -/
theorem Sequenced.after {s : Store S V H} {l : List (Nat × ObserverId)} (h : s.Sequenced l)
    (hs : s.Orderly) {ms : List (Move S V H)} (hcalm : s.Calm ms) :
    (s.after ms).Sequenced (l ++ Observable.calls (s.events ms)) := by
  induction ms generalizing s l with
  | nil =>
    show s.Sequenced (l ++ [])
    rw [List.append_nil]
    exact h
  | cons m ms ih =>
    obtain ⟨hm, hcalm⟩ := hcalm
    have := ih (h.step hs (hs.toSound.step m) (hs.toSound.outcome hm)) (hs.step hm) hcalm
    rw [List.append_assoc] at this
    rw [events_cons, Observable.calls, List.filterMap_append]
    exact this

end Calls

/-! ## Publication -/

section Publication

/-- The next observer of a delivery is not at work: its code is on the stack only above the
deliveries, and a projection that is being emptied does not observe what is delivered above it. -/
theorem Sound.not_skipped {s : Store S V H} (h : s.Sound) {src : Source} {signal : Signal S V}
    {o : Observer} {rest : List Observer} {below : List (Frame S V H)}
    (htop : s.Delivers ⟨src, some (signal, o :: rest)⟩ below)
    (hin : ∃ e ∈ s.observersOf src, e.id = o.id) : s.isRunning o = false := by
  obtain ⟨e, he, hid⟩ := hin
  have hmem : ⟨src, some (signal, o :: rest)⟩ ∈ s.deliveries := by
    rw [Sound.deliveries_of_delivers htop]
    exact List.mem_cons_self ..
  have htarget := (h.stacked.telling hmem rfl).same (List.mem_cons_self ..) he hid
  refine h.stacked.isRunning_eq_false h.wired.older (Sound.sources_of_delivers htop)
    (h.driven htop) fun p hp => ?_
  obtain ⟨origin, hlink, hsource⟩ := h.wired.targeted he (htarget.trans hp)
  exact ⟨_, hlink, hsource⟩

/-- When no delivery of snapshots is under way, none waits, and the channel is not marked. -/
theorem Orderly.idle_channel {s : Store S V H} (hs : s.Orderly)
    (hnone : ∀ now, .publishing now ∉ s.stack) :
    s.channel.pending = [] ∧ s.channel.publishing = false := by
  have hsrc : Source.store ∉ s.sources := by
    rw [store_mem_sources]
    rintro ⟨now, hf⟩
    exact hnone now hf
  refine ⟨List.map_eq_nil_iff.mp (hs.idle hsrc), Bool.eq_false_iff.mpr fun hpub => ?_⟩
  exact hsrc ((hs.stacked.busy .store).mp hpub)

/-- An observer of the store that is reached is not at work. -/
theorem Sound.reached_store {s : Store S V H} (hs : s.Sound) {x : Snapshot S} {o : Observer}
    {rest : List Observer} {below : List (Frame S V H)}
    (hst : s.stack = .publishing (some (x, o :: rest)) :: below)
    (hin : s.channel.contains o.id = true) :
    ({ s with stack := .publishing (some (x, rest)) :: below } : Store S V H).isRunning o
      = false := by
  have htop : s.Delivers ⟨.store, some (.snapshot x, o :: rest)⟩ below := ⟨_, rfl, hst⟩
  have hrun := hs.not_skipped htop (contains_iff.mp hin)
  rw [isRunning, hst] at hrun
  exact hrun

/-- An observer of a projection that is reached is not at work. -/
theorem Sound.reached_view {s : Store S V H} (hs : s.Sound) {p : ProjectionId} {v : V}
    {o : Observer} {rest : List Observer} {below : List (Frame S V H)}
    (hst : s.stack = .emitting p (some (v, o :: rest)) :: below)
    (hin : (s.get? p).any (·.channel.contains o.id) = true) :
    ({ s with stack := .emitting p (some (v, rest)) :: below } : Store S V H).isRunning o
      = false := by
  have htop : s.Delivers ⟨.view p, some (.view v, o :: rest)⟩ below := ⟨_, rfl, hst⟩
  have hmem : ∃ e ∈ s.observersOf (.view p), e.id = o.id := by
    cases hq : s.get? p with
    | none =>
      rw [hq] at hin
      cases hin
    | some q =>
      rw [hq] at hin
      rw [observersOf, hq]
      exact contains_iff.mp hin
  have hrun := hs.not_skipped htop hmem
  rw [isRunning, hst] at hrun
  exact hrun

variable [DecidableEq V]

/-- What is taken is in the order of the versions. -/
theorem Sound.taken_sorted {s : Store S V H} (hs : s.Sound) {ms : List (Move S V H)}
    (hcalm : s.Calm ms) :
    (taken .store (s.events ms)).Pairwise fun x y => x.version < y.version := by
  have := hs.versions hcalm
  rw [← List.pairwise_map (f := Signal.version) (R := fun a b => a < b), this]
  exact List.pairwise_lt_range'

end Publication

end Store

end LiveDesk.Observable
