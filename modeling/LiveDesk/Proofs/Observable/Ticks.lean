import LiveDesk.Proofs.Observable.Nesting

/-!
# The store's own steps

A step of a delivery looks the same for the store and for a projection. It takes the next signal
from the queue, passes an observer that is gone, tells one, is done with a signal, or ends.

- `Store.Ticked`: the cases.
- **`Store.tick_cases`**: the store's own step is one of them.
- `Store.Told`: what happens when one observer is told a signal.
- **`Store.tell_cases`**: with the observer lists and the stack in order, nobody is skipped.
-/

namespace LiveDesk.Observable

namespace Frame

variable {S V H : Type}

/-- A delivery of a projection refers to it, and to nothing else. -/
theorem keeps_iff_of_delivery? {f : Frame S V H} {d : Delivery S V} (h : f.delivery? = some d)
    (p : ProjectionId) : f.keeps p = true ↔ d.source = .view p := by
  cases f with
  | publishing now =>
    simp only [delivery?, Option.some.injEq] at h
    subst h
    simp [keeps]
  | emitting q now =>
    simp only [delivery?, Option.some.injEq] at h
    subst h
    simp [keeps]
  | callback | replay | code => simp [delivery?] at h

end Frame

namespace Store

variable {S V H : Type}

/-- Nothing changed but the stack, the queues and the flags. -/
structure SameState (s t : Store S V H) : Prop extends s.SameLists t where
  initial : t.initial = s.initial
  current : t.current = s.current
  value? : t.value? = s.value?

/-- The delivery lies on top of the given frames. -/
def Delivers (s : Store S V H) (d : Delivery S V) (below : List (Frame S V H)) : Prop :=
  ∃ f, f.delivery? = some d ∧ s.stack = f :: below

/-- What a step of the delivery on top comes to. -/
inductive Ticked [DecidableEq V] (s : Store S V H) (below : List (Frame S V H)) :
    Delivery S V → Store S V H → List (Event S V) → Prop where
  /-- The next signal is taken from the queue, for the observers of this moment. -/
  | took {src : Source} {signal : Signal S V} {later : List (Signal S V)} {t : Store S V H} :
    s.queue src = signal :: later → s.SameState t → t.isPublishing = s.isPublishing →
    t.queue = Function.update s.queue src later →
    t.Delivers ⟨src, some (signal, s.observersOf src)⟩ below → Ticked s below ⟨src, none⟩ t []
  /-- An observer that is gone is passed. -/
  | passed {src : Source} {signal : Signal S V} {o : Observer} {rest : List Observer}
    {t : Store S V H} :
    (∀ e ∈ s.observersOf src, e.id ≠ o.id) → s.SameState t →
    t.isPublishing = s.isPublishing → t.queue = s.queue →
    t.Delivers ⟨src, some (signal, rest)⟩ below →
    Ticked s below ⟨src, some (signal, o :: rest)⟩ t []
  /-- An observer is told. -/
  | told {src : Source} {signal : Signal S V} {o : Observer} {rest : List Observer}
    {t : Store S V H} :
    (∃ e ∈ s.observersOf src, e.id = o.id) → s.SameState t →
    t.isPublishing = s.isPublishing → t.queue = s.queue →
    t.Delivers ⟨src, some (signal, rest)⟩ below →
    Ticked s below ⟨src, some (signal, o :: rest)⟩ (t.tell o signal).1 (t.tell o signal).2
  /-- Every observer has been told the signal at hand. -/
  | done {src : Source} {signal : Signal S V} {t : Store S V H} :
    s.SameState t → t.isPublishing = s.isPublishing → t.queue = s.queue →
    t.Delivers ⟨src, none⟩ below → Ticked s below ⟨src, some (signal, [])⟩ t []
  /-- The queue is empty, and the delivery ends. -/
  | ended {src : Source} {t u : Store S V H} :
    s.queue src = [] → s.SameState t →
    (∀ x, t.isPublishing x = true ↔ x ≠ src ∧ s.isPublishing x = true) → t.queue = s.queue →
    t.stack = below → u = t ∨ u = t.sweep → Ticked s below ⟨src, none⟩ u []

/-! ## The elementary changes of a delivery -/

theorem sameState_stack (s : Store S V H) (st : List (Frame S V H)) :
    s.SameState { s with stack := st } where
  link? := rfl
  observersOf := rfl
  nextProjection := rfl
  nextObserver := rfl
  initial := rfl
  current := rfl
  value? := rfl

theorem SameState.trans {s t u : Store S V H} (h : s.SameState t) (h' : t.SameState u) :
    s.SameState u where
  toSameLists := h.toSameLists.trans h'.toSameLists
  initial := h'.initial.trans h.initial
  current := h'.current.trans h.current
  value? := h'.value?.trans h.value?

theorem SameState.stack {s t : Store S V H} (h : s.SameState t) (st : List (Frame S V H)) :
    s.SameState { t with stack := st } :=
  ⟨⟨h.link?, h.observersOf, h.nextProjection, h.nextObserver⟩, h.initial, h.current, h.value?⟩

/-- The store's channel may change except for its observers. -/
theorem sameState_channel (s : Store S V H) (c : Channel (Snapshot S))
    (h : c.observers = s.channel.observers) : s.SameState { s with channel := c } where
  link? := rfl
  observersOf := by
    funext src
    cases src with
    | store => exact h
    | view => rfl
  nextProjection := rfl
  nextObserver := rfl
  initial := rfl
  current := rfl
  value? := rfl

/-- A projection's channel may change except for its observers. -/
theorem sameState_modifyChannel (s : Store S V H) (p : ProjectionId) (f : Channel V → Channel V)
    (h : ∀ c, (f c).observers = c.observers) : s.SameState (s.modifyChannel p f) where
  link? := link?_modify s p _ (fun _ => rfl) (fun _ => rfl) fun _ => rfl
  observersOf := observersOf_modify s p _ (fun _ => rfl) fun q => h q.channel
  nextProjection := rfl
  nextObserver := rfl
  initial := rfl
  current := rfl
  value? := value?_modify s p _ (fun _ => rfl) fun _ => rfl

theorem queue_modifyChannel {s : Store S V H} {p : ProjectionId} {q : Projection S V}
    (hq : s.get? p = some q) (f : Channel V → Channel V) :
    (s.modifyChannel p f).queue
      = Function.update s.queue (.view p) ((f q.channel).pending.map .view) := by
  funext src
  cases src with
  | store => rfl
  | view r =>
    rw [queue, get?_modifyChannel, Function.update_apply]
    by_cases h : r = p
    · simp [h, hq]
    · simp [h, queue]

theorem isPublishing_modifyChannel {s : Store S V H} {p : ProjectionId} {q : Projection S V}
    (hq : s.get? p = some q) (f : Channel V → Channel V) :
    (s.modifyChannel p f).isPublishing
      = Function.update s.isPublishing (.view p) (f q.channel).publishing := by
  funext src
  cases src with
  | store => rfl
  | view r =>
    rw [isPublishing, get?_modifyChannel, Function.update_apply]
    by_cases h : r = p
    · simp [h, hq]
    · simp [h, isPublishing]

theorem contains_iff {α : Type} {c : Channel α} {id : ObserverId} :
    c.contains id = true ↔ ∃ e ∈ c.observers, e.id = id := by
  simp [Channel.contains]

/-- A step of the delivery of the store's snapshots. -/
theorem publishStep_cases [DecidableEq V] (s : Store S V H) (below : List (Frame S V H))
    (now : Option (Snapshot S × List Observer)) :
    Ticked s below ⟨.store, now.map fun (x, rest) => (.snapshot x, rest)⟩
      (s.publishStep below now).1 (s.publishStep below now).2 := by
  cases now with
  | none =>
    unfold publishStep
    dsimp only
    split
    · next x later hp =>
      have hqueue : s.queue .store = .snapshot x :: later.map .snapshot := by simp [queue, hp]
      have hsame := sameState_channel s { s.channel with pending := later } rfl
      refine .took hqueue (hsame.stack _) ?_ ?_ ⟨_, rfl, rfl⟩
      · funext src
        cases src <;> rfl
      · funext src
        cases src <;> rfl
    · next hp =>
      have hsame := sameState_channel s { s.channel with publishing := false } rfl
      refine .ended ?_ (hsame.stack below) ?_ ?_ rfl (Or.inl rfl)
      · simp [queue, hp]
      · intro src
        cases src <;> simp [isPublishing, get?]
      · funext src
        cases src <;> rfl
  | some now =>
    obtain ⟨x, rest⟩ := now
    cases rest with
    | nil => exact .done (sameState_stack s _) rfl rfl ⟨_, rfl, rfl⟩
    | cons o rest =>
      unfold publishStep
      dsimp only
      split
      · next h =>
        exact .told (contains_iff.mp h) (sameState_stack s _) rfl rfl ⟨_, rfl, rfl⟩
      · next h =>
        refine .passed (fun e he hid => h (contains_iff.mpr ⟨e, he, hid⟩)) (sameState_stack s _)
          rfl rfl ⟨_, rfl, rfl⟩

/-- A step of the delivery of a projection's values. -/
theorem emitStep_cases [DecidableEq V] (s : Store S V H) (below : List (Frame S V H))
    (p : ProjectionId) (now : Option (V × List Observer)) (halive : (s.link? p).isSome = true) :
    Ticked s below ⟨.view p, now.map fun (v, rest) => (.view v, rest)⟩
      (s.emitStep below p now).1 (s.emitStep below p now).2 := by
  obtain ⟨l, hl⟩ := Option.isSome_iff_exists.mp halive
  obtain ⟨q, hq, -, -⟩ := get?_of_link? hl
  have hobs : s.observersOf (.view p) = q.channel.observers := by simp [observersOf, hq]
  cases now with
  | none =>
    unfold emitStep
    dsimp only
    rw [hq]
    dsimp only
    split
    · next v later hp =>
      have hqueue : s.queue (.view p) = .view v :: later.map .view := by
        simp [queue, hq, hp]
      have hsame := sameState_modifyChannel s p (fun c => { c with pending := later }) fun _ => rfl
      refine .took hqueue (hsame.stack _) ?_ ?_ ⟨_, ?_, rfl⟩
      · exact isPublishing_modify s p _ (fun _ => rfl) fun _ => rfl
      · exact queue_modifyChannel hq fun c => { c with pending := later }
      · rw [hobs]
        rfl
    · next hp =>
      have hsame :=
        sameState_modifyChannel s p (fun c => { c with publishing := false }) fun _ => rfl
      refine .ended ?_ (hsame.stack below) ?_ ?_ rfl (Or.inr rfl)
      · simp [queue, hq, hp]
      · intro src
        have hb := congrFun
          (isPublishing_modifyChannel hq fun c => { c with publishing := false }) src
        refine (iff_of_eq (congrArg (· = true) hb)).trans ?_
        rw [Function.update_apply]
        by_cases h : src = .view p <;> simp [h]
      · exact queue_modify s p _ (fun _ => rfl) fun _ => rfl
  | some now =>
    obtain ⟨v, rest⟩ := now
    cases rest with
    | nil => exact .done (sameState_stack s _) rfl rfl ⟨_, rfl, rfl⟩
    | cons o rest =>
      unfold emitStep
      dsimp only
      have hin : (({ s with stack := .emitting p (some (v, rest)) :: below } :
          Store S V H).get? p).any (·.channel.contains o.id) = q.channel.contains o.id := by
        show (s.get? p).any (·.channel.contains o.id) = q.channel.contains o.id
        simp [hq]
      rw [hin]
      split
      · next h =>
        exact .told (hobs ▸ contains_iff.mp h) (sameState_stack s _) rfl rfl ⟨_, rfl, rfl⟩
      · next h =>
        refine .passed (fun e he hid => h (contains_iff.mpr ⟨e, hobs ▸ he, hid⟩))
          (sameState_stack s _) rfl rfl ⟨_, rfl, rfl⟩

/-- **The store's own step is one of the steps of a delivery.** -/
theorem tick_cases [DecidableEq V] {s : Store S V H} {d : Delivery S V}
    {below : List (Frame S V H)} (htop : s.Delivers d below)
    (halive : ∀ p, d.source = .view p → (s.link? p).isSome = true) :
    Ticked s below d s.tick.1 s.tick.2 := by
  obtain ⟨f, hf, hst⟩ := htop
  cases f with
  | publishing now =>
    simp only [Frame.delivery?, Option.some.injEq] at hf
    subst hf
    unfold tick
    rw [hst]
    exact publishStep_cases s below now
  | emitting p now =>
    simp only [Frame.delivery?, Option.some.injEq] at hf
    subst hf
    unfold tick
    rw [hst]
    exact emitStep_cases s below p now (halive p rfl)
  | callback | replay | code => simp [Frame.delivery?] at hf

/-! ## Telling one observer -/

/-- What it comes to that an observer of a source is told a signal. -/
inductive Told [DecidableEq V] (s : Store S V H) (src : Source) (o : Observer)
    (signal : Signal S V) : Store S V H → List (Event S V) → Prop where
  /-- A subscriber's code is called. -/
  | called {t : Store S V H} : o.target = .subscriber → s.SameState t →
    t.isPublishing = s.isPublishing → t.queue = s.queue → t.stack = .callback o.id :: s.stack →
    Told s src o signal t [.called o.id signal]
  /-- A projection derives the value that it has. -/
  | kept {p : ProjectionId} {origin : Origin S V} {v : V} : o.target = .projection p →
    s.link? p = some (origin, o.id) → origin.source = src → origin.image? signal = some v →
    s.value? p = some v → Told s src o signal s [.evaluated p signal v]
  /-- A projection derives another value, takes it and begins to deliver it. -/
  | took {p : ProjectionId} {origin : Origin S V} {v w : V} {t : Store S V H} :
    o.target = .projection p → s.link? p = some (origin, o.id) → origin.source = src →
    origin.image? signal = some v → s.value? p = some w → w ≠ v → s.SameLists t →
    t.initial = s.initial → t.current = s.current →
    t.value? = Function.update s.value? p (some v) →
    (∀ x, t.isPublishing x = true ↔ x = .view p ∨ s.isPublishing x = true) →
    t.queue = Function.update s.queue (.view p) (s.queue (.view p) ++ [.view v]) →
    t.stack = .emitting p none :: s.stack →
    Told s src o signal t [.evaluated p signal v, .emitted p v]

/-- A signal of the right kind has an image. -/
theorem image?_of_fits {origin : Origin S V} {signal : Signal S V}
    (h : signal.Fits origin.source) : ∃ v, origin.image? signal = some v := by
  cases origin with
  | store select =>
    cases signal with
    | snapshot x => exact ⟨select x.state, rfl⟩
    | view _ => exact h.elim
  | view _ select =>
    cases signal with
    | snapshot _ => exact h.elim
    | view v => exact ⟨select v, rfl⟩

/-- A subscriber is at work only above the deliveries, and a projection that is being emptied is not
reached again. -/
theorem Stacked.isRunning_eq_false {s : Store S V H} (h : s.Stacked)
    (holder : ∀ {p l r}, s.link? p = some l → l.1.source = .view r → r < p)
    {src : Source} {rest : List Source} (hsrc : s.sources = src :: rest)
    (hdriven : Driven s.stack) {o : Observer}
    (ho : ∀ p, o.target = .projection p → ∃ l, s.link? p = some l ∧ l.1.source = src) :
    s.isRunning o = false := by
  rw [isRunning, List.any_eq_false]
  intro f hf hrun
  have hnest := h.nested
  rw [hsrc] at hnest
  cases f with
  | callback id =>
    -- while a delivery is on top, no subscriber's code runs
    exact hdriven.not_callback id hf
  | emitting p now =>
    -- the projections that are being emptied are older than those that the innermost one reaches
    obtain ⟨l, hl, hlsrc⟩ := ho p (by simpa using hrun)
    refine hnest.not_mem_of_link holder hl hlsrc ?_
    rw [← hsrc]
    exact List.mem_map.mpr ⟨_, List.mem_filterMap.mpr ⟨_, hf, rfl⟩, rfl⟩
  | publishing | replay | code => cases hrun

/-- What it comes to that a projection accepts a value while its channel is at rest. -/
theorem accept_cases [DecidableEq V] {s : Store S V H} {p : ProjectionId} {q : Projection S V}
    (hq : s.get? p = some q) (hidle : s.isPublishing (.view p) = false) {v : V}
    (hne : q.value ≠ v) :
    let t := (s.accept q v).1
    (s.accept q v).2 = [.emitted p v] ∧ s.SameLists t ∧ t.initial = s.initial ∧
      t.current = s.current ∧ t.value? = Function.update s.value? p (some v) ∧
      (∀ x, t.isPublishing x = true ↔ x = .view p ∨ s.isPublishing x = true) ∧
      t.queue = Function.update s.queue (.view p) (s.queue (.view p) ++ [.view v]) ∧
      t.stack = .emitting p none :: s.stack := by
  have hid : q.id = p := get?_id hq
  have hpub : q.channel.publishing = false := by simpa [isPublishing, hq] using hidle
  unfold accept
  rw [if_neg hne]
  dsimp only
  rw [if_neg (by simp [hpub]), hid]
  -- how the projection is found afterwards; the reads below follow from it
  have hkeep := fun r => get?_modify s p r (fun q =>
    { q with value := v, channel := { q.channel.push v with publishing := true } })
    fun _ => rfl
  refine ⟨rfl, ⟨?_, ?_, rfl, rfl⟩, rfl, rfl, ?_, ?_, ?_, rfl⟩
  · exact link?_modify s p _ (fun _ => rfl) (fun _ => rfl) fun _ => rfl
  · exact observersOf_modify s p _ (fun _ => rfl) fun _ => rfl
  · funext r
    show ((s.modify p _).get? r).map (·.value) = _
    rw [hkeep, Function.update_apply]
    by_cases h : r = p
    · simp [h, hq]
    · simp [h, value?]
  · intro x
    cases x with
    | store => simp [isPublishing]
    | view r =>
      show (((s.modify p _).get? r).map (·.channel.publishing)).getD false = true ↔ _
      rw [hkeep, isPublishing]
      by_cases h : r = p
      · simp [h, hq]
      · simp [h]
  · funext x
    cases x with
    | store => rfl
    | view r =>
      show (((s.modify p _).get? r).map fun q => q.channel.pending.map Signal.view).getD [] = _
      rw [hkeep, Function.update_apply]
      by_cases h : r = p
      · simp [h, hq, queue, Channel.push]
      · simp [h, queue]

/-- **With the lists and the stack in order, nobody is skipped**: an observer in the list is told,
and a projection that is told has a value derived. -/
theorem tell_cases [DecidableEq V] {s : Store S V H} (hw : s.Wired) (h : s.Stacked)
    {src : Source} {rest : List Source} (hsrc : s.sources = src :: rest)
    (hdriven : Driven s.stack) {o : Observer} {signal : Signal S V} (hfits : signal.Fits src)
    (hmem : ∃ e ∈ s.observersOf src, e.id = o.id ∧ e.target = o.target) :
    s.isRunning o = false ∧ Told s src o signal (s.tell o signal).1 (s.tell o signal).2 := by
  obtain ⟨e, he, heid, hetarget⟩ := hmem
  -- an entry that leads to a projection is the entry of one that lives over this source
  have hlink : ∀ p, o.target = .projection p →
      ∃ origin, s.link? p = some (origin, o.id) ∧ origin.source = src := by
    intro p hp
    rw [← heid]
    exact hw.targeted he (hetarget.trans hp)
  have hrun : s.isRunning o = false := by
    refine h.isRunning_eq_false hw.older hsrc hdriven fun p hp => ?_
    obtain ⟨origin, hl, hos⟩ := hlink p hp
    exact ⟨_, hl, hos⟩
  refine ⟨hrun, ?_⟩
  unfold tell
  rw [hrun, if_neg Bool.false_ne_true]
  cases htarget : o.target with
  | subscriber => exact .called htarget (sameState_stack s _) rfl rfl rfl
  | projection p =>
    obtain ⟨origin, hl, hos⟩ := hlink p htarget
    obtain ⟨q, hq, hqo, -⟩ := get?_of_link? hl
    have hfits' : signal.Fits origin.source := hos ▸ hfits
    obtain ⟨v, hv⟩ := image?_of_fits hfits'
    have hvalue : s.value? p = some q.value := by simp [value?, hq]
    dsimp only at hqo ⊢
    rw [hq]
    dsimp only
    rw [hqo, hv]
    dsimp only
    by_cases heq : q.value = v
    · have haccept : s.accept q v = (s, []) := if_pos heq
      rw [haccept]
      exact .kept htarget hl hos hv (heq ▸ hvalue)
    · -- the projection is not being emptied, so it begins to deliver the value at once
      have hnest := h.nested
      rw [hsrc] at hnest
      have hidle : s.isPublishing (.view p) = false := by
        rw [Bool.eq_false_iff]
        intro hpub
        have hin := (h.busy _).mp hpub
        rw [hsrc] at hin
        exact hnest.not_mem_of_link hw.older hl hos hin
      obtain ⟨hev, hsame, hi, hc, hval, hbusy, hqueue, hstack⟩ := accept_cases hq hidle heq
      rw [hev]
      exact .took htarget hl hos hv hvalue heq hsame hi hc hval hbusy hqueue hstack

end Store

end LiveDesk.Observable
