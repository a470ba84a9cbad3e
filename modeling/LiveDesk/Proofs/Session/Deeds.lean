import LiveDesk.Proofs.Session.Lives

/-!
# What is done to a session

The flags aside, three things change the state of a session: methods that edit it, calls that are
asked for, and successful answers to calls in flight. They can be read off the moves. Calls that
fail or are given up, deliveries, and code that fails do nothing but to the flags.

- `Deed`: an edit, a call that is asked for, or a successful answer; `Deed.apply`: what it makes of
  the state.
- `Session.deeds`: the deeds of a run, read off its moves.
- `Aspect`: a part of the state that the flags do not show in.
- `Aspect.step`, `Aspect.resolve`: what a move, and an answer by itself, make of it.
- **`Aspect.after`**: after a run it is what the deeds make of it, in their order.
- **`Session.asked_of_sent`**: every request that is sent was asked for, and carries what its call
  was admitted with at that moment.
- `Session.sent_notMem_of_declined`: for a call that is declined none is.
-/

namespace LiveDesk

open Observable

variable {F : Feature} {V : Type}

/-- What changes the state of a session beside its flags. -/
inductive Deed (F : Feature) where
  /-- A method that edits the state at once is called. -/
  | edited (e : F.Edit)
  /-- A call is asked for. -/
  | asked (a : F.Ask)
  /-- A call in flight is answered with success. -/
  | replied (c : F.Call) (payload : F.Payload)

/-- What a deed makes of the state, the flags aside. -/
def Deed.apply (initial x : F.State) : Deed F → F.State
  | .edited e => ((F.edit e x).map fun p => p.change.apply initial x).getD x
  | .asked a =>
    match F.accept a x with
    | .proceed c => ((F.prelude c x).map fun p => p.change.apply initial x).getD x
    | .refuse _ | .done _ => x
  | .replied c payload =>
    match F.settle c payload x with
    | some (.store f _ _ _ _) => f x
    | some (.stale _ _) | none => x

section Apply

variable {initial x : F.State}

theorem Deed.apply_refuse {a : F.Ask} {r : F.Refusal} (h : F.accept a x = .refuse r) :
    (Deed.asked a).apply initial x = x := by
  rw [Deed.apply, h]

theorem Deed.apply_done {a : F.Ask} {value : F.Value} (h : F.accept a x = .done value) :
    (Deed.asked a).apply initial x = x := by
  rw [Deed.apply, h]

theorem Deed.apply_proceed {a : F.Ask} {c : F.Call} (h : F.accept a x = .proceed c) :
    (Deed.asked a).apply initial x
      = ((F.prelude c x).map fun p => p.change.apply initial x).getD x := by
  rw [Deed.apply, h]

theorem Deed.apply_store {c : F.Call} {payload : F.Payload} {f : F.State → F.State}
    {label : String} {entry : Option LogEntry} {notice : Option Notice} {value : F.Value}
    (h : F.settle c payload x = some (.store f label entry notice value)) :
    (Deed.replied c payload).apply initial x = f x := by
  rw [Deed.apply, h]

theorem Deed.apply_stale {c : F.Call} {payload : F.Payload} {entry : LogEntry} {value : F.Value}
    (h : F.settle c payload x = some (.stale entry value)) :
    (Deed.replied c payload).apply initial x = x := by
  rw [Deed.apply, h]

end Apply

/-- A part of the state that the flags do not show in, with what a deed makes of it. -/
structure Aspect (F : Feature) (initial : F.State) (α : Type) where
  read : F.State → α
  note : α → Deed F → α
  raise : ∀ c x, read ((F.flag c).raise x) = read x
  lower : ∀ c x, read ((F.flag c).lower x) = read x
  apply : ∀ d x, read (d.apply initial x) = note (read x) d

namespace Session

/-- What a move of the caller's code does, the flags aside. -/
def freeDeed? (s : Session F V) : Move F V → Option (Deed F)
  | .edit e => some (.edited e)
  | .ask a => some (.asked a)
  | .resolve id (.ok payload) => (s.call? id).map fun c => .replied c payload
  | .resolve _ (.error _) | .tick | .publish _ | .cancel _ | .observe _ | .ret | .panic => none

/-- What a move does, the flags aside. -/
def deed? (s : Session F V) (m : Move F V) : Option (Deed F) :=
  if s.isFree then s.freeDeed? m else none

/-- What the moves of a run do, the flags aside. -/
def deeds [DecidableEq V] (s : Session F V) : List (Move F V) → List (Deed F)
  | [] => []
  | m :: ms => (s.deed? m).toList ++ (s.step m).1.deeds ms

/-- Moves of the caller's code; after each the library goes on until the code has control again. -/
def paced (ms : List (Move F V)) : List (Move F V) :=
  ms.flatMap fun m => m :: List.replicate 4 .tick

/-- What happens in a run. -/
def events [DecidableEq V] (s : Session F V) (ms : List (Move F V)) : List (Event F V) :=
  (s.run ms).2

/-- An answer that does something is a move of the run. -/
theorem resolve_of_replied_mem [DecidableEq V] {s : Session F V} {ms : List (Move F V)} {c : F.Call}
    {payload : F.Payload} (h : .replied c payload ∈ s.deeds ms) :
    ∃ id, .resolve id (.ok payload) ∈ ms := by
  induction ms generalizing s with
  | nil => cases h
  | cons m ms ih =>
    rcases List.mem_append.mp h with h | h
    · rw [Option.mem_toList, deed?] at h
      split at h
      · cases m with
        | edit | ask | tick | publish | cancel | observe | ret | panic => cases h
        | resolve id reply =>
          cases reply with
          | error => cases h
          | ok answer =>
            obtain ⟨c', -, hreplied⟩ := Option.map_eq_some_iff.mp h
            cases hreplied
            exact ⟨id, List.mem_cons_self⟩
      · cases h
    · obtain ⟨id, hid⟩ := ih h
      exact ⟨id, List.mem_cons_of_mem _ hid⟩

end Session

open Session

/-! ## An aspect of the state -/

namespace Aspect

variable {initial : F.State} {α : Type} (g : Aspect F initial α)

/-- A method that goes on changes at most a flag. -/
theorem stage (stage : Stage F) (x : F.State) :
    g.read (stage.turn.apply initial x) = g.read x := by
  cases stage with
  | raising id c => exact g.raise c x
  | sending | closing | leaving => rfl

/-- An answer stores what the deed says, and lowers a flag. -/
theorem answer (id : CallId) (c : F.Call) (payload : F.Payload) (x : F.State) :
    g.read ((answerTurn id c x (.ok payload)).apply initial x)
      = g.note (g.read x) (.replied c payload) := by
  rw [← g.apply, answerTurn, Deed.apply]
  cases F.settle c payload x with
  | none => rfl
  | some settlement =>
    cases settlement with
    | stale => exact g.lower c x
    | store f => exact g.lower c (f x)

/-- Asking for a call publishes what the deed says, and may raise a flag. -/
theorem ask (id : CallId) (a : F.Ask) (x : F.State) :
    g.read ((askTurn id a x).apply initial x) = g.note (g.read x) (.asked a) := by
  rw [← g.apply, askTurn, Deed.apply]
  cases F.accept a x with
  | refuse | done => rfl
  | proceed c =>
    dsimp only
    cases F.prelude c x with
    | none => exact g.raise c x
    | some p => rfl

theorem edit (e : F.Edit) (x : F.State) :
    g.read ((((F.edit e x).map (Turn.edited e)).getD .idle).apply initial x)
      = g.note (g.read x) (.edited e) := by
  rw [← g.apply, Deed.apply]
  cases F.edit e x <;> rfl

/-- A call in flight that is answered, whether the caller's code has control or not. -/
theorem resolve {s : Session F V} (hinitial : s.store.initial = initial) {id : CallId} {c : F.Call}
    (hcall : s.call? id = some c) :
    (∀ f, g.read (s.resolve id (.error f)).1.state = g.read s.state) ∧
      ∀ payload, g.read (s.resolve id (.ok payload)).1.state
        = g.note (g.read s.state) (.replied c payload) := by
  have hstate : ∀ reply, (s.resolve id reply).1.state
      = (answerTurn id c s.state reply).apply initial s.state := by
    intro reply
    have hcourse := s.course_resolve id reply
    rw [hcall] at hcourse
    exact hinitial ▸ hcourse.state.2
  refine ⟨fun f => ?_, fun payload => ?_⟩
  · rw [hstate]
    exact g.lower c s.state
  · rw [hstate]
    exact g.answer id c payload s.state

variable [DecidableEq V] {s : Session F V}

/-- Every move makes of an aspect what its deed says. -/
theorem step (hinitial : s.store.initial = initial) {m : Move F V}
    (hown : ∀ p, m ≠ .publish p) :
    g.read (s.step m).1.state = (s.deed? m).toList.foldl g.note (g.read s.state) := by
  have hstate : (s.step m).1.state = (s.turn m).apply initial s.state :=
    hinitial ▸ (s.course m).state.2
  rw [hstate]
  by_cases hfree : s.isFree = true
  · rw [turn_of_isFree hfree, show s.deed? m = s.freeDeed? m from if_pos hfree]
    cases m with
    | tick | observe | ret | panic => rfl
    | publish p => exact absurd rfl (hown p)
    | edit e => exact g.edit e s.state
    | ask a => exact g.ask s.nextCall a s.state
    | cancel id =>
      rw [freeTurn]
      cases s.call? id with
      | none => rfl
      | some c => exact g.lower c s.state
    | resolve id reply =>
      cases reply with
      | error =>
        rw [freeTurn]
        cases s.call? id with
        | none => rfl
        | some c => exact g.lower c s.state
      | ok payload =>
        rw [freeTurn, freeDeed?]
        cases s.call? id with
        | none => rfl
        | some c => exact g.answer id c payload s.state
  · -- only a method of the session itself can go on
    rw [show s.deed? m = none from if_neg hfree]
    unfold turn
    rw [if_neg hfree]
    split
    · exact g.stage _ s.state
    · rfl

/-- **After a run an aspect of the state is what the deeds make of it.** -/
theorem after (hinitial : s.store.initial = initial) {ms : List (Move F V)}
    (hown : ∀ m ∈ ms, ∀ p, m ≠ .publish p) :
    g.read (s.after ms).state = (s.deeds ms).foldl g.note (g.read s.state) := by
  induction ms generalizing s with
  | nil => rfl
  | cons m ms ih =>
    obtain ⟨hm, hms⟩ := List.forall_mem_cons.mp hown
    have hinitial' : (s.step m).1.store.initial = initial := (s.course m).state.1.trans hinitial
    rw [after_cons, ih hinitial' hms, g.step hinitial hm, deeds, List.foldl_append]

/-- A call that fails or is given up leaves an aspect as it is. -/
theorem unanswered (hinitial : s.store.initial = initial) (id : CallId) :
    (∀ f, g.read (s.step (.resolve id (.error f))).1.state = g.read s.state) ∧
      g.read (s.step (.cancel id)).1.state = g.read s.state := by
  have hnone : ∀ {m : Move F V}, s.freeDeed? m = none → s.deed? m = none := fun h =>
    (congrArg (fun d => if s.isFree then d else none) h).trans (ite_self none)
  refine ⟨fun f => ?_, ?_⟩
  · rw [g.step hinitial (by simp), hnone rfl]
    rfl
  · rw [g.step hinitial (by simp), hnone rfl]
    rfl

end Aspect

/-! ## Requests -/

namespace Session

/-- What the caller's code does sends no request. -/
theorem sent_notMem_perform {id : CallId} (s : Session F V) (m : Move F V) (r : F.Request) :
    .sent id r ∉ (s.perform m).2 := by
  have hpublish : ∀ (s : Session F V) p, .sent id r ∉ (s.publish p).2 := by
    simp [publish]
  have hlogged : ∀ entry, (.sent id r : Event F V) ∉ logged entry := by
    simp [logged]
  -- a request is sent by the code of a method that goes on, and by nothing else
  have hraise : ∀ (s : Session F V) i c, .sent id r ∉ (s.raise i c).2 := by
    intro s i c
    rw [raise, List.mem_append, not_or]
    exact ⟨hlogged _, hpublish _ _⟩
  cases m with
  | tick | ret | panic => exact List.not_mem_nil
  | publish p => exact hpublish s p
  | observe a => simp [perform]
  | edit e =>
    unfold perform edit
    dsimp only
    split
    · exact List.not_mem_nil
    · exact hpublish s _
  | ask a =>
    unfold perform ask
    dsimp only
    split
    · simp
    · simp
    · split
      · exact hpublish _ _
      · exact hraise _ _ _
  | cancel i =>
    unfold perform cancel
    dsimp only
    split
    · exact List.not_mem_nil
    · exact hpublish _ _
  | resolve i reply =>
    unfold perform resolve
    dsimp only
    split
    · exact List.not_mem_nil
    · split
      · rw [List.mem_append, not_or]
        exact ⟨hlogged _, hpublish _ _⟩
      · split
        · exact List.not_mem_nil
        · exact hpublish _ _
        · exact hpublish _ _

variable [DecidableEq V] {s : Session F V} {m : Move F V} {ms : List (Move F V)} {id : CallId}

/-- What happens in a run happens in one of its steps. -/
theorem mem_events {e : Event F V} (h : e ∈ s.events ms) :
    ∃ a m b, ms = a ++ m :: b ∧ e ∈ ((s.after a).step m).2 := by
  induction ms generalizing s with
  | nil => cases h
  | cons m ms ih =>
    have hsplit : s.events (m :: ms) = (s.step m).2 ++ (s.step m).1.events ms := rfl
    rw [hsplit] at h
    rcases List.mem_append.mp h with h | h
    · exact ⟨[], m, ms, rfl, h⟩
    · obtain ⟨a, m', b, rfl, he⟩ := ih h
      exact ⟨m :: a, m', b, rfl, he⟩

/-- A request is sent only when a method goes on to do so. -/
theorem turn_of_sent {r : F.Request} (h : .sent id r ∈ (s.step m).2) :
    ∃ c, s.turn m = .sent id c ∧ r = F.request c := by
  by_cases hfree : s.isFree = true
  · rw [show s.step m = s.perform m from if_pos hfree] at h
    exact absurd h (sent_notMem_perform s m r)
  cases m with
  | edit | publish | ask | resolve | cancel | observe | ret | panic =>
    unfold step at h
    rw [if_neg hfree] at h
    cases h
  | tick =>
    rw [show s.step .tick = s.tick from if_neg hfree] at h
    unfold tick at h
    unfold turn
    rw [if_neg hfree]
    cases hst : s.store.stack with
    | nil => simp [hst] at h
    | cons f below =>
      cases f with
      | publishing | emitting | callback | replay => simp [hst] at h
      | code stage =>
        simp only [hst] at h
        cases stage with
        | raising i c => simp [resume, raise, publish, logged] at h
        | closing | leaving => simp [resume, logged] at h
        | sending i c =>
          obtain ⟨rfl, rfl⟩ : id = i ∧ r = F.request c := by simpa [resume] using h
          exact ⟨c, rfl, rfl⟩

/-- A request that is sent is all that happens in its step. -/
theorem events_of_sent {c : F.Call} (h : s.turn m = .sent id c) :
    (s.step m).2 = [.sent id (F.request c)] := by
  -- a method goes on when the caller does not have control
  have hfree : ¬ s.isFree = true := by
    intro hfree
    have hcause := s.cause m
    rw [h] at hcause
    cases hcause
    rw [turn_of_isFree hfree] at h
    cases h
  unfold turn at h
  rw [if_neg hfree] at h
  split at h
  · next stage below hst =>
    rw [show s.step .tick = s.tick from if_neg hfree]
    unfold tick
    rw [hst]
    cases stage with
    | raising | closing | leaving => cases h
    | sending i c' =>
      cases h
      rfl
  · cases h

/-- A call that has begun was asked for, and is what was admitted at that moment. -/
theorem asked_of_begun {c : F.Call} (h : Act.begun c ∈ actsOf id (s.turns ms)) :
    ∃ a ask b, ms = a ++ .ask ask :: b ∧ (s.after a).isFree = true ∧ (s.after a).nextCall = id ∧
      F.accept ask (s.after a).state = .proceed c := by
  induction ms generalizing s with
  | nil => cases h
  | cons m ms ih =>
    rw [turns, actsOf_cons] at h
    rcases List.mem_append.mp h with h | h
    · have hcause := s.cause m
      rw [Turn.actsOf] at h
      split at h
      · next hsubject =>
        generalize s.turn m = t at h hsubject hcause
        -- a call begins with a prelude or without one
        cases hcause with
        | @begun a c' p hfree haccept | @opened a c' hfree haccept =>
          have hc : c = c' := by simpa [Turn.acts] using h
          exact ⟨[], a, ms, rfl, hfree, Option.some.inj hsubject, hc ▸ haccept⟩
        | idle | edited | published | declined | stored | lowered | raised | sent | ended
        | failed => simp [Turn.acts] at h
      · cases h
    · obtain ⟨a, ask, b, rfl, hask⟩ := ih h
      exact ⟨m :: a, ask, b, rfl, hask⟩

/-- **Every request that is sent was asked for**, and carries what its call was admitted with at
that moment. -/
theorem asked_of_sent {initial : F.State} {r : F.Request}
    (h : .sent id r ∈ (opening initial : Session F V).events ms) :
    ∃ a ask b c, ms = a ++ .ask ask :: b ∧
      ((opening initial : Session F V).after a).isFree = true ∧
      ((opening initial : Session F V).after a).nextCall = id ∧
      F.accept ask ((opening initial : Session F V).after a).state = .proceed c ∧
      r = F.request c := by
  obtain ⟨a, m, b, rfl, hsent⟩ := mem_events h
  obtain ⟨c, hturn, rfl⟩ := turn_of_sent hsent
  have hcourse := ((opening initial : Session F V).after a).course m
  rw [hturn] at hcourse
  -- the method that goes on has raised the flag of its call, so the call has begun
  have hspot : Spot.sending id c ∈ ((opening initial : Session F V).after a).outline.spots := by
    generalize ((opening initial : Session F V).after a).outline = o,
      (((opening initial : Session F V).after a).step m).1.outline = o' at hcourse
    cases hcourse with
    | sent hstages =>
      rw [Outline.spots, hstages]
      exact List.mem_cons_self ..
  have hpast : actsOf id ((opening initial : Session F V).turns a) = [.begun c, .raised c] :=
    (lived initial a).past hspot
  have hbegun : Act.begun c ∈ actsOf id ((opening initial : Session F V).turns a) := by
    rw [hpast]
    exact List.mem_cons_self ..
  obtain ⟨a', ask, b', rfl, hfree, hid, haccept⟩ := asked_of_begun hbegun
  exact ⟨a', ask, b' ++ m :: b, c, by simp, hfree, hid, haccept, rfl⟩

/-- A request that is sent is among what its call does. -/
theorem sent_mem_actsOf {r : F.Request} (h : .sent id r ∈ s.events ms) :
    ∃ c, r = F.request c ∧ .sent c ∈ actsOf id (s.turns ms) := by
  obtain ⟨a, m, b, rfl, hsent⟩ := mem_events h
  obtain ⟨c, hturn, rfl⟩ := turn_of_sent hsent
  refine ⟨c, rfl, ?_⟩
  rw [turns_append, actsOf_append, turns, actsOf_cons, hturn, Turn.actsOf_self rfl]
  simp [Turn.acts]

/-- Nothing is ever sent for a call that is declined. -/
theorem sent_notMem_of_declined {initial : F.State}
    (hturn : ((opening initial : Session F V).after ms).turn m = .declined)
    (later : List (Move F V)) (r : F.Request) :
    .sent ((opening initial : Session F V).after ms).nextCall r
      ∉ (opening initial : Session F V).events (ms ++ m :: later) := by
  intro h
  obtain ⟨c, -, hacts⟩ := sent_mem_actsOf h
  have hl := lived (V := V) initial ms
  have hnew : actsOf ((opening initial : Session F V).after ms).nextCall
      ((opening initial : Session F V).turns ms) = [] := hl.future (Nat.le_refl _)
  rw [turns_append, actsOf_append, hnew, actsOf_of_declined hl hturn] at hacts
  cases hacts

end Session

end LiveDesk
