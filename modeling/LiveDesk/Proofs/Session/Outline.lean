import LiveDesk.Feature.Session
import LiveDesk.Proofs.Observable.Outcomes

/-!
# What a step does to the calls of a session

The deliveries and the observers of a store do not decide what becomes of a call: subscribers' code
chooses the next move, and that is all. So a session is looked at without them. What is left is its
outline: the states, the methods that are to go on, and the calls in flight.

- `Store.codes`: what the caller left on the stack of a store.
- `Session.Outline`: a session without its observers.
- `Turn`: what a step does to the outline; `Session.turn`: what a particular step does.
- `Course`: how each turn changes the outline.
- `Cause`, `Session.cause`: the moves that lead to each turn.
- `Session.calls_sent`, `calls_step`, `calls_resolve`: how the calls in flight change.
- `Session.turns`: the turns of a run, in order.
- **`Session.course`**: every step takes its turn's course.
-/

namespace LiveDesk

namespace Observable

variable {S V H : Type}

/-- What the caller left in a frame. -/
def Frame.code? : Frame S V H → Option H
  | .code h => some h
  | .publishing _ | .emitting _ _ | .callback _ | .replay _ _ => none

namespace Store

/-- What the caller left on the stack, the topmost first. -/
def codes (s : Store S V H) : List H :=
  s.stack.filterMap Frame.code?

/-- Two stores with the same states and with the same code of the caller on their stacks. -/
structure SameCore (s t : Store S V H) : Prop where
  initial : t.initial = s.initial
  current : t.current = s.current
  stacked : t.codes = s.codes

namespace SameCore

variable {s t u : Store S V H}

theorem refl (s : Store S V H) : s.SameCore s :=
  ⟨rfl, rfl, rfl⟩

theorem trans (h : s.SameCore t) (h' : t.SameCore u) : s.SameCore u where
  initial := h'.initial.trans h.initial
  current := h'.current.trans h.current
  stacked := h'.stacked.trans h.stacked

/-- What nothing refers to can be swept away. -/
theorem sweep (h : s.SameCore t) : s.SameCore t.sweep :=
  sweep_induction (P := fun u => s.SameCore u)
    (fun u _ q hu _ _ => by
      refine ⟨?_, ?_, ?_⟩
      · rw [remove_initial, hu.initial]
      · rw [remove_current, hu.current]
      · rw [Store.codes, remove_stack]
        exact hu.stacked) h

end SameCore

section Steps

variable [DecidableEq V] (s : Store S V H)

theorem sameCore_accept (q : Projection S V) (v : V) : s.SameCore (s.accept q v).1 := by
  unfold accept
  dsimp only
  split
  · exact .refl s
  · split <;> exact ⟨rfl, rfl, rfl⟩

theorem sameCore_tell (o : Observer) (signal : Signal S V) : s.SameCore (s.tell o signal).1 := by
  unfold tell
  split
  · exact .refl s
  · split
    · exact ⟨rfl, rfl, rfl⟩
    · split
      · exact .refl s
      · split
        · exact .refl s
        · exact s.sameCore_accept _ _

/-- A step of the store's own leaves the states and the caller's code alone. -/
theorem sameCore_tick : s.SameCore s.tick.1 := by
  unfold tick
  split
  · next now below hst =>
    have hcodes : s.codes = below.filterMap Frame.code? := by
      rw [codes, hst]
      rfl
    unfold publishStep
    split
    · dsimp only
      split
      · refine SameCore.trans ?_ (sameCore_tell _ _ _)
        exact ⟨rfl, rfl, hcodes.symm⟩
      · exact ⟨rfl, rfl, hcodes.symm⟩
    · exact ⟨rfl, rfl, hcodes.symm⟩
    · split <;> exact ⟨rfl, rfl, hcodes.symm⟩
  · next p now below hst =>
    have hcodes : s.codes = below.filterMap Frame.code? := by
      rw [codes, hst]
      rfl
    unfold emitStep
    split
    · dsimp only
      split
      · refine SameCore.trans ?_ (sameCore_tell _ _ _)
        exact ⟨rfl, rfl, hcodes.symm⟩
      · exact ⟨rfl, rfl, hcodes.symm⟩
    · exact ⟨rfl, rfl, hcodes.symm⟩
    · split
      · exact .sweep ⟨rfl, rfl, hcodes.symm⟩
      · split
        · exact ⟨rfl, rfl, hcodes.symm⟩
        · exact .sweep ⟨rfl, rfl, hcodes.symm⟩
  · exact .refl s

end Steps

variable (s : Store S V H)

theorem sameCore_observe (a : Observation S V) : s.SameCore (s.observe a).1 := by
  cases a with
  | project select => exact ⟨rfl, rfl, rfl⟩
  | chain source select =>
    unfold observe chain
    dsimp only
    split <;> exact ⟨rfl, rfl, rfl⟩
  | share p =>
    unfold observe share
    dsimp only
    split <;> exact ⟨rfl, rfl, rfl⟩
  | drop p => exact .sweep ⟨rfl, rfl, rfl⟩
  | subscribe => exact ⟨rfl, rfl, rfl⟩
  | watch p =>
    unfold observe watch
    dsimp only
    split <;> exact ⟨rfl, rfl, rfl⟩
  | unsubscribe o => exact .sweep ⟨rfl, rfl, rfl⟩
  | detach o => exact .sweep ⟨rfl, rfl, rfl⟩

theorem sameCore_ret : s.SameCore s.ret := by
  unfold ret
  split
  · next hst =>
    refine ⟨rfl, rfl, ?_⟩
    rw [codes, codes, hst]
    rfl
  · next hst =>
    refine .sweep ⟨rfl, rfl, ?_⟩
    rw [codes, codes, hst]
    rfl
  · exact .refl s

theorem change_initial (c : Change S) : (s.change c).1.initial = s.initial := by
  unfold change
  dsimp only
  split <;> rfl

theorem change_state (c : Change S) :
    (s.change c).1.current.state = c.apply s.initial s.current.state := by
  unfold change
  dsimp only
  split <;> rfl

theorem change_codes (c : Change S) : (s.change c).1.codes = s.codes := by
  unfold change
  dsimp only
  split <;> rfl

theorem panic_initial : s.panic.initial = s.initial :=
  (SameCore.refl _).sweep.initial.trans (foldl_abandon s.stack s).1.initial

theorem panic_current : s.panic.current = s.current :=
  (SameCore.refl _).sweep.current.trans (foldl_abandon s.stack s).1.current

theorem panic_codes : s.panic.codes = [] :=
  (SameCore.refl _).sweep.stacked

end Store

end Observable

open Observable

section Lists

variable {α β : Type} (f : α → Option β) (as : List α) (a : α)

/-- What is read off a run that is one step longer. -/
theorem filterMap_concat : (as ++ [a]).filterMap f = as.filterMap f ++ (f a).toList := by
  cases h : f a <;> simp [h]

theorem getLast?_filterMap_concat :
    ((as ++ [a]).filterMap f).getLast? = (f a).or (as.filterMap f).getLast? := by
  rw [filterMap_concat, List.getLast?_append]
  cases f a <;> rfl

end Lists

/-! ## Turns -/

/-- What a step of a session does. -/
inductive Turn (F : Feature) where
  /-- At most the observers and the deliveries change. -/
  | idle
  /-- An edit is published. -/
  | edited (e : F.Edit) (p : Publication F.State)
  /-- An update of the caller's own is published. -/
  | published (p : Publication F.State)
  /-- A call is refused, or there is nothing to ask. -/
  | declined
  /-- A call begins and publishes something before it raises its flag. -/
  | begun (id : CallId) (c : F.Call) (p : Publication F.State)
  /-- A call begins and raises its flag. -/
  | opened (id : CallId) (c : F.Call)
  /-- A call that has begun raises its flag. -/
  | raised (id : CallId) (c : F.Call)
  /-- The request of a call is sent. -/
  | sent (id : CallId) (c : F.Call)
  /-- The answer to a call is stored, and its flag lowered. -/
  | stored (id : CallId) (c : F.Call) (payload : F.Payload) (f : F.State → F.State)
  /-- The flag of a call is lowered, and nothing is stored. -/
  | lowered (id : CallId) (c : F.Call)
  /-- A call comes to its end. -/
  | ended (id : CallId)
  /-- The code that runs fails. -/
  | failed

/-- What a step makes of the state. -/
def Turn.apply {F : Feature} (initial x : F.State) : Turn F → F.State
  | .edited _ p | .published p | .begun _ _ p => p.change.apply initial x
  | .opened _ c | .raised _ c => (F.flag c).raise x
  | .stored _ c _ f => (F.flag c).lower (f x)
  | .lowered _ c => (F.flag c).lower x
  | .idle | .declined | .sent _ _ | .ended _ | .failed => x

namespace Stage

variable {F : Feature}

/-- The call that goes on. -/
def id : Stage F → CallId
  | .raising id _ | .sending id _ | .closing id _ _ _ | .leaving id _ _ => id

/-- Whether the call has nothing left to do but to return. -/
def isLast : Stage F → Bool
  | .raising _ _ | .sending _ _ => false
  | .closing _ _ _ _ | .leaving _ _ _ => true

/-- What is done when the call goes on. -/
def turn : Stage F → Turn F
  | .raising id c => .raised id c
  | .sending id c => .sent id c
  | .closing id _ _ _ | .leaving id _ _ => .ended id

end Stage

namespace Session

variable {F : Feature} {V : Type}

/-- What an answer to a call does. -/
def answerTurn (id : CallId) (c : F.Call) (x : F.State) : Except Failure F.Payload → Turn F
  | .error _ => .lowered id c
  | .ok payload =>
    match F.settle c payload x with
    | none => .idle
    | some (.stale _ _) => .lowered id c
    | some (.store f _ _ _ _) => .stored id c payload f

/-- What asking for a call does. -/
def askTurn (id : CallId) (a : F.Ask) (x : F.State) : Turn F :=
  match F.accept a x with
  | .refuse _ | .done _ => .declined
  | .proceed c =>
    match F.prelude c x with
    | some p => .begun id c p
    | none => .opened id c

/-- What a move of the caller's code does. -/
def freeTurn (s : Session F V) : Move F V → Turn F
  | .tick | .observe _ | .ret => .idle
  | .edit e => ((F.edit e s.state).map (.edited e)).getD .idle
  | .publish p => .published p
  | .ask a => askTurn s.nextCall a s.state
  | .resolve id reply =>
    ((s.call? id).map fun c => answerTurn id c s.state reply).getD .idle
  | .cancel id => ((s.call? id).map (.lowered id)).getD .idle
  | .panic => .failed

/-- What a step does. -/
def turn (s : Session F V) (m : Move F V) : Turn F :=
  if s.isFree then s.freeTurn m
  else
    match m, s.store.stack with
    | .tick, .code stage :: _ => stage.turn
    | _, _ => .idle

/-! ## Outlines -/

/-- A session without its observers. -/
structure Outline (F : Feature) where
  initial : F.State
  state : F.State
  /-- The methods that are to go on, the next one first. -/
  stages : List (Stage F)
  calls : List (CallId × F.Call)
  nextCall : CallId

namespace Outline

/-- The outline after a change of the state. -/
def change (o : Outline F) (c : Change F.State) : Outline F :=
  { o with state := c.apply o.initial o.state }

/-- The outline with a method that is to go on. -/
def enter (o : Outline F) (stage : Stage F) : Outline F :=
  { o with stages := stage :: o.stages }

/-- The outline with the flag of a call raised, which goes on to send its request. -/
def raise (o : Outline F) (id : CallId) (c : F.Call) : Outline F :=
  { o.enter (.sending id c) with state := (F.flag c).raise o.state }

/-- The outline after an answer to a call: the state is changed, the flag lowered, and the call goes
on to its end. -/
def settle (o : Outline F) (id : CallId) (c : F.Call) (f : F.State → F.State) (stage : Stage F) :
    Outline F :=
  { o.enter stage with
    state := (F.flag c).lower (f o.state)
    calls := o.calls.filter fun call => call.1 != id }

/-- The outline with one more call named. -/
def named (o : Outline F) : Outline F :=
  { o with nextCall := o.nextCall + 1 }

end Outline

/-- How each turn changes the outline. -/
inductive Course : Turn F → Outline F → Outline F → Prop where
  | idle {o} : Course .idle o o
  | edited {o e p} : F.edit e o.state = some p → Course (.edited e p) o (o.change p.change)
  | published {o p} : Course (.published p) o (o.change p.change)
  | declined {o} : Course .declined o o.named
  | begun {o a c p} : F.accept a o.state = .proceed c → F.prelude c o.state = some p →
    Course (.begun o.nextCall c p) o
      ((o.enter (.raising o.nextCall c)).change p.change).named
  | opened {o a c} : F.accept a o.state = .proceed c → F.prelude c o.state = none →
    Course (.opened o.nextCall c) o (o.raise o.nextCall c).named
  | raised {o id c rest} : o.stages = .raising id c :: rest →
    Course (.raised id c) o ({ o with stages := rest }.raise id c)
  | sent {o id c rest} : o.stages = .sending id c :: rest →
    Course (.sent id c) o { o with stages := rest, calls := o.calls ++ [(id, c)] }
  | stored {o id c payload f label entry notice value} : o.calls.lookup id = some c →
    F.settle c payload o.state = some (.store f label entry notice value) →
    Course (.stored id c payload f) o (o.settle id c f (.closing id entry notice value))
  | lowered {o id c entry answer} : o.calls.lookup id = some c →
    Course (.lowered id c) o (o.settle id c (fun x => x) (.leaving id entry answer))
  | ended {o stage rest} : o.stages = stage :: rest → stage.isLast = true →
    Course (.ended stage.id) o { o with stages := rest }
  | failed {o} : Course .failed o { o with stages := [] }

/-- A turn makes of the state what it says, and the initial state stays. -/
theorem Course.state {t : Turn F} {o o' : Outline F} (h : Course t o o') :
    o'.initial = o.initial ∧ o'.state = t.apply o.initial o.state := by
  cases h <;> exact ⟨rfl, rfl⟩

/-- The session without its observers. -/
def outline (s : Session F V) : Outline F :=
  ⟨s.store.initial, s.state, s.store.codes, s.calls, s.nextCall⟩

/-- Sessions whose stores differ in their observers and deliveries have one outline. -/
theorem outline_eq {s t : Session F V} (h : s.store.SameCore t.store) (hc : t.calls = s.calls)
    (hn : t.nextCall = s.nextCall) : t.outline = s.outline := by
  rw [outline, outline, state, state, h.initial, h.current, h.stacked, hc, hn]

theorem outline_publish (s : Session F V) (p : Publication F.State) :
    (s.publish p).1.outline = s.outline.change p.change := by
  show Outline.mk (s.store.change p.change).1.initial _ (s.store.change p.change).1.codes _ _ = _
  rw [s.store.change_initial, s.store.change_codes]
  show Outline.mk _ (s.store.change p.change).1.current.state _ _ _ = _
  rw [s.store.change_state]
  rfl

theorem outline_raise (s : Session F V) (id : CallId) (c : F.Call) :
    (s.raise id c).1.outline = s.outline.raise id c :=
  (s.enter (.sending id c)).outline_publish _

theorem outline_lower (s : Session F V) (id : CallId) (c : F.Call) (entry : Option LogEntry)
    (answer : Option (Answer F)) :
    ((s.forget id).lower id c entry answer).1.outline
      = s.outline.settle id c (fun x => x) (.leaving id entry answer) :=
  ((s.forget id).enter (.leaving id entry answer)).outline_publish _

/-! ## The course of a step -/

theorem course_ask (s : Session F V) (a : F.Ask) :
    Course (askTurn s.nextCall a s.state) s.outline (s.ask a).1.outline := by
  have hstate : ({ s with nextCall := s.nextCall + 1 } : Session F V).state = s.state := rfl
  unfold askTurn ask
  simp only [hstate]
  cases haccept : F.accept a s.state with
  | refuse | done => exact .declined
  | proceed c =>
    dsimp only
    cases hprelude : F.prelude c s.state with
    | none =>
      dsimp only
      rw [outline_raise]
      exact .opened (o := s.outline) haccept hprelude
    | some p =>
      dsimp only
      rw [outline_publish]
      exact .begun (o := s.outline) haccept hprelude

theorem course_resolve (s : Session F V) (id : CallId) (reply : Except Failure F.Payload) :
    Course (((s.call? id).map fun c => answerTurn id c s.state reply).getD .idle) s.outline
      (s.resolve id reply).1.outline := by
  unfold resolve
  cases hcall : s.call? id with
  | none => exact .idle
  | some c =>
    show Course (answerTurn id c s.state reply) _ _
    cases reply with
    | error f =>
      dsimp only
      rw [outline_lower]
      exact .lowered hcall
    | ok payload =>
      cases hsettle : F.settle c payload s.state with
      | none =>
        simp only [answerTurn, hsettle]
        exact .idle
      | some settlement =>
        cases settlement with
        | stale entry value =>
          simp only [answerTurn, hsettle]
          rw [outline_lower]
          exact .lowered hcall
        | store f label entry notice value =>
          simp only [answerTurn, hsettle]
          rw [outline_publish]
          exact .stored (o := s.outline) hcall hsettle

theorem course_perform (s : Session F V) (m : Move F V) :
    Course (s.freeTurn m) s.outline (s.perform m).1.outline := by
  cases m with
  | tick => exact .idle
  | edit e =>
    unfold freeTurn perform edit
    dsimp only
    cases hedit : F.edit e s.state with
    | none => exact .idle
    | some p =>
      dsimp only
      rw [outline_publish]
      exact .edited (o := s.outline) hedit
  | publish p =>
    unfold freeTurn perform
    dsimp only
    rw [outline_publish]
    exact .published
  | ask a => exact s.course_ask a
  | resolve id reply => exact s.course_resolve id reply
  | cancel id =>
    unfold freeTurn perform cancel
    dsimp only
    cases hcall : s.call? id with
    | none => exact .idle
    | some c =>
      dsimp only
      rw [outline_lower]
      exact .lowered hcall
  | observe a =>
    rw [show (s.perform (.observe a)).1.outline = s.outline from
      outline_eq (s.store.sameCore_observe a) rfl rfl]
    exact .idle
  | ret =>
    rw [show (s.perform .ret).1.outline = s.outline from
      outline_eq s.store.sameCore_ret rfl rfl]
    exact .idle
  | panic =>
    have hpanic : (s.perform .panic).1.outline = { s.outline with stages := [] } := by
      show Outline.mk s.store.panic.initial s.store.panic.current.state s.store.panic.codes _ _ = _
      rw [s.store.panic_initial, s.store.panic_current, s.store.panic_codes]
      rfl
    rw [hpanic]
    exact .failed

/-- A method goes on. -/
theorem course_resume {s : Session F V} {stage : Stage F} {below : List (Frame F.State V (Stage F))}
    (hst : s.store.stack = .code stage :: below) :
    Course stage.turn s.outline
      (({ s with store := s.store.leave } : Session F V).resume stage).1.outline := by
  have hleave : s.store.leave = { s.store with stack := below } := by
    unfold Store.leave
    rw [hst]
  have hstages : s.outline.stages = stage :: below.filterMap Frame.code? := by
    show s.store.codes = _
    rw [Store.codes, hst]
    rfl
  rw [hleave]
  cases stage with
  | raising id c =>
    unfold resume
    dsimp only
    rw [outline_raise]
    exact .raised hstages
  | sending id c => exact .sent hstages
  | closing id entry notice value => exact .ended hstages rfl
  | leaving id entry answer => exact .ended hstages rfl

/-- **Every step takes its turn's course.** -/
theorem course [DecidableEq V] (s : Session F V) (m : Move F V) :
    Course (s.turn m) s.outline (s.step m).1.outline := by
  unfold turn step
  split
  · exact s.course_perform m
  · cases m with
    | tick =>
      have houtline : ({ s with store := s.store.tick.1 } : Session F V).outline = s.outline :=
        outline_eq s.store.sameCore_tick rfl rfl
      have hsame : Course .idle s.outline
          ({ s with store := s.store.tick.1 } : Session F V).outline := houtline ▸ .idle
      unfold tick
      cases hst : s.store.stack with
      | nil => exact hsame
      | cons f below =>
        cases f with
        | code stage => exact course_resume hst
        | publishing | emitting | callback | replay => exact hsame
    | edit | publish | ask | resolve | cancel | observe | ret | panic => exact .idle

/-! ## What leads to a turn -/

/-- The moves that lead to a turn. -/
inductive Cause (s : Session F V) : Move F V → Turn F → Prop where
  | idle {m} : Cause s m .idle
  | edited {e p} : s.isFree = true → F.edit e s.state = some p → Cause s (.edit e) (.edited e p)
  | published {p} : s.isFree = true → Cause s (.publish p) (.published p)
  | declined {a} : s.isFree = true → Cause s (.ask a) .declined
  | begun {a c p} : s.isFree = true → F.accept a s.state = .proceed c →
    F.prelude c s.state = some p → Cause s (.ask a) (.begun s.nextCall c p)
  | opened {a c} : s.isFree = true → F.accept a s.state = .proceed c →
    F.prelude c s.state = none → Cause s (.ask a) (.opened s.nextCall c)
  | stored {id c payload f label entry notice value} : s.isFree = true → s.call? id = some c →
    F.settle c payload s.state = some (.store f label entry notice value) →
    Cause s (.resolve id (.ok payload)) (.stored id c payload f)
  | lowered {m id c} : s.isFree = true → s.call? id = some c → Cause s m (.lowered id c)
  | raised {id c} : Cause s .tick (.raised id c)
  | sent {id c} : Cause s .tick (.sent id c)
  | ended {id} : Cause s .tick (.ended id)
  | failed : s.isFree = true → Cause s .panic .failed

theorem cause_ask {s : Session F V} (hfree : s.isFree = true) (a : F.Ask) :
    Cause s (.ask a) (askTurn s.nextCall a s.state) := by
  unfold askTurn
  cases haccept : F.accept a s.state with
  | refuse | done => exact .declined hfree
  | proceed c =>
    dsimp only
    cases hprelude : F.prelude c s.state with
    | none => exact .opened hfree haccept hprelude
    | some p => exact .begun hfree haccept hprelude

theorem cause_resolve {s : Session F V} (hfree : s.isFree = true) {id : CallId} {c : F.Call}
    (hcall : s.call? id = some c) (reply : Except Failure F.Payload) :
    Cause s (.resolve id reply) (answerTurn id c s.state reply) := by
  cases reply with
  | error => exact .lowered hfree hcall
  | ok payload =>
    unfold answerTurn
    dsimp only
    cases hsettle : F.settle c payload s.state with
    | none => exact .idle
    | some settlement =>
      cases settlement with
      | stale => exact .lowered hfree hcall
      | store => exact .stored hfree hcall hsettle

/-- Every turn has its move. -/
theorem cause (s : Session F V) (m : Move F V) : Cause s m (s.turn m) := by
  unfold turn
  split
  · next hfree =>
    cases m with
    | tick | observe | ret => exact .idle
    | edit e =>
      rw [freeTurn]
      cases hedit : F.edit e s.state with
      | none => exact .idle
      | some => exact .edited hfree hedit
    | publish => exact .published hfree
    | ask a => exact cause_ask hfree a
    | resolve id reply =>
      rw [freeTurn]
      cases hcall : s.call? id with
      | none => exact .idle
      | some => exact cause_resolve hfree hcall reply
    | cancel id =>
      rw [freeTurn]
      cases hcall : s.call? id with
      | none => exact .idle
      | some => exact .lowered hfree hcall
    | panic => exact .failed hfree
  · split
    · next stage _ _ =>
      cases stage with
      | raising => exact .raised
      | sending => exact .sent
      | closing | leaving => exact .ended
    · exact .idle

section Turns

variable {s : Session F V} {m : Move F V}

theorem turn_of_isFree (h : s.isFree = true) : s.turn m = s.freeTurn m :=
  if_pos h

/-- Where the code does not have control its moves do nothing. -/
theorem turn_of_not_isFree (h : s.isFree ≠ true) (hm : m ≠ .tick) : s.turn m = .idle := by
  rw [turn, if_neg h]
  exact fun _ _ htick _ => hm htick

/-- The code fails only where it has control. -/
theorem turn_eq_failed : s.turn m = .failed ↔ m = .panic ∧ s.isFree = true := by
  refine ⟨fun h => ?_, fun ⟨hm, hfree⟩ => hm ▸ turn_of_isFree hfree⟩
  have hcause := s.cause m
  rw [h] at hcause
  cases hcause with
  | failed hfree => exact ⟨rfl, hfree⟩

/-- An update of the caller's own is published only by the caller. -/
theorem eq_publish_of_turn {p : Publication F.State} (h : s.turn m = .published p) :
    m = .publish p := by
  have hcause := s.cause m
  rw [h] at hcause
  cases hcause with
  | published => rfl

/-- What is stored is the answer to a call in flight. -/
theorem eq_resolve_of_turn {id : CallId} {c : F.Call} {payload : F.Payload}
    {f : F.State → F.State} (h : s.turn m = .stored id c payload f) :
    m = .resolve id (.ok payload) ∧ s.isFree = true ∧ s.call? id = some c ∧
      ∃ label entry notice value,
        F.settle c payload s.state = some (.store f label entry notice value) := by
  have hcause := s.cause m
  rw [h] at hcause
  cases hcause with
  | stored hfree hcall hsettle => exact ⟨rfl, hfree, hcall, _, _, _, _, hsettle⟩

/-- A call that is refused is declined. -/
theorem turn_of_refuse {a : F.Ask} {r : F.Refusal} (hfree : s.isFree = true)
    (h : F.accept a s.state = .refuse r) : s.turn (.ask a) = .declined := by
  rw [turn_of_isFree hfree, freeTurn, askTurn, h]

/-- A call that has nothing to ask is declined. -/
theorem turn_of_done {a : F.Ask} {value : F.Value} (hfree : s.isFree = true)
    (h : F.accept a s.state = .done value) : s.turn (.ask a) = .declined := by
  rw [turn_of_isFree hfree, freeTurn, askTurn, h]

/-- A call that is admitted raises its flag at once, unless something is published before. -/
theorem turn_of_opened {a : F.Ask} {c : F.Call} (hfree : s.isFree = true)
    (h : F.accept a s.state = .proceed c) (hprelude : F.prelude c s.state = none) :
    s.turn (.ask a) = .opened s.nextCall c := by
  rw [turn_of_isFree hfree, freeTurn, askTurn, h]
  dsimp only
  rw [hprelude]

theorem turn_of_begun {a : F.Ask} {c : F.Call} {p : Publication F.State} (hfree : s.isFree = true)
    (h : F.accept a s.state = .proceed c) (hprelude : F.prelude c s.state = some p) :
    s.turn (.ask a) = .begun s.nextCall c p := by
  rw [turn_of_isFree hfree, freeTurn, askTurn, h]
  dsimp only
  rw [hprelude]

/-- What is edited was not ignored. -/
theorem edit_of_turn {e : F.Edit} {p : Publication F.State} (h : s.turn m = .edited e p) :
    m = .edit e ∧ s.isFree = true ∧ F.edit e s.state = some p := by
  have hcause := s.cause m
  rw [h] at hcause
  cases hcause with
  | edited hfree hedit => exact ⟨rfl, hfree, hedit⟩

theorem turn_of_edit {e : F.Edit} {p : Publication F.State} (hfree : s.isFree = true)
    (h : F.edit e s.state = some p) : s.turn (.edit e) = .edited e p := by
  rw [turn_of_isFree hfree]
  show ((F.edit e s.state).map (Turn.edited e)).getD .idle = _
  rw [h]
  rfl

end Turns

section Declined

variable [DecidableEq V] {s : Session F V} {a : F.Ask}

/-- An edit that is ignored does nothing. -/
theorem step_of_ignored {e : F.Edit} (hfree : s.isFree = true) (h : F.edit e s.state = none) :
    s.step (.edit e) = (s, []) := by
  rw [show s.step (.edit e) = s.edit e from if_pos hfree]
  unfold edit
  rw [h]

/-- Refusing a call does nothing but to give it a name. -/
theorem step_of_refuse {r : F.Refusal} (hfree : s.isFree = true)
    (h : F.accept a s.state = .refuse r) :
    s.step (.ask a)
      = ({ s with nextCall := s.nextCall + 1 }, [.answered s.nextCall (.error (.refused r))]) := by
  have haccept : F.accept a ({ s with nextCall := s.nextCall + 1 } : Session F V).state
      = .refuse r := h
  rw [show s.step (.ask a) = s.ask a from if_pos hfree]
  unfold ask
  simp only [haccept]

/-- Nor does a call that has nothing to ask. -/
theorem step_of_done {value : F.Value} (hfree : s.isFree = true)
    (h : F.accept a s.state = .done value) :
    s.step (.ask a)
      = ({ s with nextCall := s.nextCall + 1 }, [.answered s.nextCall (.ok value)]) := by
  have haccept : F.accept a ({ s with nextCall := s.nextCall + 1 } : Session F V).state
      = .done value := h
  rw [show s.step (.ask a) = s.ask a from if_pos hfree]
  unfold ask
  simp only [haccept]

end Declined

section Calls

variable [DecidableEq V] {s : Session F V} {m : Move F V} {id : CallId} {c : F.Call}

/-- A call comes into flight only when its request is sent. -/
theorem calls_step (hidle : s.calls = []) (hturn : ∀ id c, s.turn m ≠ .sent id c) :
    (s.step m).1.calls = [] := by
  have hcourse := s.course m
  have hidle : s.outline.calls = [] := hidle
  show (s.step m).1.outline.calls = []
  generalize s.turn m = t, s.outline = o, (s.step m).1.outline = o' at hcourse hidle hturn ⊢
  cases hcourse with
  | sent => exact absurd rfl (hturn _ _)
  | stored hcall | lowered hcall =>
    rw [hidle] at hcall
    cases hcall
  | idle | edited | published | declined | begun | opened | raised | ended | failed => exact hidle

theorem calls_sent (hturn : s.turn m = .sent id c) : (s.step m).1.calls = s.calls ++ [(id, c)] := by
  have hcourse := s.course m
  show (s.step m).1.outline.calls = s.outline.calls ++ [(id, c)]
  rw [hturn] at hcourse
  generalize s.outline = o, (s.step m).1.outline = o' at hcourse ⊢
  cases hcourse with
  | sent => rfl

end Calls

/-- A call that is answered is in flight no more, if the answer is one to it. -/
theorem calls_resolve {s : Session F V} {id : CallId} {c : F.Call} (hcall : s.call? id = some c)
    {reply : Except Failure F.Payload}
    (hsettled : ∀ payload, reply = .ok payload → F.settle c payload s.state ≠ none) :
    (s.resolve id reply).1.calls = s.calls.filter fun call => call.1 != id := by
  unfold resolve
  rw [hcall]
  cases reply with
  | error f => rfl
  | ok payload =>
    cases hsettle : F.settle c payload s.state with
    | none => exact absurd hsettle (hsettled payload rfl)
    | some settlement =>
      dsimp only
      rw [hsettle]
      cases settlement <;> rfl

/-! ## Runs -/

section Runs

variable [DecidableEq V]

/-- The session that a run leads to. -/
def after (s : Session F V) (ms : List (Move F V)) : Session F V :=
  (s.run ms).1

/-- What the steps of a run do. -/
def turns (s : Session F V) : List (Move F V) → List (Turn F)
  | [] => []
  | m :: ms => s.turn m :: (s.step m).1.turns ms

@[simp] theorem after_nil (s : Session F V) : s.after [] = s := rfl

@[simp] theorem after_cons (s : Session F V) (m : Move F V) (ms : List (Move F V)) :
    s.after (m :: ms) = (s.step m).1.after ms := rfl

@[simp] theorem after_append (s : Session F V) (ms ms' : List (Move F V)) :
    s.after (ms ++ ms') = (s.after ms).after ms' := by
  induction ms generalizing s with
  | nil => rfl
  | cons m ms ih => exact ih (s.step m).1

theorem turns_append (s : Session F V) (ms ms' : List (Move F V)) :
    s.turns (ms ++ ms') = s.turns ms ++ (s.after ms).turns ms' := by
  induction ms generalizing s with
  | nil => rfl
  | cons m ms ih => exact congrArg (s.turn m :: ·) (ih (s.step m).1)

theorem initial_after (s : Session F V) (ms : List (Move F V)) :
    (s.after ms).store.initial = s.store.initial := by
  induction ms generalizing s with
  | nil => rfl
  | cons m ms ih => exact (ih (s.step m).1).trans (s.course m).state.1

/-- The state is what the turns of a run make of it. -/
theorem state_after (s : Session F V) (ms : List (Move F V)) :
    (s.after ms).state = (s.turns ms).foldl (fun x t => t.apply s.store.initial x) s.state := by
  induction ms generalizing s with
  | nil => rfl
  | cons m ms ih =>
    obtain ⟨hinitial, hstate⟩ := (s.course m).state
    rw [after_cons, ih, show (s.step m).1.store.initial = _ from hinitial,
      show (s.step m).1.state = _ from hstate]
    rfl

end Runs

end Session

end LiveDesk
