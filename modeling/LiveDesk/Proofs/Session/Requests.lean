import LiveDesk.Proofs.Session.Deeds
import LiveDesk.Proofs.Session.Guards

/-!
# Requests of calls

A call that raises its flag at once sends one request, whatever the code does that is called with
the raised flag. It sends none only as long as that code runs, or if that code fails.

- `requestsOf`: the requests that are sent for a call.
- `requestsOf_events`: they are what the call does.
- `requestsOf_of_declined`: a call that is declined sends none.
- **`requestsOf_of_opened`**: a call that raises its flag at once sends its request once.
- `step_of_begun`: it does so as soon as the raised flag is delivered.
-/

namespace LiveDesk

open Observable

variable {F : Feature} {V : Type}

/-- The request that a call sends. -/
def Act.request? : Act F → Option F.Request
  | .sent c => some (F.request c)
  | .begun _ | .raised _ | .lowered _ | .ended => none

namespace Session

/-- The request of the given call, if it is one that is sent. -/
def Event.request? (id : CallId) : Event F V → Option F.Request
  | .sent i r => if i = id then some r else none
  | .store _ | .log _ | .notified _ | .answered _ _ => none

/-- The requests that are sent for a call. -/
def requestsOf (id : CallId) (es : List (Event F V)) : List F.Request :=
  es.filterMap (Event.request? id)

variable [DecidableEq V] {s : Session F V} {id : CallId}

theorem requestsOf_step (s : Session F V) (m : Move F V) (id : CallId) :
    requestsOf id (s.step m).2 = ((s.turn m).actsOf id).filterMap Act.request? := by
  -- a step sends one request and does nothing else, or it sends none
  by_cases hsent : ∃ i c, s.turn m = .sent i c
  · obtain ⟨i, c, hturn⟩ := hsent
    rw [events_of_sent hturn, hturn]
    by_cases hid : i = id
    · rw [Turn.actsOf_self (by rw [hid]; rfl)]
      simp [requestsOf, Event.request?, Turn.acts, Act.request?, hid]
    · rw [Turn.actsOf_of_ne rfl hid]
      simp [requestsOf, Event.request?, hid]
  · have hnone : requestsOf id (s.step m).2 = [] := by
      refine List.filterMap_eq_nil_iff.mpr fun e he => ?_
      cases e with
      | sent i r =>
        obtain ⟨c, hturn, -⟩ := turn_of_sent he
        exact absurd ⟨i, c, hturn⟩ hsent
      | store | log | notified | answered => rfl
    rw [hnone, Turn.actsOf]
    generalize s.turn m = t at hsent
    split
    · cases t with
      | sent i c => exact absurd ⟨i, c, rfl⟩ hsent
      | idle | edited | published | declined | begun | opened | raised | stored | lowered | ended
      | failed => rfl
    · rfl

/-- The requests that are sent for a call are what the call does. -/
theorem requestsOf_events (s : Session F V) (ms : List (Move F V)) (id : CallId) :
    requestsOf id (s.events ms) = (actsOf id (s.turns ms)).filterMap Act.request? := by
  induction ms generalizing s with
  | nil => rfl
  | cons m ms ih =>
    have hsplit : s.events (m :: ms) = (s.step m).2 ++ (s.step m).1.events ms := rfl
    rw [hsplit, turns, actsOf_cons, List.filterMap_append, ← ih, ← requestsOf_step]
    exact List.filterMap_append

section Runs

variable {initial : F.State} {ms : List (Move F V)} {a : F.Ask}

/-- What the call that is asked for next does in a run that goes on. -/
theorem actsOf_next (initial : F.State) (ms later : List (Move F V)) :
    actsOf ((opening initial : Session F V).after ms).nextCall
        ((opening initial : Session F V).turns (ms ++ later))
      = actsOf ((opening initial : Session F V).after ms).nextCall
        (((opening initial : Session F V).after ms).turns later) := by
  have hnew : actsOf ((opening initial : Session F V).after ms).nextCall
      ((opening initial : Session F V).turns ms) = [] := (lived initial ms).future (Nat.le_refl _)
  rw [turns_append, actsOf_append, hnew, List.nil_append]

/-- A call that is declined sends no request. -/
theorem requestsOf_of_declined {m : Move F V}
    (hturn : ((opening initial : Session F V).after ms).turn m = .declined)
    (later : List (Move F V)) :
    requestsOf ((opening initial : Session F V).after ms).nextCall
      ((opening initial : Session F V).events (ms ++ m :: later)) = [] := by
  rw [requestsOf_events, actsOf_next, actsOf_of_declined (lived initial ms) hturn]
  rfl

/-- **A call that raises its flag at once sends its request once.** As long as it has not, the
raised flag is being delivered, or code has failed while it was. -/
theorem requestsOf_of_opened {m : Move F V} {c : F.Call}
    (hturn : ((opening initial : Session F V).after ms).turn m
      = .opened ((opening initial : Session F V).after ms).nextCall c)
    (later : List (Move F V)) :
    let start : Session F V := opening initial
    let id := (start.after ms).nextCall
    let all := ms ++ m :: later
    requestsOf id (start.events all) = [F.request c] ∨
      requestsOf id (start.events all) = [] ∧
        ((start.after all).Beginning id c ∨ start.GivenUp all (.sending id c)) := by
  intro start id all
  have hacts : actsOf id (start.turns all)
      = [.begun c, .raised c] ++ actsOf id (((start.after ms).step m).1.turns later) := by
    show actsOf id (start.turns (ms ++ m :: later)) = _
    rw [actsOf_next, turns, actsOf_cons, hturn, Turn.actsOf_self rfl]
    rfl
  have hraised : Act.raised c ∈ actsOf id (start.turns all) := by
    rw [hacts]
    simp
  rw [requestsOf_events]
  rcases cases_of_raised_mem ((lived initial all).whole id) hraised with hall | hall | hall | hall
  -- the call has raised its flag and done nothing since
  · right
    refine ⟨by rw [hall]; rfl, ?_⟩
    rcases mem_spots_or_givenUp initial all (x := .sending id c) hall with hmem | hgiven
    · exact .inl (mem_spots_sending.mp hmem)
    · exact .inr hgiven
  all_goals
    left
    rw [hall]
    rfl

/-- The request is sent as soon as the raised flag is delivered. -/
theorem step_of_begun {c : F.Call} {below : List (Frame F.State V (Stage F))}
    (h : s.store.stack = .code (.sending id c) :: below) :
    (s.step .tick).2 = [.sent id (F.request c)] := by
  have hfree : ¬ s.isFree = true := by simp [isFree, h]
  refine events_of_sent ?_
  unfold turn
  rw [if_neg hfree, h]
  rfl

end Runs

end Session

end LiveDesk
