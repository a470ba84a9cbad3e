import LiveDesk.Feature.Document
import LiveDesk.Proofs.Session.Lives

/-!
# Flags are lowered once

The flag that a call has raised is lowered once, in whatever way the call ends: its answer is
stored, it fails, it comes too late, it is given up, or the code of a subscriber fails while the
lowered flag is delivered. The one way in which it is never lowered is that code fails while the
raised flag is delivered: the call has not come to hold its guard yet.

- `Session.Beginning`: a call's raised flag is being delivered.
- **`Session.lowered_once`**: what the calls of a run have done with their flags.
- `Session.lowered_once_failing`, `Session.lowered_never`: code that fails while the flag is
  lowered, and while it is raised.
-/

namespace LiveDesk.Session

open Observable

variable {F : Feature} {V : Type}

/-- The raised flag of a call is being delivered; the call goes on when that is over. -/
def Beginning (s : Session F V) (id : CallId) (c : F.Call) : Prop :=
  .code (.sending id c) ∈ s.store.stack

/-- A method is to go on if its code is on the stack. -/
theorem mem_codes {s : Session F V} {stage : Stage F} :
    stage ∈ s.store.codes ↔ .code stage ∈ s.store.stack := by
  rw [Store.codes, List.mem_filterMap]
  constructor
  · rintro ⟨f, hf, hcode⟩
    cases f with
    | code h => exact Option.some.inj hcode ▸ hf
    | publishing | emitting | callback | replay => cases hcode
  · intro h
    exact ⟨_, h, rfl⟩

theorem mem_spots_sending {s : Session F V} {id : CallId} {c : F.Call} :
    .sending id c ∈ s.outline.spots ↔ s.Beginning id c := by
  rw [Outline.spots, List.mem_append, Beginning, ← mem_codes]
  constructor
  · rintro (h | h)
    · obtain ⟨stage, hstage, hspot⟩ := List.mem_map.mp h
      cases stage with
      | sending => cases hspot; exact hstage
      | raising | closing | leaving => cases hspot
    · obtain ⟨call, -, hspot⟩ := List.mem_map.mp h
      cases hspot
  · intro h
    exact Or.inl (List.mem_map.mpr ⟨_, h, rfl⟩)

/-- What a call can have done that has raised its flag. -/
theorem cases_of_raised_mem {l : List (Act F)} {c : F.Call}
    (hl : l = [] ∨ ∃ c, l <+: Act.life c) (h : Act.raised c ∈ l) :
    l = [.begun c, .raised c] ∨ l = [.begun c, .raised c, .sent c] ∨
      l = [.begun c, .raised c, .sent c, .lowered c] ∨ l = Act.life c := by
  rcases hl with rfl | ⟨c', hprefix⟩
  · cases h
  · -- only the call that began raises the flag
    have hc : c = c' := by
      have hlife := hprefix.subset h
      simpa [Act.life] using hlife
    subst hc
    rcases Act.prefix_life hprefix with rfl | rfl | hl
    · cases h
    · simp at h
    · exact hl

/-- **Flags are lowered once.** In every run, failures of any code at any point included, the state
is what the turns make of it in their order, and for every call that has raised its flag:

- it has not lowered it yet while the raised flag is being delivered and while it is in flight;
- it never lowers it if code fails while the raised flag is being delivered;
- otherwise it has lowered it, after raising it, and once. -/
theorem lowered_once [DecidableEq V] (initial : F.State) (ms : List (Move F V)) (id : CallId)
    (c : F.Call) :
    let start : Session F V := opening initial
    let s := start.after ms
    let acts := actsOf id (start.turns ms)
    let failed := ∃ a b, ms = a ++ .panic :: b ∧ (start.after a).isFree = true ∧
      (start.after a).Beginning id c
    s.state = (start.turns ms).foldl (fun x t => t.apply initial x) initial ∧
    (.raised c ∈ acts →
      (s.Beginning id c ∨ (id, c) ∈ s.calls →
        acts = [.begun c, .raised c] ∨ acts = [.begun c, .raised c, .sent c]) ∧
      (failed → acts = [.begun c, .raised c]) ∧
      (¬ s.Beginning id c → (id, c) ∉ s.calls → ¬ failed →
        acts = [.begun c, .raised c, .sent c, .lowered c] ∨ acts = Act.life c)) := by
  intro start s acts failed
  have hl := lived (V := V) initial ms
  refine ⟨start.state_after ms, fun hraised => ⟨?_, ?_, fun hbegin hflight hfailed => ?_⟩⟩
  · rintro (hbegin | hflight)
    · exact Or.inl (hl.past (mem_spots_sending.mpr hbegin))
    · exact Or.inr (hl.past (mem_spots_inFlight.mpr hflight))
  · rintro ⟨a, b, hms, hfree, hbegin⟩
    have hgiven : start.GivenUp ms (.sending id c) :=
      ⟨rfl, a, b, hms, hfree, mem_spots_sending.mpr hbegin⟩
    exact hgiven.past
  · rcases cases_of_raised_mem (hl.whole id) hraised with hacts | hacts | hacts | hacts
    · -- the call is still where it raised its flag, or was given up there
      rcases mem_spots_or_givenUp initial ms (x := .sending id c) hacts with
        hmem | ⟨-, a, b, hms, hfree, hmem⟩
      · exact absurd (mem_spots_sending.mp hmem) hbegin
      · exact absurd ⟨a, b, hms, hfree, mem_spots_sending.mp hmem⟩ hfailed
    · -- a call in flight is not given up
      rcases mem_spots_or_givenUp initial ms (x := .inFlight id c) hacts with hmem | ⟨hstack, -⟩
      · exact absurd (mem_spots_inFlight.mp hmem) hflight
      · cases hstack
    · exact Or.inl hacts
    · exact Or.inr hacts

section Examples

/-- A document that is not busy. -/
def idleDocument : Document.State := { count := 0, title := "", items := [], busy := false }

/-- A guard is taken and completed, and the only subscriber, which came in between, fails when it is
called. -/
def failingCompletion : List (Move Document.feature Nat) :=
  [.ask Document.Guard.busy, .tick, .tick, .tick, .tick, .observe .subscribe,
    .resolve 0 (.ok ⟨⟨some 1, none, none, none⟩, "done"⟩), .tick, .tick, .panic]

theorem outline_failingCompletion :
    ((opening idleDocument : Session Document.feature Nat).after failingCompletion).outline
      = ⟨idleDocument, { idleDocument with count := 1 }, [], [], 1⟩ := by cbv

/-- When the code fails, the guard has only to return. -/
theorem outline_failingCompletion_dropLast :
    ((opening idleDocument : Session Document.feature Nat).after
      failingCompletion.dropLast).outline
      = ⟨idleDocument, { idleDocument with count := 1 }, [.closing 0 none none ()], [], 1⟩ := by cbv

theorem actsOf_failingCompletion :
    actsOf 0 ((opening idleDocument : Session Document.feature Nat).turns failingCompletion)
      = [.begun Document.Guard.busy, .raised Document.Guard.busy, .sent Document.Guard.busy,
        .lowered Document.Guard.busy] := by cbv

/-- The guard has lowered its flag all the same. -/
theorem lowered_once_failing :
    let start : Session Document.feature Nat := opening idleDocument
    let acts := actsOf 0 (start.turns failingCompletion)
    let c : Document.feature.Call := Document.Guard.busy
    (start.after failingCompletion).state = { idleDocument with count := 1 } ∧
      Act.raised c ∈ acts ∧
      (acts = [.begun c, .raised c, .sent c, .lowered c] ∨ acts = Act.life c) := by
  intro start acts c
  have hraised : Act.raised c ∈ acts := by
    rw [show acts = _ from actsOf_failingCompletion]
    exact List.mem_cons_of_mem _ (List.mem_cons_self ..)
  obtain ⟨-, hcall⟩ :=
    lowered_once (F := Document.feature) (V := Nat) idleDocument failingCompletion 0 c
  refine ⟨congrArg Outline.state outline_failingCompletion, hraised,
    (hcall hraised).2.2 ?_ ?_ ?_⟩
  · rw [← mem_spots_sending, outline_failingCompletion]
    exact List.not_mem_nil
  · rw [← mem_spots_inFlight, outline_failingCompletion]
    exact List.not_mem_nil
  · rintro ⟨a, b, hms, -, hbegin⟩
    -- the code fails once, when the flag has been lowered
    have hcalm : Move.panic ∉ failingCompletion.dropLast := by simp [failingCompletion]
    have hsplit : failingCompletion.dropLast ++ .panic :: [] = a ++ .panic :: b := hms
    have ha : failingCompletion.dropLast = a :=
      ((List.append_cons_inj_of_notMem hcalm List.not_mem_nil).mp hsplit).1
    rw [← mem_spots_sending, ← ha, outline_failingCompletion_dropLast] at hbegin
    cases List.mem_singleton.mp hbegin

/-- A guard is taken, and a subscriber fails when it is called with the raised flag. -/
def failingBeginning : List (Move Document.feature Nat) :=
  [.observe .subscribe, .ask Document.Guard.busy, .tick, .tick, .panic]

/-- Nothing is left that could lower the flag: no method goes on and no call is in flight. -/
theorem lowered_never :
    let start : Session Document.feature Nat := opening idleDocument
    let s := start.after failingBeginning
    let c : Document.feature.Call := Document.Guard.busy
    s.state = { idleDocument with busy := true } ∧ s.store.stack = [] ∧ s.calls = [] ∧
      actsOf 0 (start.turns failingBeginning) = [.begun c, .raised c] := by
  refine ⟨?_, ?_, ?_, ?_⟩ <;> cbv

end Examples

end LiveDesk.Session
