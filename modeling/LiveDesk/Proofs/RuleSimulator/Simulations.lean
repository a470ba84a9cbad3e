import Mathlib.Data.List.DropRight
import LiveDesk.Feature.RuleSimulator
import LiveDesk.Proofs.Session.Deeds
import LiveDesk.Proofs.Text.Words

/-!
# What is on the bench

Edits, clears and late answers of the rule simulator interleave freely, and each touches other parts
of the state. A clear takes the input and the result back to the beginning and spares the rule; an
answer is shown whatever has become of the rule and the input meanwhile.

- `Bench`, `State.bench`: a rule with its input and the latest result, and those that a state holds.
- `sinceClear`, `lastRule`, `edits`, `lastResult`: what was done since the last clear, and what can
  be read off it.
- `Edit.input`, `lastWritten`: what an edit makes of the input, and what was written last under a
  key.
- `bench_eq`: a bench is read off what was done.
- **`simulations`**: the rule, the input and the result after every run, what the requests carry,
  and that a blank rule is not simulated.
- `simulations_crossed`: two simulations that are answered in the other order, around a clear.
-/

namespace LiveDesk.RuleSimulator

open Observable Session

variable {V : Type}

/-- A rule with its input and the latest result, without the loading flag. -/
structure Bench where
  rule : String
  input : Dictionary
  result : Option SimulationResult

namespace State

/-- The bench that a state holds. -/
def bench (x : State) : Bench :=
  ⟨x.rule, x.input, x.result⟩

end State

namespace Edit

def isClear : Edit → Bool
  | .clear => true
  | .setRule _ | .setInput _ _ | .removeInput _ => false

/-- The rule that an edit sets. -/
def rule? : Edit → Option String
  | .setRule rule => some rule
  | .setInput _ _ | .removeInput _ | .clear => none

/-- The input after an edit that is no clear. -/
def input (d : Dictionary) : Edit → Dictionary
  | .setInput key value => d.insert key value
  | .removeInput key => d.erase key
  | .setRule _ | .clear => d

/-- What an edit writes under a key: a value, or that there is none. -/
def written? (key : String) : Edit → Option (Option String)
  | .setInput k value => if key = k then some (some value) else none
  | .removeInput k => if key = k then some none else none
  | .setRule _ | .clear => none

/-- An edit changes the values of the input as it writes them. -/
theorem get?_input (d : Dictionary) (key : String) (e : Edit) :
    (e.input d).get? key = (e.written? key).getD (d.get? key) := by
  cases e with
  | setRule | clear => rfl
  | setInput k value =>
    rw [input, Dictionary.get?_insert, written?]
    split <;> rfl
  | removeInput k =>
    rw [input, Dictionary.get?_erase, written?]
    split <;> rfl

end Edit

/-- What was written last under a key. -/
def lastWritten (key : String) (es : List Edit) : Option String :=
  (es.filterMap (Edit.written? key)).getLast?.join

/-- The values of the input are those that were written last. -/
theorem get?_foldl_input (key : String) (es : List Edit) :
    (es.foldl Edit.input .empty).get? key = lastWritten key es := by
  induction es using List.reverseRecOn with
  | nil => rfl
  | append_singleton es e ih =>
    rw [List.foldl_append, List.foldl_cons, List.foldl_nil, Edit.get?_input, ih, lastWritten,
      lastWritten, getLast?_filterMap_concat]
    cases Edit.written? key e <;> rfl

namespace Bench

/-- A bench with nothing on it but a rule. -/
def bare (rule : String) : Bench :=
  ⟨rule, .empty, none⟩

/-- What a deed makes of the bench. -/
def note (b : Bench) : Deed feature → Bench
  | .edited e =>
    if Edit.isClear e then bare b.rule
    else { b with rule := (Edit.rule? e).getD b.rule, input := Edit.input b.input e }
  | .asked _ => b
  | .replied _ result => { b with result := some result }

end Bench

/-- The bench is not touched by the loading flag. -/
def benchAspect : Aspect feature State.opening Bench where
  read := State.bench
  note := Bench.note
  raise _ _ := rfl
  lower _ _ := rfl
  apply d x := by
    cases d with
    | edited e => cases e <;> rfl
    | replied c result => rfl
    | asked a =>
      by_cases hblank : Text.allBlank x.rule = true
      · have haccept : feature.accept a x = .refuse .emptyRule := if_pos hblank
        exact congrArg State.bench (Deed.apply_refuse haccept)
      · have haccept : feature.accept a x = .proceed ⟨x.rule, x.input⟩ := if_neg hblank
        exact congrArg State.bench (Deed.apply_proceed haccept)

/-! ## What was done since the last clear -/

/-- Whether a deed is a clear. -/
def isClear : Deed feature → Bool
  | .edited e => Edit.isClear e
  | .asked _ | .replied _ _ => false

/-- The result that arrives. -/
def result? : Deed feature → Option SimulationResult
  | .replied _ result => some result
  | .edited _ | .asked _ => none

def edit? : Deed feature → Option Edit
  | .edited e => some e
  | .asked _ | .replied _ _ => none

/-- What was done after the last clear. -/
def sinceClear (ds : List (Deed feature)) : List (Deed feature) :=
  ds.rtakeWhile fun d => !isClear d

def edits (ds : List (Deed feature)) : List Edit :=
  ds.filterMap edit?

/-- The rule that was set last, if any was. -/
def lastRule (ds : List (Deed feature)) : Option String :=
  ((edits ds).filterMap Edit.rule?).getLast?

/-- The result that arrived last. -/
def lastResult (ds : List (Deed feature)) : Option SimulationResult :=
  (ds.filterMap result?).getLast?

theorem sinceClear_concat (ds : List (Deed feature)) (d : Deed feature) :
    sinceClear (ds ++ [d]) = if isClear d then [] else sinceClear ds ++ [d] := by
  rw [sinceClear, List.rtakeWhile_concat]
  cases isClear d <;> rfl

theorem edits_concat (ds : List (Deed feature)) (d : Deed feature) :
    edits (ds ++ [d]) = edits ds ++ (edit? d).toList :=
  filterMap_concat ..

theorem lastRule_concat (ds : List (Deed feature)) (d : Deed feature) :
    lastRule (ds ++ [d]) = ((edit? d).bind Edit.rule?).or (lastRule ds) := by
  rw [lastRule, edits_concat]
  cases edit? d with
  | none => exact congrArg (fun es => (List.filterMap Edit.rule? es).getLast?) (List.append_nil _)
  | some e => exact getLast?_filterMap_concat ..

theorem lastResult_concat (ds : List (Deed feature)) (d : Deed feature) :
    lastResult (ds ++ [d]) = (result? d).or (lastResult ds) :=
  getLast?_filterMap_concat ..

/-- The bench that the given deeds make of one with nothing on it but a rule, if none of them is a
clear. -/
def Bench.ofDeeds (rule : String) (ds : List (Deed feature)) : Bench where
  rule := rule
  input := (edits ds).foldl Edit.input .empty
  result := lastResult ds

/-- One more deed that is no clear. -/
theorem Bench.ofDeeds_concat (rule : String) (ds : List (Deed feature)) {d : Deed feature}
    (hd : isClear d = false) :
    ofDeeds (((edit? d).bind Edit.rule?).getD rule) (ds ++ [d]) = (ofDeeds rule ds).note d := by
  rw [ofDeeds, lastResult_concat, edits_concat, List.foldl_append]
  cases d with
  | edited e =>
    rw [note, if_neg (show ¬ Edit.isClear e = true from Bool.eq_false_iff.mp hd)]
    rfl
  | asked a => rfl
  | replied c result => rfl

/-- **A bench is what was done.** The rule is the one that was set last; the rest is what was done
since the last clear. -/
theorem bench_eq (ds : List (Deed feature)) :
    ds.foldl Bench.note (.bare "") = .ofDeeds ((lastRule ds).getD "") (sinceClear ds) := by
  induction ds using List.reverseRecOn with
  | nil => rfl
  | append_singleton ds d ih =>
    rw [List.foldl_append, List.foldl_cons, List.foldl_nil, ih, sinceClear_concat, lastRule_concat]
    by_cases hd : isClear d = true
    · rw [if_pos hd]
      cases d with
      | asked | replied => cases hd
      | edited e =>
        cases e with
        | clear => rfl
        | setRule | setInput | removeInput => cases hd
    · have hrule : (((edit? d).bind Edit.rule?).or (lastRule ds)).getD ""
          = ((edit? d).bind Edit.rule?).getD ((lastRule ds).getD "") := by
        cases (edit? d).bind Edit.rule? <;> rfl
      rw [if_neg hd, hrule, Bench.ofDeeds_concat _ _ (Bool.eq_false_iff.mpr hd)]

/-! ## Rules that are not simulated -/

/-- What is simulated is the rule at hand, on the input at hand, unless the rule is blank. -/
theorem accept_eq_proceed {x : State} {c : SimulationRequest}
    (h : feature.accept Ask.simulate x = .proceed c) :
    c = ⟨x.rule, x.input⟩ ∧ Text.allBlank x.rule ≠ true := by
  by_cases hblank : Text.allBlank x.rule = true
  · rw [show feature.accept Ask.simulate x = .refuse .emptyRule from if_pos hblank] at h
    cases h
  · rw [show feature.accept Ask.simulate x = .proceed ⟨x.rule, x.input⟩ from if_neg hblank] at h
    cases h
    exact ⟨rfl, hblank⟩

section Runs

variable [DecidableEq V]

/-- **What is on the bench.** In every run of the methods of the simulator, with any simulations
that are answered, fail or are given up in any order:

- the rule is the text that was set last, clears notwithstanding;
- the input is what the insertions and removals since the last clear make of an empty one, in their
  order: under every key there is what was written last;
- the result is the one that arrived last since the last clear, if any did;
- every request carries the rule and the input that there were when its simulation was asked for,
  and its rule has a character that is not white space;
- asking for a simulation of a blank rule is refused. It publishes nothing, and nothing is ever sent
  for it. -/
theorem simulations {ms : List (Session.Move feature V)}
    (hown : ∀ m ∈ ms, ∀ p, m ≠ .publish p) :
    let start : Session feature V := opening .opening
    let s := start.after ms
    let since := sinceClear (start.deeds ms)
    s.state.rule = (lastRule (start.deeds ms)).getD "" ∧
      s.state.input = (edits since).foldl Edit.input .empty ∧
      (∀ key, s.state.input.get? key = lastWritten key (edits since)) ∧
      s.state.result = lastResult since ∧
      (∀ id request, .sent id request ∈ start.events ms →
        (∃ a b, ms = a ++ .ask Ask.simulate :: b ∧ (start.after a).isFree = true ∧
          (start.after a).nextCall = id ∧ request.rule = (start.after a).state.rule ∧
          request.input = (start.after a).state.input) ∧
        ∃ ch ∈ request.rule.toList, Text.isBlank ch = false) ∧
      (s.isFree = true → Text.allBlank s.state.rule = true →
        s.step (.ask Ask.simulate)
          = ({ s with nextCall := s.nextCall + 1 },
            [.answered s.nextCall (.error (.refused .emptyRule))]) ∧
        ∀ later request,
          .sent s.nextCall request ∉ start.events (ms ++ .ask Ask.simulate :: later)) := by
  intro start s since
  have hbench : s.state.bench = .ofDeeds ((lastRule (start.deeds ms)).getD "") since :=
    (benchAspect.after rfl hown).trans (bench_eq _)
  have hinput : s.state.input = (edits since).foldl Edit.input .empty :=
    congrArg Bench.input hbench
  refine ⟨congrArg Bench.rule hbench, hinput, fun key => ?_, congrArg Bench.result hbench,
    fun id request hsent => ?_, fun hfree hblank => ?_⟩
  · rw [hinput]
    exact get?_foldl_input key _
  · obtain ⟨a, ⟨⟩, b, c, hms, hfree, hid, haccept, rfl⟩ := asked_of_sent hsent
    obtain ⟨rfl, hblank⟩ := accept_eq_proceed haccept
    exact ⟨⟨a, b, hms, hfree, hid, rfl, rfl⟩, Text.not_allBlank_iff.mp hblank⟩
  · have haccept : feature.accept Ask.simulate s.state = .refuse .emptyRule := if_pos hblank
    exact ⟨step_of_refuse hfree haccept, sent_notMem_of_declined (turn_of_refuse hfree haccept)⟩

end Runs

section Examples

/-- What comes of a rule that would set off one action. -/
def setsOff (action : String) : SimulationResult :=
  ⟨true, [action], []⟩

/-- Two simulations are asked for. The second one is answered before everything but the rule is
cleared, the first one after that. -/
def crossedSimulations : List (Session.Move feature Nat) :=
  paced
    [.edit (Edit.setRule "a > 1"), .edit (Edit.setInput "a" "2"), .ask Ask.simulate,
      .edit (Edit.setInput "b" "3"), .ask Ask.simulate, .resolve 1 (.ok (setsOff "mail")),
      .edit Edit.clear, .edit (Edit.setInput "c" "4"), .edit (Edit.setInput "d" "5"),
      .edit (Edit.removeInput "c"), .resolve 0 (.ok (setsOff "call"))]

theorem lastRule_crossedSimulations :
    lastRule ((opening .opening : Session feature Nat).deeds crossedSimulations)
      = some "a > 1" := by cbv

theorem edits_crossedSimulations :
    edits (sinceClear ((opening .opening : Session feature Nat).deeds crossedSimulations))
      = [.setInput "c" "4", .setInput "d" "5", .removeInput "c"] := by cbv

theorem lastResult_crossedSimulations :
    lastResult (sinceClear ((opening .opening : Session feature Nat).deeds crossedSimulations))
      = some (setsOff "call") := by cbv

/-- The result of the first simulation is shown in the end, beside an input that it was not asked
for. -/
theorem simulations_crossed :
    let s := (opening .opening : Session feature Nat).after crossedSimulations
    (∀ m ∈ crossedSimulations, ∀ p, m ≠ .publish p) ∧ s.state.rule = "a > 1" ∧
      s.state.input.get? "a" = none ∧ s.state.input.get? "c" = none ∧
      s.state.input.get? "d" = some "5" ∧ s.state.result = some (setsOff "call") := by
  intro s
  have hown : ∀ m ∈ crossedSimulations, ∀ p, m ≠ .publish p := by
    simp [crossedSimulations, paced]
  obtain ⟨hrule, -, hinput, hresult, -⟩ := simulations (V := Nat) hown
  rw [lastRule_crossedSimulations] at hrule
  rw [edits_crossedSimulations] at hinput
  rw [lastResult_crossedSimulations] at hresult
  exact ⟨hown, hrule, hinput "a", hinput "c", hinput "d", hresult⟩

end Examples

end LiveDesk.RuleSimulator
