import LiveDesk.Proofs.Session.Postings

/-!
# What calls report

A call returns in one step, once, and in that step it may tell the user something. It does so after
the answer that it returns was stored.

- `Session.notices`, `returned`: the notices in a list of events, and the calls that succeed.
- `Report`, **`Session.report`**: the notices and the successful calls of a step.
- **`Session.returned_nodup`**: a call returns at most once.
- `Session.Stored`, `stored_of_closing`: a call that is to return with an answer has stored it, and
  the snapshot with it became current.
-/

namespace LiveDesk

open Observable

variable {F : Feature} {V : Type}

namespace Session

/-! ## What is read off a run -/

def notice? : Event F V → Option Notice
  | .notified n => some n
  | .store _ | .log _ | .sent _ _ | .answered _ _ => none

/-- The call that succeeds, with what it returns. -/
def returned? : Event F V → Option (CallId × F.Value)
  | .answered id (.ok v) => some (id, v)
  | .answered _ (.error _) | .store _ | .log _ | .sent _ _ | .notified _ => none

/-- The notices in a list of events. -/
def notices (es : List (Event F V)) : List Notice :=
  es.filterMap notice?

/-- The calls that succeed in a list of events, with what they return. -/
def returned (es : List (Event F V)) : List (CallId × F.Value) :=
  es.filterMap returned?

@[simp] theorem notices_append (es es' : List (Event F V)) :
    notices (es ++ es') = notices es ++ notices es' :=
  List.filterMap_append ..

@[simp] theorem returned_append (es es' : List (Event F V)) :
    returned (es ++ es') = returned es ++ returned es' :=
  List.filterMap_append ..

/-! ## What a step reports -/

/-- The notices and the successful calls of a step. -/
inductive Report (s : Session F V) : Move F V → List Notice → List (CallId × F.Value) → Prop
  | silent {m} : Report s m [] []
  /-- There is nothing to ask. -/
  | done {a v} : s.isFree = true → F.accept a s.state = .done v →
    Report s (.ask a) [] [(s.nextCall, v)]
  /-- A call returns whose answer was stored. -/
  | closed {m id entry notice value rest} : s.turn m = .ended id →
    s.outline.stages = .closing id entry notice value :: rest →
    Report s m notice.toList [(id, value)]
  /-- A call returns whose answer came too late. -/
  | left {m id entry value rest} : s.turn m = .ended id →
    s.outline.stages = .leaving id entry (some (.ok value)) :: rest →
    Report s m [] [(id, value)]

/-- Events that tell nobody anything. -/
def Mute (es : List (Event F V)) : Prop :=
  ∀ e ∈ es, notice? e = none ∧ returned? e = none

namespace Mute

variable {es es' : List (Event F V)}

/-- Two lists of events that say nothing say nothing. -/
theorem append (h : Mute es) (h' : Mute es') : Mute (es ++ es') := by
  intro e he
  rcases List.mem_append.mp he with he | he
  · exact h e he
  · exact h' e he

theorem logged (entry : Option LogEntry) : Mute (logged entry : List (Event F V)) := by
  intro e he
  obtain ⟨entry, -, rfl⟩ := List.mem_map.mp he
  exact ⟨rfl, rfl⟩

theorem store (es : List (Observable.Event F.State V)) :
    Mute (es.map .store : List (Event F V)) := by
  intro e he
  obtain ⟨e, -, rfl⟩ := List.mem_map.mp he
  exact ⟨rfl, rfl⟩

/-- A publication tells the caller nothing. -/
theorem publish (s : Session F V) (p : Publication F.State) : Mute (s.publish p).2 := by
  refine List.forall_mem_cons.mpr ⟨⟨rfl, rfl⟩, ?_⟩
  exact store _

/-- Raising a flag tells the caller nothing. -/
theorem raise (s : Session F V) (id : CallId) (c : F.Call) : Mute (s.raise id c).2 :=
  (logged _).append (publish _ _)

theorem notices_eq_nil (h : Mute es) : notices es = [] :=
  List.filterMap_eq_nil_iff.mpr fun e he => (h e he).1

theorem returned_eq_nil (h : Mute es) : returned es = [] :=
  List.filterMap_eq_nil_iff.mpr fun e he => (h e he).2

theorem report {s : Session F V} {m : Move F V} (h : Mute es) :
    Report s m (notices es) (returned es) := by
  rw [h.notices_eq_nil, h.returned_eq_nil]
  exact .silent

end Mute

/-- What an ask reports. -/
theorem report_ask {s : Session F V} (hfree : s.isFree = true) (a : F.Ask) :
    Report s (.ask a) (notices (s.ask a).2) (returned (s.ask a).2) := by
  have hstate : ({ s with nextCall := s.nextCall + 1 } : Session F V).state = s.state := rfl
  unfold ask
  simp only [hstate]
  cases haccept : F.accept a s.state with
  | refuse r => exact .silent
  | done v => exact .done hfree haccept
  | proceed c =>
    dsimp only
    cases F.prelude c s.state with
    | none => exact (Mute.raise _ _ _).report
    | some p => exact (Mute.publish _ _).report

/-- An answer reports nothing before its flag is lowered. -/
theorem mute_resolve (s : Session F V) (id : CallId) (reply : Except Failure F.Payload) :
    Mute (s.resolve id reply).2 := by
  unfold resolve
  split
  · exact List.forall_mem_nil _
  · split
    · exact (Mute.logged _).append (Mute.publish _ _)
    · split
      · exact List.forall_mem_nil _
      · exact Mute.publish _ _
      · exact Mute.publish _ _

/-- What a move of the caller reports. -/
theorem report_perform {s : Session F V} (hfree : s.isFree = true) (m : Move F V) :
    Report s m (notices (s.perform m).2) (returned (s.perform m).2) := by
  cases m with
  | tick | ret | panic => exact .silent
  | publish p => exact (Mute.publish s p).report
  | observe a => exact (Mute.store _).report
  | ask a => exact report_ask hfree a
  | resolve id reply => exact (s.mute_resolve id reply).report
  | edit e =>
    unfold perform edit
    dsimp only
    split
    · exact .silent
    · exact (Mute.publish s _).report
  | cancel id =>
    unfold perform cancel
    dsimp only
    split
    · exact .silent
    · exact (Mute.publish _ _).report

/-- What code that goes on reports. -/
theorem report_resume {s : Session F V} {stage : Stage F}
    {below : List (Frame F.State V (Stage F))} (hst : s.store.stack = .code stage :: below) :
    Report s .tick
      (notices (({ s with store := s.store.leave } : Session F V).resume stage).2)
      (returned (({ s with store := s.store.leave } : Session F V).resume stage).2) := by
  have hstages : s.outline.stages = stage :: below.filterMap Frame.code? := by
    show s.store.codes = _
    rw [Store.codes, hst]
    rfl
  have hturn : s.turn .tick = stage.turn := by
    simp [turn, isFree, hst]
  cases stage with
  | raising id c => exact (Mute.raise _ id c).report
  | sending id c => exact .silent
  | closing id entry notice value =>
    show Report s .tick (notices (logged entry ++ notice.toList.map .notified ++ _))
      (returned (logged entry ++ notice.toList.map .notified ++ _))
    rw [notices_append, notices_append, returned_append, returned_append,
      (Mute.logged entry).notices_eq_nil, (Mute.logged entry).returned_eq_nil]
    cases notice <;> exact .closed hturn hstages
  | leaving id entry answer =>
    show Report s .tick (notices (logged entry ++ answer.toList.map (.answered id)))
      (returned (logged entry ++ answer.toList.map (.answered id)))
    rw [notices_append, returned_append, (Mute.logged entry).notices_eq_nil,
      (Mute.logged entry).returned_eq_nil]
    rcases answer with _ | _ | value
    · exact .silent
    · exact .silent
    · exact .left hturn hstages

variable [DecidableEq V]

/-- **What a step reports.** -/
theorem report (s : Session F V) (m : Move F V) :
    Report s m (notices (s.step m).2) (returned (s.step m).2) := by
  unfold step
  split
  · next hfree => exact report_perform hfree m
  · cases m with
    | edit | publish | ask | resolve | cancel | observe | ret | panic => exact .silent
    | tick =>
      have hmute : Mute (s.store.tick.2.map .store : List (Event F V)) := Mute.store _
      unfold tick
      cases hst : s.store.stack with
      | nil => exact hmute.report
      | cons f below =>
        cases f with
        | code stage => exact report_resume hst
        | publishing | emitting | callback | replay => exact hmute.report

/-! ## A call returns once -/

section Runs

variable {s : Session F V} {done : CallId → List (Act F)} {id : CallId}

/-- A call that goes on to return is gone when it has. -/
theorem gone_of_ended {m : Move F V} (hl : Lived s.outline done) (h : s.turn m = .ended id) :
    (s.step m).1.outline.Gone id := by
  have hcourse := s.course m
  rw [h] at hcourse
  have hlived := hl.step hcourse
  have hacts : (Turn.ended id : Turn F).actsOf id = [.ended] := Turn.actsOf_self rfl
  constructor
  · by_contra hle
    have hnil := hlived.future (Nat.le_of_not_lt hle)
    rw [hacts, List.append_eq_nil_iff] at hnil
    cases hnil.2
  · rintro x hx rfl
    -- nothing is past its end
    have hpast := hlived.past hx
    have hmem : Act.ended ∈ done x.id ++ [.ended] :=
      List.mem_append_right _ (List.mem_singleton_self _)
    rw [hacts] at hpast
    cases x with
    | raising | sending | inFlight =>
      rw [show done _ ++ _ = _ from hpast] at hmem
      simp at hmem
    | closing =>
      obtain ⟨c, hc⟩ := hpast
      rw [hc] at hmem
      simp at hmem

/-- A call that returns is gone, and was not before. -/
theorem Report.gone {m : Move F V} {ns : List Notice} {rs : List (CallId × F.Value)}
    (h : Report s m ns rs) (hl : Lived s.outline done) {v : F.Value} (hmem : (id, v) ∈ rs) :
    ¬ s.outline.Gone id ∧ (s.step m).1.outline.Gone id := by
  cases h with
  | silent => cases hmem
  | done hfree haccept =>
    obtain ⟨rfl, -⟩ := Prod.mk.inj (List.mem_singleton.mp hmem)
    rw [step_of_done hfree haccept]
    exact ⟨fun hgone => lt_irrefl _ hgone.1,
      Nat.lt_succ_self _, fun x hx => (hl.older hx).ne⟩
  | closed hturn hstages | left hturn hstages =>
    obtain ⟨rfl, -⟩ := Prod.mk.inj (List.mem_singleton.mp hmem)
    refine ⟨fun hgone => hgone.2 (.closing _) ?_ rfl, gone_of_ended hl hturn⟩
    rw [Outline.spots, hstages]
    exact List.mem_cons_self ..

theorem events_cons (s : Session F V) (m : Move F V) (ms : List (Move F V)) :
    s.events (m :: ms) = (s.step m).2 ++ (s.step m).1.events ms := rfl

/-- A call that is gone does not return. -/
theorem Outline.Gone.returned (h : s.outline.Gone id) (hl : Lived s.outline done)
    (ms : List (Move F V)) : id ∉ (returned (s.events ms)).map Prod.fst := by
  induction ms generalizing s done with
  | nil => exact List.not_mem_nil
  | cons m ms ih =>
    rw [events_cons, returned_append, List.map_append, List.mem_append, not_or]
    refine ⟨fun hmem => ?_, ih (h.step hl.toNamed (s.course m)).1 (hl.step (s.course m))⟩
    obtain ⟨⟨i, v⟩, hr, rfl⟩ := List.mem_map.mp hmem
    exact ((s.report m).gone hl hr).1 h

omit [DecidableEq V] in
theorem Report.nodup {m : Move F V} {ns : List Notice} {rs : List (CallId × F.Value)}
    (h : Report s m ns rs) : (rs.map Prod.fst).Nodup := by
  cases h with
  | silent => exact .nil
  | done | closed | left => exact List.nodup_singleton _

/-- **A call returns at most once.** -/
theorem returned_nodup (hl : Lived s.outline done) (ms : List (Move F V)) :
    ((returned (s.events ms)).map Prod.fst).Nodup := by
  induction ms generalizing s done with
  | nil => exact .nil
  | cons m ms ih =>
    rw [events_cons, returned_append, List.map_append, List.nodup_append']
    refine ⟨(s.report m).nodup, ih (hl.step (s.course m)), fun id hmem hlater => ?_⟩
    obtain ⟨⟨i, v⟩, hr, rfl⟩ := List.mem_map.mp hmem
    exact ((s.report m).gone hl hr).2.returned (hl.step (s.course m)) ms hlater

/-! ## What was stored before -/

/-- The answer to a call was stored in a run, with what the call reports when it returns, and the
snapshot with it became current. -/
inductive Stored (s : Session F V) (id : CallId) (notice : Option Notice) (value : F.Value) :
    List (Move F V) → Prop
  | intro {a payload b c f label entry} : (s.after a).isFree = true →
    (s.after a).call? id = some c →
    F.settle c payload (s.after a).state = some (.store f label entry notice value) →
    (s.after (a ++ [.resolve id (.ok payload)])).store.current
      = (s.after a).store.current.next ((F.flag c).lower (f (s.after a).state)) →
    Stored s id notice value (a ++ .resolve id (.ok payload) :: b)

theorem Stored.append {notice : Option Notice} {value : F.Value} {ms : List (Move F V)}
    (h : s.Stored id notice value ms) (later : List (Move F V)) :
    s.Stored id notice value (ms ++ later) := by
  cases h with
  | intro hfree hcall hsettle hcurrent =>
    rw [List.append_assoc]
    exact .intro hfree hcall hsettle hcurrent

/-- A call that is to return with an answer has stored it. -/
theorem stored_of_closing {entry : Option LogEntry} {notice : Option Notice} {value : F.Value}
    {initial : F.State} {ms : List (Move F V)}
    (h : .closing id entry notice value ∈
      ((opening initial : Session F V).after ms).outline.stages) :
    (opening initial : Session F V).Stored id notice value ms := by
  induction ms using List.reverseRecOn with
  | nil => cases h
  | append_singleton ms m ih =>
    rw [after_append, after_cons, after_nil] at h
    generalize hs : (opening initial : Session F V).after ms = s at h ih
    have hcourse := s.course m
    -- what was to return before has stored its answer before, and keeps it stored
    have hold : .closing id entry notice value ∈ s.outline.stages →
        (opening initial : Session F V).Stored id notice value (ms ++ [m]) :=
      fun hmem => (ih hmem).append [m]
    generalize hturn : s.turn m = t, ho : s.outline = o, ho' : (s.step m).1.outline = o'
      at hcourse h hold
    cases hcourse with
    | idle | edited | published | declined => exact hold h
    | failed => cases h
    | begun | opened | lowered =>
      rcases List.mem_cons.mp h with heq | h
      · cases heq
      · exact hold h
    | raised hstages =>
      rcases List.mem_cons.mp h with heq | h
      · cases heq
      · exact hold (hstages ▸ List.mem_cons_of_mem _ h)
    | sent hstages | ended hstages => exact hold (hstages ▸ List.mem_cons_of_mem _ h)
    | @stored _ i c payload f label entry' notice' value' hcall hsettle =>
      rcases List.mem_cons.mp h with heq | h
      · cases heq
        obtain ⟨rfl, hfree, -⟩ := eq_resolve_of_turn hturn
        subst ho
        have hposts := s.posts (.resolve id (.ok payload))
        rw [hturn] at hposts
        refine .intro (hs ▸ hfree) (hs ▸ hcall) (hs ▸ hsettle) ?_
        rw [after_append, after_cons, after_nil, hs, hposts.current]
        rfl
      · exact hold h

end Runs

end Session

end LiveDesk
