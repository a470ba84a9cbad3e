import LiveDesk.Proofs.Log
import LiveDesk.Proofs.Session.Deeds

/-!
# What a session logs

A feature store writes its own words into the log, and what its calls are about. If its own words
are on one line, then a run logs a line break if and only if one of its calls announces something
with a line break in it, or the caller publishes an update under such a label.

- `Lines`: events whose entries are on one line.
- `Feature.Terse`: the words of a feature are on one line, except for what its calls are about.
- `Turn.IsFair`, `Outline.Fair`: nothing with a line break is announced, and nothing is kept for
  later.
- `Speaks`, `speaks`: what one step logs, and what it keeps.
- **`lines_events`**: what a run logs.
-/

namespace LiveDesk

open Observable Text

@[simp] theorem FailureKind.isLine_name (kind : FailureKind) : IsLine kind.name := by
  cases kind <;> simp +decide

variable {F : Feature} {V : Type}

/-- The words of a feature are on one line, and so is what it says of calls that are fair. Every
other call is announced. -/
structure Feature.Terse (F : Feature) (fair : F.Call → Prop) : Prop where
  name : IsLine F.name
  edit {e x p} : F.edit e x = some p → IsLine p.label
  prelude {c x p} : F.prelude c x = some p → IsLine p.label
  flag (c) : IsLine (F.flag c).label
  opening (c) : (∀ e ∈ F.opening c, IsLine e.line) ↔ fair c
  failure {c kind} : fair c → ∀ e ∈ F.failure c kind, IsLine e.line
  store {c payload x f label entry notice value} : fair c →
    F.settle c payload x = some (.store f label entry notice value) →
    IsLine label ∧ ∀ e ∈ entry, IsLine e.line
  stale {c payload x entry value} : fair c →
    F.settle c payload x = some (.stale entry value) → IsLine entry.line

/-- No unfair call is announced, and the caller publishes under no label with a line break. -/
def Turn.IsFair (fair : F.Call → Prop) : Turn F → Prop
  | .opened _ c | .raised _ c => fair c
  | .published p => IsLine p.label
  | .idle | .edited _ _ | .declined | .begun _ _ _ | .sent _ _ | .stored _ _ _ _ | .lowered _ _
  | .ended _ | .failed => True

/-- A call that was announced is fair, and what it is still to log is on one line. -/
def Stage.IsFair (fair : F.Call → Prop) : Stage F → Prop
  | .raising _ _ => True
  | .sending _ c => fair c
  | .closing _ entry _ _ | .leaving _ entry _ => ∀ e ∈ entry, IsLine e.line

namespace Session

/-- All entries are on one line. -/
def Lines (es : List (Event F V)) : Prop :=
  ∀ entry, .log entry ∈ es → IsLine entry.line

/-- Two lists of events log lines if both do. -/
@[simp] theorem lines_append {es es' : List (Event F V)} :
    Lines (es ++ es') ↔ Lines es ∧ Lines es' := by
  simp only [Lines, List.mem_append, or_imp, forall_and]

/-- An entry is logged as a line if its text is one. -/
@[simp] theorem lines_logged {entry : Option LogEntry} :
    Lines (logged entry : List (Event F V)) ↔ ∀ e ∈ entry, IsLine e.line := by
  cases entry <;> simp [Lines, logged]

theorem no_entry : ∀ e ∈ (none : Option LogEntry), IsLine e.line :=
  nofun

/-- What the store publishes is no entry. -/
theorem lines_store (es : List (Observable.Event F.State V)) :
    Lines (es.map .store : List (Event F V)) := by
  intro entry h
  obtain ⟨e, -, he⟩ := List.mem_map.mp h
  cases he

/-- Events without entries. -/
theorem lines_of_forall_ne {es : List (Event F V)} (h : ∀ entry, .log entry ∉ es) : Lines es :=
  fun entry hmem => absurd hmem (h entry)

/-- The calls under way are fair. -/
structure Outline.Fair (fair : F.Call → Prop) (o : Outline F) : Prop where
  stages : ∀ stage ∈ o.stages, stage.IsFair fair
  calls : ∀ call ∈ o.calls, fair call.2

namespace Outline.Fair

variable {fair : F.Call → Prop} {o : Outline F}

/-- A new session is fair. -/
theorem opening (initial : F.State) : (Session.opening initial : Session F V).outline.Fair fair :=
  ⟨List.forall_mem_nil _, List.forall_mem_nil _⟩

/-- A session that enters a fair stage stays fair. -/
theorem enter (h : o.Fair fair) {stage : Stage F} (hstage : stage.IsFair fair) :
    (o.enter stage).Fair fair :=
  ⟨List.forall_mem_cons.mpr ⟨hstage, h.stages⟩, h.calls⟩

/-- The method on top of the stack is taken off. -/
theorem leave (h : o.Fair fair) {stage : Stage F} {rest : List (Stage F)}
    (hstages : o.stages = stage :: rest) :
    stage.IsFair fair ∧ ({ o with stages := rest } : Outline F).Fair fair := by
  have hall := h.stages
  rw [hstages, List.forall_mem_cons] at hall
  exact ⟨hall.1, hall.2, h.calls⟩

/-- A session that settles a call stays fair. -/
theorem settle (h : o.Fair fair) (id : CallId) (c : F.Call) (f : F.State → F.State)
    {stage : Stage F} (hstage : stage.IsFair fair) : (o.settle id c f stage).Fair fair :=
  ⟨List.forall_mem_cons.mpr ⟨hstage, h.stages⟩,
    fun call hcall => h.calls call (List.mem_of_mem_filter hcall)⟩

/-- The calls of a fair session are fair. -/
theorem call? {s : Session F V} (h : s.outline.Fair fair) {id : CallId} {c : F.Call}
    (hcall : s.call? id = some c) : fair c :=
  h.calls (id, c) (mem_spots_inFlight.mp (mem_spots_of_call? hcall))

end Outline.Fair

/-! ## What one step logs -/

/-- A turn that is fair keeps the calls under way fair, and what it logs is on one line if and only
if it is fair. -/
structure Speaks (fair : F.Call → Prop) (t : Turn F) (o : Outline F) (es : List (Event F V)) :
    Prop where
  keeps : t.IsFair fair → o.Fair fair
  lines : Lines es ↔ t.IsFair fair

section Steps

variable {fair : F.Call → Prop} (h : F.Terse fair) {s : Session F V} (hs : s.outline.Fair fair)
  {t : Turn F}

include h in
/-- A publication is logged as a line if its label is one. -/
theorem lines_publish (s : Session F V) (p : Publication F.State) :
    Lines (s.publish p).2 ↔ IsLine p.label := by
  have hentry : ∀ version, IsLine (updateEntry F p.label version).line ↔ IsLine p.label := by
    intro version
    rw [LogEntry.isLine_line]
    simp +decide [updateEntry, h.name]
  constructor
  · exact fun hlines => (hentry _).mp (hlines _ (List.mem_cons_self ..))
  · intro hp entry hmem
    rcases List.mem_cons.mp hmem with heq | hmem
    · cases heq
      exact (hentry _).mpr hp
    · exact lines_store _ entry hmem

/-- Nothing is logged, and no call goes on. -/
theorem Speaks.silent {o : Outline F} (ht : t.IsFair fair) (ho : o.Fair fair)
    {es : List (Event F V)} (hes : ∀ entry, .log entry ∉ es) : Speaks fair t o es :=
  ⟨fun _ => ho, iff_of_true (lines_of_forall_ne hes) ht⟩

include h hs in
/-- A publication speaks as fairly as its label. -/
theorem speaks_publish (p : Publication F.State) (ht : IsLine p.label ↔ t.IsFair fair) :
    Speaks fair t (s.publish p).1.outline (s.publish p).2 where
  keeps _ := by
    rw [outline_publish]
    exact ⟨hs.stages, hs.calls⟩
  lines := (lines_publish h s p).trans ht

include h hs in
/-- Raising a flag speaks as fairly as the call. -/
theorem speaks_raise (id : CallId) (c : F.Call) (ht : fair c ↔ t.IsFair fair) :
    Speaks fair t (s.raise id c).1.outline (s.raise id c).2 where
  keeps hfair := by
    rw [outline_raise]
    exact ⟨List.forall_mem_cons.mpr ⟨ht.mpr hfair, hs.stages⟩, hs.calls⟩
  lines := by
    -- the flag has a label of the feature, so all depends on the entry before it
    have hevents : (s.raise id c).2 = logged (F.opening c) ++
        ((s.enter (.sending id c)).publish ⟨.update (F.flag c).raise, (F.flag c).label⟩).2 := rfl
    rw [hevents, lines_append, lines_logged, lines_publish h, h.opening,
      and_iff_left (h.flag c), ht]

include h hs in
theorem speaks_lower {id : CallId} {c : F.Call} {entry : Option LogEntry}
    (answer : Option (Answer F)) (hentry : ∀ e ∈ entry, IsLine e.line) {before : Option LogEntry}
    (hbefore : ∀ e ∈ before, IsLine e.line) :
    Speaks fair (.lowered id c) ((s.forget id).lower id c entry answer).1.outline
      (logged before ++ ((s.forget id).lower id c entry answer).2) where
  keeps _ := by
    rw [outline_lower]
    exact hs.settle id c _ hentry
  lines := by
    rw [lines_append, lines_logged]
    exact iff_of_true ⟨hbefore, (lines_publish h _ _).mpr (h.flag c)⟩ trivial

include h hs in
/-- An ask speaks as fairly as its turn. -/
theorem speaks_ask (a : F.Ask) :
    Speaks fair (askTurn s.nextCall a s.state) (s.ask a).1.outline (s.ask a).2 := by
  have hstate : ({ s with nextCall := s.nextCall + 1 } : Session F V).state = s.state := rfl
  have hnamed : ({ s with nextCall := s.nextCall + 1 } : Session F V).outline.Fair fair :=
    ⟨hs.stages, hs.calls⟩
  unfold askTurn ask
  simp only [hstate]
  cases F.accept a s.state with
  | refuse | done => exact .silent (by trivial) hnamed (by simp)
  | proceed c =>
    dsimp only
    cases hprelude : F.prelude c s.state with
    | none => exact speaks_raise h hnamed _ c Iff.rfl
    | some p =>
      -- the call is announced later, when this update has been delivered
      have hentered : (({ s with nextCall := s.nextCall + 1 } : Session F V).enter
          (.raising s.nextCall c)).outline.Fair fair := hnamed.enter trivial
      exact speaks_publish h hentered p (iff_of_true (h.prelude hprelude) trivial)

include h hs in
/-- An answer speaks as fairly as its turn. -/
theorem speaks_resolve (id : CallId) (reply : Except Failure F.Payload) :
    Speaks fair (((s.call? id).map fun c => answerTurn id c s.state reply).getD .idle)
      (s.resolve id reply).1.outline (s.resolve id reply).2 := by
  unfold resolve
  cases hcall : s.call? id with
  | none => exact .silent (by trivial) hs (by simp)
  | some c =>
    have hc : fair c := hs.call? hcall
    show Speaks fair (answerTurn id c s.state reply) _ _
    cases reply with
    | error f => exact speaks_lower h hs _ (by simp) (h.failure hc)
    | ok payload =>
      cases hsettle : F.settle c payload s.state with
      | none =>
        -- it is no answer to the call, which stays in flight
        simp only [answerTurn, hsettle]
        exact .silent (by trivial) hs (by simp)
      | some settlement =>
        cases settlement with
        | stale entry value =>
          simp only [answerTurn, hsettle]
          exact speaks_lower h hs _ (by simpa using h.stale hc hsettle) no_entry
        | store f label entry notice value =>
          simp only [answerTurn, hsettle]
          obtain ⟨hlabel, hentry⟩ := h.store hc hsettle
          have hsettled :
              ((s.forget id).enter (.closing id entry notice value)).outline.Fair fair :=
            ⟨List.forall_mem_cons.mpr ⟨hentry, hs.stages⟩,
              fun call hmem => hs.calls call (List.mem_of_mem_filter hmem)⟩
          exact speaks_publish h hsettled _ (iff_of_true hlabel trivial)

include h hs in
/-- Whatever comes of an answer, what is logged of it is on one line. -/
theorem fair_resolve (id : CallId) (reply : Except Failure F.Payload) :
    (s.resolve id reply).1.outline.Fair fair ∧ Lines (s.resolve id reply).2 := by
  have hspeaks := speaks_resolve h hs id reply
  have hfair : (((s.call? id).map fun c => answerTurn id c s.state reply).getD .idle).IsFair
      fair := by
    cases s.call? id with
    | none => trivial
    | some c =>
      rw [Option.map_some, Option.getD_some]
      unfold answerTurn
      split
      · trivial
      · split <;> trivial
  exact ⟨hspeaks.keeps hfair, hspeaks.lines.mpr hfair⟩

include h hs in
/-- **Every move of the caller speaks as fairly as its turn.** -/
theorem speaks_perform (m : Move F V) :
    Speaks fair (s.freeTurn m) (s.perform m).1.outline (s.perform m).2 := by
  cases m with
  | tick => exact .silent (by trivial) hs (by simp [perform])
  | edit e =>
    unfold freeTurn perform edit
    dsimp only
    cases hedit : F.edit e s.state with
    | none => exact .silent (by trivial) hs (by simp)
    | some p => exact speaks_publish h hs p (iff_of_true (h.edit hedit) trivial)
  | publish p => exact speaks_publish h hs p Iff.rfl
  | ask a => exact speaks_ask h hs a
  | resolve id reply => exact speaks_resolve h hs id reply
  | cancel id =>
    unfold freeTurn perform cancel
    dsimp only
    cases hcall : s.call? id with
    | none => exact .silent (by trivial) hs (by simp)
    | some c => exact speaks_lower h hs none no_entry no_entry
  | observe a =>
    have houtline : (s.perform (.observe a)).1.outline = s.outline :=
      outline_eq (s.store.sameCore_observe a) rfl rfl
    rw [houtline]
    exact .silent (by trivial) hs (by simp [perform])
  | ret =>
    have houtline : (s.perform .ret).1.outline = s.outline :=
      outline_eq s.store.sameCore_ret rfl rfl
    rw [houtline]
    exact .silent (by trivial) hs fun _ => List.not_mem_nil
  | panic =>
    -- what was to go on is given up, and what is in flight stays there
    have hcodes : (s.perform .panic).1.outline.stages = [] := s.store.panic_codes
    have hgiven : (s.perform .panic).1.outline.Fair fair :=
      ⟨hcodes ▸ List.forall_mem_nil _, hs.calls⟩
    exact .silent (by trivial) hgiven fun _ => List.not_mem_nil

include h hs in
/-- Code that goes on speaks as fairly as its stage. -/
theorem speaks_resume {stage : Stage F} {below : List (Frame F.State V (Stage F))}
    (hst : s.store.stack = .code stage :: below) :
    Speaks fair stage.turn
      (({ s with store := s.store.leave } : Session F V).resume stage).1.outline
      (({ s with store := s.store.leave } : Session F V).resume stage).2 := by
  have hleave : s.store.leave = { s.store with stack := below } := by
    unfold Store.leave
    rw [hst]
  have hstages : s.outline.stages = stage :: below.filterMap Frame.code? := by
    show s.store.codes = _
    rw [Store.codes, hst]
    rfl
  obtain ⟨hstage, hrest⟩ := hs.leave hstages
  rw [hleave]
  cases stage with
  | raising id c => exact speaks_raise h hrest id c Iff.rfl
  | sending id c =>
    -- the call was fair while it was on the stack, and is so in flight
    have hcalls : ∀ call ∈ s.calls ++ [(id, c)], fair call.2 := by
      intro call hcall
      rcases List.mem_append.mp hcall with hcall | hcall
      · exact hs.calls call hcall
      · exact List.mem_singleton.mp hcall ▸ hstage
    exact ⟨fun _ => ⟨hrest.stages, hcalls⟩,
      iff_of_true (lines_of_forall_ne (by simp [resume])) trivial⟩
  | closing id entry notice value =>
    refine ⟨fun _ => hrest, iff_of_true ?_ trivial⟩
    show Lines (logged entry ++ notice.toList.map .notified ++ _)
    rw [lines_append, lines_append, lines_logged]
    exact ⟨⟨hstage, lines_of_forall_ne (by simp)⟩, lines_of_forall_ne (by simp)⟩
  | leaving id entry answer =>
    refine ⟨fun _ => hrest, iff_of_true ?_ trivial⟩
    show Lines (logged entry ++ answer.toList.map (.answered id))
    rw [lines_append, lines_logged]
    exact ⟨hstage, lines_of_forall_ne (by simp)⟩

variable [DecidableEq V]

include h hs in
/-- **What a step logs is on one line if and only if its turn is fair**, and then nothing else is
kept for later. -/
theorem speaks (m : Move F V) : Speaks fair (s.turn m) (s.step m).1.outline (s.step m).2 := by
  unfold turn step
  split
  · exact speaks_perform h hs m
  · cases m with
    | edit | publish | ask | resolve | cancel | observe | ret | panic =>
      exact .silent (by trivial) hs (by simp)
    | tick =>
      have houtline : ({ s with store := s.store.tick.1 } : Session F V).outline = s.outline :=
        outline_eq s.store.sameCore_tick rfl rfl
      have hsilent : Speaks fair .idle ({ s with store := s.store.tick.1 } : Session F V).outline
          (s.store.tick.2.map .store) := by
        rw [houtline]
        exact .silent (by trivial) hs (by simp)
      unfold tick
      cases hst : s.store.stack with
      | nil => exact hsilent
      | cons f below =>
        cases f with
        | code stage => exact speaks_resume h hs hst
        | publishing | emitting | callback | replay => exact hsilent

include h hs in
/-- **What a run logs is on one line if and only if all its turns are fair**: no call is announced
that is not, and the caller publishes under no label with a line break. -/
theorem lines_events (ms : List (Move F V)) :
    Lines (s.events ms) ↔ ∀ t ∈ s.turns ms, t.IsFair fair := by
  induction ms generalizing s with
  | nil => simp [events, run, turns, Lines]
  | cons m ms ih =>
    have hsplit : s.events (m :: ms) = (s.step m).2 ++ (s.step m).1.events ms := rfl
    have hspeaks := speaks h hs m
    rw [hsplit, turns, lines_append, List.forall_mem_cons, hspeaks.lines]
    exact and_congr_right fun hfair => ih (hspeaks.keeps hfair)

end Steps

end Session

end LiveDesk
