import LiveDesk.Proofs.Session.Deeds

/-!
# What is published, and by whom

Every snapshot that a session publishes is published in one step by one turn: an edit, an update of
the caller's own, or a call that goes from one spot of its life to the next. The postings of a run
list them with the snapshots before and after.

- `Session.published`: the snapshots in a list of events.
- `Turn.publishes`: whether a turn publishes a snapshot.
- **`Session.posts`**: a step publishes one snapshot or none, as its turn says, and what it
  publishes is current afterwards.
- `Posting`, `Session.postings`, `postingsOf`: what was published in a run, and by one call.
- **`Session.published_events`**, `version_after`: the postings are all that is published, and the
  version counts them.
- `Session.after_of_mem_postings`: every one of them is made of the snapshot before it.
-/

namespace LiveDesk

namespace Observable

variable {S V H : Type}

/-- The snapshot that an event makes current. -/
def Event.snapshot? : Event S V → Option (Snapshot S)
  | .published x => some x
  | .called _ _ | .evaluated _ _ _ | .emitted _ _ => none

/-- The snapshot that an update makes of another one. -/
def Snapshot.next (x : Snapshot S) (state : S) : Snapshot S :=
  ⟨x.version + 1, state⟩

namespace Store

/-- A change makes the next snapshot current. -/
theorem change_current (s : Store S V H) (c : Change S) :
    (s.change c).1.current = s.current.next (c.apply s.initial s.current.state) := by
  unfold change
  dsimp only
  split <;> rfl

/-- A change publishes the snapshot that it makes current. -/
theorem change_events (s : Store S V H) (c : Change S) :
    (s.change c).2 = [.published (s.change c).1.current] := by
  unfold change
  dsimp only
  split <;> rfl

/-! ## The store's own steps publish nothing -/

section Steps

variable [DecidableEq V] (s : Store S V H)

theorem snapshots_accept (q : Projection S V) (v : V) :
    (s.accept q v).2.filterMap Event.snapshot? = [] := by
  unfold accept
  dsimp only
  split
  · rfl
  · split <;> rfl

theorem snapshots_tell (o : Observer) (signal : Signal S V) :
    (s.tell o signal).2.filterMap Event.snapshot? = [] := by
  unfold tell
  split
  · rfl
  · split
    · rfl
    · split
      · rfl
      · split
        · rfl
        · exact snapshots_accept s _ _

/-- What the delivery does by itself publishes no snapshot. -/
theorem snapshots_tick : s.tick.2.filterMap Event.snapshot? = [] := by
  unfold tick
  split
  · unfold publishStep
    split
    · dsimp only
      split
      · exact snapshots_tell _ _ _
      · rfl
    · rfl
    · split <;> rfl
  · unfold emitStep
    split
    · dsimp only
      split
      · exact snapshots_tell _ _ _
      · rfl
    · rfl
    · split
      · rfl
      · split <;> rfl
  · rfl

end Steps

/-- Observing publishes no snapshot. -/
theorem snapshots_observe (s : Store S V H) (a : Observation S V) :
    (s.observe a).2.filterMap Event.snapshot? = [] := by
  cases a with
  | share | drop | subscribe | unsubscribe | detach => rfl
  | project select => rfl
  | chain source select =>
    unfold observe chain
    dsimp only
    split <;> rfl
  | watch p =>
    unfold observe watch
    dsimp only
    split <;> rfl

end Store

end Observable

open Observable

variable {F : Feature} {V : Type}

/-- Whether a turn publishes a snapshot. -/
def Turn.publishes : Turn F → Bool
  | .edited _ _ | .published _ | .begun _ _ _ | .opened _ _ | .raised _ _ | .stored _ _ _ _
  | .lowered _ _ => true
  | .idle | .declined | .sent _ _ | .ended _ | .failed => false

namespace Session

/-- The snapshot that an event makes current. -/
def Event.snapshot? : Event F V → Option (Snapshot F.State)
  | .store e => e.snapshot?
  | .log _ | .sent _ _ | .notified _ | .answered _ _ => none

/-- The snapshots that are published in a list of events. -/
def published (es : List (Event F V)) : List (Snapshot F.State) :=
  es.filterMap Event.snapshot?

@[simp] theorem published_append (es es' : List (Event F V)) :
    published (es ++ es') = published es ++ published es' :=
  List.filterMap_append ..

@[simp] theorem published_logged (entry : Option LogEntry) :
    published (logged entry : List (Event F V)) = [] := by
  cases entry <;> rfl

theorem published_store (es : List (Observable.Event F.State V)) :
    published (es.map .store : List (Event F V)) = es.filterMap Observable.Event.snapshot? := by
  rw [published, List.filterMap_map]
  rfl

/-- A turn publishes one snapshot or none. What it publishes is made of the snapshot before, and is
current afterwards. -/
structure Posts (s : Session F V) (t : Turn F) (s' : Session F V) (es : List (Event F V)) :
    Prop where
  published : published es = if t.publishes then [s'.store.current] else []
  current : s'.store.current
    = if t.publishes then s.store.current.next (t.apply s.store.initial s.state)
      else s.store.current

namespace Posts

variable {s s' : Session F V} {t : Turn F} {es : List (Event F V)}

/-- Nothing is published. -/
theorem silent (ht : t.publishes = false) (hes : Session.published es = [])
    (hcurrent : s'.store.current = s.store.current) : Posts s t s' es where
  published := by rw [ht, hes]; rfl
  current := by rw [ht, hcurrent]; rfl

/-- An update is published. -/
theorem publish {r : Session F V} (p : Publication F.State) (ht : t.publishes = true)
    (hcurrent : r.store.current = s.store.current) (hinitial : r.store.initial = s.store.initial)
    (happly : t.apply s.store.initial s.state = p.change.apply s.store.initial s.state)
    (hes : Session.published es = Session.published (r.publish p).2) :
    Posts s t (r.publish p).1 es where
  published := by
    rw [ht, hes]
    show Session.published (.log _ :: (r.store.change p.change).2.map .store) = _
    rw [r.store.change_events]
    rfl
  current := by
    rw [if_pos ht, happly]
    show (r.store.change p.change).1.current = _
    rw [r.store.change_current, hcurrent, hinitial]
    rfl

end Posts

variable (s : Session F V)

/-- Raising a flag posts one snapshot. -/
theorem posts_raise {r : Session F V} {t : Turn F} {id : CallId} {c : F.Call}
    (ht : t.publishes = true) (hcurrent : r.store.current = s.store.current)
    (hinitial : r.store.initial = s.store.initial)
    (happly : t.apply s.store.initial s.state = (F.flag c).raise s.state) :
    Posts s t (r.raise id c).1 (r.raise id c).2 := by
  refine .publish (r := r.enter (.sending id c)) ⟨.update (F.flag c).raise, (F.flag c).label⟩ ht
    hcurrent hinitial happly ?_
  show published (logged (F.opening c) ++ _) = _
  rw [published_append, published_logged]
  rfl

/-- Lowering a flag posts one snapshot. -/
theorem posts_lower {t : Turn F} {id : CallId} {c : F.Call} {entry : Option LogEntry}
    {answer : Option (Answer F)} {es : List (Event F V)} (ht : t.publishes = true)
    (happly : t.apply s.store.initial s.state = (F.flag c).lower s.state)
    (hes : published es = published ((s.forget id).lower id c entry answer).2) :
    Posts s t ((s.forget id).lower id c entry answer).1 es :=
  .publish (r := (s.forget id).enter (.leaving id entry answer))
    ⟨.update (F.flag c).lower, (F.flag c).label⟩ ht rfl rfl happly hes

theorem posts_ask (a : F.Ask) :
    Posts s (askTurn s.nextCall a s.state) (s.ask a).1 (s.ask a).2 := by
  have hstate : ({ s with nextCall := s.nextCall + 1 } : Session F V).state = s.state := rfl
  unfold askTurn ask
  simp only [hstate]
  cases F.accept a s.state with
  | refuse | done => exact .silent rfl rfl rfl
  | proceed c =>
    dsimp only
    cases F.prelude c s.state with
    | none => exact s.posts_raise rfl rfl rfl rfl
    | some p => exact .publish p rfl rfl rfl rfl rfl

theorem posts_resolve (id : CallId) (reply : Except Failure F.Payload) :
    Posts s (((s.call? id).map fun c => answerTurn id c s.state reply).getD .idle)
      (s.resolve id reply).1 (s.resolve id reply).2 := by
  unfold resolve
  cases s.call? id with
  | none => exact .silent rfl rfl rfl
  | some c =>
    show Posts s (answerTurn id c s.state reply) _ _
    cases reply with
    | error f =>
      refine s.posts_lower rfl rfl ?_
      rw [published_append, published_logged]
      rfl
    | ok payload =>
      cases hsettle : F.settle c payload s.state with
      | none =>
        simp only [answerTurn, hsettle]
        exact .silent rfl rfl rfl
      | some settlement =>
        cases settlement with
        | stale entry value =>
          simp only [answerTurn, hsettle]
          exact s.posts_lower rfl rfl rfl
        | store f label entry notice value =>
          simp only [answerTurn, hsettle]
          exact .publish (r := (s.forget id).enter (.closing id entry notice value)) _ rfl rfl rfl
            rfl rfl

/-- **A move of the caller posts what its turn publishes.** -/
theorem posts_perform (m : Move F V) :
    Posts s (s.freeTurn m) (s.perform m).1 (s.perform m).2 := by
  cases m with
  | tick => exact .silent rfl rfl rfl
  | edit e =>
    unfold freeTurn perform edit
    dsimp only
    cases F.edit e s.state with
    | none => exact .silent rfl rfl rfl
    | some p => exact .publish p rfl rfl rfl rfl rfl
  | publish p => exact .publish p rfl rfl rfl rfl rfl
  | ask a => exact s.posts_ask a
  | resolve id reply => exact s.posts_resolve id reply
  | cancel id =>
    unfold freeTurn perform cancel
    dsimp only
    cases s.call? id with
    | none => exact .silent rfl rfl rfl
    | some c => exact s.posts_lower rfl rfl rfl
  | observe a =>
    refine .silent rfl ?_ (s.store.sameCore_observe a).current
    show published ((s.store.observe a).2.map .store) = []
    rw [published_store, s.store.snapshots_observe]
  | ret => exact .silent rfl rfl s.store.sameCore_ret.current
  | panic => exact .silent rfl rfl s.store.panic_current

/-- Code that goes on posts what its stage publishes. -/
theorem posts_resume {stage : Stage F} {below : List (Frame F.State V (Stage F))}
    (hst : s.store.stack = .code stage :: below) :
    Posts s stage.turn (({ s with store := s.store.leave } : Session F V).resume stage).1
      (({ s with store := s.store.leave } : Session F V).resume stage).2 := by
  have hleave : s.store.leave = { s.store with stack := below } := by
    unfold Store.leave
    rw [hst]
  rw [hleave]
  cases stage with
  | raising id c => exact s.posts_raise rfl rfl rfl rfl
  | sending id c => exact .silent rfl rfl rfl
  | closing id entry notice value =>
    refine .silent rfl ?_ rfl
    show published (logged entry ++ notice.toList.map .notified ++ _) = []
    rw [published_append, published_append, published_logged]
    cases notice <;> rfl
  | leaving id entry answer =>
    refine .silent rfl ?_ rfl
    show published (logged entry ++ answer.toList.map (.answered id)) = []
    rw [published_append, published_logged]
    cases answer <;> rfl

variable [DecidableEq V]

/-- **A step publishes what its turn says.** -/
theorem posts (m : Move F V) : Posts s (s.turn m) (s.step m).1 (s.step m).2 := by
  unfold turn step
  split
  · exact s.posts_perform m
  · cases m with
    | edit | publish | ask | resolve | cancel | observe | ret | panic => exact .silent rfl rfl rfl
    | tick =>
      have hsilent : Posts s .idle ({ s with store := s.store.tick.1 } : Session F V)
          (s.store.tick.2.map .store) :=
        .silent rfl (by rw [published_store, s.store.snapshots_tick]) s.store.sameCore_tick.current
      unfold tick
      cases hst : s.store.stack with
      | nil => exact hsilent
      | cons f below =>
        cases f with
        | code stage => exact s.posts_resume hst
        | publishing | emitting | callback | replay => exact hsilent

end Session

/-! ## Postings -/

/-- A snapshot that was published, with the turn that published it and the snapshot before. -/
structure Posting (F : Feature) where
  turn : Turn F
  before : Snapshot F.State
  after : Snapshot F.State

namespace Session

variable [DecidableEq V]

/-- What is published in a step. -/
def posting? (s : Session F V) (m : Move F V) : Option (Posting F) :=
  if (s.turn m).publishes then some ⟨s.turn m, s.store.current, (s.step m).1.store.current⟩
  else none

/-- What is published in a run. -/
def postings (s : Session F V) : List (Move F V) → List (Posting F)
  | [] => []
  | m :: ms => (s.posting? m).toList ++ (s.step m).1.postings ms

/-- What a call publishes in a run. -/
def postingsOf (s : Session F V) (id : CallId) (ms : List (Move F V)) : List (Posting F) :=
  (s.postings ms).filter fun x => x.turn.subject? = some id

variable {s : Session F V} {m : Move F V} {ms : List (Move F V)}

theorem postings_append (s : Session F V) (ms ms' : List (Move F V)) :
    s.postings (ms ++ ms') = s.postings ms ++ (s.after ms).postings ms' := by
  induction ms generalizing s with
  | nil => rfl
  | cons m ms ih =>
    rw [List.cons_append, postings, postings, ih, List.append_assoc, after_cons]

theorem postingsOf_append (s : Session F V) (id : CallId) (ms ms' : List (Move F V)) :
    s.postingsOf id (ms ++ ms') = s.postingsOf id ms ++ (s.after ms).postingsOf id ms' := by
  rw [postingsOf, postings_append, List.filter_append]
  rfl

/-- What is published is what the turn makes of the snapshot before. -/
theorem posting_of_publishes (h : (s.turn m).publishes = true) :
    s.posting? m = some ⟨s.turn m, s.store.current,
      s.store.current.next ((s.turn m).apply s.store.initial s.state)⟩ := by
  rw [posting?, if_pos h, (s.posts m).current, if_pos h]

theorem posting_of_not_publishes (h : (s.turn m).publishes = false) : s.posting? m = none := by
  rw [posting?, h]
  rfl

/-- A step publishes its posting, and nothing else. -/
theorem published_step (s : Session F V) (m : Move F V) :
    published (s.step m).2 = (s.posting? m).toList.map (·.after) := by
  rw [(s.posts m).published, posting?]
  split <;> rfl

/-- The version counts the snapshots that are posted. -/
theorem version_step (s : Session F V) (m : Move F V) :
    (s.step m).1.store.current.version
      = s.store.current.version + (s.posting? m).toList.length := by
  rw [(s.posts m).current, posting?]
  split <;> rfl

/-- **The postings of a run are all that is published in it.** -/
theorem published_events (s : Session F V) (ms : List (Move F V)) :
    published (s.events ms) = (s.postings ms).map (·.after) := by
  induction ms generalizing s with
  | nil => rfl
  | cons m ms ih =>
    show published ((s.step m).2 ++ (s.step m).1.events ms) = _
    rw [published_append, published_step, ih, postings, List.map_append]

/-- The version counts the postings. -/
theorem version_after (s : Session F V) (ms : List (Move F V)) :
    (s.after ms).store.current.version
      = s.store.current.version + (s.postings ms).length := by
  induction ms generalizing s with
  | nil => rfl
  | cons m ms ih =>
    rw [after_cons, ih, version_step, postings, List.length_append, Nat.add_assoc]

/-- The turns of the postings are the turns of the run that publish. -/
theorem turns_postings (s : Session F V) (ms : List (Move F V)) :
    (s.postings ms).map (·.turn) = (s.turns ms).filter Turn.publishes := by
  induction ms generalizing s with
  | nil => rfl
  | cons m ms ih =>
    rw [postings, List.map_append, ih, turns]
    by_cases h : (s.turn m).publishes = true
    · rw [posting_of_publishes h, List.filter_cons_of_pos h]
      rfl
    · rw [posting_of_not_publishes (Bool.eq_false_iff.mpr h), List.filter_cons_of_neg h]
      rfl

/-- A posting is made of the snapshot before it. -/
theorem after_of_mem_postings {x : Posting F} (h : x ∈ s.postings ms) :
    x.after = x.before.next (x.turn.apply s.store.initial x.before.state) := by
  induction ms generalizing s with
  | nil => cases h
  | cons m ms ih =>
    rcases List.mem_append.mp h with h | h
    · by_cases hm : (s.turn m).publishes = true
      · rw [posting_of_publishes hm] at h
        rw [List.mem_singleton.mp h]
        rfl
      · rw [posting_of_not_publishes (Bool.eq_false_iff.mpr hm)] at h
        cases h
    · rw [ih h, show (s.step m).1.store.initial = _ from (s.course m).state.1]
      rfl

end Session

end LiveDesk
