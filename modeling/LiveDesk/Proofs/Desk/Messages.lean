import LiveDesk.Proofs.Session.Notices
import LiveDesk.Scenario.World

/-!
# What a desk tells the user

The parts of a desk share one notifier. A reload that succeeds, a save and a delete each tell the
user something, once; a load of columns that are of no use any more tells nothing, and so does
everything else. What the others do meanwhile makes no difference: subscribers of one part may call
methods of another one.

- `Part.due`: what the user is to be told when a call succeeds.
- `Part.late`: the calls whose answers are dropped.
- `Part.notifies`, `late_iff`: the feature stores do so.
- `Desk.Untouched`: a desk nothing has happened to.
- `World.moves`: the moves of a desk; `own`: those of one part.
- `World.messages_moves`: the messages of a desk are those of its parts.
- **`Desk.messages_owed`**: the messages of a desk are what its successful calls owe.
- `Desk.messages_owed_crowded`: a desk whose calls overlap.
-/

namespace LiveDesk

open Observable Session

/-! ## What the calls of the feature stores owe -/

/-- What is said after an explicit reload. -/
def reloadNotice (reload : Bool) : Option Notice :=
  if reload then some .reloaded else none

namespace Jobs

def due : Ask → Option Notice
  | .load reload => reloadNotice reload

theorem notifies : feature.Notifies due where
  proceed := by
    intro a x c payload y f label entry notice value haccept hsettle
    cases haccept
    cases hsettle
    rfl
  done haccept := nomatch haccept

end Jobs

namespace Templates

/-- A refresh of the selected template is not announced. -/
def due : Ask → Option Notice
  | .load reload => reloadNotice reload
  | .refresh => none

theorem notifies : feature.Notifies due where
  proceed := by
    intro a x c payload y f label entry notice value haccept hsettle
    cases a with
    | load reload =>
      cases haccept
      cases payload with
      | page =>
        cases hsettle
        rfl
      | template => cases hsettle
    | refresh =>
      simp only [feature] at haccept
      cases hselected : x.selected with
      | none =>
        rw [hselected] at haccept
        cases haccept
      | some id =>
        rw [hselected] at haccept
        cases haccept
        cases payload with
        | page => cases hsettle
        | template =>
          cases hsettle
          rfl
  done := by
    intro a x v haccept
    cases a with
    | load reload => cases haccept
    | refresh => rfl

end Templates

namespace TableFields

def due : Ask → Option Notice
  | .load _ reload => reloadNotice reload
  | .save => some .saved

/-- A load is of no use when the columns are those of another entity. -/
def late : Ask → State → Bool
  | .load entity _, x => x.entity ≠ some (Text.trim entity)
  | .save, _ => false

/-- The call that is admitted. -/
theorem eq_of_accept {a : Ask} {x : State} {c : Call} (h : feature.accept a x = .proceed c) :
    (∃ entity reload, a = .load entity reload ∧ c = .load (Text.trim entity) reload) ∨
      a = .save ∧ ∃ entity fields, c = .save entity fields := by
  cases a with
  | load entity reload =>
    cases h
    exact .inl ⟨entity, reload, rfl, rfl⟩
  | save =>
    simp only [feature, accept] at h
    split at h
    · cases h
    · split at h
      · cases h
      · cases h
        exact .inr ⟨rfl, _, _, rfl⟩

theorem notifies : feature.Notifies due where
  proceed := by
    intro a x c payload y f label entry notice value haccept hsettle
    obtain ⟨entity, reload, rfl, rfl⟩ | ⟨rfl, entity, fields, rfl⟩ := eq_of_accept haccept
    · simp only [feature, settle] at hsettle
      split at hsettle
      · cases hsettle
        rfl
      · cases hsettle
    · cases hsettle
      rfl
  done := by
    intro a x v haccept
    cases a with
    | load => cases haccept
    | save =>
      simp only [feature, accept] at haccept
      split at haccept
      · cases haccept
      · split at haccept <;> cases haccept

/-- The answers that are dropped are those to loads that are of no use any more. -/
theorem late_iff {a : Ask} {x y : State} {c : Call} {payload : List TableField}
    (haccept : feature.accept a x = .proceed c) :
    late a y = true ↔ ∃ entry value, feature.settle c payload y = some (.stale entry value) := by
  obtain ⟨entity, reload, rfl, rfl⟩ | ⟨rfl, entity, fields, rfl⟩ := eq_of_accept haccept
  · rw [late, decide_eq_true_iff]
    simp only [feature, settle]
    by_cases hentity : y.entity = some (Text.trim entity) <;> simp [hentity]
  · simp [late, feature, settle]

end TableFields

namespace SavedQueries

def due : Ask → Option Notice
  | .load reload => reloadNotice reload
  | .save _ _ => some .saved
  | .delete _ => some .deleted

theorem notifies : feature.Notifies due where
  proceed := by
    intro a x c payload y f label entry notice value haccept hsettle
    cases a with
    | load reload | delete id =>
      cases haccept
      cases payload <;> cases hsettle
      rfl
    | save name spec =>
      simp only [feature] at haccept
      split at haccept
      · cases haccept
      · cases haccept
        cases payload <;> cases hsettle
        rfl
  done := by
    intro a x v haccept
    cases a with
    | load | delete => cases haccept
    | save name spec =>
      simp only [feature] at haccept
      split at haccept <;> cases haccept

end SavedQueries

namespace RuleSimulator

/-- A simulation is not announced. -/
theorem notifies : feature.Notifies fun _ => none where
  proceed _ hsettle := by
    cases hsettle
    rfl
  done _ := rfl

end RuleSimulator

namespace Document

/-- Nor is what a document does. -/
theorem notifies : feature.Notifies fun _ => none where
  proceed _ hsettle := by
    cases hsettle
    rfl
  done _ := rfl

end Document

namespace Part

/-- What the user is to be told when a call succeeds. -/
def due : (p : Part) → p.feature.Ask → Option Notice
  | .jobs => Jobs.due
  | .templates => Templates.due
  | .tableFields => TableFields.due
  | .savedQueries => SavedQueries.due
  | .document | .ruleSimulator => fun _ => none

/-- Whether the answer to a call is of no use any more when it arrives. -/
def late : (p : Part) → p.feature.Ask → p.feature.State → Bool
  | .tableFields => TableFields.late
  | .document | .jobs | .templates | .ruleSimulator | .savedQueries => fun _ _ => false

theorem notifies (p : Part) : p.feature.Notifies p.due := by
  cases p with
  | document => exact Document.notifies
  | jobs => exact Jobs.notifies
  | templates => exact Templates.notifies
  | ruleSimulator => exact RuleSimulator.notifies
  | tableFields => exact TableFields.notifies
  | savedQueries => exact SavedQueries.notifies

/-- The answers that are dropped are those that are of no use any more. -/
theorem late_iff {p : Part} {a : p.feature.Ask} {x y : p.feature.State} {c : p.feature.Call}
    {payload : p.feature.Payload} (haccept : p.feature.accept a x = .proceed c) :
    p.late a y = true ↔
      ∃ entry value, p.feature.settle c payload y = some (.stale entry value) := by
  cases p with
  | tableFields => exact TableFields.late_iff haccept
  | document | jobs | ruleSimulator =>
    exact ⟨fun h => (nomatch h), fun ⟨_, _, h⟩ => (nomatch h)⟩
  | templates | savedQueries =>
    refine ⟨fun h => (nomatch h), fun ⟨entry, value, h⟩ => ?_⟩
    cases c <;> cases payload <;> cases h

end Part

/-! ## Desks -/

namespace Desk

/-- The part that is put in place is there. -/
@[simp] theorem get?_put_self (d : Desk) (p : Part) (s : Session p.feature View) :
    (d.put p s).get? p = some s := by
  cases p <;> rfl

theorem get?_put_of_ne (d : Desk) {p q : Part} (h : q ≠ p) (s : Session p.feature View) :
    (d.put p s).get? q = d.get? q := by
  cases p <;> cases q <;> first | rfl | exact absurd rfl h

/-- A desk nothing has happened to. -/
def Untouched (d : Desk) : Prop :=
  ∀ p s, d.get? p = some s → ∃ initial, s = .opening initial

/-- A part that is set up on its own. -/
theorem untouched_single (p : Part) (initial : p.feature.State) :
    (single p initial).Untouched := by
  intro q s h
  by_cases hq : q = p
  · subst hq
    rw [single, get?_put_self] at h
    exact ⟨initial, (Option.some.inj h).symm⟩
  · rw [single, get?_put_of_ne _ hq] at h
    cases q <;> cases h

/-- A desk that is opened. -/
theorem untouched_of_opening {s : Settings} {d : Desk} {entries : List LogEntry}
    (h : opening s = .ok (d, entries)) : d.Untouched := by
  unfold opening at h
  cases hvalid : s.validate with
  | error e =>
    rw [hvalid] at h
    cases h
  | ok s' =>
    rw [hvalid] at h
    cases h
    intro p s h
    cases p <;> cases h <;> exact ⟨_, rfl⟩

end Desk

/-! ## The messages of a desk -/

/-- A move of one part. -/
abbrev DeskMove := (p : Part) × Move p.feature View

/-- The moves of one part. -/
def own (p : Part) (ms : List DeskMove) : List (Move p.feature View) :=
  ms.filterMap fun m => if h : m.1 = p then some (h ▸ m.2) else none

/-- A move of the part comes first among its own moves. -/
@[simp] theorem own_cons_self (p : Part) (m : Move p.feature View) (ms : List DeskMove) :
    own p (⟨p, m⟩ :: ms) = m :: own p ms := by
  simp [own]

/-- A move of another part is not among them. -/
theorem own_cons_of_ne {p q : Part} (h : q ≠ p) (m : Move q.feature View) (ms : List DeskMove) :
    own p (⟨q, m⟩ :: ms) = own p ms := by
  simp [own, h]

namespace Desk

/-- The notices of all parts in a run, in words. -/
def told (d : Desk) (words : Messages) (ms : List DeskMove) : List String :=
  Part.all.flatMap fun p => (d.get? p).toList.flatMap fun s =>
    (notices (s.events (own p ms))).map (words.text p)

end Desk

namespace Scenario.World

/-- The moves of a desk, with what follows from their events. The backends answer when the caller
says so. -/
def moves (w : World) (ms : List DeskMove) : World :=
  ms.foldl (fun w m => w.move m.1 m.2) w

/-- Two worlds with the same desk, settings and backends, the second one with more messages. -/
structure Tells (w w' : World) (texts : List String) : Prop where
  desk : w'.desk = w.desk
  settings : w'.settings = w.settings
  repository : w'.repository = w.repository
  words : w'.words = w.words
  messages : w'.messages = w.messages ++ texts

/-- Nothing is told where nothing happens. -/
theorem Tells.refl (w : World) : Tells w w [] :=
  ⟨rfl, rfl, rfl, rfl, (List.append_nil _).symm⟩

/-- What is told in two steps is told in their order. -/
theorem Tells.trans {w w' w'' : World} {texts texts' : List String} (h : Tells w w' texts)
    (h' : Tells w' w'' texts') : Tells w w'' (texts ++ texts') where
  desk := h'.desk.trans h.desk
  settings := h'.settings.trans h.settings
  repository := h'.repository.trans h.repository
  words := h'.words.trans h.words
  messages := by rw [h'.messages, h.messages, List.append_assoc]

/-- Silent changes of a world. -/
theorem Tells.silent {w w' : World} (hd : w'.desk = w.desk) (hs : w'.settings = w.settings)
    (hr : w'.repository = w.repository) (hw : w'.words = w.words)
    (hm : w'.messages = w.messages) : Tells w w' [] :=
  ⟨hd, hs, hr, hw, hm.trans (List.append_nil _).symm⟩

/-- The call of a subscriber tells no message. -/
theorem tells_call (w : World) (s : SubscriptionName) (value : Json) :
    Tells w (w.call s value) [] := by
  unfold call
  split <;> exact .silent rfl rfl rfl rfl rfl

theorem tells_count (w : World) (q : ProjectionName) : Tells w (w.count q) [] := by
  unfold count
  split <;> exact .silent rfl rfl rfl rfl rfl

/-- A request tells no message. -/
theorem tells_sent (w : World) (p : Part) (id : CallId) (r : p.feature.Request) :
    Tells w (w.sent p id r) [] := by
  cases p with
  | document | jobs | templates | ruleSimulator | tableFields => exact .silent rfl rfl rfl rfl rfl
  | savedQueries =>
    unfold sent
    dsimp only
    split <;> exact .silent rfl rfl rfl rfl rfl

/-- What follows from an event leaves the desk alone. Notices become messages, and nothing else
does. -/
theorem tells_note (w : World) (p : Part) (e : Session.Event p.feature View) :
    Tells w (note p w e) ((notice? e).toList.map (w.settings.messages.text p)) := by
  cases e with
  | store e =>
    cases e with
    | called o signal => exact w.tells_call _ _
    | evaluated q f v => exact w.tells_count _
    | published | emitted => exact .refl w
  | log => exact .silent rfl rfl rfl rfl rfl
  | sent id r => exact w.tells_sent p id r
  | notified n => exact ⟨rfl, rfl, rfl, rfl, rfl⟩
  | answered => exact .silent rfl rfl rfl rfl rfl

/-- **What a session's events tell are the texts of its notices.** -/
theorem tells_foldl_note (p : Part) (es : List (Session.Event p.feature View)) (w : World) :
    Tells w (es.foldl (note p) w) ((notices es).map (w.settings.messages.text p)) := by
  induction es generalizing w with
  | nil => exact .refl w
  | cons e es ih =>
    have hnote := w.tells_note p e
    have hrest := ih (note p w e)
    rw [hnote.settings] at hrest
    have hall := hnote.trans hrest
    rw [← List.map_append] at hall
    show Tells w _ ((notices (e :: es)).map _)
    rw [show notices (e :: es) = (notice? e).toList ++ notices es from notices_append [e] es]
    exact hall

/-- Without a repository, a part makes its own move. -/
theorem take_eq {w : World} (hscripted : w.repository = none) (p : Part)
    (s : Session p.feature View) (m : Move p.feature View) :
    w.take p s m = ({ w with desk := w.desk.put p (s.step m).1 }, (s.step m).2) := by
  cases p with
  | document | jobs | templates | ruleSimulator | tableFields => rfl
  | savedQueries =>
    unfold take
    rw [hscripted]

/-- A part that is not there makes no move. -/
theorem move_of_none {w : World} {p : Part} (h : w.desk.get? p = none)
    (m : Move p.feature View) : w.move p m = w := by
  rw [move, h]

/-- A move of one part changes that part alone, and sends what it notifies. -/
theorem tells_move {w : World} (hscripted : w.repository = none) {p : Part}
    {s : Session p.feature View} (h : w.desk.get? p = some s) (m : Move p.feature View) :
    Tells { w with desk := w.desk.put p (s.step m).1 } (w.move p m)
      ((notices (s.step m).2).map (w.settings.messages.text p)) := by
  rw [move, h]
  dsimp only
  rw [take_eq hscripted]
  exact tells_foldl_note p (s.step m).2 { w with desk := w.desk.put p (s.step m).1 }

/-- What all parts tell after a move of one of them. -/
theorem told_cons {d : Desk} {p : Part} {s : Session p.feature View} (h : d.get? p = some s)
    (words : Messages) (m : Move p.feature View) (ms : List DeskMove) :
    ((notices (s.step m).2).map (words.text p) ++ (d.put p (s.step m).1).told words ms).Perm
      (d.told words (⟨p, m⟩ :: ms)) := by
  -- the texts of the move, by part
  have hown : (notices (s.step m).2).map (words.text p)
      = Part.all.flatMap fun q =>
          if q = p then (notices (s.step m).2).map (words.text p) else [] := by
    cases p <;> simp [Part.all]
  rw [hown]
  refine (List.flatMap_append_perm _ _ _).trans (List.Perm.of_eq ?_)
  unfold Desk.told
  congr 1
  funext q
  by_cases hq : q = p
  · subst hq
    rw [if_pos rfl, Desk.get?_put_self, h, own_cons_self]
    simp [events_cons]
  · rw [if_neg hq, Desk.get?_put_of_ne _ hq, own_cons_of_ne (Ne.symm hq)]
    rfl

/-- **The messages of a desk are those of its parts.** -/
theorem messages_moves (ms : List DeskMove) {w : World} (hscripted : w.repository = none) :
    (w.moves ms).messages.Perm (w.messages ++ w.desk.told w.settings.messages ms) := by
  induction ms generalizing w with
  | nil =>
    have hnil : w.desk.told w.settings.messages [] = [] :=
      List.flatMap_eq_nil_iff.mpr fun _ _ => List.flatMap_eq_nil_iff.mpr fun _ _ => rfl
    rw [hnil, List.append_nil]
    exact List.Perm.refl _
  | cons x ms ih =>
    obtain ⟨p, m⟩ := x
    show ((w.move p m).moves ms).messages.Perm _
    cases h : w.desk.get? p with
    | none =>
      -- a part that is not there takes no move, and its own moves tell nothing
      rw [move_of_none h]
      refine (ih hscripted).trans (List.Perm.of_eq ?_)
      unfold Desk.told
      congr 2
      funext q
      by_cases hq : q = p
      · subst hq
        rw [h]
        rfl
      · rw [own_cons_of_ne (Ne.symm hq)]
    | some s =>
      have hmove := tells_move hscripted h m
      refine (ih (hmove.repository.trans hscripted)).trans ?_
      rw [hmove.messages, hmove.desk, hmove.settings, List.append_assoc]
      exact (told_cons h _ m ms).append_left _

/-- Every part takes its own moves, whatever the others do. -/
theorem get?_moves (p : Part) (ms : List DeskMove) {w : World} (hscripted : w.repository = none) :
    (w.moves ms).desk.get? p = (w.desk.get? p).map fun s => s.after (own p ms) := by
  induction ms generalizing w with
  | nil => simp [moves, own]
  | cons x ms ih =>
    obtain ⟨q, m⟩ := x
    show ((w.move q m).moves ms).desk.get? p = _
    cases h : w.desk.get? q with
    | none =>
      rw [move_of_none h, ih hscripted]
      by_cases hp : q = p
      · subst hp
        rw [h]
        rfl
      · rw [own_cons_of_ne hp]
    | some s =>
      have hmove := tells_move hscripted h m
      rw [ih (hmove.repository.trans hscripted), hmove.desk]
      by_cases hp : q = p
      · subst hp
        rw [Desk.get?_put_self, h, own_cons_self]
        rfl
      · rw [Desk.get?_put_of_ne _ (Ne.symm hp), own_cons_of_ne hp]

end Scenario.World

namespace Desk

/-- **The messages of a desk are what its successful calls owe.** In every run of the parts of a
desk, whatever their subscribers' code and their backends do:

- the messages are those that the parts owe for the calls that return with success: a reload owes
  one, and so do a save and a delete; nothing else does, and a call does not if its answer is
  dropped;
- every part goes its own way, and a call returns at most once;
- an answer is dropped if it comes to a load of columns when they are those of another entity;
- when a message is sent, the call that owes it returns, and the snapshot with its answer became
  current before. -/
theorem messages_owed {desk : Desk} (huntouched : desk.Untouched) (settings : Settings)
    (words : Storage.Wording) (ms : List DeskMove) :
    let w := (Scenario.World.opening desk settings none words).moves ms
    w.messages.Perm (Part.all.flatMap fun p => (desk.get? p).toList.flatMap fun start =>
      (start.owing p.due (own p ms)).map (settings.messages.text p)) ∧
    ∀ p start, desk.get? p = some start →
      w.desk.get? p = some (start.after (own p ms)) ∧
      ((returned (start.events (own p ms))).map Prod.fst).Nodup ∧
      (∀ id, id ∈ start.stale (own p ms) ↔
        ∃ a payload b c ask, own p ms = a ++ .resolve id (.ok payload) :: b ∧
          (start.after a).isFree = true ∧ (start.after a).call? id = some c ∧
          (start.asked (own p ms)).lookup id = some ask ∧
          p.late ask (start.after a).state = true) ∧
      ∀ a m b n, own p ms = a ++ m :: b → n ∈ notices ((start.after a).step m).2 →
        ∃ id ask value, notices ((start.after a).step m).2 = [n] ∧
          returned ((start.after a).step m).2 = [(id, value)] ∧
          (start.asked a).lookup id = some ask ∧ p.due ask = some n ∧
          start.Stored id (some n) value a := by
  intro w
  constructor
  -- no part has been asked anything before, so it owes for the calls of the run only
  · refine (Scenario.World.messages_moves ms (w := .opening desk settings none words) rfl).trans
      (List.Perm.of_eq ?_)
    show Desk.told desk settings.messages ms = _
    unfold Desk.told
    congr 1
    funext p
    cases h : desk.get? p with
    | none => rfl
    | some start =>
      obtain ⟨initial, rfl⟩ := huntouched p start h
      show (notices _).map _ ++ [] = (owing _ _ _).map _ ++ []
      rw [notices_eq p.notifies]
  · intro p start h
    obtain ⟨initial, rfl⟩ := huntouched p start h
    refine ⟨?_, returned_nodup (lived (V := View) initial []) _,
      mem_stale_iff p.notifies Part.late_iff initial _, ?_⟩
    · rw [Scenario.World.get?_moves p ms (w := .opening desk settings none words) rfl]
      show (desk.get? p).map _ = _
      rw [h, Option.map_some]
    · intro a m b n _ hn
      exact stored_of_notice p.notifies hn

section Examples

/-- A desk as it is opened. -/
def fresh : Desk where
  document := none
  jobs := some (.opening (.opening 25))
  templates := some (.opening .opening)
  ruleSimulator := some (.opening .opening)
  tableFields := some (.opening .opening)
  savedQueries := some (.opening .opening)

/-- The default settings open a desk with all parts. -/
theorem opening_default (b : Build) :
    opening (.default b) = .ok (fresh, openingEntries (.default b)) := by
  cases b <;> rfl

/-- Moves of one part, each followed by what the library does. -/
def on (p : Part) (ms : List (Move p.feature View)) : List DeskMove :=
  (paced ms).map fun m => ⟨p, m⟩

/-- Jobs are asked for three times; one load is not a reload, and one is given up. A subscriber of
the columns saves them while they are being loaded, and asks for two changes of the saved queries,
of which one fails. The columns are switched before they arrive, so they are dropped, and those of
the other entity do not arrive. -/
def crowded : List DeskMove :=
  on .jobs [.ask (.load true), .ask (.load false), .ask (.load true)] ++
  on .tableFields [.observe .subscribe, .ask (.load "articles" true), .ask .save] ++
  on .savedQueries [.ask (.save " bugs " .empty), .ask (.delete (.ofNat 7))] ++
  on .tableFields [.ret, .tick, .ret, .tick, .ret] ++
  on .jobs [.resolve 1 (.ok ⟨[], 0, .nothing⟩), .resolve 0 (.ok ⟨[], 0, .nothing⟩), .cancel 2] ++
  on .templates [.ask .refresh] ++
  on .tableFields [.resolve 1 (.ok []), .ret, .ask (.load "authors" true), .ret, .tick, .ret,
    .resolve 0 (.ok []), .ret, .resolve 2 (.error ⟨.transport, "offline"⟩), .ret] ++
  on .savedQueries [.resolve 1 (.ok .deleted), .resolve 0 (.error ⟨.transport, "offline"⟩)]

theorem owing_crowded :
    (Part.all.flatMap fun p => (fresh.get? p).toList.flatMap fun start =>
      (start.owing p.due (own p crowded)).map (Messages.default.text p))
      = ["Jobs reloaded", "Table fields saved", "Query deleted"] := by decide +kernel

/-- Of nine calls three tell the user something. -/
theorem messages_owed_crowded :
    fresh.Untouched ∧
      ((Scenario.World.opening fresh (.default .debug) none ⟨"", ""⟩).moves crowded).messages.Perm
        ["Jobs reloaded", "Table fields saved", "Query deleted"] := by
  have huntouched := untouched_of_opening (opening_default .debug)
  have howed := (messages_owed huntouched (.default .debug) ⟨"", ""⟩ crowded).1
  exact ⟨huntouched, owing_crowded ▸ howed⟩

end Examples

end Desk

end LiveDesk
