import LiveDesk.Journal
import LiveDesk.Proofs.Desk.Messages
import LiveDesk.Proofs.Storage.Entries
import LiveDesk.Proofs.TableFields.Tables

/-!
# The lines of a desk's log

Every entry of the log should be one line. What a desk logs in its own words is, and so are numbers,
identifiers and kinds of failures. Two texts of unknown origin get into the log as they are, though:
the entity whose columns are loaded or saved, and a text in the table of saved queries that is no
identifier. A third one is the label under which the caller publishes an update of its own.

- `Part.fair`, `Part.terse`: what each feature store logs.
- `Forges`: the moves that log one of the three texts with a line break in it.
- `World.lines_move`: what one move of a desk logs.
- **`Desk.one_line`**: the log of a desk has only whole lines unless a move forges one.
- `Desk.one_line_stored`: a stored text that ends one line and begins another.
- `Desk.one_line_broken`: an entity that does so.
-/

namespace LiveDesk

open Observable Session Storage Text

/-! ## What the feature stores log -/

/-- All that the jobs log is on one line. -/
theorem Jobs.terse : feature.Terse fun _ => True where
  name := by decide +kernel
  edit {e x p} h := by
    cases h
    cases e <;> simp +decide [edit]
  prelude := nofun
  flag c := by simp +decide [feature, flag]
  opening c := by simp +decide [feature, LogEntry.isLine_line, entry]
  failure _ := by simp +decide [feature, LogEntry.isLine_line, entry]
  store := by
    intro c payload x f label entry notice value _ hsettle
    cases hsettle
    simp +decide [LogEntry.isLine_line, Jobs.entry]
  stale := nofun

theorem Templates.terse : feature.Terse fun _ => True where
  name := by decide +kernel
  edit {e x p} h := by
    cases e with
    | select id =>
      simp only [feature, edit] at h
      split at h
      · cases h
        simp +decide
      · cases h
    | clearSelection =>
      cases h
      simp +decide
  prelude := nofun
  flag c := by cases c <;> simp +decide [feature, flag]
  opening c := by cases c <;> simp +decide [feature, LogEntry.isLine_line, loadEntry]
  failure {c kind} _ := by cases c <;> simp +decide [feature, LogEntry.isLine_line, loadEntry]
  store := by
    intro c payload x f label entry notice value _ hsettle
    cases c <;> cases payload <;> cases hsettle <;>
      simp +decide [LogEntry.isLine_line, loadEntry]
  stale := by
    intro c payload x entry value _ hsettle
    cases c <;> cases payload <;> cases hsettle

theorem RuleSimulator.terse : feature.Terse fun _ => True where
  name := by decide +kernel
  edit {e x p} h := by
    cases h
    cases e <;> simp +decide [edit]
  prelude := nofun
  flag c := by simp +decide [feature, flag]
  opening c := by simp +decide [feature, LogEntry.isLine_line, entry]
  failure _ := by simp +decide [feature, LogEntry.isLine_line, entry]
  store := by
    intro c payload x f label entry notice value _ hsettle
    cases hsettle
    simp +decide [LogEntry.isLine_line, RuleSimulator.entry]
  stale := nofun

/-- The table fields log the entity as it is. -/
theorem TableFields.terse : feature.Terse fun c => IsLine c.entity where
  name := by decide +kernel
  edit {e x p} h := by
    cases e <;> simp only [feature, edit] at h <;> split at h <;> cases h <;> simp +decide
  prelude {c x p} h := by
    cases c <;> simp only [feature] at h
    · split at h <;> cases h
      simp +decide
    · cases h
  flag c := by cases c <;> simp +decide [feature]
  opening c := by
    cases c <;>
      simp +decide [feature, LogEntry.isLine_line, loadEntry, saveEntry, Call.entity]
  failure {c kind} hc := by
    cases c <;> simp only [Call.entity] at hc <;>
      simp +decide [feature, LogEntry.isLine_line, loadEntry, saveEntry, hc]
  store := by
    intro c payload x f label entry notice value hc hsettle
    cases c with
    | load entity reload =>
      have hentity : IsLine entity := hc
      simp only [feature, settle, Option.some.injEq] at hsettle
      split at hsettle <;> cases hsettle
      simp +decide [LogEntry.isLine_line, loadEntry, hentity]
    | save entity fields =>
      have hentity : IsLine entity := hc
      cases hsettle
      simp +decide [LogEntry.isLine_line, saveEntry, hentity]
  stale := by
    intro c payload x entry value hc hsettle
    cases c with
    | load entity reload =>
      have hentity : IsLine entity := hc
      simp only [feature, settle, Option.some.injEq] at hsettle
      split at hsettle <;> cases hsettle
      simp +decide [LogEntry.isLine_line, loadEntry, hentity]
    | save entity fields => cases hsettle

namespace Part

/-- The calls that are about nothing with a line break in it. -/
def fair : (p : Part) → p.feature.Call → Prop
  | .tableFields => fun c => IsLine c.entity
  | .document | .jobs | .templates | .ruleSimulator | .savedQueries => fun _ => True

/-- **What a part logs is on one line as long as its calls are fair.** -/
theorem terse {p : Part} (h : p ≠ .document) : p.feature.Terse p.fair := by
  cases p with
  | document => exact absurd rfl h
  | jobs => exact Jobs.terse
  | templates => exact Templates.terse
  | ruleSimulator => exact RuleSimulator.terse
  | tableFields => exact TableFields.terse
  | savedQueries => exact SavedQueries.terse

end Part

/-! ## What a desk logs -/

namespace Scenario.World

/-- All entries that were logged are on one line. -/
def Lines (w : World) : Prop :=
  ∀ e, .logged e ∈ w.events → IsLine e.line

/-- One more event leaves the lines unbroken unless it is an entry with a break. -/
theorem lines_emit (w : World) (e : Event) :
    (w.emit e).Lines ↔ (∀ entry, e = .logged entry → IsLine entry.line) ∧ w.Lines := by
  simp only [Lines, emit, List.mem_cons, or_imp, forall_and, eq_comm]

theorem isLine_noticeEntry (text : String) : IsLine (noticeEntry text).line := by
  simp +decide [LogEntry.isLine_line, noticeEntry]

theorem events_count (w : World) (q : ProjectionName) : (w.count q).events = w.events := by
  unfold count
  split <;> rfl

/-- The call of a subscriber logs nothing. -/
theorem lines_call (w : World) (s : SubscriptionName) (value : Json) :
    (w.call s value).Lines ↔ w.Lines := by
  unfold call
  split
  · exact Iff.rfl
  · exact (w.lines_emit _).trans (and_iff_right nofun)

/-- Noting a request logs nothing. -/
theorem lines_register (w : World) (p : Part) (id : CallId) (r : p.feature.Request) :
    (w.register p id r).Lines ↔ w.Lines :=
  (lines_emit _ _).trans (and_iff_right nofun)

/-- A request logs nothing. -/
theorem lines_sent (w : World) (p : Part) (id : CallId) (r : p.feature.Request) :
    (w.sent p id r).Lines ↔ w.Lines := by
  cases p with
  | document => exact Iff.rfl
  | jobs | templates | ruleSimulator | tableFields => exact w.lines_register _ id r
  | savedQueries =>
    unfold sent
    dsimp only
    split
    · exact (w.lines_emit _).trans (and_iff_right nofun)
    · exact w.lines_register _ id r

theorem lines_notify (w : World) (text : String) : (w.notify text).Lines ↔ w.Lines := by
  have hnotify : (w.notify text).Lines ↔ ((w.emit (.notified text)).emit
      (.logged (noticeEntry text))).Lines := Iff.rfl
  rw [hnotify, lines_emit, lines_emit, and_iff_right, and_iff_right nofun]
  rintro _ ⟨⟩
  exact isLine_noticeEntry text

/-- What follows from an event logs nothing but what the event does. -/
theorem lines_note (p : Part) (w : World) (e : Session.Event p.feature View) :
    (note p w e).Lines ↔ w.Lines ∧ Session.Lines [e] := by
  cases e with
  | store e =>
    rw [and_iff_left (by simp [Session.Lines])]
    cases e with
    | called o signal => exact w.lines_call _ _
    | evaluated q f v =>
      show Lines (w.count _) ↔ _
      rw [Lines, events_count, Lines]
    | published | emitted => exact Iff.rfl
  | log entry =>
    refine (w.lines_emit _).trans (and_comm.trans (and_congr_right fun _ => ?_))
    simp [Session.Lines]
  | sent id r =>
    rw [and_iff_left (by simp [Session.Lines])]
    exact w.lines_sent p id r
  | notified n =>
    rw [and_iff_left (by simp [Session.Lines])]
    exact w.lines_notify _
  | answered =>
    rw [and_iff_left (by simp [Session.Lines])]
    exact Iff.rfl

/-- The entries of a session are those that the world logs. -/
theorem lines_foldl_note (p : Part) (es : List (Session.Event p.feature View)) (w : World) :
    (es.foldl (note p) w).Lines ↔ w.Lines ∧ Session.Lines es := by
  induction es generalizing w with
  | nil => simp [Session.Lines]
  | cons e es ih =>
    rw [List.foldl_cons, ih, lines_note, and_assoc, ← lines_append]
    rfl

/-- A move that logs a text with a line break in it. -/
inductive Forges (w : World) : (p : Part) → Move p.feature View → Prop
  /-- The columns of an entity are about to be loaded or saved. -/
  | entity {s m id c} : w.desk.get? .tableFields = some s →
    (s.turn m = .opened id c ∨ s.turn m = .raised id c) → ¬ IsLine c.entity →
    Forges w .tableFields m
  /-- The caller publishes an update of its own. -/
  | label {p s m publication} : w.desk.get? p = some s → s.turn m = .published publication →
    ¬ IsLine publication.label → Forges w p m
  /-- The repository comes upon a text that is no identifier. -/
  | identifier {s r m id c text} : w.desk.get? .savedQueries = some s →
    w.repository = some r → s.turn m = .sent id c →
    (r.respond (draw w.created).id (draw w.created).time (SavedQueries.feature.request c)).2
      = .error (.invalidData (.identifier text)) →
    ¬ IsLine text → Forges w .savedQueries m

/-- There is no document, the engine speaks in lines, and all calls under way are fair. -/
structure Sober (w : World) : Prop where
  words : w.words.OnLines
  document : w.desk.document = none
  outline {p s} : w.desk.get? p = some s → s.outline.Fair p.fair

/-- A turn is fair if it announces no unfair call and publishes under no label with a line break. -/
theorem isFair_iff {F : Feature} {fair : F.Call → Prop} {t : Turn F} :
    t.IsFair fair ↔ (∀ id c, t = .opened id c ∨ t = .raised id c → fair c) ∧
      ∀ publication, t = .published publication → IsLine publication.label := by
  cases t <;> simp [Turn.IsFair]

section Moves

variable {w : World} {p : Part} {s : Session p.feature View} {m : Move p.feature View}

/-- A move that forges no line makes a fair turn. -/
theorem isFair_of_not_forges (hs : w.desk.get? p = some s) (h : ¬ w.Forges p m) :
    (s.turn m).IsFair p.fair := by
  refine isFair_iff.mpr ⟨fun id c hturn => ?_, fun publication hturn => ?_⟩
  · cases p with
    | tableFields => exact of_not_not fun hc => h (.entity hs hturn hc)
    | document | jobs | templates | ruleSimulator | savedQueries => trivial
  · exact of_not_not fun hlabel => h (.label hs hturn hlabel)

/-- A fair turn forges nothing by itself. -/
theorem repository_of_forges (hs : w.desk.get? p = some s) (hfair : (s.turn m).IsFair p.fair)
    (h : w.Forges p m) : p = .savedQueries ∧ ∃ r, w.repository = some r := by
  cases h with
  | entity hs' hturn hc =>
    cases hs.symm.trans hs'
    exact absurd ((isFair_iff.mp hfair).1 _ _ hturn) hc
  | label hs' hturn hlabel =>
    cases hs.symm.trans hs'
    exact absurd ((isFair_iff.mp hfair).2 _ hturn) hlabel
  | identifier hs' hr => exact ⟨rfl, _, hr⟩

/-- Without a repository, a part makes its own move. -/
theorem take_scripted (h : p = .savedQueries → w.repository = none) (s : Session p.feature View)
    (m : Move p.feature View) :
    w.take p s m = ({ w with desk := w.desk.put p (s.step m).1 }, (s.step m).2) := by
  cases p with
  | document | jobs | templates | ruleSimulator | tableFields => rfl
  | savedQueries => exact take_eq (h rfl) _ s m

/-- With a repository, the saved queries are those of the archive. -/
theorem take_stored {r : Repository} (h : w.repository = some r)
    (s : Session SavedQueries.feature View) (m : Move SavedQueries.feature View) :
    w.take .savedQueries s m =
      let (x, events) := (Archive.mk s r w.words w.created).step draw m
      ({ w with
          desk := w.desk.put .savedQueries x.session
          repository := some x.repository
          created := x.created }, events) := by
  unfold take
  rw [h]

theorem events_take (w : World) (p : Part) (s : Session p.feature View)
    (m : Move p.feature View) : (w.take p s m).1.events = w.events := by
  by_cases h : p = .savedQueries → w.repository = none
  · rw [take_scripted h]
  · obtain ⟨rfl, hsome⟩ := Classical.not_imp.mp h
    obtain ⟨r, hr⟩ := Option.ne_none_iff_exists'.mp hsome
    rw [take_stored hr]

/-- A part is exchanged for one whose calls are fair. -/
theorem Sober.put (hw : w.Sober) (hp : p ≠ .document) (hs : s.outline.Fair p.fair) {w' : World}
    (hdesk : w'.desk = w.desk.put p s) (hwords : w'.words = w.words) : w'.Sober where
  words := hwords ▸ hw.words
  document := by
    rw [hdesk, ← hw.document]
    exact w.desk.get?_put_of_ne (q := .document) (Ne.symm hp) s
  outline {q s'} h := by
    rw [hdesk] at h
    by_cases hq : q = p
    · subst hq
      rw [Desk.get?_put_self] at h
      exact Option.some.inj h ▸ hs
    · rw [Desk.get?_put_of_ne _ hq] at h
      exact hw.outline h

/-- The events of a move of one part, and what the part keeps. -/
theorem take_speaks (hw : w.Sober) (hs : w.desk.get? p = some s) (m : Move p.feature View) :
    (Session.Lines (w.take p s m).2 → (w.take p s m).1.Sober) ∧
      (Session.Lines (w.take p s m).2 ↔ ¬ w.Forges p m) := by
  have hp : p ≠ .document := by
    rintro rfl
    cases hw.document.symm.trans hs
  by_cases hscripted : p = .savedQueries → w.repository = none
  · -- a backend is asked, and the answer is a move of its own
    have hspeaks := Session.speaks (Part.terse hp) (hw.outline hs) m
    rw [take_scripted hscripted]
    refine ⟨fun h => hw.put hp (hspeaks.keeps (hspeaks.lines.mp h)) rfl rfl, hspeaks.lines.trans
      ⟨fun hfair hforges => ?_, isFair_of_not_forges hs⟩⟩
    obtain ⟨hpart, r, hr⟩ := repository_of_forges hs hfair hforges
    cases (hscripted hpart).symm.trans hr
  · -- a repository answers in the same move
    obtain ⟨rfl, hsome⟩ := Classical.not_imp.mp hscripted
    obtain ⟨r, hr⟩ := Option.ne_none_iff_exists'.mp hsome
    obtain ⟨hkeeps, hlines⟩ :=
      Archive.speaks (x := ⟨s, r, w.words, w.created⟩) (m := m) hw.words (hw.outline hs) draw
    rw [take_stored hr]
    refine ⟨fun h => hw.put hp (hkeeps h) rfl rfl, hlines.trans ⟨?_, fun h => ?_⟩⟩
    · rintro ⟨hfair, hquotes⟩ hforges
      cases hforges with
      | label hs' hturn hlabel =>
        cases hs.symm.trans hs'
        exact hlabel ((isFair_iff.mp hfair).2 _ hturn)
      | identifier hs' hr' hturn hrespond htext =>
        cases hs.symm.trans hs'
        cases hr.symm.trans hr'
        exact htext (hquotes _ _ _ hturn hrespond)
    · exact ⟨isFair_of_not_forges hs h, fun id c text hturn hrespond =>
        of_not_not fun htext => h (.identifier hs hr hturn hrespond htext)⟩

/-- A move of the world is the move of a part, with its events noted. -/
theorem move_eq (hs : w.desk.get? p = some s) (m : Move p.feature View) :
    w.move p m = (w.take p s m).2.foldl (note p) (w.take p s m).1 := by
  rw [move, hs]

/-- **What a move logs is on one line if and only if it forges nothing.** -/
theorem lines_move (hw : w.Sober) (p : Part) (m : Move p.feature View) :
    ((w.move p m).Lines → (w.move p m).Sober) ∧
      ((w.move p m).Lines ↔ w.Lines ∧ ¬ w.Forges p m) := by
  cases hs : w.desk.get? p with
  | none =>
    rw [move_of_none hs]
    refine ⟨fun _ => hw, (and_iff_left ?_).symm⟩
    intro hforges
    cases hforges with
    | entity h | label h | identifier h => cases hs.symm.trans h
  | some s =>
    obtain ⟨hkeeps, hlines⟩ := take_speaks hw hs m
    have htells := tells_foldl_note p (w.take p s m).2 (w.take p s m).1
    rw [move_eq hs, lines_foldl_note, hlines, Lines, events_take]
    refine ⟨fun h => ?_, Iff.rfl⟩
    have hsober := hkeeps (hlines.mpr h.2)
    exact ⟨htells.words ▸ hsober.words, (congrArg Desk.document htells.desk).trans hsober.document,
      fun h => hsober.outline (htells.desk ▸ h)⟩

/-- What was logged stays. -/
theorem lines_of_move (h : (w.move p m).Lines) : w.Lines := by
  cases hs : w.desk.get? p with
  | none => exact move_of_none hs m ▸ h
  | some s =>
    rw [move_eq hs, lines_foldl_note, Lines, events_take] at h
    exact h.1

/-- Lines that are unbroken after a run were so before. -/
theorem lines_of_moves {ms : List DeskMove} (h : (w.moves ms).Lines) : w.Lines := by
  induction ms generalizing w with
  | nil => exact h
  | cons m ms ih => exact lines_of_move (ih h)

/-- **What a run logs is on one line if and only if no move forges anything.** -/
theorem lines_moves (hw : w.Sober) (ms : List DeskMove) :
    (w.moves ms).Lines ↔ w.Lines ∧
      ∀ a p m b, ms = a ++ ⟨p, m⟩ :: b → ¬ (w.moves a).Forges p m := by
  induction ms generalizing w with
  | nil => exact (and_iff_left (by simp)).symm
  | cons x ms ih =>
    obtain ⟨hkeeps, hlines⟩ := lines_move hw x.1 x.2
    -- a run with whole lines had whole lines at every point, so its first move left a sober world
    have hrest : (w.moves (x :: ms)).Lines ↔ (w.move x.1 x.2).Lines ∧
        ∀ a p m b, ms = a ++ ⟨p, m⟩ :: b → ¬ ((w.move x.1 x.2).moves a).Forges p m :=
      ⟨fun h => (ih (hkeeps (lines_of_moves h))).mp h, fun h => (ih (hkeeps h.1)).mpr h⟩
    rw [hrest, hlines, and_assoc]
    refine and_congr_right fun _ => ⟨fun ⟨hfirst, hlater⟩ => ?_, fun h => ?_⟩
    · intro a p m b hms
      cases a with
      | nil =>
        obtain ⟨rfl, -⟩ := List.cons.inj hms
        exact hfirst
      | cons y a =>
        obtain ⟨rfl, htail⟩ := List.cons.inj hms
        exact hlater a p m b htail
    · exact ⟨h [] x.1 x.2 ms rfl, fun a p m b hms => h (x :: a) p m b (congrArg (x :: ·) hms)⟩

end Moves

end Scenario.World

namespace Desk

theorem isLine_openingEntry (p : Part) : IsLine (openingEntry p.feature).line := by
  have hname : IsLine p.feature.name := by
    cases p <;> decide +kernel
  simp +decide [LogEntry.isLine_line, openingEntry, hname]

/-- A failure is logged on one line, if its place is. -/
theorem isLine_panicEntry (place : String) (text : Option String) :
    IsLine (Journal.panicEntry place text).line ↔ IsLine place := by
  simp +decide [LogEntry.isLine_line, Journal.panicEntry, isLine_oneLine]

/-- **The log of a desk has only whole lines, except for what a move forges.** A desk is opened and
closed with whole lines. A line that is logged in a run has a line break if and only if a load or a
save is announced of an entity with one, the repository comes upon a text with one that should be an
identifier, or the caller publishes an update under a label with one. A repository of its own breaks
lines in the same way. The words of the engine and of the reader of documents are taken to be on
lines. A failure that nobody handled is logged on one line whatever its text, if its place is. -/
theorem one_line {desk : Desk} (huntouched : desk.Untouched) (hdocument : desk.document = none)
    (settings : Settings) (repository : Option Repository) {words : Wording}
    (hwords : words.OnLines) (ms : List DeskMove) :
    let w := Scenario.World.opening desk settings repository words
    ((∀ e, .logged e ∈ (w.moves ms).events → IsLine e.line) ↔
      ∀ a p m b, ms = a ++ ⟨p, m⟩ :: b → ¬ (w.moves a).Forges p m) ∧
    (∀ e ∈ openingEntries settings, IsLine e.line) ∧ IsLine closingEntry.line ∧
    (∀ (r : Repository) (id : Uuid) (time : Int64) (request : SavedQueries.Request),
      (∀ e ∈ (r.serve words id time request).2.2, IsLine e.line) ↔
        ∀ text, (r.respond id time request).2 = .error (.invalidData (.identifier text)) →
          IsLine text) ∧
    ∀ (place : String) (text : Option String),
      IsLine (Journal.panicEntry place text).line ↔ IsLine place := by
  intro w
  have hsober : w.Sober := by
    refine ⟨hwords, hdocument, fun {p s} h => ?_⟩
    obtain ⟨initial, rfl⟩ := huntouched p s h
    exact .opening initial
  refine ⟨?_, ?_, by decide +kernel, fun r id time request =>
    r.lines_serve hwords id time request, isLine_panicEntry⟩
  · exact (Scenario.World.lines_moves hsober ms).trans (and_iff_right nofun)
  · intro e he
    rcases List.mem_append.mp he with he | he
    · obtain ⟨p, -, rfl⟩ := List.mem_map.mp he
      exact isLine_openingEntry p
    · obtain rfl := List.mem_singleton.mp he
      simp +decide [LogEntry.isLine_line]

section Examples

/-- A text that ends a line, with the entry of closing a desk on the next one. -/
def forged : String := "7\nevent=context_dispose module=context status=ok\n"

/-- A table with one row, and that text in place of its identifier. -/
def poisoned : Repository :=
  ⟨some [⟨.text forged, .text "bugs", .text QuerySpec.empty.toJson.render, .int 0⟩]⟩

/-- A row with a break in its identifier is at fault. -/
theorem list_poisoned : poisoned.list = .error (.invalidData (.identifier forged)) := by
  decide +kernel

/-- The saved queries are loaded. -/
def loading : List DeskMove := on .savedQueries [.ask (.load false)]

/-- A stored text forges an entry as soon as the request is sent. -/
theorem one_line_stored :
    (single .savedQueries .opening).Untouched ∧ (single .savedQueries .opening).document = none ∧
    ¬ ∀ e, .logged e ∈
      ((Scenario.World.opening (single .savedQueries .opening) (.default .debug) poisoned
        Archive.spoken).moves loading).events → IsLine e.line := by
  have huntouched := untouched_single .savedQueries .opening
  refine ⟨huntouched, rfl, fun h => ?_⟩
  have hrespond : (poisoned.respond (Scenario.World.draw 0).id (Scenario.World.draw 0).time
      .list).2 = .error (.invalidData (.identifier forged)) := by
    rw [Repository.respond, list_poisoned]
    rfl
  have hforges : ((Scenario.World.opening (single .savedQueries .opening) (.default .debug)
      poisoned Archive.spoken).moves (loading.take 4)).Forges .savedQueries .tick :=
    .identifier (r := poisoned) (c := .load false) rfl rfl rfl hrespond (by decide +kernel)
  exact (one_line huntouched rfl (.default .debug) poisoned (by decide +kernel) loading).1.mp h
    (loading.take 4) .savedQueries .tick [] rfl hforges

/-- The columns of an entity are loaded whose name has a line break in it. -/
def broken : List DeskMove := on .tableFields [.ask (.load "a\nb" false)]

theorem one_line_broken :
    ¬ ∀ e, .logged e ∈ ((Scenario.World.opening (single .tableFields .opening) (.default .debug)
        none Archive.spoken).moves broken).events → IsLine e.line := by
  intro h
  have hlogged : .logged (TableFields.loadEntry .info "start" "a\nb" [("reload", "false")]) ∈
      ((Scenario.World.opening (single .tableFields .opening) (.default .debug) none
        Archive.spoken).moves broken).events :=
    List.mem_of_getElem? (i := 1) rfl
  exact absurd (h _ hlogged) (by decide +kernel)

end Examples

end Desk

end LiveDesk
