import LiveDesk.Proofs.Session.Entries
import LiveDesk.Proofs.Storage.Archive

/-!
# What the repository logs

A repository that fails as a backend logs its error. The errors are in the repository's own words
and those of the engine and the reader of documents, except for one: a text that should be an
identifier and is none is quoted as it was found.

- `Wording.OnLines`: the engine and the reader of documents say no more than a line.
- `RepositoryError.Given`: the errors that a request can be answered with.
- `Given.isLine_entry`: what is logged of them is on one line, but for a text that was found.
- `Repository.given_respond`: every error of a request is one of these.
- `SavedQueries.terse`: the words of the saved queries are on one line.
- **`Archive.speaks`**: what one move of the saved queries over a repository logs.
-/

namespace LiveDesk

open Observable Text

namespace Storage

/-! ## Errors -/

/-- What the engine and the reader of documents say has no line break. -/
structure Wording.OnLines (words : Wording) : Prop where
  engine : IsLine words.engine
  document : IsLine words.document

instance (words : Wording) : Decidable words.OnLines :=
  decidable_of_iff (IsLine words.engine ∧ IsLine words.document)
    ⟨fun ⟨hengine, hdocument⟩ => ⟨hengine, hdocument⟩, fun h => ⟨h.engine, h.document⟩⟩

/-- The errors that a request can be answered with. -/
inductive RepositoryError.Given : RepositoryError → Prop where
  | engine : Given (.database (.query .engine))
  | columnType (c : Cell) (index : Nat) {column : String} : IsLine column →
    Given (.database (.query (.columnType c.typeName index column)))
  | notFound (id : Uuid) : Given (.notFound id)
  | identifier (text : String) : Given (.invalidData (.identifier text))
  | spec (id : Uuid) : Given (.invalidData (.spec id))
  | missing (id : Uuid) :
    Given (.invalidData (.other ("saved query " ++ id.text ++ " missing after insert")))

theorem isLine_typeName (c : Cell) : IsLine c.typeName := by
  cases c <;> simp +decide [Cell.typeName]

theorem isLine_invalidData (words : Wording) (p : DataProblem) :
    IsLine ((RepositoryError.invalidData p).description words) ↔
      IsLine (p.description words) := by
  have hinvalid : IsLine "invalid persisted saved query: " := by decide +kernel
  show IsLine ("invalid persisted saved query: " ++ p.description words) ↔ _
  rw [isLine_append, and_iff_right hinvalid]

/-- The entry of an error is on one line, unless it quotes a text that is not. -/
theorem RepositoryError.Given.isLine_entry {words : Wording} (hwords : words.OnLines)
    {e : RepositoryError} (h : e.Given) :
    IsLine (e.entry words).line ↔ ∀ text, e = .invalidData (.identifier text) → IsLine text := by
  have hentry : IsLine (e.entry words).line ↔ IsLine (e.description words) := by
    simp +decide [LogEntry.isLine_line, entry]
  rw [hentry]
  cases h with
  | engine =>
    refine iff_of_true ?_ (by simp)
    unfold description DatabaseError.description
    unfold SqlFault.description
    dsimp only
    rw [isLine_append, and_iff_left hwords.engine]
    decide +kernel
  | columnType c index hcolumn =>
    refine iff_of_true ?_ (by simp)
    -- opened in two steps, for a rewrite would evaluate the literal texts
    unfold description DatabaseError.description
    unfold SqlFault.description
    dsimp only
    simp only [isLine_append, hcolumn, isLine_typeName, Nat.toString_eq_repr, isLine_repr,
      and_true]
    decide +kernel
  | notFound id =>
    refine iff_of_true ?_ (by simp)
    unfold description
    dsimp only
    rw [isLine_append, and_iff_left (isLine_uuid id)]
    decide +kernel
  | spec id =>
    rw [isLine_invalidData]
    refine iff_of_true ?_ (by simp)
    unfold DataProblem.description
    dsimp only
    simp only [isLine_append, isLine_uuid, hwords.document, and_true]
    decide +kernel
  | missing id =>
    rw [isLine_invalidData]
    refine iff_of_true ?_ (by simp)
    unfold DataProblem.description
    dsimp only
    simp only [isLine_append, isLine_uuid, and_true]
    decide +kernel
  | identifier text =>
    have hquote : IsLine "invalid uuid `" ∧ IsLine "` in saved_queries.uuid" := by decide +kernel
    rw [isLine_invalidData]
    unfold DataProblem.description
    dsimp only
    rw [isLine_append, isLine_append, and_iff_left hquote.2, and_iff_right hquote.1]
    constructor
    · rintro htext _ ⟨⟩
      exact htext
    · exact fun h => h text rfl

theorem bind_eq_error {α β : Type} {x : Except RepositoryError α}
    {f : α → Except RepositoryError β} {e : RepositoryError} :
    (x >>= f) = .error e ↔ x = .error e ∨ ∃ a, x = .ok a ∧ f a = .error e := by
  cases x <;> simp [bind, Except.bind]

namespace Row

theorem given_textOf {c : Cell} {index : Nat} {column : String} (hcolumn : IsLine column)
    {e : RepositoryError} (h : textOf c index column = .error e) : e.Given := by
  cases c with
  | text => cases h
  | garbled =>
    cases h
    exact .engine
  | null | int | real | blob =>
    cases h
    exact .columnType _ index hcolumn

theorem given_integerOf {c : Cell} {index : Nat} {column : String} (hcolumn : IsLine column)
    {e : RepositoryError} (h : integerOf c index column = .error e) : e.Given := by
  cases c with
  | int => cases h
  | null | text | garbled | real | blob =>
    cases h
    exact .columnType _ index hcolumn

theorem given_identifierOf {text : String} {e : RepositoryError}
    (h : identifierOf text = .error e) : e.Given := by
  unfold identifierOf at h
  split at h
  · cases h
  · cases h
    exact .identifier text

theorem given_specOf {id : Uuid} {text : String} {e : RepositoryError}
    (h : specOf id text = .error e) : e.Given := by
  unfold specOf at h
  split at h
  · cases h
  · cases h
    exact .spec id

theorem given_query {r : Row} {e : RepositoryError} (h : r.query = .error e) : e.Given := by
  simp only [query, bind_eq_error, pure, Except.pure, reduceCtorEq, and_false, exists_false,
    or_false] at h
  rcases h with h | ⟨_, -, h | ⟨_, -, h | ⟨_, -, h | ⟨_, -, h | ⟨_, -, h⟩⟩⟩⟩⟩
  · exact given_textOf (by decide) h
  · exact given_identifierOf h
  · exact given_textOf (by decide) h
  · exact given_specOf h
  · exact given_textOf (by decide) h
  · exact given_integerOf (by decide) h

theorem given_mapM_query {rows : List Row} {e : RepositoryError}
    (h : rows.mapM query = .error e) : e.Given := by
  induction rows with
  | nil => cases h
  | cons r rows ih =>
    simp only [List.mapM_cons, bind_eq_error, pure, Except.pure, reduceCtorEq, and_false,
      exists_false, or_false] at h
    rcases h with h | ⟨_, -, h⟩
    · exact given_query h
    · exact ih h

end Row

namespace Repository

variable {r : Repository} {e : RepositoryError}

theorem given_rows (h : r.rows = .error e) : e.Given := by
  unfold rows at h
  split at h
  · cases h
  · cases h
    exact .engine

theorem given_list (h : r.list = .error e) : e.Given := by
  simp only [list, bind_eq_error] at h
  rcases h with h | ⟨rows, -, h⟩
  · exact given_rows h
  · exact Row.given_mapM_query h

theorem given_get {id : Uuid} (h : r.get id = .error e) : e.Given := by
  simp only [get, bind_eq_error] at h
  rcases h with h | ⟨rows, -, h⟩
  · exact given_rows h
  · split at h
    · cases h
    · simp only [bind_eq_error, pure, Except.pure, reduceCtorEq, and_false, exists_false,
        or_false] at h
      exact Row.given_query h

theorem given_create {id : Uuid} {time : Int64} {name : String} {spec : QuerySpec}
    (h : r.create id time name spec = .error e) : e.Given := by
  simp only [create, bind_eq_error] at h
  rcases h with h | ⟨rows, -, h⟩
  · exact given_rows h
  · split at h
    · cases h
      exact .engine
    · simp only [bind_eq_error] at h
      rcases h with h | ⟨found, -, h⟩
      · exact given_get h
      · split at h
        · cases h
        · cases h
          exact .missing id

theorem given_delete {id : Uuid} (h : r.delete id = .error e) : e.Given := by
  simp only [delete, bind_eq_error] at h
  rcases h with h | ⟨rows, -, h⟩
  · exact given_rows h
  · split at h
    · cases h
      exact .notFound id
    · cases h

/-- Every error of a request is in words of the repository, but for a text that was found. -/
theorem given_respond {id : Uuid} {time : Int64} {request : SavedQueries.Request}
    (h : (r.respond id time request).2 = .error e) : e.Given := by
  cases request with
  | list =>
    cases hlist : r.list with
    | ok queries =>
      simp only [respond, hlist] at h
      cases h
    | error e' =>
      simp only [respond, hlist] at h
      cases h
      exact given_list hlist
  | create name spec =>
    simp only [respond] at h
    split at h
    · cases h
    · next hcreate =>
      cases h
      exact given_create hcreate
  | delete id =>
    simp only [respond] at h
    split at h
    · cases h
    · next hdelete =>
      cases h
      exact given_delete hdelete

end Repository

end Storage

/-! ## The saved queries -/

namespace SavedQueries

/-- The saved queries log numbers, identifiers and kinds of failures. -/
theorem terse : feature.Terse fun _ => True where
  name := by decide +kernel
  edit {e} := e.elim
  prelude := nofun
  flag c := by cases c <;> simp +decide [feature]
  opening c := by cases c <;> simp +decide [feature, LogEntry.isLine_line, loadEntry]
  failure {c kind} _ := by
    cases c <;> simp +decide [feature, LogEntry.isLine_line, loadEntry, saveEntry, deleteEntry]
  store := by
    intro c payload x f label entry notice value _ hsettle
    cases c <;> cases payload <;> cases hsettle <;>
      simp +decide [LogEntry.isLine_line, loadEntry, saveEntry, deleteEntry]
  stale := by
    intro c payload x entry value _ hsettle
    cases c <;> cases payload <;> cases hsettle

end SavedQueries

/-! ## One move -/

namespace Storage

variable {V : Type}

/-- What a repository logs is on one line, unless it quotes a text that is not. -/
theorem Repository.lines_serve (r : Repository) {words : Wording} (hwords : words.OnLines)
    (id : Uuid) (time : Int64) (request : SavedQueries.Request) :
    (∀ e ∈ (r.serve words id time request).2.2, IsLine e.line) ↔
      ∀ text, (r.respond id time request).2 = .error (.invalidData (.identifier text)) →
        IsLine text := by
  unfold serve
  dsimp only
  cases houtcome : (r.respond id time request).2 with
  | ok payload => simp [served]
  | error e => simpa [served] using (given_respond houtcome).isLine_entry hwords

namespace Archive

section Steps

variable {x : Archive V} {m : Session.Move SavedQueries.feature V}

/-- What an answer logs is what the repository logs, and words of the saved queries. -/
theorem lines_answer (hwords : x.words.OnLines) (hs : x.session.outline.Fair fun _ => True)
    (draw : Draw) (id : CallId) (request : SavedQueries.Request) :
    (x.answer draw id request).1.session.outline.Fair (fun _ => True) ∧
      (Session.Lines (x.answer draw id request).2 ↔
        ∀ text, (x.repository.respond draw.id draw.time request).2
            = .error (.invalidData (.identifier text)) → IsLine text) := by
  obtain ⟨hkeeps, hlines⟩ := Session.fair_resolve SavedQueries.terse hs id
    (x.repository.serve x.words draw.id draw.time request).2.1
  refine ⟨hkeeps, ?_⟩
  have hevents : (x.answer draw id request).2 =
      (x.repository.serve x.words draw.id draw.time request).2.2.map .log ++
        (x.session.resolve id (x.repository.serve x.words draw.id draw.time request).2.1).2 := rfl
  rw [hevents, Session.lines_append, and_iff_left hlines,
    ← Repository.lines_serve _ hwords]
  simp [Session.Lines]

variable [DecidableEq V]

/-- **What a move logs is on one line, unless the caller publishes under a label that is not, or the
repository quotes a text that is not.** -/
theorem speaks (hwords : x.words.OnLines) (hs : x.session.outline.Fair fun _ => True)
    (draws : Nat → Draw) :
    (Session.Lines (x.step draws m).2 → (x.step draws m).1.session.outline.Fair fun _ => True) ∧
      (Session.Lines (x.step draws m).2 ↔ (x.session.turn m).IsFair (fun _ => True) ∧
        ∀ id c text, x.session.turn m = .sent id c →
          (x.repository.respond (draws x.created).id (draws x.created).time
              (SavedQueries.feature.request c)).2 = .error (.invalidData (.identifier text)) →
          IsLine text) := by
  have hspeaks := Session.speaks SavedQueries.terse hs m
  by_cases hsent : ∃ id c, x.session.turn m = .sent id c
  · obtain ⟨id, c, hturn⟩ := hsent
    have hfair : (x.session.turn m).IsFair fun _ => True := hturn ▸ trivial
    obtain ⟨hkeeps, hlines⟩ := lines_answer (x := { x with session := (x.session.step m).1 })
      hwords (hspeaks.keeps hfair) (draws x.created) id (SavedQueries.feature.request c)
    rw [step_of_sent draws hturn]
    refine ⟨fun _ => hkeeps, ?_⟩
    -- sending a request logs nothing; what counts is the answer
    have hsilent : ∀ es : List (Session.Event SavedQueries.feature V),
        Session.Lines (.sent id (SavedQueries.feature.request c) :: es) ↔ Session.Lines es := by
      simp [Session.Lines]
    rw [hsilent, hlines, and_iff_right hfair]
    constructor
    · intro h id' c' text hturn'
      obtain ⟨rfl, rfl⟩ := Turn.sent.inj (hturn.symm.trans hturn')
      exact h text
    · exact fun h text => h id c text hturn
  · have hturn : ∀ id c, x.session.turn m ≠ .sent id c := fun id c h => hsent ⟨id, c, h⟩
    rw [step_of_not_sent draws hturn]
    exact ⟨fun h => hspeaks.keeps (hspeaks.lines.mp h), hspeaks.lines.trans
      (and_iff_left fun id c _ h => absurd h (hturn id c)).symm⟩

end Steps

end Archive

end Storage

end LiveDesk
