import LiveDesk.Proofs.Json.Records
import LiveDesk.Proofs.Json.Values
import LiveDesk.Proofs.Uuid
import LiveDesk.Record.Job
import LiveDesk.Record.Page
import LiveDesk.Record.Rule
import LiveDesk.Record.SavedQuery
import LiveDesk.Record.TableField
import LiveDesk.Record.Template

/-!
# Records and their documents

A record is written as the compact text of a value, and read from any document of its type. What is
written is read as the same record, for every record of every type.

- `Json.reprint`: a document, read and written again.
- `Json.Faithful`: a type whose values are read from what is written for them, so that writing a
  document again gives a text that means the same and stays as it is.
- `Job.reads_toJson`, `Page.reads_toJson`, …: each type, field by field.
- **`faithful_records`**: all record types are faithful.
-/

namespace LiveDesk

namespace Json

variable {α : Type}

/-- A document of a type, read and written again. -/
def reprint (read : Reader α) (toJson : α → Json) (s : String) : Except Fault String :=
  (document read s).map fun a => (toJson a).render

/-- Whatever is written for a value is read as this value. So the text that is written for an
accepted document stands for the same value, and is written again as itself. -/
structure Faithful (read : Reader α) (toJson : α → Json) : Prop where
  document_render : ∀ a, document read (toJson a).render = .ok a
  reprint_ok : ∀ {s t}, reprint read toJson s = .ok t →
    document read t = document read s ∧ reprint read toJson t = .ok t

/-- A reader that reads every value back from the tree it is written as is faithful to the text. -/
theorem Faithful.of_reads {read : Reader α} {toJson : α → Json}
    (h : ∀ a, Reads read (toJson a) a) : Faithful read toJson where
  document_render a := Json.document_render (h a)
  reprint_ok {s t} hst := by
    cases hs : document read s with
    | error f =>
      rw [reprint, hs] at hst
      cases hst
    | ok a =>
      rw [reprint, hs] at hst
      obtain rfl : (toJson a).render = t := Except.ok.inj hst
      have hread := Json.document_render (h a)
      refine ⟨hread, ?_⟩
      rw [reprint, hread]
      rfl

end Json

open Json

/-! ## Each type -/

/-- An identifier is read back from its written form. -/
theorem Uuid.reads_toJson (u : Uuid) : Reads read u.toJson u :=
  reads_named (parse?_text u)

/-- A status is read back from its name. -/
theorem JobStatus.reads_toJson (status : JobStatus) : Reads read status.toJson status := by
  have hname : ofName? status.name = some status := by cases status <;> decide
  exact reads_choice hname

/-- A job is read back, its status by its name. -/
theorem Job.reads_toJson (job : Job) : Reads read job.toJson job := by
  have gives : Gives _ fields _ (job.id, job.name, job.status, job.progress, job.createdAt, ()) :=
    .cons (Uuid.reads_toJson _) <| .cons (reads_text _) <| .cons (JobStatus.reads_toJson _) <|
      .cons (reads_toUInt8 _) <| .cons (reads_toInt64 _) .nil
  exact reads_record_bind gives (by decide) rfl

/-- A status that may be missing is written as null then. -/
theorem JobFilter.reads_status (status : Option JobStatus) :
    Reads (Reader.optional JobStatus.read) ((status.map JobStatus.toJson).getD .null) status := by
  cases status with
  | none => exact reads_nothing _
  | some status =>
    exact reads_optional (JobStatus.reads_toJson status) (by simp [JobStatus.toJson])

/-- The filter of a request is read back, with a status or without one. -/
theorem JobFilter.reads_toJson (filter : JobFilter) : Reads read filter.toJson filter := by
  have gives : Gives _ fields _ (filter.status, filter.search, filter.page, filter.pageSize, ()) :=
    .cons (reads_status _) <| .cons (reads_text _) <| .cons (reads_toUInt32 _) <|
      .cons (reads_toUInt32 _) .nil
  exact reads_record_bind gives (by decide) rfl

theorem Template.reads_toJson (template : Template) : Reads read template.toJson template := by
  have gives : Gives _ fields _
      (template.id, template.name, template.body, template.updatedAt, ()) :=
    .cons (Uuid.reads_toJson _) <| .cons (reads_text _) <| .cons (reads_text _) <|
      .cons (reads_toInt64 _) .nil
  exact reads_record_bind gives (by decide) rfl

theorem TableField.reads_toJson (field : TableField) : Reads read field.toJson field := by
  have gives : Gives _ fields _ (field.key, field.label, field.visible, field.position, ()) :=
    .cons (reads_text _) <| .cons (reads_text _) <| .cons (reads_boolean _) <|
      .cons (reads_toUInt32 _) .nil
  exact reads_record_bind gives (by decide) rfl

/-- A specification is read back, its filters with their keys in order. -/
theorem QuerySpec.reads_toJson (spec : QuerySpec) : Reads read spec.toJson spec := by
  have gives : Gives _ fields _ (spec.text, spec.filters, ()) :=
    .cons (reads_text _) <| .cons (reads_dict _) .nil
  exact reads_record_bind gives (by decide) rfl

/-- A saved query is read back with the specification inside it. -/
theorem SavedQuery.reads_toJson (query : SavedQuery) : Reads read query.toJson query := by
  have gives : Gives _ fields _ (query.id, query.name, query.spec, query.updatedAt, ()) :=
    .cons (Uuid.reads_toJson _) <| .cons (reads_text _) <| .cons (QuerySpec.reads_toJson _) <|
      .cons (reads_toInt64 _) .nil
  exact reads_record_bind gives (by decide) rfl

/-- A request is read back, its input with the keys in order. -/
theorem SimulationRequest.reads_toJson (request : SimulationRequest) :
    Reads read request.toJson request := by
  have gives : Gives _ fields _ (request.rule, request.input, ()) :=
    .cons (reads_text _) <| .cons (reads_dict _) .nil
  exact reads_record_bind gives (by decide) rfl

theorem SimulationResult.reads_toJson (result : SimulationResult) :
    Reads read result.toJson result := by
  have gives : Gives _ fields _ (result.matched, result.actions, result.trace, ()) :=
    .cons (reads_boolean _) <| .cons (reads_ofTexts _) <| .cons (reads_ofTexts _) .nil
  exact reads_record_bind gives (by decide) rfl

theorem Permissions.reads_toJson (permissions : Permissions) :
    Reads read permissions.toJson permissions := by
  have gives : Gives _ fields _
      (permissions.canCreate, permissions.canEdit, permissions.canDelete, ()) :=
    .cons (reads_boolean _) <| .cons (reads_boolean _) <| .cons (reads_boolean _) .nil
  exact reads_record_bind gives (by decide) rfl

/-- A page is read as itself if its items are. -/
theorem Page.reads_toJson {α : Type} {item : Reader α} {toJson : α → Json}
    (h : ∀ a, Reads item (toJson a) a) (page : Page α) :
    Reads (read item) (page.toJson toJson) page := by
  have gives : Gives _ (fields item) _ (page.items, page.total, page.permissions, ()) :=
    .cons (reads_list_map h _) <| .cons (reads_toUInt64 _) <|
      .cons (Permissions.reads_toJson _) .nil
  have hnames : ["items", "total", "permissions"].Nodup := by decide
  exact reads_record_bind gives hnames rfl

/-! ## All types -/

/-- **Every record is read from what is written for it.** For each of the record types, the compact
text of a value is read as this value, whatever its texts, numbers, identifiers, dictionaries and
lists are; and a document that is accepted, in whatever form, is written as a text that stands for
the same value and is written again as itself. -/
theorem faithful_records :
    Faithful JobStatus.read JobStatus.toJson ∧ Faithful Job.read Job.toJson ∧
      Faithful JobFilter.read JobFilter.toJson ∧ Faithful Template.read Template.toJson ∧
      Faithful TableField.read TableField.toJson ∧ Faithful QuerySpec.read QuerySpec.toJson ∧
      Faithful SavedQuery.read SavedQuery.toJson ∧
      Faithful SimulationRequest.read SimulationRequest.toJson ∧
      Faithful SimulationResult.read SimulationResult.toJson ∧
      Faithful Permissions.read Permissions.toJson ∧
      Faithful (Page.read Job.read) (Page.toJson Job.toJson) ∧
      Faithful (Page.read TableField.read) (Page.toJson TableField.toJson) :=
  ⟨.of_reads JobStatus.reads_toJson, .of_reads Job.reads_toJson, .of_reads JobFilter.reads_toJson,
    .of_reads Template.reads_toJson, .of_reads TableField.reads_toJson,
    .of_reads QuerySpec.reads_toJson, .of_reads SavedQuery.reads_toJson,
    .of_reads SimulationRequest.reads_toJson, .of_reads SimulationResult.reads_toJson,
    .of_reads Permissions.reads_toJson, .of_reads (Page.reads_toJson Job.reads_toJson),
    .of_reads (Page.reads_toJson TableField.reads_toJson)⟩

/-- A spec given as a list, with an escape that is not needed and without filters. -/
example :
    reprint QuerySpec.read QuerySpec.toJson "[\"a\\u0041\"]" =
      .ok "\x7b\"text\":\"aA\",\"filters\":\x7b\x7d\x7d" := by
  decide +kernel

end LiveDesk
