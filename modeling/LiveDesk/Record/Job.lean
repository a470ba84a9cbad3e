import LiveDesk.Json.Scalar

/-!
# Jobs

Background jobs as they are listed, and the filter that is sent with a list request.

- `Job`, `JobStatus`, `JobFilter`: the records.
- `JobStatus.isActive`: a job that can still change.
- `JobFilter.offset`: the rows before the requested page.
-/

namespace LiveDesk

/-- The stage of its life that a job has reached. -/
inductive JobStatus where
  | queued
  | running
  | succeeded
  | failed
  | cancelled
  deriving DecidableEq, Repr, Inhabited

namespace JobStatus

/-- A queued or a running job can still change its status. -/
def isActive : JobStatus → Bool
  | .queued | .running => true
  | .succeeded | .failed | .cancelled => false

/-- The name of a status in documents. -/
def name : JobStatus → String
  | .queued => "queued"
  | .running => "running"
  | .succeeded => "succeeded"
  | .failed => "failed"
  | .cancelled => "cancelled"

/-- All statuses. -/
def all : List JobStatus := [.queued, .running, .succeeded, .failed, .cancelled]

/-- The status with the given name. -/
def ofName? (name : String) : Option JobStatus :=
  all.find? fun status => status.name = name

/-- Reads a status. -/
def read : Json.Reader JobStatus := Json.Reader.choice ofName?

/-- The status as a value. -/
def toJson (status : JobStatus) : Json := .text status.name

end JobStatus

/-- A job. -/
structure Job where
  id : Uuid
  name : String
  status : JobStatus
  /-- How much of the job is done, in percent. -/
  progress : UInt8
  /-- Milliseconds since 1970. -/
  createdAt : Int64
  deriving DecidableEq, Repr, Inhabited

/-- Which jobs are listed, and which page of them. -/
structure JobFilter where
  status : Option JobStatus
  search : String
  /-- Pages are counted from zero. -/
  page : UInt32
  pageSize : UInt32
  deriving DecidableEq, Repr, Inhabited

namespace Job

open Json Json.Reader

/-- A job that has not begun, with an identifier made from random bits. -/
def fresh (bits : BitVec 128) (name : String) (status : JobStatus) : Job :=
  { id := .random bits, name, status, progress := 0, createdAt := 0 }

/-- The fields of a job in documents. -/
def fields : Fields [Uuid, String, JobStatus, UInt8, Int64] :=
  (required "id" Uuid.read, required "name" text, required "status" JobStatus.read,
    required "progress" (integer toUInt8?), required "created_at_ms" (integer toInt64?), ())

/-- Reads a job. -/
def read : Reader Job := do
  let (id, name, status, progress, createdAt, _) ← record fields
  return { id, name, status, progress, createdAt }

/-- The job as a value. -/
def toJson (job : Job) : Json :=
  .record [("id", job.id.toJson), ("name", .text job.name), ("status", job.status.toJson),
    ("progress", .ofNat job.progress.toNat), ("created_at_ms", .int job.createdAt.toInt)]

end Job

namespace JobFilter

open Json Json.Reader

/-- The filter that lets every job through, at the first page. -/
def ofPageSize (pageSize : UInt32) : JobFilter :=
  { status := none, search := "", page := 0, pageSize }

/-- The number of rows before the requested page. -/
def offset (filter : JobFilter) : UInt64 :=
  filter.page.toUInt64 * filter.pageSize.toUInt64

/-- The fields of a filter in documents. -/
def fields : Fields [Option JobStatus, String, UInt32, UInt32] :=
  (nullable "status" JobStatus.read, required "search" text,
    required "page" (integer toUInt32?), required "page_size" (integer toUInt32?), ())

/-- Reads a filter. -/
def read : Reader JobFilter := do
  let (status, search, page, pageSize, _) ← record fields
  return { status, search, page, pageSize }

/-- The filter as a value. -/
def toJson (filter : JobFilter) : Json :=
  .record [("status", (filter.status.map JobStatus.toJson).getD .null),
    ("search", .text filter.search), ("page", .ofNat filter.page.toNat),
    ("page_size", .ofNat filter.pageSize.toNat)]

end JobFilter

end LiveDesk
