import LiveDesk.Json.Scalar
import LiveDesk.Text.Blank

/-!
# Saved queries

- `QuerySpec`: a search text with filters.
- `SavedQuery`: a spec under a name.
- `normalizeName`: the form in which a name is saved.
-/

namespace LiveDesk

/-- What a query searches for. -/
structure QuerySpec where
  text : String
  filters : Dictionary
  deriving DecidableEq, Inhabited

/-- A query that the user has saved. -/
structure SavedQuery where
  id : Uuid
  name : String
  spec : QuerySpec
  /-- Milliseconds since 1970. -/
  updatedAt : Int64
  deriving DecidableEq, Inhabited

/-- The name without white space at its ends and with one space for every run of white space
inside; none if nothing is left. -/
def normalizeName (name : String) : Option String :=
  match Text.collapse false (Text.trimChars name.toList) with
  | [] => none
  | cs => some (String.ofList cs)

namespace QuerySpec

open Json Json.Reader

/-- The spec that searches for nothing. -/
def empty : QuerySpec := { text := "", filters := .empty }

/-- The fields of a spec in documents. -/
def fields : Fields [String, Dictionary] :=
  (required "text" Reader.text, defaulted "filters" dict .empty, ())

/-- Reads a spec. -/
def read : Reader QuerySpec := do
  let (text, filters, _) ← record fields
  return { text, filters }

/-- The spec as a value. -/
def toJson (spec : QuerySpec) : Json :=
  .record [("text", .text spec.text), ("filters", ofDictionary spec.filters)]

end QuerySpec

namespace SavedQuery

open Json Json.Reader

/-- The fields of a saved query in documents. -/
def fields : Fields [Uuid, String, QuerySpec, Int64] :=
  (required "id" Uuid.read, required "name" text, required "spec" QuerySpec.read,
    required "updated_at_ms" (integer toInt64?), ())

/-- Reads a saved query. -/
def read : Reader SavedQuery := do
  let (id, name, spec, updatedAt, _) ← record fields
  return { id, name, spec, updatedAt }

/-- The saved query as a value. -/
def toJson (query : SavedQuery) : Json :=
  .record [("id", query.id.toJson), ("name", .text query.name), ("spec", query.spec.toJson),
    ("updated_at_ms", .int query.updatedAt.toInt)]

end SavedQuery

end LiveDesk
