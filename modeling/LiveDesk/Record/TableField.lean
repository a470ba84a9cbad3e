import LiveDesk.Json.Scalar

/-!
# Table fields

The columns of an entity's table can be hidden and reordered.

- `TableField`: the record.
- `TableField.isKey`: the keys that may be saved.
-/

namespace LiveDesk

/-- A column of an entity's table. -/
structure TableField where
  key : String
  label : String
  visible : Bool
  /-- The place of the column, counted from zero. -/
  position : UInt32
  deriving DecidableEq, Repr, Inhabited

namespace TableField

/-- A key starts with a lower-case ASCII letter and goes on with such letters, digits and
underscores. -/
def isKey (key : String) : Bool :=
  match key.toList with
  | [] => false
  | c :: cs => c.isLower && cs.all fun c => c.isLower || c.isDigit || c == '_'

/-- A visible column. -/
def shown (key label : String) (position : UInt32) : TableField :=
  { key, label, visible := true, position }

open Json Json.Reader

/-- The parts of a column in documents. -/
def fields : Fields [String, String, Bool, UInt32] :=
  (required "key" text, required "label" text, required "visible" boolean,
    required "position" (integer toUInt32?), ())

/-- Reads a column. -/
def read : Reader TableField := do
  let (key, label, visible, position, _) ← record fields
  return { key, label, visible, position }

/-- The column as a value. -/
def toJson (field : TableField) : Json :=
  .record [("key", .text field.key), ("label", .text field.label),
    ("visible", .bool field.visible), ("position", .ofNat field.position.toNat)]

end TableField

end LiveDesk
