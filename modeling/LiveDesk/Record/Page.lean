import LiveDesk.Json.Scalar

/-!
# Pages

A list request is answered by one page of items, the number of matching rows on all pages, and
what the user may do with them.
-/

namespace LiveDesk

/-- What the user may do with the listed items. -/
structure Permissions where
  canCreate : Bool
  canEdit : Bool
  canDelete : Bool
  deriving DecidableEq, Repr, Inhabited

/-- One page of items. -/
structure Page (α : Type) where
  items : List α
  /-- The number of matching rows on all pages. -/
  total : UInt64
  permissions : Permissions
  deriving DecidableEq, Repr, Inhabited

namespace Permissions

open Json Json.Reader

/-- Nothing is allowed. -/
def nothing : Permissions := { canCreate := false, canEdit := false, canDelete := false }

/-- The fields of permissions in documents. -/
def fields : Fields [Bool, Bool, Bool] :=
  (required "can_create" boolean, required "can_edit" boolean, required "can_delete" boolean, ())

/-- Reads permissions. -/
def read : Reader Permissions := do
  let (canCreate, canEdit, canDelete, _) ← record fields
  return { canCreate, canEdit, canDelete }

/-- The permissions as a value. -/
def toJson (permissions : Permissions) : Json :=
  .record [("can_create", .bool permissions.canCreate), ("can_edit", .bool permissions.canEdit),
    ("can_delete", .bool permissions.canDelete)]

end Permissions

namespace Page

open Json Json.Reader

variable {α : Type}

/-- The only page, with every item and no permissions. -/
def complete (items : List α) : Page α :=
  { items, total := UInt64.ofNat items.length, permissions := .nothing }

/-- The fields of a page in documents. -/
def fields (item : Reader α) : Fields [List α, UInt64, Permissions] :=
  (required "items" (list item), required "total" (integer toUInt64?),
    defaulted "permissions" Permissions.read .nothing, ())

/-- Reads a page. -/
def read (item : Reader α) : Reader (Page α) := do
  let (items, total, permissions, _) ← record (fields item)
  return { items, total, permissions }

/-- The page as a value. -/
def toJson (item : α → Json) (page : Page α) : Json :=
  .record [("items", .list (page.items.map item)), ("total", .ofNat page.total.toNat),
    ("permissions", page.permissions.toJson)]

end Page

end LiveDesk
