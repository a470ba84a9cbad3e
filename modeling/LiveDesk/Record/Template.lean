import LiveDesk.Json.Scalar
import LiveDesk.Text.Blank

/-!
# Templates

A template is a text with placeholders, such as `Hello {{ name }}!`.

- `Template`: the record.
- `Template.placeholders`: the names in a body, each once, in the order of their first occurrence.
-/

namespace LiveDesk

/-- A text with placeholders. -/
structure Template where
  id : Uuid
  name : String
  body : String
  /-- Milliseconds since 1970. -/
  updatedAt : Int64
  deriving DecidableEq, Repr, Inhabited

namespace Template

/-! ## Placeholders -/

/-- A character that a placeholder name may start with. -/
def isNameStart (c : Char) : Bool := c.isAlpha || c == '_'

/-- A character that a placeholder name may go on with. -/
def isNameRest (c : Char) : Bool := c.isAlphanum || c == '_' || c == '.'

/-- The placeholder at the front of the text, if there is one: its name and its length. -/
def placeholderAhead? (cs : List Char) : Option (List Char × Nat) :=
  match cs with
  | '{' :: '{' :: body =>
    let gap := body.takeWhile Text.isBlank
    let inner := body.dropWhile Text.isBlank
    let name := inner.takeWhile isNameRest
    let behind := inner.dropWhile isNameRest
    let gap' := behind.takeWhile Text.isBlank
    match behind.dropWhile Text.isBlank with
    | '}' :: '}' :: _ =>
      if name.head?.any isNameStart then
        some (name, 2 + gap.length + name.length + gap'.length + 2)
      else none
    | _ => none
  | _ => none

/-- The names of the placeholders in a text, from behind the `skip` characters that belong to the
placeholder before. -/
def namesFrom : Nat → List Char → List String
  | _, [] => []
  | skip + 1, _ :: cs => namesFrom skip cs
  | 0, c :: cs =>
    match placeholderAhead? (c :: cs) with
    | some (name, length) => String.ofList name :: namesFrom (length - 1) cs
    | none => namesFrom 0 cs

/-- The list without the items that occur before in it or in `seen`. -/
def firstOnly (seen : List String) : List String → List String
  | [] => []
  | x :: xs => if x ∈ seen then firstOnly seen xs else x :: firstOnly (x :: seen) xs

/-- The names of the placeholders in a body, each once, in the order of first occurrence. -/
def placeholders (body : String) : List String :=
  firstOnly [] (namesFrom 0 body.toList)

/-! ## Documents -/

open Json Json.Reader

/-- A template with an identifier made from random bits. -/
def fresh (bits : BitVec 128) (name body : String) : Template :=
  { id := .random bits, name, body, updatedAt := 0 }

/-- The fields of a template in documents. -/
def fields : Fields [Uuid, String, String, Int64] :=
  (required "id" Uuid.read, required "name" text, required "body" text,
    required "updated_at_ms" (integer toInt64?), ())

/-- Reads a template. -/
def read : Reader Template := do
  let (id, name, body, updatedAt, _) ← record fields
  return { id, name, body, updatedAt }

/-- The template as a value. -/
def toJson (template : Template) : Json :=
  .record [("id", template.id.toJson), ("name", .text template.name),
    ("body", .text template.body), ("updated_at_ms", .int template.updatedAt.toInt)]

end Template

end LiveDesk
