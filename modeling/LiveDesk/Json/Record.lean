import LiveDesk.Dictionary
import LiveDesk.Json.Reader
import LiveDesk.Json.Value

/-!
# Reading records with known fields

A record type is described by its fields in order, each with a name, a reader for its value, and
what stands in for a missing value. The same description reads both written forms of a record:

- `record`: a JSON object whose fields come in any order, at most once each, among unknown fields
  that are passed over; or a JSON list of the values in the order of the description.
- `dict`: a JSON object as a dictionary, the last value of a repeated key winning.
-/

namespace LiveDesk.Json

open Reader

/-- One field of a record type. -/
structure Field (α : Type) where
  name : String
  value : Reader α
  /-- What a missing field means in the object form, if it may be missing. -/
  absent : Option α
  /-- What a missing value at the end means in the list form, if it may be missing. -/
  absentInList : Option α

/-- A field that must be given. -/
def required {α : Type} (name : String) (value : Reader α) : Field α :=
  ⟨name, value, none, none⟩

/-- A field with a default. -/
def defaulted {α : Type} (name : String) (value : Reader α) (default : α) : Field α :=
  ⟨name, value, some default, some default⟩

/-- A field that may be null, and that may be missing in the object form. -/
def nullable {α : Type} (name : String) (value : Reader α) : Field (Option α) :=
  ⟨name, optional value, some none, none⟩

/-- The fields of a record type with values of the given types. -/
def Fields : List Type → Type
  | [] => Unit
  | α :: rest => Field α × Fields rest

/-- One value of each type. -/
def Values : List Type → Type
  | [] => Unit
  | α :: rest => α × Values rest

/-- At most one value of each type. -/
def Slots : List Type → Type
  | [] => Unit
  | α :: rest => Option α × Slots rest

namespace Slots

/-- No value yet. -/
def none : (types : List Type) → Slots types
  | [] => ()
  | _ :: rest => (.none, none rest)

end Slots

namespace Fields

/-- Reads the value of the field `name`, from behind its key, into its slot; a filled slot is a
repeated field, which is refused before its value is looked at. -/
def fill? (name : String) :
    (types : List Type) → Fields types → Slots types → Option (Reader (Slots types))
  | [], _, _ => none
  | _ :: rest, (field, fields), (slot, slots) =>
    if field.name = name then
      some (match slot with
        | some _ => fault .mismatched
        | none => do
          colon
          return (some (← field.value), slots))
    else
      (fill? name rest fields slots).map fun read => do return (slot, ← read)

/-- Reads one field of an object; an unknown one is passed over. -/
def fill {types : List Type} (fields : Fields types) (name : String) (slots : Slots types) :
    Reader (Slots types) := do
  match fill? name types fields slots with
  | some read => read
  | none => colon; skipValue; pure slots

/-- The values of all slots, with stand-ins for missing ones. -/
def close : (types : List Type) → Fields types → Slots types → Option (Values types)
  | [], _, _ => some ()
  | _ :: rest, (field, fields), (slot, slots) => do
    let value ← slot.or field.absent
    let values ← close rest fields slots
    return (value, values)

/-- The stand-ins for the values missing at the end of a list. -/
def absentTail : (types : List Type) → Fields types → Option (Values types)
  | [], _ => some ()
  | _ :: rest, (field, fields) => do
    let value ← field.absentInList
    let values ← absentTail rest fields
    return (value, values)

/-- The values of a list in the order of the fields. -/
def inOrder : (types : List Type) → Fields types → Bool → Reader (Values types)
  | [], _, _ => pure ()
  | α :: rest, (field, fields), first => do
    if ← moreItems first then
      let value ← field.value
      let values ← inOrder rest fields false
      return (value, values)
    else
      match absentTail (α :: rest) (field, fields) with
      | some values => pure values
      | none => fault .mismatched

end Fields

namespace Reader

/-- A record with the given fields, in either of its written forms. -/
def record {types : List Type} (fields : Fields types) : Reader (Values types) := do
  match ← ahead with
  | none => fault .truncated
  | some c =>
    if c = '{' then
      take
      let slots ← fieldsFrom fields.fill ((← get).length + 1) true (.none types)
      match fields.close types slots with
      | none => fault .mismatched
      | some values => endRecord; pure values
    else if c = '[' then
      take
      let values ← fields.inOrder types true
      endList
      pure values
    else otherType c

/-- A dictionary of texts. -/
def dict : Reader Dictionary := do
  match ← ahead with
  | none => fault .truncated
  | some c =>
    if c = '{' then
      take
      let entry (key : String) (d : Dictionary) : Reader Dictionary := do
        colon
        return d.insert key (← text)
      let d ← fieldsFrom entry ((← get).length + 1) true .empty
      endRecord
      pure d
    else otherType c

end Reader

/-- A dictionary as an object. -/
def ofDictionary (d : Dictionary) : Json :=
  .record (d.entries.map fun e => (e.1, .text e.2))

end LiveDesk.Json
