import LiveDesk.Proofs.Json.Reading

/-!
# Reading written dictionaries and records

- **A dictionary is read as itself** (`reads_dict`): its entries are written in the order of their
  keys, so that each of them goes to the end of those before it.
- **An object that gives the fields of a record type in their order is read as their values**
  (`reads_record`), and so is what is made of these (`reads_record_bind`). `Gives` says which object
  that is, field by field, and `Fills` that the value of a field goes into its own slot and into no
  other one.
-/

namespace LiveDesk.Json

open Reader

variable {α : Type}

/-! ## Dictionaries -/

/-- An entry whose key comes last is put at the end. -/
theorem insertEntry_last {key value : String} {entries : List (String × String)}
    (h : ∀ e ∈ entries, e.1 < key) :
    Dictionary.insertEntry key value entries = entries ++ [(key, value)] := by
  induction entries with
  | nil => rfl
  | cons e entries ih =>
    have hlt : e.1 < key := h e List.mem_cons_self
    have hnot : ¬ key < e.1 := String.lt_asymm hlt
    simp [Dictionary.insertEntry, hlt, hnot, ih fun e he => h e (List.mem_cons_of_mem _ he)]

/-- The entry under a key, put into the dictionary that was read so far. -/
def dictEntry (key : String) (d : Dictionary) : Reader Dictionary := do
  colon
  return d.insert key (← Reader.text)

/-- A member of an object is read as an entry. -/
theorem dictEntry_reads (key value : String) (d : Dictionary) :
    ReadsField Behind dictEntry key (.text value) d (d.insert key value) := by
  rintro _ rest ⟨hrest, rfl⟩
  rw [dictEntry, bind_ok (colon_cons _), bind_ok (reads_text value rest hrest)]
  rfl

/-- Entries behind those of a dictionary, in the order of their keys. -/
theorem folds_entries (d : Dictionary) (entries : List (String × String))
    (h : Ascending (d.entries ++ entries)) :
    Folds (ReadsField Behind dictEntry) d (entries.map fun e => (e.1, .text e.2))
      ⟨d.entries ++ entries, h⟩ := by
  induction entries generalizing d with
  | nil =>
    have hd : (⟨d.entries ++ [], h⟩ : Dictionary) = d := by
      obtain ⟨es, hes⟩ := d
      simp
    rw [hd]
    exact .nil d
  | cons e entries ih =>
    have hinsert : (d.insert e.1 e.2).entries = d.entries ++ [e] :=
      insertEntry_last fun other hother =>
        (List.pairwise_append.1 h).2.2 other hother e List.mem_cons_self
    have hentries : (d.insert e.1 e.2).entries ++ entries = d.entries ++ e :: entries := by
      simp [hinsert]
    have hrest := ih (d.insert e.1 e.2) (hentries ▸ h)
    simp only [hentries] at hrest
    exact .cons (dictEntry_reads e.1 e.2 d) hrest

/-- **A dictionary is read back.** -/
theorem reads_dict (d : Dictionary) : Reads dict (ofDictionary d) d := by
  intro rest _
  have hfold := folds_entries .empty d.entries d.ascending
  rw [ofDictionary, chars_object, dict, bind_ok (ahead_cons _ (by decide))]
  show (take >>= fun _ => get >>= fun cs => fieldsFrom dictEntry (cs.length + 1) true .empty >>=
    fun d => endRecord >>= fun _ => pure d) _ = _
  rw [bind_ok (take_cons _ _), bind_ok (get_ok _), bind_ok (fieldsFrom_object hfold rest),
    bind_ok (endRecord_brace rest)]
  rfl

/-! ## Records -/

namespace Fields

/-- The names of the fields. -/
def names : (types : List Type) → Fields types → List String
  | [], _ => []
  | _ :: rest, (field, fields) => field.name :: names rest fields

/-- All values in their slots. -/
def full : (types : List Type) → Values types → Slots types
  | [], _ => ()
  | _ :: rest, (a, values) => (some a, full rest values)

/-- Fields that are all filled are closed. -/
theorem close_full :
    ∀ (types : List Type) (fields : Fields types) (values : Values types),
      close types fields (full types values) = some values
  | [], _, _ => rfl
  | _ :: rest, (field, fields), (a, values) => by
    simp [close, full, close_full rest fields values]
    rfl

end Fields

/-- The object has the fields of the record type in their order, each read as its value. -/
inductive Gives : (types : List Type) → Fields types → List (String × Json) → Values types → Prop
  | nil : Gives [] () [] ()
  | cons {α : Type} {types : List Type} {field : Field α} {fields : Fields types} {v : Json}
      {vs : List (String × Json)} {a : α} {values : Values types} (head : Reads field.value v a)
      (tail : Gives types fields vs values) :
      Gives (α :: types) (field, fields) ((field.name, v) :: vs) (a, values)

/-- A record is written with the keys of its fields. -/
theorem Gives.keys {types : List Type} {fields : Fields types} {vs : List (String × Json)}
    {values : Values types} (h : Gives types fields vs values) :
    vs.map (·.1) = fields.names types := by
  induction h with
  | nil => rfl
  | cons _ _ ih => exact congrArg (_ :: ·) ih

/-- The value of a known field goes into its slot. -/
def Fills {β : Type} (behind : β → List Char → List Char → Prop) (types : List Type)
    (fields : Fields types) (key : String) (v : β) (s t : Slots types) : Prop :=
  ∃ read, fields.fill? key types s = some read ∧
    ∀ cs rest, behind v cs rest → read cs = .ok (t, rest)

section Fills

variable {β : Type} {behind : β → List Char → List Char → Prop} {types : List Type} {v : β}

theorem Fills.reads {fields : Fields types} {key : String} {s t : Slots types}
    (h : Fills behind types fields key v s t) : ReadsField behind fields.fill key v s t := by
  obtain ⟨read, hread, h⟩ := h
  intro cs rest hbehind
  rw [Fields.fill, hread]
  exact h cs rest hbehind

/-- The first field. -/
theorem fills_head {field : Field α} (fields : Fields types) {a : α}
    (h : ∀ cs rest, behind v cs rest →
      ∃ value, colon cs = .ok ((), value) ∧ field.value value = .ok (a, rest)) (s : Slots types) :
    Fills behind (α :: types) (field, fields) field.name v (none, s) (some a, s) := by
  refine ⟨_, if_pos rfl, ?_⟩
  intro cs rest hbehind
  obtain ⟨value, hcolon, hvalue⟩ := h cs rest hbehind
  show (colon >>= fun _ => field.value >>= fun a => pure (some a, s)) cs = _
  rw [bind_ok hcolon, bind_ok hvalue]
  rfl

/-- A field behind the first one. -/
theorem Fills.tail {field : Field α} {fields : Fields types} {key : String} {s t : Slots types}
    (slot : Option α) (hkey : field.name ≠ key) (h : Fills behind types fields key v s t) :
    Fills behind (α :: types) (field, fields) key v (slot, s) (slot, t) := by
  obtain ⟨read, hread, h⟩ := h
  refine ⟨read >>= fun s => pure (slot, s), ?_, ?_⟩
  · simp only [Fields.fill?, if_neg hkey, hread]
    rfl
  · intro cs rest hbehind
    rw [bind_ok (h cs rest hbehind)]
    rfl

end Fills

theorem Reads.behind {r : Reader α} {v : Json} {a : α} (h : Reads r v a) {cs rest : List Char}
    (hbehind : Behind v cs rest) :
    ∃ value, colon cs = .ok ((), value) ∧ r value = .ok (a, rest) := by
  obtain ⟨hrest, rfl⟩ := hbehind
  exact ⟨_, colon_cons _, h rest hrest⟩

/-- The fields of a record are filled one after the other. -/
theorem Gives.folds {types : List Type} {fields : Fields types} {vs : List (String × Json)}
    {values : Values types} (h : Gives types fields vs values)
    (hnames : (fields.names types).Nodup) :
    Folds (Fills Behind types fields) (.none types) vs (Fields.full types values) := by
  induction h with
  | nil => exact .nil _
  | @cons α types field fields v vs a values head tail ih =>
    obtain ⟨hfresh, hnames⟩ := List.nodup_cons.1 hnames
    refine .cons (fills_head fields (fun _ _ => head.behind) _) ?_
    refine (ih hnames).map (f := (some a, ·)) ?_
    intro key hkey v s t hfills
    have hne : field.name ≠ key := by
      rintro rfl
      exact hfresh (tail.keys ▸ hkey)
    exact hfills.tail (some a) hne

/-- **A record is read back from its fields.** -/
theorem reads_record {types : List Type} {fields : Fields types} {vs : List (String × Json)}
    {values : Values types} (h : Gives types fields vs values)
    (hnames : (fields.names types).Nodup) : Reads (Reader.record fields) (.record vs) values := by
  intro rest _
  have hfold : Folds (ReadsField Behind fields.fill) (.none types) vs (Fields.full types values) :=
    (h.folds hnames).map (f := id) fun _ _ _ _ _ hfills => hfills.reads
  rw [chars_object, Reader.record, bind_ok (ahead_cons _ (by decide))]
  dsimp only
  rw [if_pos rfl, bind_ok (take_cons _ _), bind_ok (get_ok _),
    bind_ok (fieldsFrom_object hfold rest), Fields.close_full]
  dsimp only
  rw [bind_ok (endRecord_brace rest)]
  rfl

/-- A value that is made of the values of the fields. -/
theorem reads_record_bind {types : List Type} {fields : Fields types} {vs : List (String × Json)}
    {values : Values types} {make : Values types → Reader α} {a : α}
    (h : Gives types fields vs values) (hnames : (fields.names types).Nodup)
    (hmake : make values = pure a) : Reads (Reader.record fields >>= make) (.record vs) a := by
  intro rest hrest
  rw [bind_ok (reads_record h hnames rest hrest), hmake]
  rfl

end LiveDesk.Json
