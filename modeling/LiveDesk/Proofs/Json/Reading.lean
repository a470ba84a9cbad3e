import LiveDesk.Proofs.Json.Text

/-!
# Reading written values

`Reads r v a` says that the reader `r` takes the compact text of the value `v` for `a`, whatever may
follow it in a document. A document that is the compact text of a value is then read as `a`
(`document_render`).

- A text is read as itself (`reads_text`).
- The fields of an object are folded over in their order (`fieldsFrom_object`): an object is read
  once every field is read from behind its key.
-/

namespace LiveDesk.Json

open Reader

variable {α : Type}

/-- What may follow a value in a document: the end, a comma, a closing bracket or a blank. -/
def Closes (rest : List Char) : Prop :=
  ∀ c ∈ rest.head?, c = ',' ∨ c = ']' ∨ c = '}' ∨ isGap c = true

/-- The reader takes the compact text of a value for `a` and leaves what follows. -/
def Reads (r : Reader α) (v : Json) (a : α) : Prop :=
  ∀ rest, Closes rest → r (v.chars ++ rest) = .ok (a, rest)

theorem closes_nil : Closes [] := by simp [Closes]

theorem closes_brace (rest : List Char) : Closes ('}' :: rest) := by simp [Closes]

theorem closes_comma (rest : List Char) : Closes (',' :: rest) := by simp [Closes]

/-- A document that is a written value. -/
theorem document_render {r : Reader α} {v : Json} {a : α} (h : Reads r v a) :
    document r v.render = .ok a := by
  have hread : r v.chars = .ok (a, []) := by simpa using h [] closes_nil
  simp [document, render, hread]

/-! ## Texts -/

/-- A quoted text is read back, up to what follows it. -/
theorem text_quote (s : String) (rest : List Char) :
    Reader.text (quote s ++ rest) = .ok (s, rest) := by
  have hquote : quote s ++ rest = '"' :: (s.toList.flatMap quoteChar ++ '"' :: rest) := by
    simp [quote]
  rw [hquote, Reader.text, bind_ok (ahead_cons _ (by decide))]
  show (take >>= fun _ => textTail) _ = _
  rw [bind_ok (take_cons _ _), textTail_quoted]

/-- A text is read back from its value. -/
theorem reads_text (s : String) : Reads Reader.text (.text s) s :=
  fun rest _ => text_quote s rest

/-! ## The fields of an object -/

/-- The fields of an object as they stand from its opening brace on, or from the end of another
field on. -/
def fieldRun (first : Bool) : List (String × Json) → List Char
  | [] => []
  | field :: fields => (if first then [] else [',']) ++ fieldChars (field :: fields)

theorem fieldChars_eq (fields : List (String × Json)) :
    fieldChars fields = fieldRun true fields := by
  cases fields <;> simp [fieldRun, fieldChars]

/-- The first field is written without a comma, the others with one. -/
theorem fieldChars_cons (key : String) (v : Json) (fields : List (String × Json)) :
    fieldChars ((key, v) :: fields) = quote key ++ ':' :: (v.chars ++ fieldRun false fields) := by
  cases fields <;> simp [fieldRun, fieldChars]

/-- What follows a field ends its value. -/
theorem closes_fieldRun (fields : List (String × Json)) (rest : List Char) :
    Closes (fieldRun false fields ++ '}' :: rest) := by
  cases fields with
  | nil => exact closes_brace rest
  | cons field fields => exact closes_comma _

/-- An object has no fewer characters than fields. -/
theorem length_le_fieldChars (fields : List (String × Json)) :
    fields.length ≤ (fieldChars fields).length := by
  induction fields with
  | nil => simp
  | cons field fields ih =>
    have hrun : (fieldChars fields).length ≤ (fieldRun false fields).length := by
      cases fields <;> simp [fieldRun, fieldChars]
    rw [fieldChars_cons]
    simp only [List.length_append, List.length_cons]
    omega

/-- The brace ends the object. -/
theorem moreFields_end (first : Bool) (rest : List Char) :
    moreFields first ('}' :: rest) = .ok (false, '}' :: rest) := rfl

/-- The quote of a key goes on with it. -/
theorem moreFields_key (first : Bool) (rest : List Char) :
    moreFields first ((if first then [] else [',']) ++ '"' :: rest) = .ok (true, '"' :: rest) := by
  cases first <;> rfl

/-- What stands behind the key of a field in compact text, up to what follows the field. -/
def Behind (v : Json) (cs rest : List Char) : Prop :=
  Closes rest ∧ cs = ':' :: (v.chars ++ rest)

/-- The value of a field is read from behind its key, where it is written as `behind` says, and
takes `s` to `t`. -/
def ReadsField {β σ : Type} (behind : β → List Char → List Char → Prop)
    (field : String → σ → Reader σ) (key : String) (v : β) (s t : σ) : Prop :=
  ∀ cs rest, behind v cs rest → field key s cs = .ok (t, rest)

/-- The fields take `s` to `t`, one after the other. -/
inductive Folds {β σ : Type} (step : String → β → σ → σ → Prop) :
    σ → List (String × β) → σ → Prop
  | nil (s : σ) : Folds step s [] s
  | cons {s t u : σ} {key : String} {v : β} {fields : List (String × β)}
      (head : step key v s t) (tail : Folds step t fields u) : Folds step s ((key, v) :: fields) u

/-- The same fields taken in another state that follows the first one. -/
theorem Folds.map {β σ τ : Type} {step : String → β → σ → σ → Prop}
    {step' : String → β → τ → τ → Prop} {f : σ → τ} {s t : σ} {fields : List (String × β)}
    (h : Folds step s fields t)
    (hstep : ∀ key ∈ fields.map (·.1), ∀ v s t, step key v s t → step' key v (f s) (f t)) :
    Folds step' (f s) fields (f t) := by
  induction h with
  | nil s => exact .nil _
  | cons head tail ih =>
    refine .cons (hstep _ (by simp) _ _ _ head) (ih ?_)
    intro key hkey
    exact hstep key (List.mem_cons_of_mem _ hkey)

/-- The fields up to the closing brace. -/
theorem fieldsFrom_fieldRun {σ : Type} {field : String → σ → Reader σ} {s t : σ}
    {fields : List (String × Json)} (h : Folds (ReadsField Behind field) s fields t) {fuel : Nat}
    (hfuel : fields.length < fuel) (first : Bool) (rest : List Char) :
    fieldsFrom field fuel first s (fieldRun first fields ++ '}' :: rest) =
      .ok (t, '}' :: rest) := by
  induction h generalizing fuel first with
  | nil s =>
    obtain ⟨fuel, rfl⟩ := Nat.exists_eq_add_of_lt hfuel
    simp only [fieldRun, List.nil_append, fieldsFrom]
    rw [bind_ok (moreFields_end first rest)]
    rfl
  | @cons s t u key v fields head tail ih =>
    obtain ⟨fuel, rfl⟩ := Nat.exists_eq_add_of_lt hfuel
    -- behind the value there is a comma or the closing brace, and either closes it
    have hvalue := head _ _ ⟨closes_fieldRun fields rest, rfl⟩
    have hkey : fieldRun first ((key, v) :: fields) ++ '}' :: rest =
        (if first then [] else [',']) ++ '"' :: (key.toList.flatMap quoteChar ++ '"' ::
          (':' :: (v.chars ++ (fieldRun false fields ++ '}' :: rest)))) := by
      simp [fieldRun, fieldChars_cons, quote]
    rw [hkey, fieldsFrom, bind_ok (moreFields_key first _)]
    show (take >>= fun _ => textTail >>= fun k => field k s >>= fun s =>
      fieldsFrom field _ false s) _ = _
    rw [bind_ok (take_cons _ _), bind_ok (textTail_quoted _ _), bind_ok hvalue]
    exact ih (by simp only [List.length_cons] at *; omega) false

/-- The fields of a whole object, from behind its opening brace, with the fuel that its readers
take. -/
theorem fieldsFrom_object {σ : Type} {field : String → σ → Reader σ} {s t : σ}
    {fields : List (String × Json)} (h : Folds (ReadsField Behind field) s fields t)
    (rest : List Char) :
    fieldsFrom field ((fieldChars fields ++ '}' :: rest).length + 1) true s
      (fieldChars fields ++ '}' :: rest) = .ok (t, '}' :: rest) := by
  have hlength := length_le_fieldChars fields
  have hfuel : fields.length < (fieldChars fields ++ '}' :: rest).length + 1 := by
    simp only [List.length_append]
    omega
  have hrun := fieldsFrom_fieldRun h hfuel true rest
  rwa [← fieldChars_eq] at hrun

theorem colon_cons (rest : List Char) : colon (':' :: rest) = .ok ((), rest) := rfl

theorem endRecord_brace (rest : List Char) : endRecord ('}' :: rest) = .ok ((), rest) := rfl

theorem get_ok (cs : List Char) : (get : Reader (List Char)) cs = .ok (cs, cs) := rfl

/-- An object is its fields between braces. -/
theorem chars_object (fields : List (String × Json)) (rest : List Char) :
    (Json.record fields).chars ++ rest = '{' :: (fieldChars fields ++ '}' :: rest) := by
  simp [chars]

end LiveDesk.Json
