import LiveDesk.Feature.Templates
import LiveDesk.Proofs.Session.Deeds

/-!
# The selected template is in the list

While a list or a single template is asked for, the selection can change. A list that arrives is
held against the selection of that moment, and a template that arrives takes the place of one with
its own identifier. So the selection never names a template that is not there.

- `Catalogue`, `State.catalogue`: the templates with the selection and the permissions, and those
  that a state holds.
- `catalogueAspect`: a state's catalogue is not touched by the loading flag.
- `ids_replaceFirst`: a template that is replaced leaves its identifier where it was.
- `Catalogue.Pointed`, `Catalogue.Pointed.note`: the selection names a template of the list, and
  every deed keeps it so.
- **`selection`**: in every run the selection names a template of the list, and this template is the
  selected one.
- `selection_crossed`: a list and a template that come after the selection was changed.
-/

namespace LiveDesk.Templates

open Observable Session

variable {V : Type}

/-- The templates without the loading flag. -/
structure Catalogue where
  items : List Template
  selected : Option Uuid
  permissions : Permissions
  isLoaded : Bool

namespace State

/-- The catalogue that a state holds. -/
def catalogue (x : State) : Catalogue :=
  ⟨x.items, x.selected, x.permissions, x.isLoaded⟩

end State

/-- The identifiers of templates, in order. -/
def ids (items : List Template) : List Uuid :=
  items.map (·.id)

theorem knows_eq_true {x : State} {id : Uuid} : x.knows id = true ↔ id ∈ ids x.items := by
  simp [State.knows, ids]

theorem ids_replaceFirst (fresh : Template) (items : List Template) :
    ids (replaceFirst fresh items) = ids items := by
  induction items with
  | nil => rfl
  | cons t rest ih =>
    rw [replaceFirst]
    by_cases h : t.id = fresh.id
    · rw [if_pos h]
      exact congrArg (· :: ids rest) h.symm
    · rw [if_neg h]
      exact congrArg (t.id :: ·) ih

/-! ## The catalogue as an aspect -/

namespace Catalogue

/-- The catalogue before any list has come. -/
def bare : Catalogue :=
  ⟨[], none, .nothing, false⟩

/-- The catalogue with a list; a selection that is not in it is cleared. -/
def load (c : Catalogue) (page : Page Template) : Catalogue where
  items := page.items
  selected := c.selected.filter fun id => page.items.any fun t => t.id = id
  permissions := page.permissions
  isLoaded := true

/-- What a deed makes of the catalogue. -/
def note (c : Catalogue) : Deed feature → Catalogue
  | .edited (.select id) => if id ∈ ids c.items then { c with selected := some id } else c
  | .edited .clearSelection => { c with selected := none }
  | .replied (.load _) (.page page) => c.load page
  | .replied (.refresh _) (.template t) => { c with items := replaceFirst t c.items }
  | .asked _ | .replied _ _ => c

end Catalogue

/-- A template can be selected if it is in the list. -/
theorem catalogue_select (x : State) (id : Uuid) :
    (((edit x (.select id)).map fun p => p.change.apply .opening x).getD x).catalogue
      = if id ∈ ids x.items then { x.catalogue with selected := some id } else x.catalogue := by
  simp only [edit]
  by_cases h : x.knows id = true
  · rw [if_pos h, if_pos (knows_eq_true.mp h)]
    rfl
  · rw [if_neg h, if_neg (knows_eq_true.not.mp h)]
    rfl

/-- A state's catalogue is not touched by the loading flag. -/
def catalogueAspect : Aspect feature State.opening Catalogue where
  read := State.catalogue
  note := Catalogue.note
  raise c _ := by cases c <;> rfl
  lower c _ := by cases c <;> rfl
  apply d x := by
    cases d with
    | edited e =>
      cases e with
      | select id => exact catalogue_select x id
      | clearSelection => rfl
    | asked a =>
      cases a with
      | load reload => rfl
      | refresh =>
        cases hselected : x.selected with
        | none =>
          have haccept : feature.accept Ask.refresh x = .done () := by
            simp only [feature, hselected]
          exact congrArg State.catalogue (Deed.apply_done haccept)
        | some id =>
          have haccept : feature.accept Ask.refresh x = .proceed (.refresh id) := by
            simp only [feature, hselected]
          exact congrArg State.catalogue (Deed.apply_proceed haccept)
    | replied c payload => cases c <;> cases payload <;> rfl

/-! ## The selection -/

namespace Catalogue

/-- The selection names a template of the list. -/
def Pointed (c : Catalogue) : Prop :=
  ∀ id, c.selected = some id → id ∈ ids c.items

namespace Pointed

variable {c : Catalogue}

/-- A list that arrives keeps a selection only if it has it. -/
theorem load (page : Page Template) : (c.load page).Pointed := by
  intro id hid
  obtain ⟨-, hany⟩ := Option.filter_eq_some_iff.mp hid
  obtain ⟨t, ht, heq⟩ := List.any_eq_true.mp hany
  exact List.mem_map.mpr ⟨t, ht, of_decide_eq_true heq⟩

/-- **Every deed leaves the selection on a template of the list.** -/
theorem note (h : c.Pointed) (d : Deed feature) : (c.note d).Pointed := by
  cases d with
  | edited e =>
    cases e with
    | select id =>
      rw [Catalogue.note]
      split
      · next hid =>
        intro id' hid'
        cases hid'
        exact hid
      · exact h
    | clearSelection => exact fun _ hid => nomatch hid
  | asked a => exact h
  | replied call payload =>
    cases call with
    | load reload =>
      cases payload with
      | page page => exact .load page
      | template t => exact h
    | refresh id =>
      cases payload with
      | page page => exact h
      | template t =>
        intro id hid
        -- a template that arrives takes the place of the one with its identifier
        show id ∈ ids (replaceFirst t c.items)
        rw [ids_replaceFirst]
        exact h id hid

theorem foldl (h : c.Pointed) (ds : List (Deed feature)) :
    (ds.foldl Catalogue.note c).Pointed := by
  induction ds generalizing c with
  | nil => exact h
  | cons d ds ih => exact ih (h.note d)

end Pointed

end Catalogue

/-- The selected template is the one that the selection names. -/
theorem id_selectedTemplate? {x : State} (h : x.catalogue.Pointed) :
    x.selectedTemplate?.map (·.id) = x.selected := by
  rw [State.selectedTemplate?]
  cases hselected : x.selected with
  | none => rfl
  | some id =>
    obtain ⟨t, ht, hid⟩ := List.mem_map.mp (h id hselected)
    have hsome : (x.items.find? fun t => t.id = id).isSome = true :=
      List.find?_isSome.mpr ⟨t, ht, decide_eq_true hid⟩
    obtain ⟨found, hfound⟩ := Option.isSome_iff_exists.mp hsome
    have hname : found.id = id := by simpa using List.find?_some hfound
    rw [Option.bind_some, hfound, Option.map_some, hname]

section Runs

variable [DecidableEq V]

/-- **The selection names a template of the list.** In every run of the methods of the templates,
whatever lists and templates the backend answers with, in any order, the selection is empty or the
identifier of a template of the list. So there is a selected template exactly if something is
selected, it is a template of the list, and its identifier is the selected one. -/
theorem selection {ms : List (Session.Move feature V)} (hown : ∀ m ∈ ms, ∀ p, m ≠ .publish p) :
    let x := ((opening .opening : Session feature V).after ms).state
    (∀ id, x.selected = some id → ∃ t ∈ x.items, t.id = id) ∧
      (x.selectedTemplate?.isSome = x.selected.isSome) ∧
      ∀ t, x.selectedTemplate? = some t → t ∈ x.items ∧ x.selected = some t.id := by
  intro x
  have hcatalogue : x.catalogue = ((opening .opening : Session feature V).deeds ms).foldl
      Catalogue.note .bare := catalogueAspect.after rfl hown
  have hbare : Catalogue.bare.Pointed := fun _ hid => nomatch hid
  have hpointed : x.catalogue.Pointed := hcatalogue ▸ hbare.foldl _
  have hids := id_selectedTemplate? hpointed
  refine ⟨fun id hid => List.mem_map.mp (hpointed id hid), ?_, fun t ht => ⟨?_, ?_⟩⟩
  · rw [← hids, Option.isSome_map]
  · obtain ⟨id, -, hfind⟩ := Option.bind_eq_some_iff.mp ht
    exact List.mem_of_find?_eq_some hfind
  · rw [← hids, ht]
    rfl

end Runs

section Examples

/-- A template with the given identifier. -/
def greeting (n : Nat) (body : String) : Template :=
  { id := .ofNat n, name := "greeting", body, updatedAt := 0 }

/-- A list of templates that may be edited. -/
def pageOf (items : List Template) : Page Template :=
  ⟨items, 0, ⟨false, true, false⟩⟩

/-- Two templates are loaded, and the second one is selected and asked for. A subscriber that is
called then selects the first one and loads the list again, which comes with the first one twice and
without the second one. Last comes the single template, but under the identifier of the first. -/
def crossedRefresh : List (Session.Move feature Nat) :=
  paced
    [.ask (Ask.load false),
      .resolve 0 (.ok (.page (pageOf [greeting 1 "Hi", greeting 2 "Hello"]))),
      .edit (Edit.select (.ofNat 2)), .observe .subscribe, .ask Ask.refresh,
      .edit (Edit.select (.ofNat 1)), .ask (Ask.load true), .ret, .ret, .ret, .ret,
      .resolve 2 (.ok (.page (pageOf [greeting 1 "Hi", greeting 1 "Hey"]))), .ret,
      .resolve 1 (.ok (.template (greeting 1 "Good day")))]

theorem catalogue_crossedRefresh :
    ((opening .opening : Session feature Nat).after crossedRefresh).state.catalogue
      = ⟨[greeting 1 "Good day", greeting 1 "Hey"], some (.ofNat 1), ⟨false, true, false⟩,
        true⟩ := by
  cbv

/-- The selection has moved to the template that is still there. -/
theorem selection_crossed :
    let x := ((opening .opening : Session feature Nat).after crossedRefresh).state
    (∀ m ∈ crossedRefresh, ∀ p, m ≠ .publish p) ∧ x.selected = some (.ofNat 1) ∧
      x.selectedTemplate?.isSome = true ∧
      ∀ t, x.selectedTemplate? = some t → t ∈ x.items ∧ t.id = .ofNat 1 := by
  intro x
  have hown : ∀ m ∈ crossedRefresh, ∀ p, m ≠ .publish p := by
    simp [crossedRefresh, paced]
  have hselected : x.selected = some (.ofNat 1) :=
    congrArg Catalogue.selected catalogue_crossedRefresh
  obtain ⟨-, hsome, htemplate⟩ := selection (V := Nat) hown
  refine ⟨hown, hselected, by rw [hsome, hselected]; rfl, fun t ht => ?_⟩
  obtain ⟨hmem, hid⟩ := htemplate t ht
  exact ⟨hmem, Option.some.inj (hid.symm.trans hselected)⟩

end Examples

end LiveDesk.Templates
