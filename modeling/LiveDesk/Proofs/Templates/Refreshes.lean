import Mathlib.Data.List.DropRight
import LiveDesk.Proofs.Templates.Catalogue

/-!
# What the templates at hand are

Lists and single templates arrive in any order. A list takes the place of the one before, with
everything that was refreshed in it. A single template is put where its identifier comes first in
whatever list is there, and nowhere if it is not in it. So the templates at hand are those of the
list that arrived last, up to the templates that arrived after it.

- `lastPage`, `refreshes`: the list that arrived last, and the single templates since then.
- `latest`: the last of some templates that has a given identifier.
- `refreshed`: a list with the latest templates in their places.
- `replaceFirst_refreshed`: one more template that arrives.
- `Catalogue.Shows`, `shows_foldl`: a catalogue that shows a list in this way, and that every
  catalogue does.
- **`refresh_in_place`**: the templates after every run, and what leaves them alone.
- `refresh_in_place_crossed`: a template that arrives after another list.
-/

namespace LiveDesk.Templates

open Observable Session

variable {V : Type}

/-! ## What has arrived -/

/-- The list that arrives. A payload that is no answer to the call does not count. -/
def page? : Deed feature → Option (Page Template)
  | .replied (.load _) (.page page) => some page
  | .edited _ | .asked _ | .replied _ _ => none

/-- The single template that arrives. -/
def template? : Deed feature → Option Template
  | .replied (.refresh _) (.template t) => some t
  | .edited _ | .asked _ | .replied _ _ => none

/-- The list that arrived last. -/
def lastPage (ds : List (Deed feature)) : Option (Page Template) :=
  (ds.filterMap page?).getLast?

/-- The single templates that arrived after the last list. -/
def refreshes (ds : List (Deed feature)) : List Template :=
  (ds.rtakeWhile fun d => (page? d).isNone).filterMap template?

/-- The last one of some templates with the given identifier. -/
def latest (fresh : List Template) (id : Uuid) : Option Template :=
  (fresh.filter fun t => t.id = id).getLast?

/-! ## A list that is refreshed -/

/-- The list with the latest templates in their places: an identifier's place is where it comes
first. -/
def refreshed (fresh items : List Template) : List Template :=
  items.mapIdx fun i t =>
    if t.id ∈ ids (items.take i) then t else (latest fresh t.id).getD t

theorem latest_concat (fresh : List Template) (t : Template) (id : Uuid) :
    latest (fresh ++ [t]) id = if t.id = id then some t else latest fresh id := by
  rw [latest, List.filter_append]
  by_cases h : t.id = id <;> simp [latest, h]

theorem id_latest {fresh : List Template} {id : Uuid} {t : Template}
    (h : latest fresh id = some t) : t.id = id := by
  have hmem := List.mem_of_getLast? h
  exact of_decide_eq_true (List.mem_filter.mp hmem).2

theorem id_getD_latest (fresh : List Template) (t : Template) :
    ((latest fresh t.id).getD t).id = t.id := by
  cases h : latest fresh t.id with
  | none => rfl
  | some t' => exact id_latest h

theorem getElem?_refreshed (fresh items : List Template) (i : Nat) :
    (refreshed fresh items)[i]? = items[i]?.map fun t =>
      if t.id ∈ ids (items.take i) then t else (latest fresh t.id).getD t :=
  List.getElem?_mapIdx ..

theorem refreshed_nil (items : List Template) : refreshed [] items = items := by
  refine List.ext_getElem? fun i => ?_
  rw [getElem?_refreshed]
  cases items[i]? <;> simp [latest]

theorem ids_refreshed (fresh items : List Template) : ids (refreshed fresh items) = ids items := by
  refine List.ext_getElem? fun i => ?_
  rw [ids, ids, List.getElem?_map, List.getElem?_map, getElem?_refreshed]
  cases items[i]? with
  | none => rfl
  | some t =>
    simp only [Option.map_some, Option.some.injEq]
    split
    · rfl
    · exact id_getD_latest fresh t

/-- A template takes the first place of its identifier. -/
theorem getElem?_replaceFirst (fresh : Template) (items : List Template) (i : Nat) :
    (replaceFirst fresh items)[i]? = items[i]?.map fun t =>
      if t.id = fresh.id ∧ t.id ∉ ids (items.take i) then fresh else t := by
  induction items generalizing i with
  | nil => rfl
  | cons head rest ih =>
    rw [replaceFirst]
    by_cases hhead : head.id = fresh.id
    · rw [if_pos hhead]
      cases i with
      | zero => simp [hhead, ids]
      | succ i =>
        -- the place of the identifier is taken by the first template
        cases hrest : rest[i]? with
        | none => simp [hrest]
        | some t =>
          by_cases ht : t.id = fresh.id <;> simp [hrest, ids, ht, hhead]
    · rw [if_neg hhead]
      cases i with
      | zero => simp [hhead]
      | succ i =>
        rw [List.getElem?_cons_succ, ih]
        cases hrest : rest[i]? with
        | none => simp [hrest]
        | some t =>
          by_cases ht : t.id = fresh.id
          · simp [hrest, ids, ht, Ne.symm hhead]
          · simp [hrest, ht]

/-- **One more template that arrives** is the latest one of its identifier. -/
theorem replaceFirst_refreshed (t : Template) (fresh items : List Template) :
    replaceFirst t (refreshed fresh items) = refreshed (fresh ++ [t]) items := by
  refine List.ext_getElem? fun i => ?_
  have hids : ids ((refreshed fresh items).take i) = ids (items.take i) := by
    rw [ids, List.map_take, ← ids, ids_refreshed, ids, ids, List.map_take]
  rw [getElem?_replaceFirst, getElem?_refreshed, getElem?_refreshed, hids]
  cases items[i]? with
  | none => rfl
  | some old =>
    simp only [Option.map_some, Option.some.injEq]
    by_cases hfirst : old.id ∈ ids (items.take i)
    · rw [if_pos hfirst, if_neg fun h => h.2 hfirst, if_pos hfirst]
    · rw [if_neg hfirst, if_neg hfirst, id_getD_latest, latest_concat]
      by_cases hid : old.id = t.id
      · rw [if_pos ⟨hid, hfirst⟩, if_pos hid.symm]
        rfl
      · rw [if_neg fun h => hid h.1, if_neg (Ne.symm hid)]

/-! ## The catalogue -/

theorem lastPage_concat (ds : List (Deed feature)) (d : Deed feature) :
    lastPage (ds ++ [d]) = (page? d).or (lastPage ds) :=
  getLast?_filterMap_concat ..

theorem refreshes_concat (ds : List (Deed feature)) (d : Deed feature) :
    refreshes (ds ++ [d])
      = if (page? d).isSome then [] else refreshes ds ++ (template? d).toList := by
  rw [refreshes, List.rtakeWhile_concat]
  cases hpage : page? d with
  | some p => rfl
  | none =>
    rw [Option.isNone_none, if_pos rfl, filterMap_concat]
    rfl

/-- The catalogue shows a list, if there is one, with the latest of some templates in their
places. -/
structure Catalogue.Shows (c : Catalogue) (page : Option (Page Template))
    (fresh : List Template) : Prop where
  items : c.items = (page.map fun p => refreshed fresh p.items).getD []
  permissions : c.permissions = (page.map (·.permissions)).getD .nothing
  isLoaded : c.isLoaded = page.isSome

/-- What is selected does not show in the list. -/
theorem Catalogue.Shows.select {c : Catalogue} {page : Option (Page Template)}
    {fresh : List Template} (h : c.Shows page fresh) (selected : Option Uuid) :
    { c with selected }.Shows page fresh :=
  ⟨h.items, h.permissions, h.isLoaded⟩

/-- A list that arrives is shown from then on, and a template that arrives is one more of those that
it is shown with. -/
theorem Catalogue.Shows.note {c : Catalogue} {page : Option (Page Template)}
    {fresh : List Template} (h : c.Shows page fresh) (d : Deed feature) :
    (c.note d).Shows ((page? d).or page)
      (if (page? d).isSome then [] else fresh ++ (template? d).toList) := by
  -- a deed that brings neither a list nor a template leaves what is shown
  have hsame : ∀ {c' : Catalogue} {d : Deed feature}, c'.Shows page fresh → page? d = none →
      template? d = none → c'.Shows ((page? d).or page)
        (if (page? d).isSome then [] else fresh ++ (template? d).toList) := by
    intro c' d h hpage htemplate
    simpa [hpage, htemplate] using h
  cases d with
  | edited e =>
    cases e with
    | select id =>
      rw [Catalogue.note]
      split
      · exact hsame (h.select _) rfl rfl
      · exact hsame h rfl rfl
    | clearSelection => exact hsame (h.select _) rfl rfl
  | asked a => exact hsame h rfl rfl
  | replied call payload =>
    cases call with
    | load reload =>
      cases payload with
      | page page => exact ⟨(refreshed_nil page.items).symm, rfl, rfl⟩
      | template t => exact hsame h rfl rfl
    | refresh id =>
      cases payload with
      | page page => exact hsame h rfl rfl
      | template t =>
        refine ⟨?_, h.permissions, h.isLoaded⟩
        show replaceFirst t c.items = _
        rw [h.items]
        cases page with
        | none => rfl
        | some page => exact replaceFirst_refreshed t fresh page.items

/-- **The catalogue shows the list that arrived last, with the templates that arrived after it.** -/
theorem shows_foldl (ds : List (Deed feature)) :
    (ds.foldl Catalogue.note .bare).Shows (lastPage ds) (refreshes ds) := by
  induction ds using List.reverseRecOn with
  | nil => exact ⟨rfl, rfl, rfl⟩
  | append_singleton ds d ih =>
    rw [List.foldl_append, List.foldl_cons, List.foldl_nil, lastPage_concat, refreshes_concat]
    exact ih.note d

/-- A single template that arrives does nothing but take a place. -/
theorem Catalogue.note_refresh (c : Catalogue) (wanted : Uuid) (payload : Payload) :
    let c' := c.note (.replied (.refresh wanted) payload)
    ids c'.items = ids c.items ∧ c'.selected = c.selected ∧ c'.permissions = c.permissions ∧
      c'.isLoaded = c.isLoaded := by
  cases payload with
  | page page => exact ⟨rfl, rfl, rfl, rfl⟩
  | template t => exact ⟨ids_replaceFirst t c.items, rfl, rfl, rfl⟩

section Runs

variable [DecidableEq V]

/-- An answer to the call for a single template, whatever it is. -/
theorem catalogue_resolve_refresh {s : Session feature V} (hinitial : s.store.initial = .opening)
    {id : CallId} {wanted : Uuid} (hcall : s.call? id = some (.refresh wanted))
    (reply : Except Failure Payload) :
    let c := (s.step (.resolve id reply)).1.state.catalogue
    ids c.items = ids s.state.items ∧ c.selected = s.state.selected ∧
      c.permissions = s.state.permissions ∧ c.isLoaded = s.state.isLoaded := by
  intro c
  cases reply with
  | error f =>
    rw [show c = s.state.catalogue from (catalogueAspect.unanswered hinitial id).1 f]
    exact ⟨rfl, rfl, rfl, rfl⟩
  | ok payload =>
    have hstep : c = _ := catalogueAspect.step hinitial (m := .resolve id (.ok payload)) (by simp)
    have hdeed : s.freeDeed? (.resolve id (.ok payload))
        = some (.replied (.refresh wanted) payload) := by
      rw [freeDeed?.eq_def]
      exact congrArg (Option.map fun c => Deed.replied c payload) hcall
    rw [hstep, deed?, hdeed]
    split
    · exact Catalogue.note_refresh s.state.catalogue wanted payload
    · exact ⟨rfl, rfl, rfl, rfl⟩

/-- **A single template takes its place in the list that is there.** In every run of the methods of
the templates, with any calls that are answered, fail or are given up in any order:

- until a list has arrived there are no templates and no permissions;
- from then on the permissions are those of the list that arrived last, and the templates are its
  own with the same identifiers in the same order; where an identifier comes first in it, the
  template is the last one of this identifier that arrived since, if one did, and everywhere else
  it is the list's own;
- an answer to the call for a single template leaves the identifiers in their order, and leaves the
  selection and the permissions;
- a call that fails or is given up leaves all of it. -/
theorem refresh_in_place {ms : List (Session.Move feature V)}
    (hown : ∀ m ∈ ms, ∀ p, m ≠ .publish p) :
    let start : Session feature V := opening .opening
    let s := start.after ms
    let x := s.state
    let arrived := lastPage (start.deeds ms)
    let fresh := refreshes (start.deeds ms)
    (arrived = none → x.items = [] ∧ x.permissions = .nothing ∧ x.isLoaded = false) ∧
      (∀ page, arrived = some page →
        x.permissions = page.permissions ∧ x.isLoaded = true ∧ ids x.items = ids page.items ∧
          ∀ i t, page.items[i]? = some t →
            x.items[i]?
              = some (if t.id ∈ ids (page.items.take i) then t else (latest fresh t.id).getD t)) ∧
      (∀ id wanted reply, s.call? id = some (.refresh wanted) →
        let y := (s.step (.resolve id reply)).1.state
        ids y.items = ids x.items ∧ y.selected = x.selected ∧ y.permissions = x.permissions ∧
          y.isLoaded = x.isLoaded) ∧
      ∀ id, (∀ f, (s.step (.resolve id (.error f))).1.state.catalogue = x.catalogue) ∧
        (s.step (.cancel id)).1.state.catalogue = x.catalogue := by
  intro start s x arrived fresh
  have hinitial : s.store.initial = .opening := initial_after start ms
  have hcatalogue : x.catalogue = (start.deeds ms).foldl Catalogue.note .bare :=
    catalogueAspect.after rfl hown
  have hshows : x.catalogue.Shows arrived fresh := hcatalogue ▸ shows_foldl _
  refine ⟨fun hnone => ?_, fun page hpage => ?_, fun id wanted reply hcall => ?_, fun id => ?_⟩
  · rw [hnone] at hshows
    exact ⟨hshows.items, hshows.permissions, hshows.isLoaded⟩
  · rw [hpage] at hshows
    have hitems : x.items = refreshed fresh page.items := hshows.items
    refine ⟨hshows.permissions, hshows.isLoaded, ?_, fun i t ht => ?_⟩
    · rw [hitems, ids_refreshed]
    · rw [hitems, getElem?_refreshed, ht]
      rfl
  · exact catalogue_resolve_refresh hinitial hcall reply
  · exact catalogueAspect.unanswered hinitial id

end Runs

section Examples

theorem arrivals_crossedRefresh :
    let ds := (opening .opening : Session feature Nat).deeds crossedRefresh
    lastPage ds = some (pageOf [greeting 1 "Hi", greeting 1 "Hey"]) ∧
      refreshes ds = [greeting 1 "Good day"] := by
  cbv

/-- The template takes the first of the two places in the list that came before it. -/
theorem refresh_in_place_crossed :
    let x := ((opening .opening : Session feature Nat).after crossedRefresh).state
    (∀ m ∈ crossedRefresh, ∀ p, m ≠ .publish p) ∧ x.permissions = ⟨false, true, false⟩ ∧
      x.items[0]? = some (greeting 1 "Good day") ∧ x.items[1]? = some (greeting 1 "Hey") := by
  intro x
  have hown : ∀ m ∈ crossedRefresh, ∀ p, m ≠ .publish p := by
    simp [crossedRefresh, paced]
  obtain ⟨-, hpage, -⟩ := refresh_in_place (V := Nat) hown
  rw [arrivals_crossedRefresh.1, arrivals_crossedRefresh.2] at hpage
  obtain ⟨hpermissions, -, -, hitems⟩ := hpage _ rfl
  refine ⟨hown, hpermissions, (hitems 0 _ rfl).trans ?_, (hitems 1 _ rfl).trans ?_⟩
  · rfl
  · rfl

end Examples

end LiveDesk.Templates
