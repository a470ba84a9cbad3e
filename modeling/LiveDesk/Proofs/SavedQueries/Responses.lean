import Mathlib.Data.List.Nodup
import LiveDesk.Proofs.SavedQueries.Names

/-!
# The list as its answers have made it

Loads, saves and deletions of saved queries overlap freely. Each answer is applied to whatever the
list has become meanwhile, so the list depends on the answers and on the order in which they arrive,
and on nothing else.

- `Response`: a successful answer; `Response.apply`: what it makes of the list.
- `responses`: the answers of a run, read off what was done.
- `Listing`, `listingAspect`: the list and whether there is one, which the flags do not show in.
- **`responses_folded`**: the list after every run, what leaves it alone, and that it has no
  identifier twice.
- `responses_folded_crossed`: a deletion and a load that is answered late.
-/

namespace LiveDesk.SavedQueries

open Observable Session

variable {V : Type}

/-- A successful answer to a call. -/
inductive Response where
  | listed (items : List SavedQuery)
  | created (query : SavedQuery)
  | deleted (id : Uuid)
  deriving DecidableEq

namespace Response

/-- The list after an answer: a loaded list takes its place, a query that was created comes first
and is the only one of its identifier, and what was deleted is gone. -/
def apply (items : List SavedQuery) : Response → List SavedQuery
  | .listed items => items
  | .created query => query :: items.filter fun other => other.id ≠ query.id
  | .deleted id => items.filter fun other => other.id ≠ id

def isListed : Response → Bool
  | .listed _ => true
  | .created _ | .deleted _ => false

/-- An answer keeps the identifiers of a list different, unless it is a list that has one twice. -/
theorem nodup_apply {items : List SavedQuery} (hitems : (items.map (·.id)).Nodup)
    {response : Response} (hlisted : ∀ l, response = .listed l → (l.map (·.id)).Nodup) :
    ((response.apply items).map (·.id)).Nodup := by
  have hfilter : ∀ id, ((items.filter fun other => other.id ≠ id).map (·.id)).Nodup := fun id =>
    hitems.sublist (List.filter_sublist.map _)
  cases response with
  | listed l => exact hlisted l rfl
  | deleted id => exact hfilter id
  | created query =>
    refine List.nodup_cons.mpr ⟨fun hmem => ?_, hfilter query.id⟩
    obtain ⟨other, hother, hid⟩ := List.mem_map.mp hmem
    exact of_decide_eq_true (List.mem_filter.mp hother).2 hid

/-- A list that answers have made has no identifier twice if no loaded list has. -/
theorem nodup_foldl {responses : List Response} {items : List SavedQuery}
    (hitems : (items.map (·.id)).Nodup)
    (hlisted : ∀ l, .listed l ∈ responses → (l.map (·.id)).Nodup) :
    ((responses.foldl apply items).map (·.id)).Nodup := by
  induction responses generalizing items with
  | nil => exact hitems
  | cons response responses ih =>
    refine ih (nodup_apply hitems fun l hl => ?_) fun l hl => ?_
    · exact hlisted l (hl ▸ List.mem_cons_self ..)
    · exact hlisted l (List.mem_cons_of_mem _ hl)

end Response

/-! ## The list as an aspect -/

/-- The successful answer that arrives. A payload that is no answer to the call does not count. -/
def response? : Deed feature → Option Response
  | .replied (.load _) (.listed items) => some (.listed items)
  | .replied (.save _ _) (.created query) => some (.created query)
  | .replied (.delete id) .deleted => some (.deleted id)
  | .edited _ | .asked _ | .replied _ _ => none

/-- The successful answers in the order of their arrival. -/
def responses (ds : List (Deed feature)) : List Response :=
  ds.filterMap response?

/-- The list, and whether it was ever loaded. -/
structure Listing where
  items : List SavedQuery
  isLoaded : Bool

namespace State

/-- The listing that a state holds. -/
def listing (x : State) : Listing :=
  ⟨x.items, x.isLoaded⟩

end State

namespace Listing

/-- What an answer makes of the listing. -/
def settle (l : Listing) (response : Response) : Listing :=
  ⟨response.apply l.items, l.isLoaded || response.isListed⟩

/-- What a deed makes of the listing. -/
def note (l : Listing) (d : Deed feature) : Listing :=
  (response? d).elim l l.settle

theorem items_foldl (ds : List (Deed feature)) (l : Listing) :
    (ds.foldl note l).items = (responses ds).foldl Response.apply l.items := by
  induction ds generalizing l with
  | nil => rfl
  | cons d ds ih =>
    rw [List.foldl_cons, ih, responses, responses]
    cases h : response? d with
    | none => rw [List.filterMap_cons_none h, note, h]; rfl
    | some response => rw [List.filterMap_cons_some h, note, h]; rfl

end Listing

/-- The listing is not touched by the flags. -/
def listingAspect : Aspect feature State.opening Listing where
  read := State.listing
  note := Listing.note
  raise c _ := by cases c <;> rfl
  lower c _ := by cases c <;> rfl
  apply d x := by
    cases d with
    | edited e => exact e.elim
    | asked a =>
      cases a with
      | load reload | delete id => rfl
      | save name spec =>
        cases hname : normalizeName name with
        | none =>
          have haccept := accept_save_blank hname spec x
          exact congrArg State.listing (Deed.apply_refuse haccept)
        | some normal =>
          have haccept := accept_save_named hname spec x
          exact congrArg State.listing (Deed.apply_proceed haccept)
    | replied c payload =>
      cases c <;> cases payload <;> simp [Deed.apply, feature, settle, State.listing,
        Listing.note, response?, Listing.settle, Response.apply, Response.isListed, withFirst,
        without]

section Runs

variable [DecidableEq V]

/-- A query cannot be saved under a blank name. -/
theorem state_ask_blank (s : Session feature V) {name : String} (hname : Text.allBlank name = true)
    (spec : QuerySpec) : (s.step (.ask (Ask.save name spec))).1.state = s.state := by
  have hturn : s.turn (.ask (Ask.save name spec)) = .declined ∨
      s.turn (.ask (Ask.save name spec)) = .idle := by
    by_cases hfree : s.isFree = true
    · left
      have haccept := accept_save_blank (normalizeName_eq_none.mpr hname) spec s.state
      rw [turn_of_isFree hfree]
      unfold freeTurn askTurn
      simp only [haccept]
    · exact Or.inr (turn_of_not_isFree hfree nofun)
  have hstate : (s.step (.ask (Ask.save name spec))).1.state
      = (s.turn (.ask (Ask.save name spec))).apply s.store.initial s.state := (s.course _).state.2
  rcases hturn with hturn | hturn <;> rw [hstate, hturn] <;> rfl

/-- **The list is what its answers have made of it.** In every run of the methods of the saved
queries, with answers of any backend that come, fail or are given up in any order:

- the list is what the successful answers make of an empty one, in the order of their arrival; so
  it is the same in every run in which the same answers arrive in the same order;
- a call that fails or is given up, and one with a blank name, does nothing to it;
- it has no identifier twice if no loaded list has one twice. -/
theorem responses_folded {ms : List (Session.Move feature V)}
    (hown : ∀ m ∈ ms, ∀ p, m ≠ .publish p) :
    let start : Session feature V := opening .opening
    let s := start.after ms
    let arrived := responses (start.deeds ms)
    s.state.items = arrived.foldl Response.apply [] ∧
      (∀ ms', (∀ m ∈ ms', ∀ p, m ≠ .publish p) → responses (start.deeds ms') = arrived →
        (start.after ms').state.items = s.state.items) ∧
      (∀ id, (∀ f, (s.step (.resolve id (.error f))).1.state.items = s.state.items) ∧
        (s.step (.cancel id)).1.state.items = s.state.items) ∧
      (∀ name spec, Text.allBlank name = true →
        (s.step (.ask (Ask.save name spec))).1.state = s.state) ∧
      ((∀ items, .listed items ∈ arrived → (items.map (·.id)).Nodup) →
        (s.state.items.map (·.id)).Nodup) := by
  intro start s arrived
  have hitems : ∀ {ms : List (Session.Move feature V)}, (∀ m ∈ ms, ∀ p, m ≠ .publish p) →
      (start.after ms).state.items = (responses (start.deeds ms)).foldl Response.apply [] :=
    fun hown => (congrArg Listing.items (listingAspect.after rfl hown)).trans
      (Listing.items_foldl _ _)
  refine ⟨hitems hown, fun ms' hown' hsame => ?_, fun id => ?_, fun name spec hname => ?_,
    fun hlisted => ?_⟩
  · rw [hitems hown', hsame]
    exact (hitems hown).symm
  · obtain ⟨hfailed, hcancelled⟩ := listingAspect.unanswered (initial_after start ms) id
    exact ⟨fun f => congrArg Listing.items (hfailed f), congrArg Listing.items hcancelled⟩
  · exact state_ask_blank s hname spec
  · rw [hitems hown]
    exact Response.nodup_foldl .nil hlisted

end Runs

section Examples

/-- The query that is saved. -/
def openBugs : SavedQuery :=
  { id := .ofNat 1, name := "open bugs", spec := .empty, updatedAt := 1000 }

/-- A load is asked for, and answered only after a query was saved and deleted again. -/
def crossedAnswers : List (Session.Move feature Nat) :=
  paced
    [.ask (Ask.load false), .ask (Ask.save "  open \t bugs" .empty),
      .resolve 1 (.ok (.created openBugs)), .ask (Ask.delete openBugs.id),
      .resolve 2 (.ok .deleted), .resolve 0 (.ok (.listed [openBugs]))]

theorem responses_crossedAnswers :
    responses ((opening .opening : Session feature Nat).deeds crossedAnswers)
      = [.created openBugs, .deleted openBugs.id, .listed [openBugs]] := rfl

/-- The list that is answered late has the query again, once. -/
theorem responses_folded_crossed :
    let s := (opening .opening : Session feature Nat).after crossedAnswers
    (∀ m ∈ crossedAnswers, ∀ p, m ≠ .publish p) ∧ s.state.items = [openBugs] ∧
      (s.state.items.map (·.id)).Nodup := by
  intro s
  have hown : ∀ m ∈ crossedAnswers, ∀ p, m ≠ .publish p := by
    simp [crossedAnswers, paced]
  obtain ⟨hitems, -, -, -, hnodup⟩ := responses_folded (V := Nat) hown
  rw [responses_crossedAnswers] at hitems hnodup
  exact ⟨hown, hitems, hnodup (by simp)⟩

end Examples

end LiveDesk.SavedQueries
