import Mathlib.Data.List.DropRight
import LiveDesk.Feature.Jobs
import LiveDesk.Proofs.Session.Deeds

/-!
# The page that arrived last

Loads overlap freely, and every answer is stored when it arrives, whatever has become of the list
meanwhile. So the page at hand is the one that arrived last since the list was reset, in whatever
order the loads were asked for, and the filter is what the edits since then make of the first one.

- `Listing`, `State.listing`: the page at hand with the filter, and those that a state holds.
- `sinceReset`, `lastPage`, `edits`: what was done since the list was reset, the page that arrived
  last, and the edits.
- `listing_eq`: a listing is read off what was done.
- **`arrivals`**: the page and the filter after every run, and what the requests carry.
- `arrivals_crossed`: two loads that are answered in the other order.
-/

namespace LiveDesk.Jobs

open Observable Session

variable {V : Type}

/-- The page at hand with the filter, without the loading flag. -/
structure Listing where
  items : List Job
  total : UInt64
  isLoaded : Bool
  filter : JobFilter

namespace State

/-- The listing that a state holds. -/
def listing (x : State) : Listing :=
  ⟨x.items, x.total, x.isLoaded, x.filter⟩

end State

namespace Edit

def isReset : Edit → Bool
  | .reset => true
  | .setFilter _ | .setPage _ => false

/-- The filter after an edit of it. -/
def filter (f : JobFilter) : Edit → JobFilter
  | .setFilter g => { g with page := 0 }
  | .setPage page => { f with page }
  | .reset => f

end Edit

namespace Listing

/-- The listing of a new list. -/
def bare (pageSize : UInt32) : Listing :=
  ⟨[], 0, false, .ofPageSize pageSize⟩

/-- What a deed makes of the listing. -/
def note (pageSize : UInt32) (l : Listing) : Deed feature → Listing
  | .edited e =>
    if Edit.isReset e then bare pageSize else { l with filter := Edit.filter l.filter e }
  | .asked _ => l
  | .replied _ page => { l with items := page.items, total := page.total, isLoaded := true }

end Listing

/-- The listing is not touched by the loading flag. -/
def listingAspect (pageSize : UInt32) : Aspect feature (State.opening pageSize) Listing where
  read := State.listing
  note := Listing.note pageSize
  raise _ _ := rfl
  lower _ _ := rfl
  apply d x := by
    cases d with
    | edited e => cases e <;> rfl
    | asked a => rfl
    | replied c page => rfl

/-! ## What was done since the list was reset -/

/-- Whether a deed is a reset. -/
def isReset : Deed feature → Bool
  | .edited e => Edit.isReset e
  | .asked _ | .replied _ _ => false

/-- The page that arrives. -/
def page? : Deed feature → Option (Page Job)
  | .replied _ page => some page
  | .edited _ | .asked _ => none

def edit? : Deed feature → Option Edit
  | .edited e => some e
  | .asked _ | .replied _ _ => none

/-- What was done after the last reset. -/
def sinceReset (ds : List (Deed feature)) : List (Deed feature) :=
  ds.rtakeWhile fun d => !isReset d

/-- The page that arrived last. -/
def lastPage (ds : List (Deed feature)) : Option (Page Job) :=
  (ds.filterMap page?).getLast?

def edits (ds : List (Deed feature)) : List Edit :=
  ds.filterMap edit?

theorem sinceReset_concat (ds : List (Deed feature)) (d : Deed feature) :
    sinceReset (ds ++ [d]) = if isReset d then [] else sinceReset ds ++ [d] := by
  rw [sinceReset, List.rtakeWhile_concat]
  cases isReset d <;> rfl

theorem lastPage_concat (ds : List (Deed feature)) (d : Deed feature) :
    lastPage (ds ++ [d]) = (page? d).or (lastPage ds) :=
  getLast?_filterMap_concat ..

theorem edits_concat (ds : List (Deed feature)) (d : Deed feature) :
    edits (ds ++ [d]) = edits ds ++ (edit? d).toList :=
  filterMap_concat ..

/-- The listing that the given deeds make of a new list, if none of them is a reset. -/
def Listing.ofDeeds (pageSize : UInt32) (ds : List (Deed feature)) : Listing where
  items := ((lastPage ds).map (·.items)).getD []
  total := ((lastPage ds).map (·.total)).getD 0
  isLoaded := (lastPage ds).isSome
  filter := (edits ds).foldl Edit.filter (.ofPageSize pageSize)

/-- One more deed that is no reset. -/
theorem Listing.ofDeeds_concat (pageSize : UInt32) (ds : List (Deed feature))
    {d : Deed feature} (hd : isReset d = false) :
    ofDeeds pageSize (ds ++ [d]) = (ofDeeds pageSize ds).note pageSize d := by
  rw [ofDeeds, lastPage_concat, edits_concat, List.foldl_append]
  cases d with
  | edited e =>
    rw [note, if_neg (show ¬ Edit.isReset e = true from Bool.eq_false_iff.mp hd)]
    rfl
  | asked a => rfl
  | replied c page => rfl

/-- **A listing is what was done since the list was reset.** -/
theorem listing_eq (pageSize : UInt32) (ds : List (Deed feature)) :
    ds.foldl (Listing.note pageSize) (.bare pageSize) = .ofDeeds pageSize (sinceReset ds) := by
  induction ds using List.reverseRecOn with
  | nil => rfl
  | append_singleton ds d ih =>
    rw [List.foldl_append, List.foldl_cons, List.foldl_nil, ih, sinceReset_concat]
    by_cases hd : isReset d = true
    · rw [if_pos hd]
      cases d with
      | edited e => exact if_pos hd
      | asked | replied => cases hd
    · rw [if_neg hd, Listing.ofDeeds_concat _ _ (Bool.eq_false_iff.mpr hd)]

section Runs

variable [DecidableEq V]

/-- **The page that arrived last.** In every run of the methods of the list, with any loads that are
answered, fail or are given up in any order:

- the items, the total and whether there is a page are those of the answer that arrived last since
  the list was reset, and those of a new list if none did;
- the filter is what the edits since then make of the first one, in their order;
- a load that fails or is given up changes none of these;
- every request carries the filter that the list had when its load was asked for. -/
theorem arrivals (pageSize : UInt32) {ms : List (Session.Move feature V)}
    (hown : ∀ m ∈ ms, ∀ p, m ≠ .publish p) :
    let start : Session feature V := opening (.opening pageSize)
    let s := start.after ms
    let since := sinceReset (start.deeds ms)
    s.state.items = ((lastPage since).map (·.items)).getD [] ∧
      s.state.total = ((lastPage since).map (·.total)).getD 0 ∧
      s.state.isLoaded = (lastPage since).isSome ∧
      s.state.filter = (edits since).foldl Edit.filter (.ofPageSize pageSize) ∧
      (∀ id, (∀ f, (s.step (.resolve id (.error f))).1.state.listing = s.state.listing) ∧
        (s.step (.cancel id)).1.state.listing = s.state.listing) ∧
      ∀ id request, .sent id request ∈ start.events ms →
        ∃ a reload b, ms = a ++ .ask (Ask.load reload) :: b ∧ (start.after a).isFree = true ∧
          (start.after a).nextCall = id ∧ request = .listJobs (start.after a).state.filter := by
  intro start s since
  have hlisting : s.state.listing = .ofDeeds pageSize since :=
    ((listingAspect pageSize).after rfl hown).trans (listing_eq pageSize _)
  refine ⟨congrArg Listing.items hlisting, congrArg Listing.total hlisting,
    congrArg Listing.isLoaded hlisting, congrArg Listing.filter hlisting, fun id => ?_,
    fun id request hsent => ?_⟩
  · exact (listingAspect pageSize).unanswered (initial_after start ms) id
  · obtain ⟨a, ⟨reload⟩, b, c, hms, hfree, hid, haccept, rfl⟩ := asked_of_sent hsent
    cases haccept
    exact ⟨a, reload, b, hms, hfree, hid, rfl⟩

end Runs

section Examples

/-- A page without jobs, of a list with so many of them. -/
def emptyPage (total : UInt64) : Page Job :=
  ⟨[], total, .nothing⟩

/-- The library goes on until the caller's code has control again. -/
def pause : List (Session.Move feature Nat) :=
  List.replicate 4 .tick

/-- The second page is asked for after the first one, and answered before it. -/
def crossedLoads : List (Session.Move feature Nat) :=
  [.ask (Ask.load false)] ++ pause ++ [.edit (Edit.setPage 1)] ++ pause ++ [.ask (Ask.load true)] ++
    pause ++ [.resolve 1 (.ok (emptyPage 9))] ++ pause ++ [.resolve 0 (.ok (emptyPage 7))] ++ pause

theorem deeds_crossedLoads :
    (opening (.opening 20) : Session feature Nat).deeds crossedLoads
      = [.asked (Ask.load false), .edited (Edit.setPage 1), .asked (Ask.load true),
        .replied ⟨true, { JobFilter.ofPageSize 20 with page := 1 }⟩ (emptyPage 9),
        .replied ⟨false, .ofPageSize 20⟩ (emptyPage 7)] := by cbv

/-- The first page is at hand in the end, under the filter of the second one. -/
theorem arrivals_crossed :
    let s := (opening (.opening 20) : Session feature Nat).after crossedLoads
    (∀ m ∈ crossedLoads, ∀ p, m ≠ .publish p) ∧ s.state.total = 7 ∧ s.state.isLoaded = true ∧
      s.state.filter = { JobFilter.ofPageSize 20 with page := 1 } := by
  intro s
  have hown : ∀ m ∈ crossedLoads, ∀ p, m ≠ .publish p := by simp [crossedLoads, pause]
  obtain ⟨-, htotal, hloaded, hfilter, -⟩ := arrivals (V := Nat) 20 hown
  rw [deeds_crossedLoads] at htotal hloaded hfilter
  exact ⟨hown, htotal, hloaded, hfilter⟩

end Examples

end LiveDesk.Jobs
