import LiveDesk.Proofs.SavedQueries.Responses
import LiveDesk.Proofs.Storage.Reading
import LiveDesk.Storage.Archive

/-!
# The list and the table

The saved queries keep their list themselves: a query that was created is put in front, and one that
was deleted is taken out. The table is put in order anew whenever it is listed. While a call is
begun, code that is called may ask for others, and the table changes before the request of the first
one is sent. Still the list and the table agree, because a request is answered and its answer stored
before any other code runs.

- `Responds`, `responds`: what a request makes of rows that can be read, and how it is answered.
- `Draws`: identifiers that are new, and times by a clock that does not go back.
- `Shows`: a list shows the rows of a table, one lemma for each answer.
- `Archive.Kept`, `Archive.Kept.step`: what every move preserves.
- **`Archive.agreement`**: the list and the table after every run.
-/

namespace LiveDesk.Storage

variable {V : Type} {rows rest : List Row}

/-! ## The repository as a backend -/

/-- What the request of a call makes of the rows, and how it is answered. -/
inductive Responds (draw : Draw) (rows : List Row) :
    SavedQueries.Call → List Row → Except RepositoryError SavedQueries.Payload → Prop
  | listed {reload} : Responds draw rows (.load reload) rows
      (.ok (.listed ((rows.mergeSort Row.isBefore).map Row.shown)))
  | created {name spec} : Responds draw rows (.save name spec)
      (rows ++ [.ofQuery ⟨draw.id, name, spec, draw.time⟩])
      (.ok (.created ⟨draw.id, name, spec, draw.time⟩))
  | deleted {id rest} : (∀ r ∈ rest, r ∈ rows) →
      rest.map Row.shown = (rows.map Row.shown).filter (·.id ≠ id) →
      Responds draw rows (.delete id) rest (.ok .deleted)
  | failed {c e} : SavedQueries.feature.request c ≠ .list → Responds draw rows c rows (.error e)

/-- Rows that can be read and have different identifiers respond to every call. -/
theorem responds (hrows : ∀ r ∈ rows, r.Readable)
    (hnodup : ((rows.map Row.shown).map (·.id)).Nodup) (draw : Draw) (c : SavedQueries.Call) :
    ∃ rows' outcome,
      (⟨some rows⟩ : Repository).respond draw.id draw.time (SavedQueries.feature.request c)
          = (⟨some rows'⟩, outcome) ∧
        Responds draw rows c rows' outcome := by
  cases c with
  | load reload =>
    have hlist : (⟨some rows⟩ : Repository).list = _ := Repository.list_eq_ok.mpr ⟨hrows, rfl⟩
    refine ⟨rows, _, ?_, .listed⟩
    show Repository.respond _ _ _ .list = _
    rw [Repository.respond, hlist]
    rfl
  | save name spec =>
    show ∃ rows' outcome, Repository.respond _ _ _ (.create name spec) = _ ∧ _
    rw [Repository.respond]
    -- an identifier that is in use already is refused by the table
    by_cases hused : ∃ r ∈ rows, r.uuid = .text draw.id.text
    · obtain ⟨r, hr, huuid⟩ := hused
      rw [Repository.create_used (q := ⟨draw.id, name, spec, draw.time⟩) hr huuid]
      exact ⟨rows, _, rfl, .failed nofun⟩
    · rw [Repository.create_new (q := ⟨draw.id, name, spec, draw.time⟩)
        fun r hr huuid => hused ⟨r, hr, huuid⟩]
      exact ⟨_, _, rfl, .created⟩
  | delete id =>
    show ∃ rows' outcome, Repository.respond _ _ _ (.delete id) = _ ∧ _
    rw [Repository.respond]
    rcases Repository.delete_readable hrows hnodup id with hdelete | ⟨rest, hdelete, hsub, hrest⟩
    · rw [hdelete]
      exact ⟨rows, _, rfl, .failed nofun⟩
    · rw [hdelete]
      exact ⟨rest, _, rfl, .deleted hsub hrest⟩

/-! ## What a query gets when it is created -/

/-- What the first n queries that are created get: identifiers that are different from each other
and from those of the given queries, and times by a clock that does not go back and is not behind
these queries. -/
structure Draws (stored : List SavedQuery) (draws : Nat → Draw) (n : Nat) : Prop where
  fresh : ∀ i < n, ∀ q ∈ stored, q.id ≠ (draws i).id
  distinct : ∀ j < n, ∀ i < j, (draws i).id ≠ (draws j).id
  late : ∀ i < n, ∀ q ∈ stored, q.updatedAt ≤ (draws i).time
  forward : ∀ j < n, ∀ i < j, (draws i).time ≤ (draws j).time

variable {stored : List SavedQuery} {draws : Nat → Draw} {n : Nat}

theorem Draws.mono {m : Nat} (h : Draws stored draws n) (hm : m ≤ n) : Draws stored draws m where
  fresh i hi := h.fresh i (hi.trans_le hm)
  distinct j hj := h.distinct j (hj.trans_le hm)
  late i hi := h.late i (hi.trans_le hm)
  forward j hj := h.forward j (hj.trans_le hm)

/-- The rows can be read and have different identifiers, and each shows one of the given queries or
one that was created since. -/
structure Holds (stored : List SavedQuery) (draws : Nat → Draw) (n : Nat) (rows : List Row) :
    Prop where
  readable : ∀ r ∈ rows, r.Readable
  nodup : ((rows.map Row.shown).map (·.id)).Nodup
  origin : ∀ r ∈ rows, r.shown ∈ stored ∨
    ∃ i < n, r.shown.id = (draws i).id ∧ r.shown.updatedAt = (draws i).time

namespace Holds

/-- The rows that are there in the beginning. -/
theorem opening {r : Repository} (hstored : r.list = .ok stored)
    (hnodup : (stored.map (·.id)).Nodup) (draws : Nat → Draw) :
    ∃ rows, r = ⟨some rows⟩ ∧ Holds stored draws 0 rows := by
  obtain ⟨rows, rfl⟩ := Repository.rows_of_list hstored
  obtain ⟨hrows, rfl⟩ := Repository.list_eq_ok.mp hstored
  have hperm := Repository.listed_perm rows
  refine ⟨rows, rfl, hrows, ?_, fun r hr => .inl (hperm.mem_iff.mpr (List.mem_map_of_mem hr))⟩
  exact (hperm.map (·.id)).nodup_iff.mp hnodup

/-- The next query that is created has a new identifier and is not older than the others. -/
theorem next (h : Holds stored draws n rows) (hdraws : Draws stored draws (n + 1)) :
    ∀ r ∈ rows, r.shown.id ≠ (draws n).id ∧ r.shown.updatedAt ≤ (draws n).time := by
  intro r hr
  rcases h.origin r hr with hmem | ⟨i, hi, hid, htime⟩
  · exact ⟨hdraws.fresh n n.lt_succ_self _ hmem, hdraws.late n n.lt_succ_self _ hmem⟩
  · rw [hid, htime]
    exact ⟨hdraws.distinct n n.lt_succ_self i hi, hdraws.forward n n.lt_succ_self i hi⟩

theorem created (h : Holds stored draws n rows) (hdraws : Draws stored draws (n + 1))
    (name : String) (spec : QuerySpec) :
    Holds stored draws (n + 1)
      (rows ++ [.ofQuery ⟨(draws n).id, name, spec, (draws n).time⟩]) := by
  have hlast : ∀ {P : Row → Prop}, (∀ r ∈ rows, P r) →
      P (.ofQuery ⟨(draws n).id, name, spec, (draws n).time⟩) →
      ∀ r ∈ rows ++ [.ofQuery ⟨(draws n).id, name, spec, (draws n).time⟩], P r :=
    fun hrows hq => List.forall_mem_append.mpr ⟨hrows, List.forall_mem_singleton.mpr hq⟩
  refine ⟨hlast h.readable (Row.readable_ofQuery _), ?_, hlast (fun r hr => ?_) (.inr ?_)⟩
  · rw [List.map_append, List.map_append, List.nodup_append]
    refine ⟨h.nodup, by simp, fun id hid id' hid' => ?_⟩
    obtain ⟨q, hq, rfl⟩ := List.mem_map.mp hid
    obtain ⟨r, hr, rfl⟩ := List.mem_map.mp hq
    obtain rfl : id' = (draws n).id := by simpa [Row.shown_ofQuery] using hid'
    exact (h.next hdraws r hr).1
  · exact (h.origin r hr).imp_right fun ⟨i, hi, hrow⟩ => ⟨i, hi.trans n.lt_succ_self, hrow⟩
  · rw [Row.shown_ofQuery]
    exact ⟨n, n.lt_succ_self, rfl, rfl⟩

theorem deleted (h : Holds stored draws n rows) {id : Uuid} (hsub : ∀ r ∈ rest, r ∈ rows)
    (hrest : rest.map Row.shown = (rows.map Row.shown).filter (·.id ≠ id)) :
    Holds stored draws n rest where
  readable r hr := h.readable r (hsub r hr)
  nodup := by
    rw [hrest]
    exact h.nodup.sublist (List.filter_sublist.map _)
  origin r hr := h.origin r (hsub r hr)

end Holds

/-! ## A list that shows the rows -/

/-- The list has the queries of the rows, the newest first. -/
structure Shows (items : List SavedQuery) (rows : List Row) : Prop where
  perm : items.Perm (rows.map Row.shown)
  newest : NewestFirst items

namespace Shows

variable {items : List SavedQuery}

theorem listed (hrows : ∀ r ∈ rows, r.Readable) :
    Shows ((rows.mergeSort Row.isBefore).map Row.shown) rows :=
  ⟨Repository.listed_perm rows, Repository.newestFirst_listed hrows⟩

/-- A query that was created is put in front, for none is newer. -/
theorem created (h : Shows items rows) {q : SavedQuery}
    (hnext : ∀ r ∈ rows, r.shown.id ≠ q.id ∧ r.shown.updatedAt ≤ q.updatedAt) :
    Shows ((SavedQueries.Response.created q).apply items) (rows ++ [.ofQuery q]) := by
  have hitems : ∀ other ∈ items, other.id ≠ q.id ∧ other.updatedAt ≤ q.updatedAt := by
    intro other hother
    obtain ⟨r, hr, rfl⟩ := List.mem_map.mp (h.perm.mem_iff.mp hother)
    exact hnext r hr
  have hkept : (items.filter fun other => other.id ≠ q.id) = items :=
    List.filter_eq_self.mpr fun other hother => decide_eq_true (hitems other hother).1
  refine ⟨?_, ?_⟩
  · rw [SavedQueries.Response.apply, hkept, List.map_append, List.map_singleton,
      Row.shown_ofQuery]
    exact (h.perm.cons q).trans (List.perm_append_singleton q _).symm
  · rw [SavedQueries.Response.apply, hkept]
    exact List.pairwise_cons.mpr ⟨fun other hother => (hitems other hother).2, h.newest⟩

theorem deleted (h : Shows items rows) {id : Uuid}
    (hrest : rest.map Row.shown = (rows.map Row.shown).filter (·.id ≠ id)) :
    Shows ((SavedQueries.Response.deleted id).apply items) rest :=
  ⟨hrest ▸ h.perm.filter _, h.newest.filter _⟩

end Shows

/-! ## What an answer does to the list -/

/-- The listing shows the rows, if it was ever loaded. -/
def Agrees (l : SavedQueries.Listing) (rows : List Row) : Prop :=
  l.isLoaded = true → Shows l.items rows

/-- The listing after the repository has responded to a call. -/
def listingAfter (l : SavedQueries.Listing) (c : SavedQueries.Call) :
    Except RepositoryError SavedQueries.Payload → SavedQueries.Listing
  | .ok payload => l.note (.replied c payload)
  | .error _ => l

namespace Responds

variable {rows' : List Row} {draw : Draw} {c : SavedQueries.Call}
  {outcome : Except RepositoryError SavedQueries.Payload} {l : SavedQueries.Listing}
  {words : Wording}

/-- What is answered is an answer to the call. -/
theorem settles (h : Responds draw rows c rows' outcome) (words : Wording)
    {payload : SavedQueries.Payload}
    (hpayload : (Repository.served words outcome).1 = .ok payload) :
    SavedQueries.settle c payload ≠ none := by
  cases h with
  | failed hlist => cases hpayload
  | listed | created | deleted =>
    cases hpayload
    exact nofun

theorem holds (h : Responds (draws n) rows c rows' outcome) (hholds : Holds stored draws n rows)
    (hdraws : Draws stored draws (Archive.creations n (Repository.served words outcome).1)) :
    Holds stored draws (Archive.creations n (Repository.served words outcome).1) rows' := by
  cases h with
  | listed | failed => exact hholds
  | @created name spec => exact hholds.created hdraws name spec
  | deleted hsub hrest => exact hholds.deleted hsub hrest

/-- Only a list that was asked for is loaded. -/
theorem isLoaded_iff (h : Responds draw rows c rows' outcome) :
    (listingAfter l c outcome).isLoaded = true ↔
      l.isLoaded = true ∨ SavedQueries.feature.request c = .list := by
  cases h with
  | failed hlist => exact (or_iff_left hlist).symm
  | listed => exact iff_of_true (Bool.or_true _) (.inr rfl)
  | created | deleted =>
    rw [or_iff_left nofun]
    exact Bool.coe_iff_coe.mpr (Bool.or_false _)

/-- **What is answered to a call keeps the list and the rows together.** -/
theorem agrees (h : Responds (draws n) rows c rows' outcome) (hholds : Holds stored draws n rows)
    (hagrees : Agrees l rows)
    (hdraws : Draws stored draws (Archive.creations n (Repository.served words outcome).1)) :
    Agrees (listingAfter l c outcome) rows' := by
  intro hloaded
  have hbefore := h.isLoaded_iff.mp hloaded
  cases h with
  | failed hlist => exact hagrees hloaded
  | listed => exact .listed hholds.readable
  | created => exact (hagrees (hbefore.resolve_right nofun)).created (hholds.next hdraws)
  | deleted hsub hrest => exact (hagrees (hbefore.resolve_right nofun)).deleted hrest

end Responds

/-! ## What a move preserves -/

section Steps

variable [DecidableEq V] {s : Session SavedQueries.feature V}
  {m : Session.Move SavedQueries.feature V}

/-- While no call is in flight, a move leaves the list alone. -/
theorem listing_step (hinitial : s.store.initial = .opening) (hidle : s.calls = [])
    (hown : ∀ p, m ≠ .publish p) : (s.step m).1.state.listing = s.state.listing := by
  have hstep : (s.step m).1.state.listing
      = (s.deed? m).toList.foldl SavedQueries.Listing.note s.state.listing :=
    SavedQueries.listingAspect.step hinitial hown
  rw [hstep, Session.deed?]
  split
  · cases m with
    | tick | observe | cancel | ret | panic | ask => rfl
    | publish p => exact absurd rfl (hown p)
    | edit e => exact e.elim
    -- an answer to no call changes nothing
    | resolve id reply =>
      cases reply with
      | error f => rfl
      | ok payload =>
        have hcall : s.call? id = none := by
          rw [Session.call?, hidle]
          rfl
        rw [Session.freeDeed?.eq_def]
        dsimp only
        rw [hcall]
        rfl
  · rfl

end Steps

namespace Archive

/-- The list shows the rows from the first time that it was loaded; the rows are those that were
there or were created since, and no call is left waiting for an answer. -/
structure Kept (stored : List SavedQuery) (draws : Nat → Draw) (x : Archive V) (rows : List Row) :
    Prop where
  initial : x.session.store.initial = .opening
  idle : x.session.calls = []
  repository : x.repository = ⟨some rows⟩
  holds : Holds stored draws x.created rows
  agrees : Agrees x.session.state.listing rows

/-- The only call in flight is answered. -/
theorem kept_answer {x : Archive V} {id : CallId} {c : SavedQueries.feature.Call}
    (hinitial : x.session.store.initial = .opening) (hcalls : x.session.calls = [(id, c)])
    (hrepository : x.repository = ⟨some rows⟩) (hholds : Holds stored draws x.created rows)
    (hagrees : Agrees x.session.state.listing rows)
    (hdraws : Draws stored draws
      (x.answer (draws x.created) id (SavedQueries.feature.request c)).1.created) :
    let y := (x.answer (draws x.created) id (SavedQueries.feature.request c)).1
    (∃ rows', Kept stored draws y rows') ∧
      (y.session.state.isLoaded = true ↔
        x.session.state.isLoaded = true ∨ SavedQueries.feature.request c = .list) := by
  intro y
  obtain ⟨session, repository, words, created⟩ := x
  obtain rfl : repository = ⟨some rows⟩ := hrepository
  obtain ⟨rows', outcome, hrespond, hresponds⟩ := responds hholds.readable hholds.nodup
    (draws created) c
  have hcall : session.call? id = some c := by
    rw [Session.call?, hcalls]
    simp
  -- the log aside, a backend passes the outcome on as it is
  obtain ⟨reply, hreply⟩ : ∃ reply, reply = (Repository.served words outcome).1 := ⟨_, rfl⟩
  have hy : y = ⟨(session.resolve id reply).1, ⟨some rows'⟩, words, creations created reply⟩ := by
    show (answer ⟨session, ⟨some rows⟩, words, created⟩ _ _ _).1 = _
    unfold answer Repository.serve
    dsimp only
    rw [hrespond, hreply]
  have hlisting : (session.resolve id reply).1.state.listing
      = listingAfter session.state.listing c outcome := by
    obtain ⟨hfailed, hreplied⟩ := SavedQueries.listingAspect.resolve hinitial hcall
    cases outcome with
    | error e => exact hreply ▸ hfailed (e.failure words)
    | ok payload => exact hreply ▸ hreplied payload
  rw [show (answer _ _ _ _).1 = _ from hy, hreply] at hdraws
  have hholds' := hresponds.holds hholds hdraws
  have hagrees' := hresponds.agrees hholds hagrees hdraws
  rw [← hreply] at hholds'
  refine ⟨⟨rows', ?_⟩, ?_⟩
  · rw [hy]
    refine ⟨(session.course_resolve id reply).state.1.trans hinitial, ?_, rfl, hholds', ?_⟩
    · show (session.resolve id reply).1.calls = []
      rw [Session.calls_resolve hcall fun payload h => hresponds.settles words (hreply ▸ h), hcalls]
      simp
    · exact hlisting ▸ hagrees'
  · rw [hy]
    exact (congrArg (·.isLoaded = true) hlisting).to_iff.trans hresponds.isLoaded_iff

section Steps

variable [DecidableEq V] {x : Archive V} {m : Session.Move SavedQueries.feature V}

/-- A move that sends no request is one of the saved queries alone. -/
theorem step_of_not_sent (draws : Nat → Draw) (h : ∀ id c, x.session.turn m ≠ .sent id c) :
    x.step draws m = ({ x with session := (x.session.step m).1 }, (x.session.step m).2) := by
  have hnone : request? (x.session.step m).2 = none := by
    refine List.findSome?_eq_none_iff.mpr fun e he => ?_
    cases e with
    | sent id request =>
      obtain ⟨c, hturn, -⟩ := Session.turn_of_sent he
      exact absurd hturn (h id c)
    | store | log | notified | answered => rfl
  unfold step
  dsimp only
  rw [hnone]

/-- A request is answered in the step in which it is sent. -/
theorem step_of_sent (draws : Nat → Draw) {id : CallId} {c : SavedQueries.feature.Call}
    (h : x.session.turn m = .sent id c) :
    x.step draws m =
      let request := SavedQueries.feature.request c
      let answered := { x with session := (x.session.step m).1 }.answer (draws x.created) id request
      (answered.1, .sent id request :: answered.2) := by
  unfold step
  dsimp only
  rw [Session.events_of_sent h]
  rfl

omit [DecidableEq V] in
/-- An answer sends no request. -/
theorem sent_notMem_answer {x : Archive V} {draw : Draw} {id id' : CallId}
    {request request' : SavedQueries.Request} :
    .sent id' request' ∉ (x.answer draw id request).2 := by
  unfold answer
  dsimp only
  rw [List.mem_append, not_or]
  refine ⟨by simp, ?_⟩
  exact Session.sent_notMem_perform x.session (.resolve id _) request'

/-- **Every move keeps the list and the table together**, and the list is loaded from the first
request for it on. -/
theorem Kept.step (h : Kept stored draws x rows) (hown : ∀ p, m ≠ .publish p)
    (hdraws : Draws stored draws (x.step draws m).1.created) :
    (∃ rows', Kept stored draws (x.step draws m).1 rows') ∧
      ((x.step draws m).1.session.state.isLoaded = true ↔
        x.session.state.isLoaded = true ∨ ∃ id, .sent id .list ∈ (x.step draws m).2) := by
  have hinitial : (x.session.step m).1.store.initial = .opening :=
    (x.session.course m).state.1.trans h.initial
  have hlisting := listing_step h.initial h.idle hown
  have hloaded : (x.session.step m).1.state.isLoaded = x.session.state.isLoaded :=
    congrArg SavedQueries.Listing.isLoaded hlisting
  -- a request is answered in the move that sends it, so no call stays in flight
  by_cases hsent : ∃ id c, x.session.turn m = .sent id c
  · obtain ⟨id, c, hturn⟩ := hsent
    rw [step_of_sent draws hturn] at hdraws ⊢
    have hcalls : (x.session.step m).1.calls = [(id, c)] := by
      rw [Session.calls_sent hturn, h.idle]
      rfl
    obtain ⟨hkept, hiff⟩ := kept_answer (x := { x with session := (x.session.step m).1 }) hinitial
      hcalls h.repository h.holds (hlisting ▸ h.agrees) hdraws
    refine ⟨hkept, hiff.trans ?_⟩
    rw [hloaded]
    refine or_congr_right ⟨fun hlist => ⟨id, ?_⟩, ?_⟩
    · rw [hlist]
      exact List.mem_cons_self ..
    · rintro ⟨id', hmem⟩
      rcases List.mem_cons.mp hmem with heq | hmem
      · exact (Session.Event.sent.inj heq).2.symm
      · exact absurd hmem sent_notMem_answer
  · have hturn : ∀ id c, x.session.turn m ≠ .sent id c := fun id c h => hsent ⟨id, c, h⟩
    rw [step_of_not_sent draws hturn]
    have hkept : Kept stored draws { x with session := (x.session.step m).1 } rows :=
      ⟨hinitial, Session.calls_step h.idle hturn, h.repository, h.holds, hlisting ▸ h.agrees⟩
    refine ⟨⟨rows, hkept⟩, ?_⟩
    have hnot : ¬ ∃ id, .sent id .list ∈ (x.session.step m).2 := by
      rintro ⟨id, hmem⟩
      obtain ⟨c, hc, -⟩ := Session.turn_of_sent hmem
      exact hturn id c hc
    rw [or_iff_left hnot]
    exact Bool.coe_iff_coe.mpr hloaded

/-! ## Runs -/

/-- The archive that a run leads to. -/
def after (x : Archive V) (draws : Nat → Draw) (ms : List (Session.Move SavedQueries.feature V)) :
    Archive V :=
  (x.run draws ms).1

/-- What happens in a run. -/
def events (x : Archive V) (draws : Nat → Draw)
    (ms : List (Session.Move SavedQueries.feature V)) :
    List (Session.Event SavedQueries.feature V) :=
  (x.run draws ms).2

theorem created_le_step (x : Archive V) (draws : Nat → Draw)
    (m : Session.Move SavedQueries.feature V) : x.created ≤ (x.step draws m).1.created := by
  have hcreations : ∀ n reply, n ≤ creations n reply := by
    intro n reply
    unfold creations
    split <;> omega
  unfold step
  dsimp only
  split
  · exact le_rfl
  · exact hcreations ..

theorem created_le_after (x : Archive V) (draws : Nat → Draw)
    (ms : List (Session.Move SavedQueries.feature V)) :
    x.created ≤ (x.after draws ms).created := by
  induction ms generalizing x with
  | nil => exact le_rfl
  | cons m ms ih => exact (x.created_le_step draws m).trans (ih (x.step draws m).1)

/-- A run keeps the list and the table together. -/
theorem Kept.after {ms : List (Session.Move SavedQueries.feature V)}
    (h : Kept stored draws x rows) (hown : ∀ m ∈ ms, ∀ p, m ≠ .publish p)
    (hdraws : Draws stored draws (x.after draws ms).created) :
    (∃ rows', Kept stored draws (x.after draws ms) rows') ∧
      ((x.after draws ms).session.state.isLoaded = true ↔
        x.session.state.isLoaded = true ∨ ∃ id, .sent id .list ∈ x.events draws ms) := by
  induction ms generalizing x rows with
  | nil => exact ⟨⟨rows, h⟩, (or_iff_left (by simp [events, run])).symm⟩
  | cons m ms ih =>
    obtain ⟨hm, hms⟩ := List.forall_mem_cons.mp hown
    have hevents : x.events draws (m :: ms)
        = (x.step draws m).2 ++ (x.step draws m).1.events draws ms := rfl
    obtain ⟨⟨rows', hkept⟩, hloaded⟩ :=
      h.step hm (hdraws.mono ((x.step draws m).1.created_le_after draws ms))
    obtain ⟨hkept, hloaded'⟩ := ih hkept hms hdraws
    refine ⟨hkept, hloaded'.trans ?_⟩
    simp only [hloaded, hevents, List.mem_append, exists_or, or_assoc]

/-- **The list and the table agree.** Every row can be read at first, and no identifier comes twice.
In every run of the methods of the saved queries, with calls asked for from anywhere and code that
fails anywhere, as long as nobody else writes to the table, a query that is created gets a new
identifier, and the clock is not behind the stored times and does not go back:

- the table can be listed at every moment, and the list is loaded from the first request for it on;
- from then on the list has exactly the queries that the table lists at that moment, none of them
  twice, and the newest first. -/
theorem agreement {r : Repository} {words : Wording} (hstored : r.list = .ok stored)
    (hnodup : (stored.map (·.id)).Nodup) {ms : List (Session.Move SavedQueries.feature V)}
    (hown : ∀ m ∈ ms, ∀ p, m ≠ .publish p)
    (hdraws : Draws stored draws ((opening r words : Archive V).after draws ms).created) :
    let start : Archive V := opening r words
    let x := start.after draws ms
    let y := x.session.state
    ∃ listed, x.repository.list = .ok listed ∧
      (y.isLoaded = true ↔ ∃ id, .sent id .list ∈ start.events draws ms) ∧
      (y.isLoaded = true →
        y.items.Perm listed ∧ (y.items.map (·.id)).Nodup ∧ NewestFirst y.items) := by
  intro start x y
  obtain ⟨rows, rfl, hholds⟩ := Holds.opening hstored hnodup draws
  have hstart : Kept stored draws start rows := ⟨rfl, rfl, rfl, hholds, nofun⟩
  obtain ⟨⟨rows', hkept⟩, hloaded⟩ := hstart.after hown hdraws
  refine ⟨(rows'.mergeSort Row.isBefore).map Row.shown, ?_, ?_, fun hy => ?_⟩
  · rw [hkept.repository]
    exact Repository.list_eq_ok.mpr ⟨hkept.holds.readable, rfl⟩
  · exact hloaded.trans (or_iff_right nofun)
  · have hshows : Shows y.items rows' := hkept.agrees hy
    refine ⟨hshows.perm.trans (Repository.listed_perm rows').symm, ?_, hshows.newest⟩
    exact (hshows.perm.map (·.id)).nodup_iff.mpr hkept.holds.nodup

theorem after_append (x : Archive V) (draws : Nat → Draw)
    (ms ms' : List (Session.Move SavedQueries.feature V)) :
    x.after draws (ms ++ ms') = (x.after draws ms).after draws ms' := by
  induction ms generalizing x with
  | nil => rfl
  | cons m ms ih => exact ih (x.step draws m).1

end Steps

section Examples

/-- A query that somebody else has saved. -/
def foreign : SavedQuery :=
  { id := .ofNat 0xAB, name := "all", spec := .empty, updatedAt := 700 }

def own : SavedQuery :=
  { id := .ofNat 2, name := "mine", spec := .empty, updatedAt := 900 }

/-- The row of the foreign query; its identifier is written in capital letters. -/
def foreignRow : Row :=
  { Row.ofQuery foreign with uuid := .text "00000000-0000-0000-0000-0000000000AB" }

/-- A table with both queries. -/
def mixed : Repository :=
  ⟨some [foreignRow, .ofQuery own]⟩

/-- What the queries get that are created; all of them in the same millisecond. -/
def drawn (n : Nat) : Draw :=
  ⟨.ofNat (1000 + n), 1000⟩

theorem query_foreignRow : foreignRow.query = .ok foreign :=
  Row.query_eq_ok.mpr ⟨_, _, rfl, by decide, Row.specOf_render _ _⟩

theorem list_mixed : mixed.list = .ok [own, foreign] := by
  have hreadable : ∀ r ∈ [foreignRow, .ofQuery own], r.Readable := by
    simp [Row.readable_of_query query_foreignRow, Row.readable_ofQuery]
  have horder : foreignRow.isBefore (.ofQuery own) = false := by decide
  refine Repository.list_eq_ok.mpr ⟨hreadable, ?_⟩
  simp [List.mergeSort, horder, Row.shown_ofQuery, Row.shown_of_query query_foreignRow]

/-- What an engine says of a table that is not there, and a reader of an empty document. -/
def spoken : Wording where
  engine := "no such table: saved_queries"
  document := "EOF while parsing a value at line 1 column 0"

/-- The queries are asked for, up to the point at which the request is sent. -/
def askedMixed : List (Session.Move SavedQueries.feature Nat) :=
  [.ask (SavedQueries.Ask.load false), .tick, .tick, .tick]

/-- A subscriber that is called while a query is saved deletes both queries, the foreign one in
vain, and saves another one. -/
def nestedSave : List (Session.Move SavedQueries.feature Nat) :=
  Session.paced
    [.tick, .observe .subscribe, .ask (SavedQueries.Ask.save " new  one" .empty),
      .ask (SavedQueries.Ask.delete own.id), .ask (SavedQueries.Ask.delete foreign.id),
      .ask (SavedQueries.Ask.save "another" .empty), .ret, .ret, .ret, .ret, .ret, .ret, .ret, .ret,
      .ret, .ret]

/-- The queries are listed, and the list has just been stored. -/
def listedMixed : Archive Nat :=
  let asked := ((opening mixed spoken : Archive Nat).after drawn askedMixed).session
  ⟨((asked.step .tick).1.resolve 0 (.ok (.listed [own, foreign]))).1, mixed, spoken, 0⟩

theorem after_askedMixed :
    (opening mixed spoken : Archive Nat).after drawn (askedMixed ++ [.tick]) = listedMixed := by
  have hturn : ((opening mixed spoken : Archive Nat).after drawn askedMixed).session.turn .tick
      = .sent 0 (.load false) := rfl
  have hlist : ((opening mixed spoken : Archive Nat).after drawn askedMixed).repository.list
      = .ok [own, foreign] := list_mixed
  rw [after_append]
  refine (congrArg Prod.fst (step_of_sent drawn hturn)).trans ?_
  dsimp only [answer, Repository.serve, SavedQueries.feature, Repository.respond]
  rw [hlist]
  rfl

theorem after_nestedSave :
    let x := (opening mixed spoken : Archive Nat).after drawn (askedMixed ++ [.tick] ++ nestedSave)
    x.created = 2 ∧ x.session.state.isLoaded = true ∧
      x.session.state.items.map (·.name) = ["new one", "another", "all"] := by
  intro x
  have hx : x = listedMixed.after drawn nestedSave := by
    rw [← after_askedMixed, ← after_append]
  rw [hx]
  decide +kernel

/-- The query that was asked for first was created last. -/
theorem agreement_nested :
    let ms := askedMixed ++ [.tick] ++ nestedSave
    let x := (opening mixed spoken : Archive Nat).after drawn ms
    let items := x.session.state.items
    mixed.list = .ok [own, foreign] ∧ (∀ m ∈ ms, ∀ p, m ≠ .publish p) ∧ x.created = 2 ∧
      items.map (·.name) = ["new one", "another", "all"] ∧
      ∃ listed, x.repository.list = .ok listed ∧ items.Perm listed ∧
        (items.map (·.id)).Nodup ∧ NewestFirst items := by
  intro ms x items
  obtain ⟨hcreated, hloaded, hitems⟩ := after_nestedSave
  have hown : ∀ m ∈ ms, ∀ p, m ≠ .publish p := by
    simp [ms, askedMixed, nestedSave, Session.paced]
  have hdraws : Draws [own, foreign] drawn x.created := by
    rw [show x.created = 2 from hcreated]
    exact ⟨by decide, by decide, by decide, fun _ _ _ _ => Int64.le_refl _⟩
  obtain ⟨listed, hlist, -, hlisted⟩ := agreement (V := Nat) list_mixed (by decide) hown hdraws
  exact ⟨list_mixed, hown, hcreated, hitems, listed, hlist, hlisted hloaded⟩

end Examples

end Archive

end LiveDesk.Storage
