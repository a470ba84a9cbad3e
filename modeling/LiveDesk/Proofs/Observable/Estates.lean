import LiveDesk.Observable.Estate
import LiveDesk.Proofs.Observable.Holdings

/-!
# Runs of an estate

Every act of an estate makes at most one move of its store. So a run of an estate is a run of the
store, the trace, and what holds of all runs of stores holds of it. What is given up on the way is
given up while the store allows it, and code that is gone owns nothing.

- `Estate.asks`: the move of the store that an act leads to.
- `Estate.trace`: the run of the store that a run of an estate makes.
- `Estate.Attended`, `Estate.attended`: the cases in which the moves under way go on.
- `Estate.Sound`: the store is in order, the moves under way are possible, and whoever owns
  something is there.
- **`Sound.step`**: every act that is possible keeps it.
- **`Sound.trace`**: the trace of a possible run is possible.
- **`run_plain`**: where no code owns anything, an estate is its store.
-/

namespace LiveDesk.Observable

variable {S V H : Type}

/-! ## The code that a store keeps -/

namespace Store

variable {s t : Store S V H}

/-- A source is there if it lives. -/
theorem has_iff {src : Source} : s.has src = true ↔ s.Living src := by
  cases src with
  | store => exact ⟨fun _ => trivial, fun _ => rfl⟩
  | view p => rw [has, Living, link?, Option.isSome_map]

/-- The projections that live are those with a record. -/
theorem mem_living (hs : s.Wired) {q : Projection S V} :
    q ∈ s.living ↔ s.get? q.id = some q := by
  rw [living, List.mem_filterMap]
  constructor
  · rintro ⟨p, -, hq⟩
    rwa [get?_id hq]
  · intro hq
    have hnamed := hs.named (link?_of_get? hq)
    exact ⟨q.id, List.mem_reverse.mpr (List.mem_range.mpr hnamed), hq⟩

/-- What a frame borrows depends on the links only. -/
theorem grips_congr (hl : t.link? = s.link?) (f : Frame S V H) : f.grips t = f.grips s := by
  cases f with
  | emitting p now =>
    have hentry : (t.get? p).map (·.entry) = (s.get? p).map (·.entry) := by
      have := congrArg (Option.map Prod.snd) (congrFun hl p)
      rwa [link?, link?, Option.map_map, Option.map_map] at this
    rw [Frame.grips, Frame.grips, hentry]
  | publishing | callback | replay | code => rfl

/-- The code of a store is what activities keep and what is in the lists. -/
theorem mem_kept (hs : s.Wired) {o : ObserverId} :
    o ∈ s.kept ↔ o ∈ s.gripped ∨ ∃ src, ∃ x ∈ s.observersOf src, x.id = o := by
  simp only [kept, List.mem_append, List.mem_flatMap, List.mem_map, List.mem_singleton]
  constructor
  · rintro ((hgrip | ⟨q, hq, ⟨x, hx, hid⟩ | rfl⟩) | ⟨x, hx, hid⟩)
    · exact Or.inl hgrip
    · refine Or.inr ⟨.view q.id, x, ?_, hid⟩
      rw [observersOf, (mem_living hs).mp hq]
      exact hx
    -- the entry of a projection is in the list of its source
    · exact Or.inr ⟨_, _, hs.entered (link?_of_get? ((mem_living hs).mp hq)), rfl⟩
    · exact Or.inr ⟨.store, x, hx, hid⟩
  · rintro (hgrip | ⟨src, x, hx, hid⟩)
    · exact Or.inl (Or.inl hgrip)
    · cases src with
      | store => exact Or.inr ⟨x, hx, hid⟩
      | view p =>
        cases hq : s.get? p with
        | none =>
          rw [observersOf, hq] at hx
          cases hx
        | some q =>
          rw [observersOf, hq] at hx
          refine Or.inl (Or.inr ⟨q, (mem_living hs).mpr ?_, Or.inl ⟨x, hx, hid⟩⟩)
          rwa [get?_id hq]

/-- Where the lists only grow and the activities stay, no code goes. -/
theorem kept_subset (hs : s.Wired) (ht : t.Wired) (hl : t.link? = s.link?)
    (hobs : ∀ {src x}, x ∈ s.observersOf src → x ∈ t.observersOf src)
    (hst : ∀ {f}, f ∈ s.stack → f ∈ t.stack) : s.kept ⊆ t.kept := by
  intro o ho
  rcases (mem_kept hs).mp ho with hgrip | ⟨src, x, hx, hid⟩
  · obtain ⟨f, hf, hof⟩ := List.mem_flatMap.mp hgrip
    refine (mem_kept ht).mpr (Or.inl (List.mem_flatMap.mpr ⟨f, hst hf, ?_⟩))
    rwa [grips_congr hl]
  · exact (mem_kept ht).mpr (Or.inr ⟨src, x, hobs hx, hid⟩)

/-- No code goes where a projection takes its first value from the queue. -/
theorem Steady.kept_tick [DecidableEq V] (hs : s.Steady) (hfail : s.canFail = false) :
    s.kept ⊆ s.tick.1.kept ∧ s.tick.1.link? = s.link? := by
  have ht : s.tick.1.Sound := by
    have hstep := hs.toSound.step (.tick : Move S V H)
    rwa [step_tick (fun hwait => by rw [canFail_of_isWaiting hwait] at hfail; cases hfail)]
      at hstep
  unfold canFail at hfail
  split at hfail
  case h_2 => cases hfail
  next p below hst =>
  have htop : s.Delivers ⟨.view p, none⟩ below := ⟨_, rfl, hst⟩
  have hcases := tick_cases htop (hs.toSound.alive_of_delivers htop)
  generalize s.tick.1 = t, s.tick.2 = es at ht hcases ⊢
  cases hcases with
  | ended hnil =>
    rw [hnil] at hfail
    cases hfail
  | took _ hsame _ _ hdel =>
    refine ⟨fun o ho => (mem_kept ht.wired).mpr ?_, hsame.link?⟩
    obtain ⟨g, -, hgt⟩ := hdel
    rcases (mem_kept hs.wired).mp ho with hgrip | ⟨src, x, hx, hid⟩
    · obtain ⟨f, hf, hof⟩ := List.mem_flatMap.mp hgrip
      rw [hst] at hf
      rcases List.mem_cons.mp hf with rfl | hf
      · -- the frame keeps nothing but the projection's own entry
        obtain ⟨q, hq, rfl⟩ : ∃ q, s.get? p = some q ∧ q.entry = o := by
          simpa [Frame.grips] using hof
        have hentered := hs.wired.entered (link?_of_get? hq)
        exact Or.inr ⟨q.origin.source, _, by rwa [hsame.observersOf], rfl⟩
      · refine Or.inl (List.mem_flatMap.mpr ⟨f, hgt ▸ List.mem_cons_of_mem _ hf, ?_⟩)
        rwa [grips_congr hsame.link?]
    · exact Or.inr ⟨src, x, by rwa [hsame.observersOf], hid⟩

end Store

namespace Estate

/-! ## What a move comes to -/

section Effects

variable {e : Estate S V H} {m : Move S V H}

@[simp] theorem conclude_store (e : Estate S V H) : e.conclude.store = e.store := by
  unfold conclude
  split <;> rfl

@[simp] theorem conclude_owned (e : Estate S V H) : e.conclude.owned = e.owned := by
  unfold conclude
  split <;> rfl

@[simp] theorem undertake_store (e : Estate S V H) (m : Move S V H) :
    (e.undertake m).store = e.store := by
  unfold undertake
  split <;> rfl

/-- Nothing is borrowed when nothing is being given up. -/
theorem isBorrowed_eq_false (hrel : e.releases = []) (src : Source) :
    e.isBorrowed src = false := by
  rw [isBorrowed, hrel]
  rfl

/-- While nothing is released, no entry is stuck. -/
theorem isStuck_eq_false (hrel : e.releases = []) (o : ObserverId) : e.isStuck o = false := by
  rw [isStuck]
  cases e.store.home? o with
  | none => rfl
  | some src => exact isBorrowed_eq_false hrel src

/-- While nothing is released, a move has its own effect, or a selector fails. -/
theorem effective_of_releases_nil (hrel : e.releases = []) :
    e.effective m = if m.isTick && e.failing then .panic else m := by
  cases m with
  | tick => rfl
  | observe a =>
    cases a with
    | unsubscribe o => simp [effective, isStuck_eq_false hrel, Move.isTick]
    | project | chain | share | drop | subscribe | watch | detach => rfl
  | change | ret | panic | enter | leave => rfl

/-- While nothing is released, no entry becomes stuck. -/
theorem sticks_of_releases_nil (hrel : e.releases = []) : e.sticks m = [] := by
  unfold sticks
  split
  · rw [isStuck_eq_false hrel]
    rfl
  · rfl

/-- While nothing is released, no entry is stranded. -/
theorem strands_of_releases_nil (hrel : e.releases = []) (t : Store S V H) :
    e.strands t = [] := by
  rw [strands, List.filter_eq_nil_iff.mpr fun q _ => by simp [isBorrowed_eq_false hrel]]
  rfl

/-- What is given up only gives something up in the store. -/
theorem effective_release (e : Estate S V H) (b : Belonging) :
    ∃ a, e.effective (.observe b.release) = .observe a ∧
      (Move.observe a : Move S V H).givesUp = true := by
  cases b with
  | handle p => exact ⟨.drop p, rfl, rfl⟩
  | subscription o =>
    refine ⟨_, rfl, ?_⟩
    split <;> rfl

end Effects

/-! ## How the moves under way go on -/

section Attend

variable [DecidableEq V] {e : Estate S V H} {m : Move S V H}

/-- The move that is made next, unless something has to be given up before. -/
def asked (e : Estate S V H) : Option (Move S V H) :=
  e.due?.filter fun m => (e.firstToGo? m).isNone

/-- How the moves under way go on. -/
inductive Attended (e : Estate S V H) :
    Option (Move S V H) → Estate S V H → List (Event S V) → Prop where
  /-- Nothing is under way. -/
  | idle : e.due? = none → Attended e none e []
  /-- Code that goes gives something up. -/
  | given {m : Move S V H} {o : ObserverId} {b : Belonging} : e.due? = some m →
    e.firstToGo? m = some (o, b) →
    Attended e none { e with
      owned := e.owned.erase (o, b)
      releases := ⟨b, e.borrows m o⟩ :: e.releases } []
  /-- What is given up goes. -/
  | released {r : Release} {rest : List Release} : e.releases = r :: rest →
    e.firstToGo? (.observe r.belonging.release) = none →
    Attended e (some (.observe r.belonging.release))
      { (e.carryOut (.observe r.belonging.release)).1 with releases := rest }
      (e.carryOut (.observe r.belonging.release)).2
  /-- The move itself is made. -/
  | made {m : Move S V H} : e.releases = [] → e.request = some m → e.firstToGo? m = none →
    Attended e (some m) (e.carryOut m).1.conclude (e.carryOut m).2

/-- What attending to the requests comes to. -/
theorem attended (e : Estate S V H) : Attended e e.asked e.attend.1 e.attend.2 := by
  unfold asked attend
  cases hdue : e.due? with
  | none => exact .idle hdue
  | some m =>
    dsimp only
    cases hgo : e.firstToGo? m with
    | some x =>
      rw [Option.filter_some, hgo]
      exact .given hdue hgo
    | none =>
      rw [Option.filter_some, hgo]
      cases hrel : e.releases with
      | cons r rest =>
        rw [due?, hrel] at hdue
        cases hdue
        exact .released hrel hgo
      | nil =>
        rw [due?, hrel] at hdue
        exact .made hrel hdue hgo

/-- The store makes the effective move. -/
theorem carryOut_store (e : Estate S V H) (m : Move S V H) :
    (e.carryOut m).1.store = (e.store.step (e.effective m)).1 := rfl

/-- Without anything given up, a move fails at nothing. -/
theorem carryOut_of_releases_nil (hrel : e.releases = []) :
    (e.carryOut m).1 = { e with store := (e.store.step (e.effective m)).1 } := by
  simp [carryOut, sticks_of_releases_nil hrel, strands_of_releases_nil hrel]

/-- Nothing has to be given up exactly if whoever owns something stays. -/
theorem firstToGo?_eq_none (hkept : ∀ x ∈ e.owned, e.keeps x.1 = true) :
    e.firstToGo? m = none ↔ ∀ x ∈ e.owned, (e.carryOut m).1.keeps x.1 = true := by
  rw [firstToGo?, List.findSome?_eq_none_iff]
  constructor
  · intro hnone x hx
    by_contra hgone
    -- who owns something is kept, in the store or by an entry that stayed behind
    have hcand : x.1 ∈ e.store.kept ++ e.strays.map (·.2) := by
      rcases (Bool.or_eq_true _ _).mp (hkept x hx) with h | h
      · exact List.mem_append_left _ (List.contains_iff_mem.mp h)
      · obtain ⟨y, hy, hid⟩ := List.any_eq_true.mp h
        have hid : y.2 = x.1 := (by simpa using hid : y.2 = x.1 ∧ _).1
        exact List.mem_append_right _ (hid ▸ List.mem_map_of_mem hy)
    have hmem : x.1 ∈ e.candidates m := by
      unfold candidates
      split
      · exact List.mem_cons_of_mem _ hcand
      · exact hcand
    have hfind := hnone x.1 (List.mem_filter.mpr ⟨hmem, by simpa using hgone⟩)
    exact absurd (beq_self_eq_true x.1) (List.find?_eq_none.mp hfind x hx)
  · intro hall o ho
    refine List.find?_eq_none.mpr fun x hx hid => ?_
    have hgone := (List.mem_filter.mp ho).2
    rw [← beq_iff_eq.mp hid, hall x hx] at hgone
    cases hgone

/-- Whoever is kept stays where no code of the store goes and no source. -/
theorem keeps_carryOut (hcodes : e.store.kept ⊆ (e.carryOut m).1.store.kept)
    (hhas : ∀ src, e.store.has src = true → (e.carryOut m).1.store.has src = true)
    {o : ObserverId} (ho : e.keeps o = true) : (e.carryOut m).1.keeps o = true := by
  rcases (Bool.or_eq_true _ _).mp ho with h | h
  · refine (Bool.or_eq_true _ _).mpr (Or.inl ?_)
    exact List.contains_iff_mem.mpr (hcodes (List.contains_iff_mem.mp h))
  · obtain ⟨⟨src, o'⟩, hx, hid⟩ := List.any_eq_true.mp h
    obtain ⟨hid, hsrc⟩ := (Bool.and_eq_true _ _).mp hid
    refine (Bool.or_eq_true _ _).mpr (Or.inr (List.any_eq_true.mpr ⟨(src, o'), ?_, ?_⟩))
    · exact List.mem_append_left _ hx
    · exact (Bool.and_eq_true _ _).mpr ⟨hid, hhas src hsrc⟩

end Attend

/-! ## Estates in order -/

/-- The store is in order, the moves under way are possible in it, something fails only where it
can, and whoever owns something is there. -/
structure Sound (e : Estate S V H) : Prop where
  steady : e.store.Steady
  due : ∀ {m}, e.request = some m → e.store.admits m = true
  /-- Only the store's own step is made where nothing can fail. -/
  ready : ∀ {m}, e.request = some m → m ≠ .tick → e.store.canFail = true
  canFail : e.failing = true ∨ e.releases ≠ [] → e.store.canFail = true
  settled : e.request = none → e.releases = [] ∧ e.failing = false
  kept : ∀ {x}, x ∈ e.owned → e.keeps x.1 = true

/-- Whether an act is possible. -/
def admits (e : Estate S V H) (a : Act S V H) : Bool :=
  e.permits a &&
    match a with
    | .make m => !e.isSettled || e.store.admits m
    | .entrust _ _ | .reclaim _ _ => true

/-- Only ticks go on with what is under way. -/
theorem settled_of_permits {e : Estate S V H} {m : Move S V H} (hm : e.permits (.make m) = true)
    (htick : m.isTick = false) : e.isSettled = true := by
  by_contra hbusy
  simp [permits, hbusy, htick] at hm

namespace Sound

variable {e : Estate S V H}

theorem opening (initial : S) : (opening initial : Estate S V H).Sound where
  steady := (Store.Orderly.opening initial).toSteady
  due h := by cases h
  ready h := by cases h
  canFail h := by
    rcases h with h | h
    · cases h
    · exact absurd rfl h
  settled _ := ⟨rfl, rfl⟩
  kept h := by cases h

/-- A move that the caller or the store begins. -/
theorem undertake (h : e.Sound) {m : Move S V H} (hm : e.admits (.make m) = true) :
    (e.undertake m).Sound := by
  unfold Estate.undertake
  split
  · next hsettled =>
    have hnone : e.request = none := Option.isNone_iff_eq_none.mp hsettled
    obtain ⟨hpermits, hadmits⟩ := (Bool.and_eq_true _ _).mp hm
    have hadmits : e.store.admits m = true := by simpa [hsettled] using hadmits
    -- all that the caller begins is begun where code has control, or where something may fail
    have hfail : m ≠ .tick → e.store.canFail = true := by
      intro hne
      cases m with
      | tick => exact absurd rfl hne
      | panic => exact hadmits
      | change | ret | enter | leave => exact Store.canFail_of_isWaiting hadmits
      | observe a =>
        have hafford : e.affords (.observe a) = true := by
          simpa [permits, hsettled] using ((Bool.and_eq_true _ _).mp hpermits).2
        cases a with
        | drop | unsubscribe | detach =>
          exact Store.canFail_of_isWaiting ((Bool.and_eq_true _ _).mp hafford).1
        | project | chain | share | subscribe | watch =>
          exact Store.canFail_of_isWaiting hadmits
    refine ⟨h.steady, fun hreq => ?_, fun hreq hne => ?_, fun hfails => ?_, fun hreq => ?_,
      fun hx => h.kept hx⟩
    · cases hreq
      exact hadmits
    · cases hreq
      exact hfail hne
    · rcases hfails with hfails | hrel
      · refine hfail fun htick => ?_
        rw [htick] at hfails
        cases hfails
      · exact absurd (h.settled hnone).1 hrel
    · cases hreq
  · exact h

/-- The store allows what is made next. -/
theorem admits_effective (h : e.Sound) {m : Move S V H} (hm : e.due? = some m) :
    e.store.admits (e.effective m) = true := by
  cases hrel : e.releases with
  | cons r rest =>
    rw [due?, hrel] at hm
    cases hm
    obtain ⟨a, ha, hgives⟩ := e.effective_release r.belonging
    rw [ha]
    exact (Bool.or_eq_true _ _).mpr (Or.inl hgives)
  | nil =>
    rw [due?, hrel] at hm
    rw [effective_of_releases_nil hrel]
    split
    · next hfails => exact h.canFail (Or.inl ((Bool.and_eq_true _ _).mp hfails).2)
    · exact h.due hm

variable [DecidableEq V]

/-- Where something can go, something can fail. -/
theorem canFail_of_gone (h : e.Sound) {m : Move S V H} {x : ObserverId × Belonging}
    (hm : e.due? = some m) (hgo : e.firstToGo? m = some x) : e.store.canFail = true := by
  by_contra hfail
  have hfail := Bool.eq_false_iff.mpr hfail
  have hquiet : ¬ (e.failing = true ∨ e.releases ≠ []) := fun hfails => by
    rw [h.canFail hfails] at hfail
    cases hfail
  obtain ⟨hcalm, hrel⟩ := not_or.mp hquiet
  have hrel := not_not.mp hrel
  rw [due?, hrel] at hm
  have htick : m = .tick := by
    by_contra hne
    rw [h.ready hm hne] at hfail
    cases hfail
  subst htick
  have heff : e.effective .tick = .tick := by
    rw [effective_of_releases_nil hrel, Bool.eq_false_iff.mpr hcalm]
    rfl
  -- the tick takes a first value from a queue, with which no code goes
  obtain ⟨hcodes, hlink⟩ := h.steady.kept_tick hfail
  have hstore : (e.carryOut .tick).1.store = e.store.tick.1 := by
    rw [carryOut_store, heff, Store.step_tick]
    intro hwait
    rw [Store.canFail_of_isWaiting hwait] at hfail
    cases hfail
  have hnone : e.firstToGo? .tick = none := by
    refine (firstToGo?_eq_none fun x hx => h.kept hx).mpr fun x hx => ?_
    refine keeps_carryOut (hstore ▸ hcodes) (fun src hsrc => ?_) (h.kept hx)
    rw [hstore, Store.has_iff]
    exact (Store.living_congr hlink).mpr (Store.has_iff.mp hsrc)
  rw [hnone] at hgo
  cases hgo

/-- **The moves under way go on in order.** -/
theorem attend (h : e.Sound) : e.attend.1.Sound := by
  have hcases := e.attended
  generalize e.asked = x, e.attend.1 = u, e.attend.2 = es at hcases
  cases hcases with
  | idle => exact h
  | @given m o b hdue hgo =>
    refine ⟨h.steady, h.due, h.ready, fun _ => h.canFail_of_gone hdue hgo, fun hreq => ?_,
      fun hx => h.kept (List.mem_of_mem_erase hx)⟩
    have hreq : e.request = none := hreq
    rw [due?, (h.settled hreq).1, hreq] at hdue
    cases hdue
  | @released r rest hrel hgo =>
    -- giving something up leads from one store in which something can fail to another
    have hfail : e.store.canFail = true := h.canFail (Or.inr (by simp [hrel]))
    have hadmits := h.admits_effective (m := .observe r.belonging.release) (by rw [due?, hrel])
    obtain ⟨a, ha, hgives⟩ := e.effective_release r.belonging
    have hstore := carryOut_store e (.observe r.belonging.release)
    rw [ha] at hstore hadmits
    have hnext := h.steady.canFail_step hadmits (by simp) hfail
    rw [← hstore] at hnext
    refine ⟨?_, fun hreq => ?_, fun _ _ => hnext, fun _ => hnext, fun hreq => ?_, fun hx => ?_⟩
    · rw [hstore]
      exact h.steady.advance hadmits
    · rw [hstore]
      exact h.steady.admits_of_givesUp hgives (h.due hreq) hfail
    · rw [(h.settled hreq).1] at hrel
      cases hrel
    · exact (firstToGo?_eq_none fun x hx => h.kept hx).mp hgo _ hx
  | @made m hrel hreq hgo =>
    have hadmits := h.admits_effective (m := m) (by rw [due?, hrel, hreq])
    have hsteady := h.steady.advance hadmits
    have hkept := (firstToGo?_eq_none fun x hx => h.kept hx).mp hgo
    have hstore := carryOut_store e m
    rw [carryOut_of_releases_nil hrel] at hkept ⊢
    unfold conclude
    split
    · -- the failure reaches the stack
      next hfails =>
      obtain ⟨hfails, hst⟩ := (Bool.and_eq_true _ _).mp hfails
      have hnext : (e.store.step (e.effective m)).1.canFail = true := by
        refine h.steady.canFail_step hadmits (fun htick => ?_) (h.canFail (Or.inl hfails))
        rw [effective_of_releases_nil hrel, show e.failing = true from hfails] at htick
        split at htick
        · cases htick
        · next hne =>
          rw [htick] at hne
          exact hne rfl
      refine ⟨hsteady, fun hp => ?_, fun _ _ => hnext, fun _ => hnext, fun hp => ?_,
        fun hx => hkept _ hx⟩
      · cases hp
        exact hnext
      · cases hp
    · refine ⟨hsteady, fun hp => ?_, fun hp => ?_, fun hfails => ?_, fun _ => ⟨hrel, rfl⟩,
        fun hx => hkept _ hx⟩
      · cases hp
      · cases hp
      rcases hfails with hfails | hne
      · cases hfails
      · exact absurd hrel hne

/-- **Every act that is possible leaves an estate in order.** -/
theorem step (h : e.Sound) {a : Act S V H} (ha : e.admits a = true) : (e.step a).1.Sound := by
  have hpermits := ((Bool.and_eq_true _ _).mp ha).1
  unfold Estate.step
  rw [if_pos hpermits]
  cases a with
  | make m => exact (h.undertake ha).attend
  | entrust o b =>
    refine ⟨h.steady, h.due, h.ready, h.canFail, h.settled, fun hx => ?_⟩
    rcases List.mem_append.mp hx with hx | hx
    · exact h.kept hx
    · rw [List.mem_singleton.mp hx]
      simp only [permits, Bool.and_eq_true] at hpermits
      exact hpermits.1.2
  | reclaim o b =>
    exact ⟨h.steady, h.due, h.ready, h.canFail, h.settled,
      fun hx => h.kept (List.mem_of_mem_erase hx)⟩

end Sound

/-! ## Runs -/

section Runs

variable [DecidableEq V] {e : Estate S V H}

/-- The estate in which an act goes on with the moves under way. -/
def prepared (e : Estate S V H) : Act S V H → Estate S V H
  | .make m => e.undertake m
  | .entrust _ _ | .reclaim _ _ => e

/-- The move that is made in an act, as it is asked for. -/
def asks (e : Estate S V H) (a : Act S V H) : Option (Move S V H) :=
  match a with
  | .make m => if e.permits (.make m) then (e.undertake m).asked else none
  | .entrust _ _ | .reclaim _ _ => none

/-- The move of the store that is made in an act. -/
def makes (e : Estate S V H) (a : Act S V H) : Option (Move S V H) :=
  (e.asks a).map (e.prepared a).effective

/-- The estate that a run leads to. -/
def after (e : Estate S V H) (as : List (Act S V H)) : Estate S V H :=
  (e.run as).1

/-- What happens in a run. -/
def events (e : Estate S V H) (as : List (Act S V H)) : List (Event S V) :=
  (e.run as).2

/-- The moves of the store that a run makes. -/
def trace (e : Estate S V H) : List (Act S V H) → List (Move S V H)
  | [] => []
  | a :: as => (e.makes a).toList ++ (e.step a).1.trace as

/-- Every act is possible when it is done. -/
def Feasible (e : Estate S V H) : List (Act S V H) → Prop
  | [] => True
  | a :: as => e.admits a = true ∧ (e.step a).1.Feasible as

instance Feasible.decide (e : Estate S V H) : (as : List (Act S V H)) → Decidable (e.Feasible as)
  | [] => .isTrue trivial
  | a :: as =>
    have := Feasible.decide (e.step a).1 as
    inferInstanceAs (Decidable (e.admits a = true ∧ (e.step a).1.Feasible as))

@[simp] theorem after_nil (e : Estate S V H) : e.after [] = e := rfl

@[simp] theorem after_cons (e : Estate S V H) (a : Act S V H) (as : List (Act S V H)) :
    e.after (a :: as) = (e.step a).1.after as := rfl

@[simp] theorem events_cons (e : Estate S V H) (a : Act S V H) (as : List (Act S V H)) :
    e.events (a :: as) = (e.step a).2 ++ (e.step a).1.events as := rfl

/-- A run leads on from where the one before it led. -/
theorem after_append (e : Estate S V H) (as as' : List (Act S V H)) :
    e.after (as ++ as') = (e.after as).after as' := by
  induction as generalizing e with
  | nil => rfl
  | cons a as ih => exact ih (e.step a).1

theorem trace_append (e : Estate S V H) (as as' : List (Act S V H)) :
    e.trace (as ++ as') = e.trace as ++ (e.after as).trace as' := by
  induction as generalizing e with
  | nil => rfl
  | cons a as ih => rw [List.cons_append, trace, trace, ih, List.append_assoc, after_cons]

/-- Two runs after each other are feasible if the first is, and the second where it starts. -/
theorem feasible_append {as as' : List (Act S V H)} :
    e.Feasible (as ++ as') ↔ e.Feasible as ∧ (e.after as).Feasible as' := by
  induction as generalizing e with
  | nil => exact ⟨fun h => ⟨trivial, h⟩, fun h => h.2⟩
  | cons a as ih =>
    show e.admits a = true ∧ (e.step a).1.Feasible (as ++ as') ↔ _
    rw [ih, ← and_assoc]
    rfl

/-- Going on makes at most one move of the store. -/
theorem attend_store (e : Estate S V H) :
    e.attend.1.store = e.store.after (e.asked.map e.effective).toList ∧
      e.attend.2 = e.store.events (e.asked.map e.effective).toList := by
  have hcases := e.attended
  generalize e.asked = x, e.attend.1 = u, e.attend.2 = es at hcases ⊢
  cases hcases with
  | idle | given => exact ⟨rfl, rfl⟩
  | released => exact ⟨rfl, (List.append_nil _).symm⟩
  | made => exact ⟨conclude_store _, (List.append_nil _).symm⟩

/-- An act makes at most one move of the store. -/
theorem step_store (e : Estate S V H) (a : Act S V H) :
    (e.step a).1.store = e.store.after (e.makes a).toList ∧
      (e.step a).2 = e.store.events (e.makes a).toList := by
  unfold step makes asks
  by_cases ha : e.permits a = true
  · rw [if_pos ha]
    cases a with
    | make m =>
      have hattend := (e.undertake m).attend_store
      rw [undertake_store] at hattend
      dsimp only
      rw [if_pos ha]
      exact hattend
    | entrust | reclaim => exact ⟨rfl, rfl⟩
  · rw [if_neg ha]
    cases a with
    | make m =>
      dsimp only
      rw [if_neg ha]
      exact ⟨rfl, rfl⟩
    | entrust | reclaim => exact ⟨rfl, rfl⟩

/-- **A run of an estate is a run of its store.** -/
theorem run_store (e : Estate S V H) (as : List (Act S V H)) :
    (e.after as).store = e.store.after (e.trace as) ∧
      e.events as = e.store.events (e.trace as) := by
  induction as generalizing e with
  | nil => exact ⟨rfl, rfl⟩
  | cons a as ih =>
    obtain ⟨hstore, hevents⟩ := e.step_store a
    obtain ⟨hafter, hlater⟩ := ih (e.step a).1
    rw [after_cons, events_cons, trace, Store.after_append, Store.events_append, hafter, hlater,
      hstore, hevents]
    exact ⟨rfl, rfl⟩

namespace Sound

/-- **Every feasible run keeps an estate sound.** -/
theorem after (h : e.Sound) {as : List (Act S V H)} (hrun : e.Feasible as) :
    (e.after as).Sound := by
  induction as generalizing e with
  | nil => exact h
  | cons a as ih => exact ih (h.step hrun.1) hrun.2

/-- The move that is made in an act is possible. -/
theorem admits_makes (h : e.Sound) {a : Act S V H} (ha : e.admits a = true) {m : Move S V H}
    (hm : e.makes a = some m) : e.store.admits m = true := by
  obtain ⟨m', hasks, rfl⟩ := Option.map_eq_some_iff.mp hm
  unfold asks at hasks
  cases a with
  | entrust | reclaim => cases hasks
  | make m =>
    dsimp only at hasks
    split at hasks
    · have hdue := (Option.filter_eq_some_iff.mp hasks).1
      have hadmits := (h.undertake ha).admits_effective hdue
      rwa [undertake_store] at hadmits
    · cases hasks

/-- **The trace of a run is possible.** -/
theorem trace (h : e.Sound) {as : List (Act S V H)} (hrun : e.Feasible as) :
    e.store.Feasible (e.trace as) := by
  induction as generalizing e with
  | nil => trivial
  | cons a as ih =>
    obtain ⟨ha, hrun⟩ := hrun
    have hrest := ih (h.step ha) hrun
    rw [Estate.trace, Store.feasible_append]
    rw [(e.step_store a).1] at hrest
    refine ⟨?_, hrest⟩
    cases hm : e.makes a with
    | none => trivial
    | some m => exact ⟨h.admits_makes ha hm, trivial⟩

end Sound

end Runs

/-- Without a failure that reaches the stack, a run that is possible is calm. -/
theorem calm_of_feasible [DecidableEq V] {s : Store S V H} {ms : List (Move S V H)}
    (hrun : s.Feasible ms) (hnone : ∀ m ∈ ms, m.isFailure = false) : s.Calm ms := by
  induction ms generalizing s with
  | nil => trivial
  | cons m ms ih =>
    obtain ⟨hm, hrun⟩ := hrun
    refine ⟨(Store.admits_cases hm).resolve_right ?_, ih hrun fun m' hm' => ?_⟩
    · rintro ⟨rfl, -⟩
      cases hnone _ (List.mem_cons_self ..)
    · exact hnone m' (List.mem_cons_of_mem m hm')

/-! ## Where no code owns anything -/

/-- A store whose code owns nothing, with nothing under way. -/
def plain (s : Store S V H) : Estate S V H where
  store := s
  owned := []
  request := none
  releases := []
  stuck := []
  strays := []
  failing := false
  aborted := false

section Plain

variable [DecidableEq V]

/-- Where no code owns anything, a move is made at once. -/
theorem attend_of_owned_nil {e : Estate S V H} {m : Move S V H} (ho : e.owned = [])
    (hrel : e.releases = []) (hreq : e.request = some m) :
    e.attend = ((e.carryOut m).1.conclude, (e.carryOut m).2) := by
  have hgo : e.firstToGo? m = none := by
    rw [firstToGo?, List.findSome?_eq_none_iff, ho]
    exact fun _ _ => rfl
  have hdue : e.due? = some m := by rw [due?, hrel, hreq]
  unfold attend
  rw [hdue]
  dsimp only
  rw [hgo]
  dsimp only
  rw [hrel]

/-- **Where code owns nothing, an estate is its store.** -/
theorem step_plain (s : Store S V H) {m : Move S V H}
    (hm : (plain s).permits (.make m) = true) :
    (plain s).step (.make m) = (plain (s.step m).1, (s.step m).2) := by
  let e : Estate S V H := { plain s with request := some m, failing := m.isFailure }
  have heff : e.effective m = m := by
    rw [effective_of_releases_nil rfl]
    cases m <;> rfl
  have hcarry : e.carryOut m = ({ e with store := (s.step m).1 }, (s.step m).2) := by
    refine Prod.ext ?_ ?_
    · rw [carryOut_of_releases_nil rfl, heff]
      rfl
    · show (s.step (e.effective m)).2 = _
      rw [heff]
  have hconclude : ({ e with store := (s.step m).1 } : Estate S V H).conclude
      = plain (s.step m).1 := by
    unfold conclude
    split
    · -- a failure leaves nothing on the stack
      next hfails =>
      obtain ⟨hfails, hst⟩ := (Bool.and_eq_true _ _).mp hfails
      cases m with
      | panic =>
        rw [Store.step_panic, Store.panic_stack] at hst
        cases hst
      | tick | change | observe | ret | enter | leave => cases hfails
    · rfl
  have hattend : e.attend = (plain (s.step m).1, (s.step m).2) := by
    rw [attend_of_owned_nil rfl rfl rfl, hcarry, hconclude]
  unfold step
  rw [if_pos hm]
  exact hattend

/-- **Where no code owns anything, an estate is its store.** -/
theorem run_plain (s : Store S V H) (ms : List (Move S V H))
    (hrun : (plain s).Feasible (ms.map .make)) :
    (plain s).run (ms.map .make) = (plain (s.run ms).1, (s.run ms).2) := by
  induction ms generalizing s with
  | nil => rfl
  | cons m ms ih =>
    obtain ⟨hm, hrun⟩ := hrun
    have hstep := step_plain s ((Bool.and_eq_true _ _).mp hm).1
    rw [hstep] at hrun
    rw [List.map_cons, run, hstep]
    dsimp only
    rw [ih _ hrun]
    rfl

end Plain

end Estate

end LiveDesk.Observable
