import LiveDesk.Proofs.Session.Outline

/-!
# The lives of calls

A call begins, raises its flag, sends its request, lowers its flag and ends, in this order and each
of it once. Where it is in its life can be seen from the outline.

- `Act`, `Act.life`: what a call does, and all that it does if nothing fails.
- `actsOf`: what a call has done in a run.
- `Spot`, `Outline.spots`: where the calls are that have not ended.
- `Passage`: how a turn takes one call from one spot to the next.
- `Lived`: every call has done what its spot says.
- **`Session.lived`**: this holds in every run.
-/

namespace LiveDesk

variable {F : Feature} {V : Type}

/-- What a call does. -/
inductive Act (F : Feature) where
  | begun (c : F.Call)
  /-- Its flag is raised. -/
  | raised (c : F.Call)
  /-- Its request is sent. -/
  | sent (c : F.Call)
  /-- Its flag is lowered. -/
  | lowered (c : F.Call)
  | ended

/-- All that a call does. -/
def Act.life (c : F.Call) : List (Act F) :=
  [.begun c, .raised c, .sent c, .lowered c, .ended]

/-- The beginnings of a life. -/
theorem Act.prefix_life {l : List (Act F)} {c : F.Call} (h : l <+: Act.life c) :
    l = [] ∨ l = [.begun c] ∨ l = [.begun c, .raised c] ∨ l = [.begun c, .raised c, .sent c] ∨
      l = [.begun c, .raised c, .sent c, .lowered c] ∨ l = Act.life c := by
  have hmem := (List.mem_inits _ _).mpr h
  simpa [Act.life] using hmem

namespace Turn

/-- The call that does something. -/
def subject? : Turn F → Option CallId
  | .begun id _ _ | .opened id _ | .raised id _ | .sent id _ | .stored id _ _ _ | .lowered id _
  | .ended id => some id
  | .idle | .edited _ _ | .published _ | .declined | .failed => none

/-- What it does. -/
def acts : Turn F → List (Act F)
  | .begun _ c _ => [.begun c]
  | .opened _ c => [.begun c, .raised c]
  | .raised _ c => [.raised c]
  | .sent _ c => [.sent c]
  | .stored _ c _ _ | .lowered _ c => [.lowered c]
  | .ended _ => [.ended]
  | .idle | .edited _ _ | .published _ | .declined | .failed => []

/-- What the call of the given name does. -/
def actsOf (id : CallId) (t : Turn F) : List (Act F) :=
  if t.subject? = some id then t.acts else []

/-- A turn without a subject is no act of a call. -/
theorem actsOf_of_none {t : Turn F} (h : t.subject? = none) (id : CallId) : t.actsOf id = [] := by
  rw [actsOf, h, if_neg (by simp)]

/-- A turn is the acts of its subject. -/
theorem actsOf_self {t : Turn F} {id : CallId} (h : t.subject? = some id) :
    t.actsOf id = t.acts :=
  if_pos h

/-- A turn is no act of another call. -/
theorem actsOf_of_ne {t : Turn F} {id id' : CallId} (h : t.subject? = some id) (hne : id ≠ id') :
    t.actsOf id' = [] := by
  rw [actsOf, h, if_neg (by simpa using hne)]

end Turn

/-- What the call of the given name does in a series of turns. -/
def actsOf (id : CallId) (ts : List (Turn F)) : List (Act F) :=
  ts.flatMap (Turn.actsOf id)

theorem actsOf_cons (id : CallId) (t : Turn F) (ts : List (Turn F)) :
    actsOf id (t :: ts) = t.actsOf id ++ actsOf id ts :=
  List.flatMap_cons

/-- The acts of two runs after each other. -/
theorem actsOf_append (id : CallId) (ts ts' : List (Turn F)) :
    actsOf id (ts ++ ts') = actsOf id ts ++ actsOf id ts' :=
  List.flatMap_append

/-! ## Spots -/

/-- Where a call is in its life. -/
inductive Spot (F : Feature) where
  /-- Its flag is to be raised. -/
  | raising (id : CallId) (c : F.Call)
  /-- Its flag is being raised, and its request is to be sent. -/
  | sending (id : CallId) (c : F.Call)
  | inFlight (id : CallId) (c : F.Call)
  /-- Its flag is being lowered, and it is to end. -/
  | closing (id : CallId)

namespace Spot

/-- The call that is there. -/
def id : Spot F → CallId
  | .raising id _ | .sending id _ | .inFlight id _ | .closing id => id

/-- Whether the call's method is on the stack. -/
def onStack : Spot F → Bool
  | .raising _ _ | .sending _ _ | .closing _ => true
  | .inFlight _ _ => false

/-- What a call has done that is there. -/
def Past : Spot F → List (Act F) → Prop
  | .raising _ c, l => l = [.begun c]
  | .sending _ c, l => l = [.begun c, .raised c]
  | .inFlight _ c, l => l = [.begun c, .raised c, .sent c]
  | .closing _, l => ∃ c, l = [.begun c, .raised c, .sent c, .lowered c]

/-- What a call has done says where it is. -/
theorem Past.unique {x y : Spot F} {l : List (Act F)} (hx : x.Past l) (hid : x.id = y.id)
    (hy : y.Past l) : x = y := by
  cases x <;> cases y <;> simp_all [Past, id]

/-- What a call has done is the beginning of a life. -/
theorem Past.prefix {spot : Spot F} {l : List (Act F)} (h : spot.Past l) :
    ∃ c, l <+: Act.life c := by
  cases spot with
  | raising id c | sending id c | inFlight id c =>
    rw [show l = _ from h]
    exact ⟨c, by simp [Act.life]⟩
  | closing id =>
    obtain ⟨c, rfl⟩ := h
    exact ⟨c, by simp [Act.life]⟩

end Spot

namespace Stage

/-- Where a call is whose method is to go on. -/
def spot : Stage F → Spot F
  | .raising id c => .raising id c
  | .sending id c => .sending id c
  | .closing id _ _ _ | .leaving id _ _ => .closing id

end Stage

namespace Session

namespace Outline

/-- Where the calls are that have not ended. -/
def spots (o : Outline F) : List (Spot F) :=
  o.stages.map Stage.spot ++ o.calls.map fun call => .inFlight call.1 call.2

/-- The calls that have not ended have different names, all of them given. -/
structure Named (o : Outline F) : Prop where
  once : (o.spots.map Spot.id).Nodup
  older : ∀ {spot}, spot ∈ o.spots → spot.id < o.nextCall

end Outline

/-- A call in flight is one of the calls of the session. -/
theorem mem_spots_inFlight {s : Session F V} {id : CallId} {c : F.Call} :
    .inFlight id c ∈ s.outline.spots ↔ (id, c) ∈ s.calls := by
  rw [Outline.spots, List.mem_append]
  constructor
  · rintro (h | h)
    · obtain ⟨stage, -, hspot⟩ := List.mem_map.mp h
      cases stage <;> cases hspot
    · obtain ⟨call, hcall, hspot⟩ := List.mem_map.mp h
      cases hspot
      exact hcall
  · intro h
    exact Or.inr (List.mem_map.mpr ⟨_, h, rfl⟩)

theorem mem_spots_of_call? {s : Session F V} {id : CallId} {c : F.Call} (h : s.call? id = some c) :
    .inFlight id c ∈ s.outline.spots := by
  obtain ⟨l, l', hcalls, -⟩ := List.lookup_eq_some_iff.mp h
  rw [mem_spots_inFlight, hcalls]
  exact List.mem_append_right _ (List.mem_cons_self ..)

/-- How a turn takes a call from one spot to the next. -/
inductive Passage (t : Turn F) (o o' : Outline F) : Prop where
  /-- No call does anything. -/
  | still : t.subject? = none → t ≠ .failed → o'.spots = o.spots → o.nextCall ≤ o'.nextCall →
    Passage t o o'
  /-- The methods on the stack are given up. -/
  | failed : t = .failed → o'.spots = o.spots.filter (fun x => !x.onStack) →
    o'.nextCall = o.nextCall → Passage t o o'
  /-- A call begins. -/
  | enter {x : Spot F} : t.subject? = some o.nextCall → x.id = o.nextCall → x.Past t.acts →
    o'.spots = x :: o.spots → o'.nextCall = o.nextCall + 1 → Passage t o o'
  /-- A call goes on. -/
  | advance {x y : Spot F} {r : List (Spot F)} : t.subject? = some x.id → y.id = x.id →
    (∀ l, x.Past l → y.Past (l ++ t.acts)) → o.spots.Perm (x :: r) → o'.spots.Perm (y :: r) →
    o'.nextCall = o.nextCall → Passage t o o'
  /-- A call ends. -/
  | leave {id : CallId} : t = .ended id → o.spots = .closing id :: o'.spots →
    o'.nextCall = o.nextCall → Passage t o o'

/-- A call in flight is taken out. -/
theorem calls_perm {id : CallId} {c : F.Call} {calls : List (CallId × F.Call)}
    (hnodup : (calls.map Prod.fst).Nodup) (hcall : calls.lookup id = some c) :
    calls.Perm ((id, c) :: calls.filter fun call => call.1 != id) := by
  obtain ⟨l, l', rfl, -⟩ := List.lookup_eq_some_iff.mp hcall
  rw [List.map_append, List.map_cons, List.nodup_append] at hnodup
  obtain ⟨-, hr, hd⟩ := hnodup
  -- no other call in flight has this name
  have hl : ∀ call ∈ l, (call.1 != id) = true := fun call hmem =>
    bne_iff_ne.mpr (hd _ (List.mem_map_of_mem hmem) _ (List.mem_cons_self ..))
  have hl' : ∀ call ∈ l', (call.1 != id) = true := fun call hmem =>
    bne_iff_ne.mpr fun heq =>
      (List.nodup_cons.mp hr).1 (List.mem_map.mpr ⟨call, hmem, heq⟩)
  rw [List.filter_append, List.filter_cons_of_neg (by simp), List.filter_eq_self.mpr hl,
    List.filter_eq_self.mpr hl']
  exact List.perm_middle

/-- A call is in flight once. -/
theorem Outline.Named.calls_nodup {o : Outline F} (h : o.Named) :
    (o.calls.map Prod.fst).Nodup := by
  have := h.once
  rw [Outline.spots, List.map_append, List.nodup_append] at this
  have hcalls := this.2.1
  rwa [List.map_map] at hcalls

/-- An answer takes a call in flight to its end. -/
theorem Passage.settle {o : Outline F} (h : o.Named) {t : Turn F} {id : CallId} {c : F.Call}
    {f : F.State → F.State} {stage : Stage F} (hcall : o.calls.lookup id = some c)
    (hsubject : t.subject? = some id) (hacts : t.acts = [.lowered c])
    (hspot : stage.spot = .closing id) : Passage t o (o.settle id c f stage) := by
  have hperm := (calls_perm h.calls_nodup hcall).map fun call => Spot.inFlight call.1 call.2
  refine .advance (x := .inFlight id c) (y := .closing id) hsubject rfl ?_
    ((hperm.append_left _).trans List.perm_middle) ?_ rfl
  · rintro l rfl
    exact ⟨c, by rw [hacts]; rfl⟩
  · show List.Perm (stage.spot :: _) _
    rw [hspot]
    exact List.Perm.refl _

/-- **Every turn takes at most one call to its next spot.** -/
theorem Course.passage {t : Turn F} {o o' : Outline F} (h : Course t o o') (hn : o.Named) :
    Passage t o o' := by
  cases h with
  | idle | edited | published => exact .still rfl nofun rfl (Nat.le_refl _)
  | declined => exact .still rfl nofun rfl (Nat.le_succ _)
  | failed =>
    refine .failed rfl ?_ rfl
    -- only the spots on the stack are given up, and calls in flight stay
    rw [Outline.spots, Outline.spots, List.filter_append,
      List.filter_eq_nil_iff.mpr fun x hx => ?_, List.filter_eq_self.mpr fun x hx => ?_]
    · rfl
    · obtain ⟨call, -, rfl⟩ := List.mem_map.mp hx
      rfl
    · obtain ⟨stage, -, rfl⟩ := List.mem_map.mp hx
      cases stage <;> simp [Stage.spot, Spot.onStack]
  | begun => exact .enter (x := .raising _ _) rfl rfl rfl rfl rfl
  | opened => exact .enter (x := .sending _ _) rfl rfl rfl rfl rfl
  | @raised _ id c rest hstages =>
    refine .advance (x := .raising id c) (y := .sending id c)
      (r := rest.map Stage.spot ++ o.calls.map fun call => .inFlight call.1 call.2)
      rfl rfl ?_ ?_ (List.Perm.refl _) rfl
    · rintro l rfl
      rfl
    · rw [Outline.spots, hstages]
      exact List.Perm.refl _
  | @sent _ id c rest hstages =>
    refine .advance (x := .sending id c) (y := .inFlight id c)
      (r := rest.map Stage.spot ++ o.calls.map fun call => .inFlight call.1 call.2)
      rfl rfl ?_ ?_ ?_ rfl
    · rintro l rfl
      rfl
    · rw [Outline.spots, hstages]
      exact List.Perm.refl _
    · rw [Outline.spots, List.map_append, ← List.append_assoc]
      exact List.perm_append_singleton _ _
  | stored hcall => exact .settle hn hcall rfl rfl rfl
  | lowered hcall => exact .settle hn hcall rfl rfl rfl
  | @ended _ stage rest hstages hlast =>
    refine .leave rfl ?_ rfl
    rw [Outline.spots, hstages, List.map_cons, List.cons_append]
    cases stage with
    | raising | sending => cases hlast
    | closing | leaving => rfl

/-! ## What the calls have done -/

/-- Every call has done what its spot says, and a call that has no spot has done nothing or has
stopped somewhere in its life. -/
structure Lived (o : Outline F) (done : CallId → List (Act F)) : Prop extends o.Named where
  past : ∀ {spot}, spot ∈ o.spots → spot.Past (done spot.id)
  future : ∀ {id}, o.nextCall ≤ id → done id = []
  whole : ∀ id, done id = [] ∨ ∃ c, done id <+: Act.life c

namespace Lived

variable {o o' : Outline F} {done : CallId → List (Act F)} {t : Turn F}

/-- A turn without a subject leaves every life as it is. -/
theorem still (h : Lived o done) (hsubject : t.subject? = none)
    (hspots : o'.spots.Sublist o.spots) (hnext : o.nextCall ≤ o'.nextCall) :
    Lived o' fun id => done id ++ t.actsOf id := by
  simp only [t.actsOf_of_none hsubject, List.append_nil]
  exact {
    once := h.once.sublist (hspots.map _)
    older := fun hspot => (h.older (hspots.subset hspot)).trans_le hnext
    past := fun hspot => h.past (hspots.subset hspot)
    future := fun hid => h.future (hnext.trans hid)
    whole := h.whole }

/-- A new call begins its life. -/
theorem enter (h : Lived o done) {x : Spot F} (hsubject : t.subject? = some o.nextCall)
    (hid : x.id = o.nextCall) (hpast : x.Past t.acts) (hspots : o'.spots = x :: o.spots)
    (hnext : o'.nextCall = o.nextCall + 1) : Lived o' fun id => done id ++ t.actsOf id := by
  -- nothing was done in the name of the new call before
  have hnew : done o.nextCall ++ t.actsOf o.nextCall = t.acts := by
    rw [h.future (Nat.le_refl _), t.actsOf_self hsubject, List.nil_append]
  refine ⟨⟨?_, fun hspot => ?_⟩, fun hspot => ?_, fun {id} hle => ?_, fun id => ?_⟩
  · rw [hspots, List.map_cons, List.nodup_cons]
    refine ⟨fun hmem => ?_, h.once⟩
    obtain ⟨y, hy, hyid⟩ := List.mem_map.mp hmem
    exact absurd (h.older hy) (by rw [hyid, hid]; exact lt_irrefl _)
  · rw [hspots] at hspot
    rw [hnext]
    rcases List.mem_cons.mp hspot with rfl | hspot
    · exact hid ▸ Nat.lt_succ_self _
    · exact (h.older hspot).trans (Nat.lt_succ_self _)
  · rw [hspots] at hspot
    rcases List.mem_cons.mp hspot with rfl | hspot
    · rwa [hid, hnew]
    · rw [t.actsOf_of_ne hsubject (h.older hspot).ne', List.append_nil]
      exact h.past hspot
  · rw [hnext] at hle
    rw [h.future (Nat.le_of_succ_le hle), t.actsOf_of_ne hsubject (Nat.lt_of_succ_le hle).ne,
      List.append_nil]
  · by_cases heq : o.nextCall = id
    · rw [← heq, hnew]
      exact Or.inr hpast.prefix
    · rw [t.actsOf_of_ne hsubject heq, List.append_nil]
      exact h.whole id

/-- A call goes on in its life. -/
theorem advance (h : Lived o done) {x y : Spot F} {r : List (Spot F)}
    (hsubject : t.subject? = some x.id) (hid : y.id = x.id)
    (hpast : ∀ l, x.Past l → y.Past (l ++ t.acts)) (hspots : o.spots.Perm (x :: r))
    (hspots' : o'.spots.Perm (y :: r)) (hnext : o'.nextCall = o.nextCall) :
    Lived o' fun id => done id ++ t.actsOf id := by
  have hx : x ∈ o.spots := hspots.symm.subset (List.mem_cons_self ..)
  have hnew : y.Past (done x.id ++ t.actsOf x.id) := by
    rw [t.actsOf_self hsubject]
    exact hpast _ (h.past hx)
  -- the call is in one spot, so no other spot speaks of it
  have honce := (hspots.map Spot.id).nodup_iff.mp h.once
  rw [List.map_cons] at honce
  refine ⟨⟨?_, fun hspot => ?_⟩, fun hspot => ?_, fun {id} hle => ?_, fun id => ?_⟩
  · rw [(hspots'.map Spot.id).nodup_iff, List.map_cons, hid]
    exact honce
  · rw [hnext]
    rcases List.mem_cons.mp (hspots'.subset hspot) with rfl | hspot
    · exact hid ▸ h.older hx
    · exact h.older (hspots.symm.subset (List.mem_cons_of_mem _ hspot))
  · rcases List.mem_cons.mp (hspots'.subset hspot) with rfl | hspot
    · rw [hid]
      exact hnew
    · have hne : x.id ≠ _ := fun heq =>
        (List.nodup_cons.mp honce).1 (heq ▸ List.mem_map_of_mem hspot)
      rw [t.actsOf_of_ne hsubject hne, List.append_nil]
      exact h.past (hspots.symm.subset (List.mem_cons_of_mem _ hspot))
  · rw [hnext] at hle
    rw [h.future hle, t.actsOf_of_ne hsubject ((h.older hx).trans_le hle).ne, List.append_nil]
  · by_cases heq : x.id = id
    · rw [← heq]
      exact Or.inr hnew.prefix
    · rw [t.actsOf_of_ne hsubject heq, List.append_nil]
      exact h.whole id

/-- A call that is closed has ended its life. -/
theorem leave (h : Lived o done) {id : CallId} (hspots : o.spots = .closing id :: o'.spots)
    (hnext : o'.nextCall = o.nextCall) :
    Lived o' fun i => done i ++ (Turn.ended id : Turn F).actsOf i := by
  have hsubject : (Turn.ended id : Turn F).subject? = some id := rfl
  have hx : .closing id ∈ o.spots := hspots ▸ List.mem_cons_self ..
  have honce := h.once
  rw [hspots, List.map_cons, List.nodup_cons] at honce
  have hmem : ∀ {spot}, spot ∈ o'.spots → spot ∈ o.spots := fun hspot =>
    hspots ▸ List.mem_cons_of_mem _ hspot
  refine ⟨⟨honce.2, fun hspot => hnext ▸ h.older (hmem hspot)⟩, fun hspot => ?_,
    fun {i} hle => ?_, fun i => ?_⟩
  · have hne : id ≠ _ := fun heq => honce.1 (List.mem_map.mpr ⟨_, hspot, heq.symm⟩)
    rw [Turn.actsOf_of_ne hsubject hne, List.append_nil]
    exact h.past (hmem hspot)
  · rw [hnext] at hle
    rw [h.future hle, Turn.actsOf_of_ne hsubject ((h.older hx).trans_le hle).ne, List.append_nil]
  · by_cases heq : id = i
    · subst heq
      obtain ⟨c, hc⟩ := h.past hx
      rw [Turn.actsOf_self hsubject, show done id = _ from hc]
      exact Or.inr ⟨c, List.prefix_refl _⟩
    · rw [Turn.actsOf_of_ne hsubject heq, List.append_nil]
      exact h.whole i

/-- **Every turn leads every life on.** -/
theorem step (h : Lived o done) (hc : Course t o o') :
    Lived o' fun id => done id ++ t.actsOf id := by
  cases hc.passage h.toNamed with
  | still hsubject _ hspots hnext => exact h.still hsubject (hspots ▸ List.Sublist.refl _) hnext
  | failed ht hspots hnext =>
    exact h.still (ht ▸ rfl) (hspots ▸ List.filter_sublist) hnext.ge
  | enter hsubject hid hpast hspots hnext => exact h.enter hsubject hid hpast hspots hnext
  | advance hsubject hid hpast hspots hspots' hnext =>
    exact h.advance hsubject hid hpast hspots hspots' hnext
  | leave ht hspots hnext =>
    subst ht
    exact h.leave hspots hnext

/-- The spot of a call is all that its past allows. -/
theorem eq_of_past (h : Lived o done) {x y : Spot F} (hx : x.Past (done x.id)) (hy : y ∈ o.spots)
    (hid : x.id = y.id) : x = y :=
  hx.unique hid (hid ▸ h.past hy)

/-- **A call stays at its spot until it goes on**, or until the code fails while its method is on
the stack. -/
theorem stays (h : Lived o done) (hc : Course t o o') {x : Spot F}
    (hx : x.Past (done x.id ++ t.actsOf x.id)) :
    x ∈ o'.spots ∨
      x.Past (done x.id) ∧ (x ∈ o.spots → t = .failed ∧ x.onStack = true) := by
  have hpassage := hc.passage h.toNamed
  by_cases hsubject : t.subject? = some x.id
  · -- what the call has done last has taken it to its spot
    left
    rw [t.actsOf_self hsubject] at hx
    cases hpassage with
    | still hnone => rw [hnone] at hsubject; cases hsubject
    | failed ht => rw [ht] at hsubject; cases hsubject
    | @enter y hnext hid hpast hspots =>
      rw [hnext] at hsubject
      rw [← Option.some.inj hsubject, h.future (Nat.le_refl _), List.nil_append] at hx
      rw [hspots, hx.unique ((Option.some.inj hsubject).symm.trans hid.symm) hpast]
      exact List.mem_cons_self ..
    | @advance y z r hy hid hpast hspots hspots' =>
      rw [hy] at hsubject
      have hyx : y.id = x.id := Option.some.inj hsubject
      have hyo : y ∈ o.spots := hspots.symm.subset (List.mem_cons_self ..)
      have hz := hpast _ (h.past hyo)
      rw [hyx] at hz
      rw [hx.unique (hyx.symm.trans hid.symm) hz]
      exact hspots'.symm.subset (List.mem_cons_self ..)
    | @leave id ht hspots =>
      -- nothing is past its end
      subst ht
      obtain ⟨c, hc⟩ := h.past (hspots ▸ List.mem_cons_self .. : .closing id ∈ o.spots)
      rw [← Option.some.inj hsubject, show done id = _ from hc] at hx
      cases x <;> simp [Spot.Past, Turn.acts] at hx
  · rw [Turn.actsOf, if_neg hsubject, List.append_nil] at hx
    by_cases hmem : x ∈ o.spots
    · cases hpassage with
      | still _ _ hspots => exact Or.inl (hspots ▸ hmem)
      | failed ht hspots =>
        by_cases hstack : x.onStack = true
        · exact Or.inr ⟨hx, fun _ => ⟨ht, hstack⟩⟩
        · exact Or.inl (hspots ▸ List.mem_filter.mpr ⟨hmem, by simpa using hstack⟩)
      | enter _ _ _ hspots => exact Or.inl (hspots ▸ List.mem_cons_of_mem _ hmem)
      | @advance y z r hy _ _ hspots hspots' =>
        left
        rcases List.mem_cons.mp (hspots.subset hmem) with rfl | hmem
        · exact absurd hy hsubject
        · exact hspots'.symm.subset (List.mem_cons_of_mem _ hmem)
      | leave ht hspots =>
        left
        rw [hspots] at hmem
        rcases List.mem_cons.mp hmem with rfl | hmem
        · exact absurd (ht ▸ rfl) hsubject
        · exact hmem
    · exact Or.inr ⟨hx, fun h => absurd h hmem⟩

end Lived

/-- A call that was given up or has ended. -/
def Outline.Gone (o : Outline F) (id : CallId) : Prop :=
  id < o.nextCall ∧ ∀ x ∈ o.spots, x.id ≠ id

/-- A call that is gone does nothing more. -/
theorem Outline.Gone.step {o o' : Outline F} {id : CallId} (h : o.Gone id) {t : Turn F}
    (hn : o.Named) (hc : Course t o o') : o'.Gone id ∧ t.actsOf id = [] := by
  obtain ⟨hlt, hnone⟩ := h
  cases hc.passage hn with
  | still hsubject _ hspots hnext =>
    exact ⟨⟨hlt.trans_le hnext, hspots ▸ hnone⟩, t.actsOf_of_none hsubject id⟩
  | failed ht hspots hnext =>
    refine ⟨⟨hnext ▸ hlt, fun x hx => ?_⟩, ht ▸ Turn.actsOf_of_none rfl id⟩
    rw [hspots] at hx
    exact hnone x (List.mem_of_mem_filter hx)
  | enter hsubject hid _ hspots hnext =>
    refine ⟨⟨hnext ▸ hlt.trans (Nat.lt_succ_self _), fun y hy => ?_⟩,
      t.actsOf_of_ne hsubject hlt.ne'⟩
    rw [hspots] at hy
    rcases List.mem_cons.mp hy with rfl | hy
    · exact hid ▸ hlt.ne'
    · exact hnone y hy
  | @advance x y r hsubject hid _ hspots hspots' hnext =>
    have hx : x.id ≠ id := hnone x (hspots.symm.subset (List.mem_cons_self ..))
    refine ⟨⟨hnext ▸ hlt, fun z hz => ?_⟩, t.actsOf_of_ne hsubject hx⟩
    rcases List.mem_cons.mp (hspots'.subset hz) with rfl | hz
    · exact hid ▸ hx
    · exact hnone z (hspots.symm.subset (List.mem_cons_of_mem _ hz))
  | @leave i ht hspots hnext =>
    have hi : i ≠ id := hnone (.closing i) (hspots ▸ List.mem_cons_self ..)
    refine ⟨⟨hnext ▸ hlt, fun x hx => hnone x (hspots ▸ List.mem_cons_of_mem _ hx)⟩, ?_⟩
    rw [ht]
    exact Turn.actsOf_of_ne rfl hi

section Runs

variable [DecidableEq V] {s : Session F V}

/-- **After every run, every call has lived as far as its spot says.** -/
theorem Lived.after {done : CallId → List (Act F)} (h : Lived s.outline done)
    (ms : List (Move F V)) :
    Lived (s.after ms).outline fun id => done id ++ LiveDesk.actsOf id (s.turns ms) := by
  induction ms generalizing s done with
  | nil => simpa [turns, LiveDesk.actsOf] using h
  | cons m ms ih =>
    simp only [turns, actsOf_cons, ← List.append_assoc]
    exact ih (h.step (s.course m))

/-- **In every run every call has done what its spot says**, and no call does more than a life. -/
theorem lived (initial : F.State) (ms : List (Move F V)) :
    Lived ((opening initial : Session F V).after ms).outline fun id =>
      LiveDesk.actsOf id ((opening initial : Session F V).turns ms) := by
  have hopen : Lived (opening initial : Session F V).outline fun _ => [] :=
    ⟨⟨.nil, List.not_mem_nil.elim⟩, List.not_mem_nil.elim, fun _ => rfl, fun _ => Or.inl rfl⟩
  simpa only [List.nil_append] using hopen.after ms

/-- The code failed in a run while the call was at the given spot, with its method on the stack. -/
def GivenUp (s : Session F V) (ms : List (Move F V)) (x : Spot F) : Prop :=
  x.onStack = true ∧ ∃ a b, ms = a ++ .panic :: b ∧ (s.after a).isFree = true ∧
    x ∈ (s.after a).outline.spots

theorem GivenUp.append {ms : List (Move F V)} {x : Spot F} (h : s.GivenUp ms x)
    (ms' : List (Move F V)) : s.GivenUp (ms ++ ms') x := by
  obtain ⟨hstack, a, b, rfl, hfree, hx⟩ := h
  exact ⟨hstack, a, b ++ ms', by simp, hfree, hx⟩

/-- **A call is where it has come to, unless it was given up there.** -/
theorem mem_spots_or_givenUp (initial : F.State) (ms : List (Move F V)) {x : Spot F}
    (hx : x.Past (LiveDesk.actsOf x.id ((opening initial : Session F V).turns ms))) :
    x ∈ ((opening initial : Session F V).after ms).outline.spots ∨
      (opening initial : Session F V).GivenUp ms x := by
  induction ms using List.reverseRecOn with
  | nil => cases x <;> simp [turns, LiveDesk.actsOf, Spot.Past] at hx
  | append_singleton ms m ih =>
    rw [turns_append, actsOf_append, turns, turns, actsOf_cons] at hx
    rw [after_append, after_cons, after_nil]
    rcases (lived initial ms).stays (course _ m) (by simpa [LiveDesk.actsOf] using hx) with
      hmem | ⟨hx, hfailed⟩
    · exact Or.inl hmem
    · rcases ih hx with hmem | hgiven
      · obtain ⟨ht, hstack⟩ := hfailed hmem
        obtain ⟨rfl, hfree⟩ := turn_eq_failed.mp ht
        exact Or.inr ⟨hstack, ms, [], rfl, hfree, hmem⟩
      · exact Or.inr (hgiven.append [m])

/-- A call that is gone does nothing more. -/
theorem Outline.Gone.actsOf_eq_nil {id : CallId} {done : CallId → List (Act F)}
    (h : s.outline.Gone id) (hl : Lived s.outline done) (ms : List (Move F V)) :
    LiveDesk.actsOf id (s.turns ms) = [] := by
  induction ms generalizing s done with
  | nil => rfl
  | cons m ms ih =>
    obtain ⟨hgone, hnil⟩ := h.step hl.toNamed (s.course m)
    rw [turns, actsOf_cons, hnil, ih hgone (hl.step (s.course m))]
    rfl

/-- A call that was given up does nothing more. -/
theorem GivenUp.past {initial : F.State} {ms : List (Move F V)} {x : Spot F}
    (h : (opening initial : Session F V).GivenUp ms x) :
    x.Past (LiveDesk.actsOf x.id ((opening initial : Session F V).turns ms)) := by
  obtain ⟨hstack, a, b, rfl, hfree, hx⟩ := h
  have hl := lived (V := V) initial a
  have hc := course ((opening initial : Session F V).after a) .panic
  rw [turn_eq_failed.mpr ⟨rfl, hfree⟩] at hc
  -- the spot was the only one of the call, and it was on the stack
  have hgone : (((opening initial : Session F V).after a).step .panic).1.outline.Gone x.id := by
    cases hc.passage hl.toNamed with
    | still _ hne => exact absurd rfl hne
    | failed _ hspots hnext =>
      refine ⟨hnext ▸ hl.older hx, fun y hy hid => ?_⟩
      rw [hspots] at hy
      obtain ⟨hy, hfree⟩ := List.mem_filter.mp hy
      rw [hl.eq_of_past (hid ▸ hl.past hy) hx hid, hstack] at hfree
      cases hfree
    | enter hnone | advance hnone => cases hnone
    | leave ht => cases ht
  rw [turns_append, actsOf_append, turns, actsOf_cons, turn_eq_failed.mpr ⟨rfl, hfree⟩,
    hgone.actsOf_eq_nil (hl.step hc), Turn.actsOf_of_none rfl]
  simpa using hl.past hx

/-- A call that is declined does nothing. -/
theorem actsOf_of_declined {done : CallId → List (Act F)} (hl : Lived s.outline done)
    {m : Move F V} (ht : s.turn m = .declined) (ms : List (Move F V)) :
    LiveDesk.actsOf s.nextCall (s.turns (m :: ms)) = [] := by
  have hc := s.course m
  rw [ht] at hc
  have hnamed : (s.step m).1.outline = s.outline.named := by
    generalize (s.step m).1.outline = o' at hc
    cases hc
    rfl
  have hgone : (s.step m).1.outline.Gone s.nextCall :=
    hnamed ▸ ⟨Nat.lt_succ_self _, fun x hx => (hl.older hx).ne⟩
  rw [turns, actsOf_cons, ht, hgone.actsOf_eq_nil (hl.step hc)]
  rfl

/-- A call in flight is the one that was admitted when it was asked for. -/
theorem accept_of_call? {initial : F.State} {a b : List (Move F V)} {ask : F.Ask} {c : F.Call}
    (hfree : ((opening initial : Session F V).after a).isFree = true)
    (hcall : ((opening initial : Session F V).after (a ++ .ask ask :: b)).call?
      ((opening initial : Session F V).after a).nextCall = some c) :
    F.accept ask ((opening initial : Session F V).after a).state = .proceed c := by
  have hl := lived (V := V) initial a
  have hacts := (lived initial (a ++ .ask ask :: b)).past (mem_spots_of_call? hcall)
  generalize hs : (opening initial : Session F V).after a = s at hfree hcall hl hacts ⊢
  have hnew : LiveDesk.actsOf s.nextCall ((opening initial : Session F V).turns a) = [] :=
    hl.future (Nat.le_refl _)
  -- the acts of the call all come after it was asked for
  have hpast : LiveDesk.actsOf s.nextCall (s.turns (.ask ask :: b))
      = [.begun c, .raised c, .sent c] := by
    have hacts : LiveDesk.actsOf s.nextCall _ = [.begun c, .raised c, .sent c] := hacts
    rwa [turns_append, actsOf_append, hnew, hs, List.nil_append] at hacts
  have hturn : s.turn (.ask ask) = askTurn s.nextCall ask s.state := turn_of_isFree hfree
  cases haccept : F.accept ask s.state with
  | refuse | done =>
    rw [askTurn, haccept] at hturn
    rw [actsOf_of_declined hl hturn] at hpast
    cases hpast
  | proceed c' =>
    rw [askTurn, haccept] at hturn
    dsimp only at hturn
    rw [turns, actsOf_cons, hturn] at hpast
    cases hprelude : F.prelude c' s.state with
    | none | some =>
      rw [hprelude, Turn.actsOf_self rfl] at hpast
      have hfirst : Act.begun c' = .begun c := (List.cons.inj hpast).1
      cases hfirst
      rfl

end Runs

end Session

end LiveDesk
