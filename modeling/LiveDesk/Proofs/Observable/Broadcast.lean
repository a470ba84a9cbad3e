import LiveDesk.Proofs.Observable.Remains
import LiveDesk.Proofs.Observable.Publication

/-!
# Who is told which snapshots

Every change is made at once, and so is every subscription, whatever code owns. A subscriber of the
store is told every snapshot whose delivery begins between its registration and the removal of its
entry. What the caller ends is removed when nothing is under way any more; what code gives up as it
goes is removed unless an entry is just being taken out of the list.

- `Estate.changes`: the changes of a run.
- `Estate.Prompt`: no change is waiting to be made.
- **`Sound.changes_trace`**: the changes of a run are those that its store makes.
- **`Sound.heard_subscribed`**: what a subscriber is told between its registration and its removal.
- **`listed_iff_of_asks`**: when the entry of a subscription is removed.
- **`broadcast`**: what a run publishes, and to whom.
-/

namespace LiveDesk.Observable

variable {S V H : Type}

namespace Store

variable {s t : Store S V H} {m : Move S V H}

/-- A move spares an entry unless it ends the subscription. -/
theorem spares_of_ne {z : Observer} (hm : m ≠ .observe (.unsubscribe z.id)) :
    m.spares z = true := by
  cases m with
  | observe a =>
    cases a with
    | unsubscribe o =>
      have hne : z.id ≠ o := fun h => hm (by rw [h])
      simp [Move.spares, survives, hne]
    | project | chain | share | drop | subscribe | watch | detach => rfl
  | tick | change | ret | panic | enter | leave => rfl

/-- A change leaves the lists as they are, and nothing on the stack ends. -/
theorem sameLists_change (s : Store S V H) (c : Change S) :
    s.SameLists (s.change c).1 ∧ s.stack ⊆ (s.change c).1.stack := by
  unfold change
  dsimp only
  split
  · exact ⟨s.sameLists_queued c s.stack, List.Subset.refl _⟩
  · exact ⟨s.sameLists_queued c _, List.subset_cons_self _ _⟩

variable [DecidableEq V] {es : List (Event S V)} {src : Source} {e : Observer}

/-- A subscriber whose entry is taken out of the list is not told anything in that move, nor
later. -/
theorem Tracks.gone_of_unlisted (h : s.Tracks src e) (hs : s.Sound) (ho : Outcome s m t es)
    (he : e.target = .subscriber) (hin : ∃ a ∈ s.observersOf src, a.id = e.id)
    (hout : ∀ a ∈ t.observersOf src, a.id ≠ e.id) (hsrc : t.Living src) :
    t.Gone e.id ∧ heard e.id es = [] := by
  obtain ⟨a, ha, hid⟩ := hin
  have hfollows := h.follows hs ha hid he
  have hspares : m.spares a = false := by
    by_contra hspares
    have hkept := (ho.entries hs).retained ha hfollows.subscriber
      (Bool.eq_true_of_not_eq_false hspares) hsrc
    exact hout _ hkept ((m.retag_id a).trans hid)
  have hgone := hfollows.gone hs ho hspares
  rwa [hid] at hgone

end Store

namespace Estate

/-! ## What is made at once -/

/-- The change that an act makes. -/
def Act.change? : Act S V H → Option (Change S)
  | .make m => m.change?
  | .entrust _ _ | .reclaim _ _ => none

/-- The changes of a run. -/
def changes (as : List (Act S V H)) : List (Change S) :=
  as.filterMap Act.change?

/-- No change is waiting to be made. -/
def Prompt (e : Estate S V H) : Prop :=
  ∀ m, e.request = some m → m.change? = none

section Prompt

variable {e : Estate S V H}

/-- What takes effect of a move makes the same change. -/
theorem change?_effective (e : Estate S V H) (m : Move S V H) :
    (e.effective m).change? = m.change? := by
  cases m with
  | tick =>
    show (if e.failing then .panic else .tick : Move S V H).change? = none
    split <;> rfl
  | observe a => cases a <;> rfl
  | change | ret | panic | enter | leave => rfl

theorem prompt_conclude (e : Estate S V H) : e.conclude.Prompt := by
  intro m hm
  unfold conclude at hm
  split at hm
  · cases hm
    rfl
  · cases hm

theorem Prompt.undertake (hp : e.Prompt) {m : Move S V H} (hm : m.change? = none) :
    (e.undertake m).Prompt := by
  unfold Estate.undertake
  split
  · intro m' hm'
    cases hm'
    exact hm
  · exact hp

variable [DecidableEq V]

/-- A move with which no code goes is made at once. -/
theorem Sound.asks_eq (h : e.Sound) {m : Move S V H} (hm : e.admits (.make m) = true)
    (hsettled : e.isSettled = true) (heff : (e.undertake m).effective m = m)
    (hcodes : e.store.kept ⊆ (e.store.step m).1.kept)
    (hhas : ∀ src, e.store.has src = true → (e.store.step m).1.has src = true) :
    e.asks (.make m) = some m := by
  have hpermits := ((Bool.and_eq_true _ _).mp hm).1
  have hbegun : e.undertake m = { e with request := some m, failing := m.isFailure } :=
    if_pos hsettled
  have hrel : (e.undertake m).releases = [] := by
    rw [hbegun]
    exact (h.settled (Option.isNone_iff_eq_none.mp hsettled)).1
  have hdue : (e.undertake m).due? = some m := by
    rw [due?, hrel, hbegun]
  have hstore : ((e.undertake m).carryOut m).1.store = (e.store.step m).1 := by
    rw [carryOut_store, heff, undertake_store]
  -- code that owns something is kept, and the move lets none of it go
  have hgo : (e.undertake m).firstToGo? m = none := by
    have hsound := h.undertake hm
    refine (firstToGo?_eq_none fun x hx => hsound.kept hx).mpr fun x hx => ?_
    refine keeps_carryOut ?_ (fun src hsrc => ?_) (hsound.kept hx)
    · rwa [hstore, undertake_store]
    · rw [undertake_store] at hsrc
      rw [hstore]
      exact hhas src hsrc
  unfold asks
  dsimp only
  rw [if_pos hpermits, asked, hdue, Option.filter_some, hgo]
  rfl

/-- A change is made at once. -/
theorem Sound.asks_change (h : e.Sound) {c : Change S}
    (hm : e.admits (.make (.change c)) = true) : e.asks (.make (.change c)) = some (.change c) := by
  have hsettled := settled_of_permits ((Bool.and_eq_true _ _).mp hm).1 rfl
  have hstep : e.store.step (.change c) = e.store.change c := by
    refine Store.step_eq_perform (Or.inr ?_)
    simpa [admits, hsettled, Store.admits] using ((Bool.and_eq_true _ _).mp hm).2
  obtain ⟨hsame, hstack⟩ := e.store.sameLists_change c
  refine h.asks_eq hm hsettled rfl ?_ fun src hsrc => ?_
  · rw [hstep]
    refine Store.kept_subset h.steady.wired (hsame.wired h.steady.wired) hsame.link?
      (fun hx => ?_) fun hf => hstack hf
    rwa [hsame.observersOf]
  · rw [hstep, Store.has_iff]
    exact (Store.living_congr hsame.link?).mpr (Store.has_iff.mp hsrc)

/-- A subscription to the snapshots is made at once. -/
theorem Sound.asks_subscribe (h : e.Sound) (hm : e.admits (.make (.observe .subscribe)) = true) :
    e.asks (.make (.observe .subscribe)) = some (.observe .subscribe) ∧
      e.store.isWaiting = true := by
  have hsettled := settled_of_permits ((Bool.and_eq_true _ _).mp hm).1 rfl
  have hwait : e.store.isWaiting = true := by
    simpa [admits, hsettled, Store.admits, Move.givesUp] using ((Bool.and_eq_true _ _).mp hm).2
  have hstep : (e.store.step (.observe .subscribe)).1 = e.store.subscribe := by
    rw [Store.step_eq_perform (Or.inr hwait)]
    rfl
  refine ⟨h.asks_eq hm hsettled rfl ?_ fun src hsrc => ?_, hwait⟩
  · rw [hstep]
    refine Store.kept_subset h.steady.wired h.steady.toSound.subscribe.wired rfl
      (fun {src x} hx => ?_) fun hf => hf
    cases src with
    | store => exact List.mem_append_left _ hx
    | view p => exact hx
  · rw [hstep]
    cases src <;> exact hsrc

/-- Where no change is waiting, none is made. -/
theorem Prompt.attend (hp : e.Prompt) :
    e.attend.1.Prompt ∧ e.asked.bind Move.change? = none := by
  have hcases := e.attended
  generalize e.asked = x, e.attend.1 = u, e.attend.2 = es at hcases ⊢
  cases hcases with
  | idle | given | released => exact ⟨hp, rfl⟩
  | made hrel hreq => exact ⟨prompt_conclude _, hp _ hreq⟩

/-- A change that is made does not wait any more. -/
theorem prompt_of_asked {c : Change S} (hasked : e.asked = some (.change c)) :
    e.attend.1.Prompt := by
  have hcases := e.attended
  generalize e.asked = x, e.attend.1 = u, e.attend.2 = es at hcases hasked ⊢
  cases hcases with
  | idle | given | released => cases hasked
  | made => exact prompt_conclude _

/-- An act makes its own change and no other, and no change waits afterwards. -/
theorem Sound.change_step (h : e.Sound) (hp : e.Prompt) {a : Act S V H}
    (ha : e.admits a = true) :
    (e.step a).1.Prompt ∧ (e.makes a).bind Move.change? = a.change? := by
  have hpermits := ((Bool.and_eq_true _ _).mp ha).1
  have hmakes : (e.makes a).bind Move.change? = (e.asks a).bind Move.change? := by
    rw [makes, Option.bind_map]
    exact congrArg _ (funext fun m => change?_effective _ m)
  rw [hmakes]
  unfold Estate.step
  rw [if_pos hpermits]
  cases a with
  | entrust | reclaim => exact ⟨hp, rfl⟩
  | make m =>
    have hasks : e.asks (.make m) = (e.undertake m).asked := if_pos hpermits
    cases m with
    | change c =>
      have hchange := h.asks_change ha
      refine ⟨prompt_of_asked (hasks ▸ hchange), ?_⟩
      rw [hchange]
      rfl
    -- no change is waiting, so none is made while something is given up
    | tick | observe | ret | panic | enter | leave =>
      rw [hasks]
      exact (hp.undertake rfl).attend

/-- **The changes of a run are those that its store makes.** -/
theorem Sound.changes_trace (h : e.Sound) (hp : e.Prompt) {as : List (Act S V H)}
    (hrun : e.Feasible as) : Observable.changes (e.trace as) = changes as := by
  induction as generalizing e with
  | nil => rfl
  | cons a as ih =>
    obtain ⟨ha, hrun⟩ := hrun
    obtain ⟨hnext, hchange⟩ := h.change_step hp ha
    have hrest := ih (h.step ha) hnext hrun
    have hfirst : (e.makes a).toList.filterMap Move.change? = a.change?.toList := by
      rw [← hchange]
      cases e.makes a with
      | none => rfl
      | some m => cases hm : m.change? <;> simp [hm]
    rw [Observable.changes] at hrest ⊢
    rw [Estate.trace, List.filterMap_append, hrest, hfirst, changes, changes, List.filterMap_cons]
    cases a.change? <;> rfl

end Prompt

/-! ## From the registration to the removal -/

section Removal

variable {e : Estate S V H} {l : Holdings S V} {o : ObserverId}

/-- Which entries are stuck does not depend on what an act prepares. -/
theorem prepared_isStuck (e : Estate S V H) (a : Act S V H) :
    (e.prepared a).isStuck = e.isStuck := by
  cases a with
  | make m =>
    show (e.undertake m).isStuck = e.isStuck
    unfold undertake
    split <;> rfl
  | entrust | reclaim => rfl

/-- A subscription ends in effect only if its end was asked for and its entry is not stuck. -/
theorem of_effective_unsubscribe {m : Move S V H}
    (h : e.effective m = .observe (.unsubscribe o)) :
    m = .observe (.unsubscribe o) ∧ e.isStuck o = false := by
  cases m with
  | tick =>
    have h : (if e.failing then .panic else .tick : Move S V H) = .observe (.unsubscribe o) := h
    split at h <;> cases h
  | observe a =>
    cases a with
    | unsubscribe o' =>
      cases hstuck : e.isStuck o' with
      | true => simp [effective, hstuck] at h
      | false =>
        simp only [effective, hstuck, Bool.false_eq_true, if_false] at h
        cases h
        exact ⟨rfl, hstuck⟩
    | project | chain | share | drop | subscribe | watch | detach => cases h
  | change | ret | panic | enter | leave => cases h

/-- The subscription of an entry that is held is to the source that has the entry. -/
theorem Recorded.source_of_home? (h : e.Recorded l) (hs : e.Sound) {src : Source}
    (hhome : e.store.home? o = some src) {x : Subscription} (hx : x ∈ l.subscriptions)
    (hid : x.id = o) : x.source = src := by
  obtain ⟨z, hz, hzid, -⟩ := Store.exists_of_home? hs.steady.wired hhome
  have htracks := h.registered.tracked (List.mem_map_of_mem hx)
  have hsource := htracks.listed hz (by rw [hzid, x.relist_id, hid])
  rw [hsource, x.relist_source]

/-- The entry of a subscription of the store that stayed behind is in the list. -/
theorem Recorded.listed_of_mem_stuck (h : e.Recorded l) (ho : o ∈ e.stuck) {x : Subscription}
    (hx : x ∈ l.subscriptions) (hid : x.id = o) (hsource : x.source = .store) :
    ∃ z ∈ e.store.observersOf .store, z.id = o := by
  have hstays : (x.relist e.stuck).standing ≠ .dropped := fun hdropped =>
    (Subscription.relist_dropped.mp hdropped).2 (hid ▸ ho)
  obtain ⟨z, hz⟩ := Subscription.listed?_isSome hstays
  have hin := h.accounted.mem_observersOf (List.mem_map_of_mem hx) hz
  rw [x.relist_source, hsource] at hin
  exact ⟨z, hin trivial, (Subscription.listed?_eq_some hz).1.trans ((x.relist_id _).trans hid)⟩

variable [DecidableEq V]

theorem events_append (e : Estate S V H) (as as' : List (Act S V H)) :
    e.events (as ++ as') = e.events as ++ (e.after as).events as' := by
  induction as generalizing e with
  | nil => rfl
  | cons a as ih =>
    rw [List.cons_append, events_cons, ih, events_cons, after_cons, List.append_assoc]

/-- What begins in a run begins in its first part or in the rest. -/
theorem begun_append (e : Estate S V H) (src : Source) (as as' : List (Act S V H)) :
    e.store.begun src (e.trace (as ++ as')) = e.store.begun src (e.trace as)
      ++ (e.after as).store.begun src ((e.after as).trace as') := by
  rw [trace_append, Store.begun_append, ← (e.run_store as).1]

/-- A subscription to the snapshots adds its entry, and nothing else happens. -/
theorem Sound.subscribed (h : e.Sound) (hm : e.admits (.make (.observe .subscribe)) = true) :
    (e.step (.make (.observe .subscribe))).1.store = e.store.subscribe ∧
      (e.step (.make (.observe .subscribe))).2 = [] ∧
      e.makes (.make (.observe .subscribe)) = some (.observe .subscribe) := by
  obtain ⟨hasks, hwait⟩ := h.asks_subscribe hm
  have hmakes : e.makes (.make (.observe .subscribe)) = some (.observe .subscribe) := by
    rw [makes, hasks]
    rfl
  have hstep : e.store.step (.observe .subscribe) = (e.store.subscribe, []) :=
    Store.step_eq_perform (Or.inr hwait)
  obtain ⟨hstore, hevents⟩ := e.step_store (.make (.observe .subscribe))
  rw [hmakes] at hstore hevents
  refine ⟨?_, ?_, hmakes⟩
  · rw [hstore]
    exact congrArg Prod.fst hstep
  · rw [hevents]
    exact (List.append_nil _).trans (congrArg Prod.snd hstep)

/-- Once its entry is taken out of the list, a subscriber is not told anything any more. -/
theorem Sound.unheard_of_unlisted (h : e.Sound)
    (htracks : e.store.Tracks .store ⟨o, .subscriber, true⟩) {as : List (Act S V H)}
    (hrun : e.Feasible as) (hcalm : ∀ m ∈ e.trace as, m.isFailure = false)
    (hin : ∃ z ∈ e.store.observersOf .store, z.id = o)
    (hout : ∀ a ∈ as.head?, ∀ z ∈ (e.step a).1.store.observersOf .store, z.id ≠ o) :
    Store.heard o (e.events as) = [] := by
  cases as with
  | nil => rfl
  | cons a as =>
    have hout := hout a rfl
    have hstore := (e.step_store a).1
    have hcalm := calm_of_feasible (h.trace hrun) hcalm
    rw [(e.run_store _).2]
    unfold Estate.trace at hcalm ⊢
    -- an act that makes no move of the store leaves the entry in the list
    cases hm : e.makes a with
    | none =>
      obtain ⟨z, hz, hid⟩ := hin
      rw [hm] at hstore
      exact absurd hid (hout z (hstore ▸ hz))
    | some m =>
      rw [hm] at hstore hcalm
      obtain ⟨hallowed, hcalm⟩ := hcalm
      have hs := h.steady.toSound
      obtain ⟨hgone, hquiet⟩ := htracks.gone_of_unlisted hs (hs.outcome hallowed) rfl hin
        (fun z hz => hout z (hstore ▸ hz)) trivial
      have hlater := hgone.heard (hs.step m) hcalm
      show Store.heard o (e.store.events (m :: (e.step a).1.trace as)) = []
      rw [Store.events_cons, Store.heard_append, hquiet]
      exact hlater

/-- **A subscriber is told the snapshots whose delivery begins between its registration and the
removal of its entry, but for one that had not got to it then.** -/
theorem Sound.heard_subscribed (h : e.Sound) (hhomed : e.store.Homed) {a b c : List (Act S V H)}
    (hrun : e.Feasible (a ++ .make (.observe .subscribe) :: (b ++ c)))
    (hcalm : ∀ m ∈ e.trace (a ++ .make (.observe .subscribe) :: (b ++ c)), m.isFailure = false)
    {registered : Estate S V H}
    (hregistered : registered = e.after (a ++ [.make (.observe .subscribe)]))
    (hid : o = (e.after a).store.nextObserver)
    (hin : ∃ z ∈ (registered.after b).store.observersOf .store, z.id = o)
    (hout : ∀ x ∈ c.head?,
      ∀ z ∈ ((registered.after b).step x).1.store.observersOf .store, z.id ≠ o) :
    Store.heard o (e.events (a ++ .make (.observe .subscribe) :: (b ++ c)))
        ++ (registered.after b).store.owed .store o
      = registered.store.begun .store (registered.trace b) := by
  obtain ⟨ha, hm, hbc⟩ := feasible_append.mp hrun
  have hea := h.after ha
  obtain ⟨hstore, hnone, hmakes⟩ := hea.subscribed hm
  have hstep : registered = ((e.after a).step (.make (.observe .subscribe))).1 := by
    rw [hregistered, after_append]
    rfl
  rw [← hstep] at hbc hstore
  obtain ⟨hb, hc⟩ := feasible_append.mp hbc
  have hr : registered.Sound := hstep ▸ hea.step hm
  rw [trace_append, Estate.trace, ← hstep, trace_append] at hcalm
  simp only [List.forall_mem_append] at hcalm
  obtain ⟨hcalma, -, hcalmb, hcalmc⟩ := hcalm
  -- nothing goes by the name before the registration, and nothing is owed by then
  have hbefore : Store.heard o (e.events a) = [] := by
    rw [(e.run_store a).2]
    refine h.steady.toSound.unheard (calm_of_feasible (h.trace ha) hcalma) ?_
    rw [hid, ← (e.run_store a).1]
  obtain ⟨hfollows, howed⟩ := hea.steady.toSound.follows_subscribe
  rw [← hid, ← hstore] at hfollows howed
  have hentry := hfollows.entry trivial
  have hnames : registered.store.Homed := by
    rw [hregistered, (e.run_store _).1]
    refine hhomed.after h.steady (h.trace ?_)
    exact feasible_append.mpr ⟨ha, hm, trivial⟩
  have htracks := hr.steady.toSound.tracks hnames hentry
  have hserved : Store.heard o (registered.events b) ++ (registered.after b).store.owed .store o
      = registered.store.begun .store (registered.trace b) := by
    have hstays := hin
    rw [(registered.run_store b).1] at hstays
    have := htracks.served hr.steady (calm_of_feasible (hr.trace hb) hcalmb)
      ⟨_, hentry, rfl, rfl⟩ hstays
    rw [Store.received_subscriber rfl] at this
    rw [(registered.run_store b).1, (registered.run_store b).2]
    rwa [howed, List.nil_append] at this
  have hafter : Store.heard o ((registered.after b).events c) = [] := by
    refine (hr.after hb).unheard_of_unlisted ?_ hc hcalmc hin hout
    rw [(registered.run_store b).1]
    exact htracks.after hr.steady (hr.trace hb)
  rw [events_append, events_cons, ← hstep, hnone, events_append, Store.heard_append, hbefore,
    Store.heard_append, Store.heard_append, hafter, List.append_nil]
  exact hserved

/-- Only its own end takes the entry of a subscription out of the list. -/
theorem Sound.listed_of_not_asks (hs : e.Sound) {a : Act S V H} (ha : e.admits a = true)
    (hhome : e.store.home? o = some .store) (hother : e.asks a ≠ some (.observe (.unsubscribe o))) :
    ∃ z ∈ (e.step a).1.store.observersOf .store, z.id = o := by
  obtain ⟨z, hz, rfl, htarget, -⟩ := Store.exists_of_home? hs.steady.wired hhome
  rw [(e.step_store a).1]
  cases hm : e.makes a with
  | none => exact ⟨z, hz, rfl⟩
  | some m =>
    obtain ⟨m', hasks, heff⟩ := Option.map_eq_some_iff.mp hm
    have hspares : m.spares z = true := by
      refine Store.spares_of_ne fun hends => ?_
      obtain ⟨rfl, -⟩ := of_effective_unsubscribe (heff.trans hends)
      exact hother hasks
    have hu := hs.steady.upshot (hs.admits_makes ha hm)
    exact ⟨_, (hu.entries hs.steady.toSound).retained hz htarget hspares trivial, m.retag_id z⟩

/-- **A subscription to the snapshots that has ended keeps its entry exactly if it ended while an
entry was being taken out of the list.** -/
theorem Recorded.listed_iff_of_asks (h : e.Recorded l) (hs : e.Sound) {a : Act S V H}
    {as : List (Act S V H)} (hrun : e.Feasible (a :: as)) (hhome : e.store.home? o = some .store)
    (hends : e.asks a = some (.observe (.unsubscribe o))) :
    (∃ z ∈ (e.after (a :: as)).store.observersOf .store, z.id = o) ↔
      e.isBorrowed .store = true := by
  have ⟨ha, hlater⟩ := hrun
  obtain ⟨x, hx, hid, hheld⟩ := h.held_of_home? hs hhome
  constructor
  · rintro ⟨z, hz, hzid⟩
    -- the list is free, so the entry is taken out and does not come back
    by_contra hfree
    have hpermits := ((Bool.and_eq_true _ _).mp ha).1
    cases a with
    | entrust | reclaim => cases hends
    | make m =>
      have hstuck : (e.undertake m).isStuck o = false := by
        rw [show (e.undertake m).isStuck o = e.isStuck o from
          congrFun (prepared_isStuck e (.make m)) o, isStuck, hhome]
        exact Bool.eq_false_iff.mpr hfree
      have hgone := (h.undertake m).gone_of_unsubscribe (hs.undertake ha)
        ((if_pos hpermits).symm.trans hends) ⟨x, hx, hid, hheld⟩ hstuck
      have hstep : (e.step (.make m)).1 = (e.undertake m).attend.1 := by
        unfold Estate.step
        rw [if_pos hpermits]
      rw [← hstep] at hgone
      exact ((hs.step ha).gone_after hgone hlater).unlisted hz hzid
  · intro hborrowed
    have hstuck : o ∈ (e.after (a :: as)).stuck :=
      mem_stuck_iff.mpr (Or.inr ⟨[], a, as, rfl, hends, .store, hhome, hborrowed⟩)
    obtain ⟨w, hw, hwid, hwsource⟩ := holdings_keep e l (a :: as) hx
    exact (h.after hs hrun).listed_of_mem_stuck hstuck hw (hwid.trans hid)
      (hwsource.trans (h.source_of_home? hs hhome hx hid))

end Removal

/-- **What a run publishes, and to whom.** In every run from a new store on in which no failure
reaches running code (what code owns may be given up on the way, and that may fail while no code
runs):

- the state is what the changes so far make of the initial one in their order, and the version is
  their number;
- the snapshots are published with their versions in order, and each of them has its delivery begun,
  or waits for it, in that order;
- a subscriber is told every snapshot whose delivery begins between its registration and the
  removal of its entry, in the order of the versions, except for the one at hand at the removal if
  it was not reached;
- the entry of a subscription is removed only if the subscription ends, and then at once and for
  good, exactly unless it ends while an entry is being taken out of the list: in that case it stays
  for good, and the subscriber is told what follows;
- a subscription that the caller or running code itself has ended has no entry once the store has
  nothing under way any more;
- snapshot by snapshot, the observers are called in the order of their registration;
- when no delivery of snapshots is under way, none waits, and the channel is not marked;
- an observer that is reached is never skipped for being at work. -/
theorem broadcast [DecidableEq V] (initial : S) (as : List (Act S V H))
    (hrun : (opening initial : Estate S V H).Feasible as)
    (hcalm : ∀ m ∈ (opening initial : Estate S V H).trace as, m.isFailure = false) :
    let start : Estate S V H := opening initial
    let e := start.after as
    let s := e.store
    (s.current.version = (changes as).length ∧
      s.current.state = (changes as).foldl (fun x c => c.apply initial x) initial) ∧
    ((Store.taken .store (start.events as)).map Signal.version
        = List.range' 1 (changes as).length ∧
      Store.taken .store (start.events as)
        = start.store.begun .store (start.trace as) ++ s.queue .store) ∧
    (∀ a b c, as = a ++ .make (.observe .subscribe) :: (b ++ c) →
      let o := (start.after a).store.nextObserver
      let registered := start.after (a ++ [.make (.observe .subscribe)])
      let before := registered.after b
      (∃ z ∈ before.store.observersOf .store, z.id = o) →
      (∀ x ∈ c.head?, ∀ z ∈ (before.step x).1.store.observersOf .store, z.id ≠ o) →
      Store.heard o (start.events as) ++ before.store.owed .store o
          = registered.store.begun .store (registered.trace b) ∧
        (Store.heard o (start.events as)).Pairwise fun x y => x.version < y.version) ∧
    (∀ a x b, as = a ++ x :: b → ∀ o, (start.after a).store.home? o = some .store →
      ((start.after a).asks x ≠ some (.observe (.unsubscribe o)) →
        ∃ z ∈ ((start.after a).step x).1.store.observersOf .store, z.id = o) ∧
      ((start.after a).asks x = some (.observe (.unsubscribe o)) →
        ((∃ z ∈ s.observersOf .store, z.id = o) ↔ (start.after a).isBorrowed .store = true))) ∧
    (∀ a o b, as = a ++ .make (.observe (.unsubscribe o)) :: b → e.isSettled = true →
      ∀ z ∈ s.observersOf .store, z.id ≠ o) ∧
    (calls (start.events as)).Pairwise Before ∧
    ((∀ now, .publishing now ∉ s.stack) →
      s.channel.pending = [] ∧ s.channel.publishing = false) ∧
    (∀ x o rest below, s.stack = .publishing (some (x, o :: rest)) :: below →
      s.channel.contains o.id = true →
      ({ s with stack := .publishing (some (x, rest)) :: below } : Store S V H).isRunning o
        = false) ∧
    (∀ p v o rest below, s.stack = .emitting p (some (v, o :: rest)) :: below →
      (s.get? p).any (·.channel.contains o.id) = true →
      ({ s with stack := .emitting p (some (v, rest)) :: below } : Store S V H).isRunning o
        = false) := by
  intro start e s
  have hstart : start.Sound := .opening initial
  have hrecord : start.Recorded .none := .opening initial
  have hopen : start.store.Orderly := .opening initial
  have hcalms : start.store.Calm (start.trace as) := calm_of_feasible (hstart.trace hrun) hcalm
  have hchanges : Observable.changes (start.trace as) = changes as :=
    hstart.changes_trace (fun m hm => by cases hm) hrun
  obtain ⟨hafter, hevents⟩ : s = start.store.after (start.trace as) ∧
      start.events as = start.store.events (start.trace as) := start.run_store as
  have hs : s.Orderly := hafter ▸ hopen.after hcalms
  have hstate := hopen.toSound.state hcalms
  rw [← hafter, hchanges] at hstate
  have hsorted := hopen.toSound.taken_sorted hcalms
  rw [← hevents] at hsorted
  have hflow : Store.taken .store (start.events as)
      = start.store.begun .store (start.trace as) ++ s.queue .store := by
    rw [hevents, hafter]
    exact hopen.flow hcalms .store
  refine ⟨⟨?_, ?_⟩, ⟨?_, hflow⟩, ?_, ?_, ?_, ?_, hs.idle_channel,
    fun x o rest below => hs.toSound.reached_store,
    fun p v o rest below => hs.toSound.reached_view⟩
  · rw [hstate]
    exact Nat.zero_add _
  · rw [hstate]
    rfl
  · have hversions := hopen.toSound.versions hcalms
    rwa [← hevents, hchanges] at hversions
  · intro a b c has o registered before hin hout
    subst has
    have hheard := hstart.heard_subscribed (.opening initial) hrun hcalm rfl rfl hin hout
    refine ⟨hheard, hsorted.sublist ?_⟩
    -- what is heard begins, and what begins is taken
    have hbegun := start.begun_append .store (a ++ [.make (.observe .subscribe)]) (b ++ c)
    rw [List.append_assoc, List.singleton_append, registered.begun_append, ← hheard] at hbegun
    rw [hflow, hbegun]
    refine List.Sublist.trans ?_ (List.sublist_append_left _ _)
    refine List.Sublist.trans ?_ (List.sublist_append_right _ _)
    refine List.Sublist.trans ?_ (List.sublist_append_left _ _)
    exact List.sublist_append_left _ _
  · intro a x b has o hhome
    subst has
    obtain ⟨ha, hrest⟩ := feasible_append.mp hrun
    have hea := hstart.after ha
    refine ⟨hea.listed_of_not_asks hrest.1 hhome, fun hends => ?_⟩
    have hiff := (hrecord.after hstart ha).listed_iff_of_asks hea hrest hhome hends
    rwa [← after_append] at hiff
  · intro a o b has hsettled
    subst has
    obtain ⟨ha, hrest⟩ := feasible_append.mp hrun
    have hconserved := (Conserved.opening initial).after hrecord hstart ha
    have hgone := hconserved.unsubscribed (hrecord.after hstart ha) (hstart.after ha) hrest
      (by rwa [← after_append])
    rw [← after_append] at hgone
    exact fun z hz => hgone.unlisted hz
  · have hempty : start.store.Sequenced [] := by
      refine ⟨.nil, ?_, ?_, ?_⟩ <;> intro a ha <;> cases ha
    rw [hevents]
    exact (hempty.after hopen hcalms).sorted

/-- The first of three subscribers (0) owns the subscription of the third (2). When it is called
with the first snapshot, it changes the state and ends the subscription of the second (1). After
these deliveries the caller ends the first subscription, and changes the state once more. -/
def relay : List (Act Nat Nat Unit) :=
  [.make (.observe .subscribe), .make (.observe .subscribe), .make (.observe .subscribe),
    .entrust 0 (.subscription 2), .make (.change (.update (· + 1))), .make .tick, .make .tick,
    .make (.change (.update (· + 1))), .make (.observe (.unsubscribe 1)), .make .ret, .make .tick,
    .make .tick, .make .ret, .make .tick, .make .tick, .make .tick, .make .ret, .make .tick,
    .make .ret, .make .tick, .make .tick, .make (.observe (.unsubscribe 0)), .make .tick,
    .make .tick, .make (.change (.update (· + 1))), .make .tick, .make .tick, .make .ret]

/-- The first subscriber is told two snapshots and the second none. The entry of the third stays
behind, and it is told all of them. -/
theorem broadcast_relayed :
    let start : Estate Nat Nat Unit := opening 0
    start.Feasible relay ∧ (∀ m ∈ start.trace relay, m.isFailure = false) ∧
      (Store.heard 0 (start.events relay)).map Signal.version = [1, 2] ∧
      (Store.heard 1 (start.events relay)).map Signal.version = [] ∧
      (Store.heard 2 (start.events relay)).map Signal.version = [1, 2, 3] ∧
      (start.after relay).stuck = [2] := by
  intro start
  have hrun : start.Feasible relay := by decide +kernel
  have hcalm : ∀ m ∈ start.trace relay, m.isFailure = false := by decide +kernel
  obtain ⟨-, -, hheard, -⟩ := broadcast 0 relay hrun hcalm
  -- what is told is what begins, without what is still owed
  have htold : ∀ (owed' : List Nat) {told owed begun : List (Signal Nat Nat)} {told' : List Nat},
      told ++ owed = begun → owed.map Signal.version = owed' →
        begun.map Signal.version = told' ++ owed' → told.map Signal.version = told' := by
    intro owed' told owed begun told' heq howed hbegun
    rw [← heq, List.map_append, howed] at hbegun
    exact List.append_cancel_right hbegun
  refine ⟨hrun, hcalm, ?_, ?_, ?_, by decide +kernel⟩
  · have hfirst := hheard [] ((relay.drop 1).take 22) (relay.drop 23) rfl (by decide +kernel)
      (by decide +kernel)
    exact htold [] hfirst.1 (by decide +kernel) (by decide +kernel)
  · have hsecond := hheard (relay.take 1) ((relay.drop 2).take 6) (relay.drop 8) rfl
      (by decide +kernel) (by decide +kernel)
    exact htold [1] hsecond.1 (by decide +kernel) (by decide +kernel)
  · have hthird := hheard (relay.take 2) (relay.drop 3) [] rfl (by decide +kernel)
      (by decide +kernel)
    exact htold [] hthird.1 (by decide +kernel) (by decide +kernel)

/-- A subscriber (0) keeps the subscription (1) that it makes when it is called. After the delivery
the caller ends its subscription. -/
def keepsake : List (Act Nat Nat Unit) :=
  [.make (.observe .subscribe), .make (.change (.update (· + 1))), .make .tick, .make .tick,
    .make (.observe .subscribe), .entrust 0 (.subscription 1), .make .ret, .make .tick, .make .tick,
    .make (.observe (.unsubscribe 0)), .make .tick, .make .tick]

/-- An update, and the call of the only subscriber. -/
def lateCall : List (Act Nat Nat Unit) :=
  [.make (.change (.update (· + 1))), .make .tick, .make .tick]

/-- Running code has not failed, nothing is under way and both subscriptions have ended, but the
second subscriber is told the next snapshot. -/
theorem broadcast_outlived :
    let start : Estate Nat Nat Unit := opening 0
    let e := start.after keepsake
    start.Feasible (keepsake ++ lateCall) ∧
      (∀ m ∈ start.trace (keepsake ++ lateCall), m.isFailure = false) ∧
      e.isSettled = true ∧ e.store.stack.isEmpty = true ∧
      (∀ x ∈ (start.holdings .none keepsake).subscriptions, x.standing = .dropped) ∧
      (Store.heard 1 (e.events lateCall)).map Signal.version = [2] := by
  decide +kernel

end Estate

end LiveDesk.Observable
