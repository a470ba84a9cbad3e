import LiveDesk.Proofs.Observable.Possessions

/-!
# What stays behind

A subscription that ends while an entry is being taken out of its list leaves its own entry behind,
and so does a projection that goes while an entry is being taken out of the list of its source.
Apart from these entries the lists are those of what is held.

- `Estate.entries`: the list of a source, with what stayed behind in it.
- `Estate.EndsBorrowed`, `Estate.GoesBorrowed`: the acts that leave an entry behind.
- **`Recorded.mem_entries`**: an entry is that of something that is held or lives, exactly unless it
  stayed behind.
- **`remains`**: when an entry stays behind, what lives, and who is served.
-/

namespace LiveDesk.Observable

variable {S V H : Type}

namespace Estate

/-! ## What is left over -/

section Leftovers

variable {e : Estate S V H} {l : Holdings S V} {src : Source} {o : ObserverId}

/-- The entries in the list of a source: those of the store, and those of projections that are
gone. -/
def entries (e : Estate S V H) (src : Source) : List ObserverId :=
  (e.store.observersOf src).map (·.id) ++ (e.strays.filter (·.1 = src)).map (·.2)

/-- No entry is in a list twice. -/
theorem Recorded.nodup_entries (h : e.Recorded l) (hs : e.Sound) (src : Source) :
    (e.entries src).Nodup := by
  refine List.nodup_append.mpr ⟨?_, ?_, fun o ho o' ho' => ?_⟩
  · exact List.pairwise_map.mpr (hs.steady.wired.distinct src)
  · exact h.distinct.sublist (List.filter_sublist.map _)
  · rintro rfl
    obtain ⟨a, ha, rfl⟩ := List.mem_map.mp ho
    obtain ⟨⟨src', o⟩, hstray, heq⟩ := List.mem_map.mp ho'
    exact (h.strays (List.mem_filter.mp hstray).1).1.unlisted ha heq.symm

/-- **An entry is that of a subscription that has not ended or of a projection that lives, exactly
unless it stayed behind.** -/
theorem Recorded.mem_entries (h : e.Recorded l) (hs : e.Sound) (hsrc : e.store.Living src)
    (ho : o ∈ e.entries src) :
    ((∃ x ∈ l.subscriptions, x.id = o ∧ x.source = src ∧ x.standing ≠ .dropped) ∨
      ∃ p origin, e.store.link? p = some (origin, o) ∧ origin.source = src) ↔
      o ∉ e.stuck ∧ (src, o) ∉ e.strays := by
  constructor
  · intro hthere
    -- it is in the list of the store
    obtain ⟨a, ha, hid⟩ : ∃ a ∈ e.store.observersOf src, a.id = o := by
      rcases hthere with ⟨x, hx, rfl, rfl, hlasts⟩ | ⟨p, origin, hlink, rfl⟩
      · have hlisted : (x.relist e.stuck).standing ≠ .dropped := fun hdropped =>
          hlasts (Subscription.relist_dropped.mp hdropped).1
        obtain ⟨z, hz⟩ := Subscription.listed?_isSome hlisted
        refine ⟨z, ?_, (Subscription.listed?_eq_some hz).1.trans (x.relist_id _)⟩
        have hin := h.accounted.mem_observersOf (List.mem_map_of_mem hx) hz
        rw [x.relist_source] at hin
        exact hin hsrc
      · exact ⟨_, hs.steady.wired.entered hlink, rfl⟩
    refine ⟨fun hstuck => ?_, fun hstray => (h.strays hstray).1.unlisted ha hid⟩
    obtain ⟨y, hy, hyid, hdropped⟩ := h.stuck hstuck
    rcases hthere with ⟨x, hx, hxid, -, hlasts⟩ | ⟨p, origin, hlink, rfl⟩
    · rw [h.eq_of_id hx hy (hxid.trans hyid.symm)] at hlasts
      exact hlasts hdropped
    · have htracks := h.registered.tracked (List.mem_map_of_mem hy)
      have hentered := hs.steady.wired.entered hlink
      have hyo : o = (y.relist e.stuck).id := by rw [y.relist_id, hyid]
      rw [← htracks.listed hentered hyo] at htracks
      cases htracks.same hentered hyo
  · rintro ⟨hstuck, hstray⟩
    rcases List.mem_append.mp ho with ho | ho
    · obtain ⟨a, ha, rfl⟩ := List.mem_map.mp ho
      cases htarget : a.target with
      | subscriber =>
        obtain ⟨y, hy, hysrc, hlisted⟩ := h.accounted.subscription_of_mem ha htarget
        obtain ⟨x, hx, rfl⟩ := List.mem_map.mp hy
        obtain ⟨hid, -, hlasts⟩ := Subscription.listed?_eq_some hlisted
        rw [x.relist_id] at hid
        refine Or.inl ⟨x, hx, hid.symm, (x.relist_source _).symm.trans hysrc, fun hdropped => ?_⟩
        exact hlasts (Subscription.relist_dropped.mpr ⟨hdropped, hid ▸ hstuck⟩)
      | projection p =>
        obtain ⟨origin, hlink, hsource⟩ := hs.steady.wired.targeted ha htarget
        exact Or.inr ⟨p, origin, hlink, hsource⟩
    · obtain ⟨⟨src', o⟩, hmem, rfl⟩ := List.mem_map.mp ho
      obtain ⟨hin, hsource⟩ := List.mem_filter.mp hmem
      obtain rfl := of_decide_eq_true hsource
      exact absurd hin hstray

variable [DecidableEq V]

/-- A subscription ends in an act while an entry is being taken out of its list. -/
def EndsBorrowed (e : Estate S V H) (a : Act S V H) (o : ObserverId) : Prop :=
  e.asks a = some (.observe (.unsubscribe o)) ∧
    ∃ src, e.store.home? o = some src ∧ e.isBorrowed src = true

/-- A projection goes in an act while an entry is being taken out of the list of its source. -/
def GoesBorrowed (e : Estate S V H) (a : Act S V H) (q : Projection S V) : Prop :=
  e.store.get? q.id = some q ∧ e.isBorrowed q.origin.source = true ∧
    ¬ (e.step a).1.store.Living (.view q.id)

/-- What acts add to a list is what is in it after a run. -/
theorem mem_after_iff {α : Type} {f : Estate S V H → List α}
    {g : Estate S V H → Act S V H → List α} {as : List (Act S V H)}
    (hstep : ∀ b a c, as = b ++ a :: c →
      f ((e.after b).step a).1 = f (e.after b) ++ g (e.after b) a) {x : α} :
    x ∈ f (e.after as) ↔
      x ∈ f e ∨ ∃ b a c, as = b ++ a :: c ∧ x ∈ g (e.after b) a := by
  induction as generalizing e with
  | nil =>
    refine ⟨Or.inl, fun h => h.resolve_right ?_⟩
    rintro ⟨b, a, c, hsplit, -⟩
    cases b <;> cases hsplit
  | cons a as ih =>
    have hrest := ih (e := (e.step a).1) fun b a' c hsplit =>
      hstep (a :: b) a' c (congrArg _ hsplit)
    have hfirst : f (e.step a).1 = f e ++ g e a := hstep [] a as rfl
    rw [after_cons, hrest, hfirst, List.mem_append, or_assoc]
    refine or_congr_right ⟨?_, ?_⟩
    · rintro (h | ⟨b, a', c, rfl, h⟩)
      · exact ⟨[], a, as, rfl, h⟩
      · exact ⟨a :: b, a', c, rfl, h⟩
    -- the act is the first one of the run, or one of the rest
    · rintro ⟨b, a', c, hsplit, h⟩
      cases b with
      | nil =>
        cases hsplit
        exact Or.inl h
      | cons _ b =>
        cases hsplit
        exact Or.inr ⟨b, a', c, rfl, h⟩

/-- An entry becomes stuck when its subscription ends while its list is borrowed. -/
theorem mem_sticks_iff {a : Act S V H} :
    o ∈ (e.asks a).elim [] e.sticks ↔ e.EndsBorrowed a o := by
  rw [EndsBorrowed, ← isStuck_iff]
  cases e.asks a with
  | none => simp
  | some m =>
    rw [Option.elim_some, Option.some_inj]
    rcases e.effective_cases m with ⟨o', rfl, ho', hsticks, -⟩ | ⟨hsticks, -⟩
    · rw [hsticks, List.mem_singleton]
      constructor
      · rintro rfl
        exact ⟨rfl, ho'⟩
      · rintro ⟨heq, -⟩
        cases heq
        rfl
    · rw [hsticks]
      refine ⟨fun ho => (by cases ho), ?_⟩
      rintro ⟨rfl, ho⟩
      simp [sticks, ho] at hsticks

/-- The entry of a projection is stranded when the projection goes while the list of its source is
borrowed. -/
theorem mem_strands_iff (hs : e.store.Wired) {a : Act S V H} :
    (src, o) ∈ e.strands (e.step a).1.store ↔
      ∃ q, e.GoesBorrowed a q ∧ q.origin.source = src ∧ q.entry = o := by
  simp only [strands, List.mem_map, List.mem_filter, Store.mem_living hs, Bool.and_eq_true,
    Bool.not_eq_true', ← Bool.not_eq_true, Store.has_iff, Prod.mk.injEq, GoesBorrowed, and_assoc]

end Leftovers

/-! ## Runs -/

section Runs

variable [DecidableEq V] {e : Estate S V H} {as : List (Act S V H)}

/-- Which subscriptions left their entries behind in a run. -/
theorem mem_stuck_iff {o : ObserverId} :
    o ∈ (e.after as).stuck ↔
      o ∈ e.stuck ∨ ∃ b a c, as = b ++ a :: c ∧ (e.after b).EndsBorrowed a o := by
  rw [mem_after_iff (f := Estate.stuck) (g := fun e a => (e.asks a).elim [] e.sticks)
    fun b a c _ => (e.after b).step_stuck a]
  simp only [mem_sticks_iff]

/-- Which projections left their entries behind in a run. -/
theorem Sound.mem_strays_iff (hs : e.Sound) (hrun : e.Feasible as) {src : Source}
    {o : ObserverId} :
    (src, o) ∈ (e.after as).strays ↔ (src, o) ∈ e.strays ∨
      ∃ b a c q, as = b ++ a :: c ∧ (e.after b).GoesBorrowed a q ∧ q.origin.source = src ∧
        q.entry = o := by
  have hwired : ∀ b a c, as = b ++ a :: c → (e.after b).store.Wired := by
    rintro b a c rfl
    exact (hs.after (feasible_append.mp hrun).1).steady.wired
  rw [mem_after_iff (f := Estate.strays) (g := fun e a => e.strands (e.step a).1.store)
    fun b a c hsplit => step_strays (hwired b a c hsplit) a]
  refine or_congr_right ⟨?_, ?_⟩
  · rintro ⟨b, a, c, hsplit, ho⟩
    obtain ⟨q, hq⟩ := (mem_strands_iff (hwired b a c hsplit)).mp ho
    exact ⟨b, a, c, q, hsplit, hq⟩
  · rintro ⟨b, a, c, q, hsplit, hq⟩
    exact ⟨b, a, c, hsplit, (mem_strands_iff (hwired b a c hsplit)).mpr ⟨q, hq⟩⟩

end Runs

/-- **What lives, who is served, and what stays behind.** After any run, failures and releases by
code that goes included, the following holds of the store, and of the acts that come next if no
failure reaches the stack:

- whoever owns something is there, and nothing is owned more often than it is there;
- the entry of a subscription that ends stays behind exactly if it ends while an entry is being
  taken out of its list, and the entry of a projection that goes exactly if it goes while an entry
  is being taken out of the list of its source;
- while nothing is being delivered, exactly the projections that are held live: those of which there
  is a handle or a subscription that is not detached, and those below another one that is held;
- the selector of a projection that lives until the end of those acts is applied to what is owed to
  it and to every signal that its source begins to deliver, and the selector of one that does not
  live is not applied any more;
- a subscriber is told what is owed to it and every signal that its source begins to deliver, if its
  subscription has not ended, or its entry stayed behind, and the source lives; otherwise it is told
  nothing any more;
- the list of a source that lives has no entry twice, and those in it are of the subscriptions that
  have not ended, in the order in which they were made, and of the projections over the source that
  live, but for the entries that stayed behind. -/
theorem remains [DecidableEq V] (initial : S) (a b : List (Act S V H))
    (hrun : (opening initial : Estate S V H).Feasible (a ++ b))
    (hcalm : ∀ m ∈ ((opening initial : Estate S V H).after a).trace b, m.isFailure = false) :
    let start : Estate S V H := opening initial
    let e := start.after a
    let u := e.after b
    let s := e.store
    let t := u.store
    let held := start.holdings .none a
    let later := start.holdings .none (a ++ b)
    ((∀ x ∈ e.owned, e.keeps x.1 = true) ∧
      ∀ c, (e.owned.map (·.2)).count c ≤ held.count c) ∧
    ((∀ o, o ∈ e.stuck ↔ ∃ c x d, a = c ++ x :: d ∧ (start.after c).EndsBorrowed x o) ∧
      ∀ src o, (src, o) ∈ e.strays ↔ ∃ c x d q, a = c ++ x :: d ∧
        (start.after c).GoesBorrowed x q ∧ q.origin.source = src ∧ q.entry = o) ∧
    (s.deliveries = [] → ∀ p, s.Living (.view p) ↔ held.Live s.Subscribing p) ∧
    (∀ p origin, held.origins p = some origin →
      (¬ s.Living (.view p) → Store.evaluations p (e.events b) = []) ∧
      ∀ o, s.link? p = some (origin, o) → t.Living (.view p) →
        (Store.evaluations p (e.events b)).map (·.1) ++ t.owed origin.source o
          = s.owed origin.source o ++ s.begun origin.source (e.trace b)) ∧
    (∀ x ∈ held.subscriptions,
      (x.standing = .dropped ∧ x.id ∉ e.stuck ∨ ¬ s.Living x.source →
        Store.heard x.id (e.events b) = []) ∧
      ∀ y ∈ later.subscriptions, y.id = x.id → y.standing ≠ .dropped ∨ y.id ∈ u.stuck →
        t.Living y.source →
          Store.heard x.id (e.events b) ++ t.owed x.source x.id
            = s.owed x.source x.id ++ s.begun x.source (e.trace b)) ∧
    ∀ src, s.Living src →
      (e.entries src).Nodup ∧
      (∀ o ∈ e.entries src,
        ((∃ x ∈ held.subscriptions, x.id = o ∧ x.source = src ∧ x.standing ≠ .dropped) ∨
          ∃ p origin, s.link? p = some (origin, o) ∧ origin.source = src) ↔
        o ∉ e.stuck ∧ (src, o) ∉ e.strays) ∧
      (s.observersOf src).filter (·.target = .subscriber)
        = ((held.relist e.stuck).subscriptions.filter (·.source = src)).filterMap
          Subscription.listed? ∧
      ∀ p,
        (s.Living (.view p) ∧ (held.origins p).map (·.source) = some src →
          ∃! z, z ∈ s.observersOf src ∧ z.target = .projection p) ∧
        ((∃ z ∈ s.observersOf src, z.target = .projection p) →
          s.Living (.view p) ∧ (held.origins p).map (·.source) = some src) := by
  intro start e u s t held later
  obtain ⟨ha, hb⟩ := feasible_append.mp hrun
  have hstart : start.Sound := .opening initial
  have he : e.Sound := hstart.after ha
  have hrecord : e.Recorded held := (Recorded.opening initial).after hstart ha
  have hlater : later = e.holdings held b := holdings_append ..
  have hrecord' : u.Recorded later := hlater ▸ hrecord.after he hb
  have hs : s.Steady := he.steady
  have hcalm' : s.Calm (e.trace b) := calm_of_feasible (he.trace hb) hcalm
  obtain ⟨ht, hevents⟩ : t = s.after (e.trace b) ∧ e.events b = s.events (e.trace b) :=
    e.run_store b
  have hswept : s.Swept := by
    have hfirst : s = (Store.opening initial).after (start.trace a) := (start.run_store a).1
    rw [hfirst]
    exact (Store.Swept.opening initial).run hstart.steady.toSound _
  rw [hevents, ht]
  refine ⟨⟨fun x hx => he.kept hx, fun c => ?_⟩, ⟨fun o => ?_, fun src o => ?_⟩, fun hidle p => ?_,
    fun p origin horigin => ⟨fun hdead => ?_, fun o hlink hliving => ?_⟩,
    fun x hx => ⟨fun hout => ?_, fun y hy hid hlasts hliving => ?_⟩, fun src hsrc =>
    ⟨hrecord.nodup_entries he src, fun o ho => hrecord.mem_entries he hsrc ho,
      hrecord.accounted.entries hsrc, fun p => ⟨fun ⟨hliving, horigin⟩ => ?_, ?_⟩⟩⟩
  · have hconserved : e.Conserved held :=
      (Conserved.opening initial).after (.opening initial) hstart ha
    exact (Nat.le_add_right _ _).trans ((Nat.le_add_right _ _).trans (hconserved c))
  · exact mem_stuck_iff.trans (or_iff_right (by simp [start, Estate.opening]))
  · exact (hstart.mem_strays_iff ha).trans (or_iff_right (by simp [start, Estate.opening]))
  · rw [hrecord.accounted.living_iff hs.toSound hswept hidle, Holdings.live_relist]
  · refine hs.toSound.evaluations_gone hcalm' ?_ hdead
    by_contra hle
    have hnone : held.origins p = none := hrecord.accounted.unborn (Nat.not_lt.mp hle)
    rw [hnone] at horigin
    cases horigin
  · exact hs.applied hrecord.homed hcalm' hlink hliving
  · have hgone := hrecord.registered.gone hrecord.accounted (List.mem_map_of_mem hx)
      (hout.imp Subscription.relist_dropped.mpr fun hdead => by rwa [x.relist_source])
    rw [x.relist_id] at hgone
    exact hgone.heard hs.toSound hcalm'
  · obtain ⟨w, hw, hwid, hwsrc⟩ := holdings_keep e held b hx
    rw [← hlater] at hw
    have hsource : y.source = x.source := by
      rw [← hrecord'.eq_of_id hw hy (hwid.trans hid.symm), hwsrc]
    have hstays : (y.relist u.stuck).standing ≠ .dropped := fun hdropped => by
      obtain ⟨hends, hgone⟩ := Subscription.relist_dropped.mp hdropped
      exact hlasts.elim (fun h => h hends) hgone
    have haccounted : (s.after (e.trace b)).Accounted (later.relist u.stuck) := by
      rw [← ht]
      exact hrecord'.accounted
    have hserved := hrecord.registered.served hrecord.accounted hs hcalm' haccounted
      (List.mem_map_of_mem hx) (List.mem_map_of_mem hy)
      (by rw [y.relist_id, x.relist_id, hid]) (by rw [y.relist_source, x.relist_source, hsource])
      hstays (by rwa [y.relist_source])
    rwa [x.relist_id, x.relist_source] at hserved
  · exact hrecord.accounted.existsUnique_entry hs.wired hliving horigin
  · exact fun ⟨z, hz, htarget⟩ => hrecord.accounted.living_of_entry hs.wired hz htarget

/-- A projection with one over it that has a subscriber (2), and two subscribers of the store, of
which the first (3) owns the handle of the upper projection and the subscription of the second (4).
The other handle is given up, and the first subscription ends. -/
def inheritance : List (Act Bool Bool Unit) :=
  [.make (.observe (.project id)), .make (.observe (.chain 0 not)), .make (.observe (.watch 1)),
    .make .ret, .make (.observe .subscribe), .make (.observe .subscribe), .entrust 3 (.handle 1),
    .entrust 3 (.subscription 4), .make (.observe (.drop 0)), .make (.observe (.unsubscribe 3)),
    .make .tick, .make .tick, .make .tick, .make .tick]

/-- An update with its whole delivery. -/
def wholeDelivery : List (Act Bool Bool Unit) :=
  [.make (.change (.update not)), .make .tick, .make .tick, .make .tick, .make .tick, .make .tick,
    .make .tick, .make .ret, .make .tick, .make .tick, .make .tick, .make .tick, .make .tick,
    .make .ret, .make .tick, .make .tick]

/-- The subscription to the upper projection keeps both projections. The entry of the second
subscriber stays behind, since its subscription ends while an entry is being taken out of its list,
and it goes on. -/
theorem remains_inherited :
    let start : Estate Bool Bool Unit := opening false
    let e := start.after inheritance
    start.Feasible (inheritance ++ wholeDelivery) ∧
      (∀ m ∈ e.trace wholeDelivery, m.isFailure = false) ∧
      e.store.Living (.view 0) ∧
      (∃ c x d, inheritance = c ++ x :: d ∧ (start.after c).EndsBorrowed x 4) ∧
      Store.heard 4 (e.events wholeDelivery) = e.store.begun .store (e.trace wholeDelivery) := by
  intro start e
  have hrun : start.Feasible (inheritance ++ wholeDelivery) := by decide +kernel
  have hcalm : ∀ m ∈ e.trace wholeDelivery, m.isFailure = false := by decide +kernel
  obtain ⟨-, ⟨hstuck, -⟩, hlive, -, hserved, -⟩ :=
    remains false inheritance wholeDelivery hrun hcalm
  have hliving : e.store.Living (.view 0) := by
    have hidle : e.store.deliveries.isEmpty = true := by decide +kernel
    have hsource : ((start.holdings .none inheritance).origins 1).map (·.source)
        = some (.view 0) := by decide +kernel
    obtain ⟨origin, horigin, hview⟩ := Option.map_eq_some_iff.mp hsource
    cases origin with
    | store => cases hview
    | view p select =>
      cases hview
      have hupper : (start.holdings .none inheritance).Live e.store.Subscribing 1 :=
        .subscription (x := ⟨2, .view 1, .held⟩) (by decide +kernel) rfl rfl
      have hlower : (start.holdings .none inheritance).Live e.store.Subscribing 0 :=
        .chained horigin hupper
      exact (hlive (List.isEmpty_iff.mp hidle) 0).mpr hlower
  refine ⟨hrun, hcalm, hliving, (hstuck 4).mp (by decide +kernel), ?_⟩
  have howed : (e.store.owed .store 4).isEmpty = true := by decide +kernel
  have howed' : ((e.after wholeDelivery).store.owed .store 4).isEmpty = true := by decide +kernel
  have htold : Store.heard 4 (e.events wholeDelivery) ++ (e.after wholeDelivery).store.owed .store 4
      = e.store.owed .store 4 ++ e.store.begun .store (e.trace wholeDelivery) :=
    (hserved ⟨4, .store, .dropped⟩ (by decide +kernel)).2
      ⟨4, .store, .dropped⟩ (by decide +kernel) rfl (Or.inr (by decide +kernel)) trivial
  rwa [List.isEmpty_iff.mp howed, List.isEmpty_iff.mp howed', List.append_nil,
    List.nil_append] at htold

/-- A subscriber of the store owns the only handle of a projection, and its subscription ends. -/
def disposal : List (Act Nat Nat Unit) :=
  [.make (.observe (.project id)), .make (.observe .subscribe), .entrust 1 (.handle 0),
    .make (.observe (.unsubscribe 1)), .make .tick, .make .tick]

/-- Nothing is under way, every subscription has ended and no projection lives, but the entry of the
projection is left over in the list of the store. -/
theorem remains_stranded :
    let start : Estate Nat Nat Unit := opening 0
    let e := start.after disposal
    start.Feasible disposal ∧ e.isSettled = true ∧ e.store.deliveries.isEmpty = true ∧
      (∀ x ∈ (start.holdings .none disposal).subscriptions, x.standing = .dropped) ∧
      (∀ p, ¬ e.store.Living (.view p)) ∧ e.entries .store = [0] := by
  intro start e
  have hnone : e.store.projections = [] := List.isEmpty_iff.mp (by decide +kernel)
  refine ⟨by decide +kernel, by decide +kernel, by decide +kernel, by decide +kernel, fun p => ?_,
    by decide +kernel⟩
  rw [Store.Living, Store.link?, Store.get?, hnone]
  simp

end Estate

end LiveDesk.Observable
