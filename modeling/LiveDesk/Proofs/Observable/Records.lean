import LiveDesk.Proofs.Observable.Estates
import LiveDesk.Proofs.Observable.Service

/-!
# The record of what is held

The caller and the code of entries hold handles and subscriptions. What is held after a run is read
off the moves that were asked for. The lists of the store show it, but for the entries that stayed
behind: that of a subscription goes on as if the subscription had been detached, and that of a
projection leads nowhere.

- `Holdings.relist`: what is held, as the lists show it.
- `Estate.holdings`: what is held after a run, by the caller and by code.
- `Estate.Recorded`: the lists are those of what is held, and what stayed behind is of what is gone.
- **`Recorded.step`**: every possible act keeps it.
-/

namespace LiveDesk.Observable

variable {S V H : Type}

/-! ## Subscriptions whose entries stayed behind -/

namespace Subscription

/-- A subscription as its list shows it: one that ended and whose entry stayed behind goes on as if
it had been detached. -/
def relist (ids : List ObserverId) (x : Subscription) : Subscription :=
  if x.standing = .dropped ∧ x.id ∈ ids then { x with standing := .detached } else x

@[simp] theorem relist_id (ids : List ObserverId) (x : Subscription) :
    (relist ids x).id = x.id := by
  unfold relist
  split <;> rfl

@[simp] theorem relist_source (ids : List ObserverId) (x : Subscription) :
    (relist ids x).source = x.source := by
  unfold relist
  split <;> rfl

/-- Where no entry is left, the holdings are as noted. -/
@[simp] theorem relist_nil (x : Subscription) : relist [] x = x := by
  simp [relist]

/-- A subscription is held whether or not its entry was left. -/
theorem relist_held {ids : List ObserverId} {x : Subscription} :
    (relist ids x).standing = .held ↔ x.standing = .held := by
  unfold relist
  split
  · next h => simp [h.1]
  · rfl

/-- A subscription is over if it is dropped and its entry was not left. -/
theorem relist_dropped {ids : List ObserverId} {x : Subscription} :
    (relist ids x).standing = .dropped ↔ x.standing = .dropped ∧ x.id ∉ ids := by
  unfold relist
  split
  · next h => simp [h.2]
  · next h => exact ⟨fun hx => ⟨hx, fun hid => h ⟨hx, hid⟩⟩, fun hx => hx.1⟩

/-- Another subscription is settled. -/
theorem relist_settle {ids : List ObserverId} {x : Subscription} (o : ObserverId)
    (standing : Standing) (hx : x.standing = .held → x.id ∉ ids) :
    relist ids (settle o standing x) = settle o standing (relist ids x) := by
  obtain ⟨id, source, was⟩ := x
  cases was <;> by_cases hid : id ∈ ids <;> by_cases ho : id = o <;>
    simp_all [relist, settle]

/-- The entry of a subscription that ends stays behind. -/
theorem relist_stuck {ids : List ObserverId} {x : Subscription} {o : ObserverId}
    (hx : x.id = o → x.standing = .held) :
    relist (ids ++ [o]) (settle o .dropped x) = settle o .detached (relist ids x) := by
  obtain ⟨id, source, was⟩ := x
  cases was <;> by_cases hid : id ∈ ids <;> by_cases ho : id = o <;>
    simp_all [relist, settle]

end Subscription

namespace Holdings

/-- What is held, as the lists show it. -/
def relist (l : Holdings S V) (ids : List ObserverId) : Holdings S V :=
  { l with subscriptions := l.subscriptions.map (·.relist ids) }

/-- Where no entry is left, the holdings are as noted. -/
theorem relist_nil (l : Holdings S V) : l.relist [] = l := by
  simp [relist]

/-- A move that leaves nothing behind is noted in the lists. -/
theorem relist_note (l : Holdings S V) {ids : List ObserverId} (s : Store S V H) (m : Move S V H)
    (hids : ∀ x ∈ l.subscriptions, x.standing = .held → x.id ∉ ids) :
    (l.note s m).relist ids = (l.relist ids).note s m := by
  have hsettle : ∀ o standing, (l.settle o standing).relist ids
      = (l.relist ids).settle o standing := by
    intro o standing
    simp only [settle, relist, List.map_map]
    congr 1
    exact List.map_congr_left fun x hx => Subscription.relist_settle o standing (hids x hx)
  have hregister : ∀ o src, (l.register o src).relist ids = (l.relist ids).register o src := by
    intro o src
    simp [register, relist, Subscription.relist]
  cases m with
  | tick | change | panic | enter | leave => rfl
  | observe a =>
    cases a with
    | project | watch | drop => rfl
    | chain | share => exact apply_ite (relist · ids) _ _ _
    | subscribe => exact hregister _ _
    | unsubscribe o => exact hsettle o .dropped
    | detach o => exact hsettle o .detached
  | ret =>
    simp only [note]
    split
    · exact hregister _ _
    · rfl

/-- The entry of a subscription that ends stays behind. -/
theorem relist_stuck (l : Holdings S V) (ids : List ObserverId) {o : ObserverId}
    (ho : ∀ x ∈ l.subscriptions, x.id = o → x.standing = .held) :
    (l.settle o .dropped).relist (ids ++ [o]) = (l.relist ids).settle o .detached := by
  simp only [settle, relist, List.map_map]
  congr 1
  exact List.map_congr_left fun x hx => Subscription.relist_stuck (ho x hx)

/-- What stays behind holds nothing. -/
theorem live_relist {l : Holdings S V} {ids : List ObserverId} {borrowed : ProjectionId → Prop}
    {p : ProjectionId} : (l.relist ids).Live borrowed p ↔ l.Live borrowed p := by
  constructor
  · intro h
    induction h with
    | handle hpos => exact .handle hpos
    | borrowed hb => exact .borrowed hb
    | subscription hx hsrc hheld =>
      obtain ⟨y, hy, rfl⟩ := List.mem_map.mp hx
      exact .subscription hy (y.relist_source ids ▸ hsrc) (Subscription.relist_held.mp hheld)
    | chained horigin _ ih => exact .chained horigin ih
  · intro h
    induction h with
    | handle hpos => exact .handle hpos
    | borrowed hb => exact .borrowed hb
    | @subscription p x hx hsrc hheld =>
      exact .subscription (List.mem_map_of_mem hx) ((x.relist_source ids).trans hsrc)
        (Subscription.relist_held.mpr hheld)
    | chained horigin _ ih => exact .chained horigin ih

/-- Where a projection came from stays known. -/
theorem note_origins (l : Holdings S V) (s : Store S V H) (m : Move S V H) {p : ProjectionId}
    (hp : p < s.nextProjection) : (l.note s m).origins p = l.origins p := by
  -- only a projection that is created gets an origin, and it is another one
  have hcreate : ∀ origin, (l.create s.nextProjection origin).origins p = l.origins p :=
    fun origin => Function.update_of_ne hp.ne _ _
  cases m with
  | tick | change | panic | enter | leave => rfl
  | observe a =>
    cases a with
    | project => exact hcreate _
    | watch | drop | subscribe | unsubscribe | detach => rfl
    | chain =>
      simp only [note]
      split
      · exact hcreate _
      · rfl
    | share =>
      simp only [note]
      split <;> rfl
  | ret =>
    simp only [note]
    split <;> rfl

/-- A subscription keeps its name and its source, and one that ended has ended. -/
theorem note_keep (l : Holdings S V) (s : Store S V H) (m : Move S V H) {x : Subscription}
    (hx : x ∈ l.subscriptions) :
    ∃ y ∈ (l.note s m).subscriptions, y.id = x.id ∧ y.source = x.source ∧
      (x.standing = .dropped → y.standing = .dropped) := by
  rcases Store.noted l s m with ⟨standing, o, hsubs⟩ | hsubs | hsubs | ⟨o, p, below, -, hsubs⟩ <;>
    rw [hsubs]
  · exact ⟨_, List.mem_map_of_mem hx, Subscription.settle_id .., Subscription.settle_source ..,
      fun hdropped => by simp [Subscription.settle, hdropped]⟩
  · exact ⟨x, hx, rfl, rfl, id⟩
  · exact ⟨x, List.mem_append_left _ hx, rfl, rfl, id⟩
  · exact ⟨x, List.mem_append_left _ hx, rfl, rfl, id⟩

end Holdings

namespace Store

variable {s : Store S V H}

/-- A channel holds a subscriber by an entry that is held. -/
theorem holds_iff {α : Type} {c : Channel α} {o : ObserverId} :
    c.holds o = true ↔ ∃ e ∈ c.observers, e.id = o ∧ e.target = .subscriber ∧ e.held = true := by
  simp [Channel.holds, List.any_eq_true, and_assoc]

/-- A projection that lives is there. -/
theorem has_of_mem_living (hs : s.Wired) {q : Projection S V} (hq : q ∈ s.living) :
    s.has (.view q.id) = true := by
  rw [has, (mem_living hs).mp hq]
  rfl

/-- The list in which a subscription is held. -/
theorem exists_of_home? (hs : s.Wired) {o : ObserverId} {src : Source}
    (h : s.home? o = some src) :
    ∃ e ∈ s.observersOf src, e.id = o ∧ e.target = .subscriber ∧ e.held = true := by
  unfold home? at h
  split at h
  · next hheld =>
    cases h
    exact holds_iff.mp hheld
  · obtain ⟨q, hq, rfl⟩ := Option.map_eq_some_iff.mp h
    rw [observersOf, (mem_living hs).mp (List.mem_of_find?_eq_some hq)]
    have hheld : q.channel.holds o = true := by simpa using List.find?_some hq
    exact holds_iff.mp hheld

/-- A projection is listed once among those that live. -/
theorem living_nodup (s : Store S V H) : s.living.Nodup := by
  refine List.Nodup.filterMap (fun p p' q hq hq' => ?_) (List.nodup_reverse.mpr List.nodup_range)
  exact (get?_id hq).symm.trans (get?_id hq')

/-- Projections have different entries. -/
theorem Wired.entry_inj (hs : s.Wired) (hnames : s.Homed) {q q' : Projection S V}
    (hq : q ∈ s.living) (hq' : q' ∈ s.living) (heq : q.entry = q'.entry) : q = q' := by
  have hget := (mem_living hs).mp hq
  have hget' := (mem_living hs).mp hq'
  have hin := hs.entered (link?_of_get? hget)
  have hin' := hs.entered (link?_of_get? hget')
  obtain ⟨src, hb⟩ := hnames q.entry (hs.fresh hin)
  have hsrc : q.origin.source = src := hb.listed hin rfl
  have hsrc' : q'.origin.source = src := hb.listed hin' heq.symm
  rw [hsrc] at hin
  rw [hsrc'] at hin'
  have hid : q.id = q'.id := by simpa using congrArg (·.target) (hs.eq_of_id hin hin' heq)
  rw [← hid, hget] at hget'
  exact Option.some_inj.mp hget'

/-- The entry of a projection goes with it. -/
theorem Upshot.gone_entry [DecidableEq V] {t : Store S V H} {m : Move S V H}
    {es : List (Event S V)} (hu : Upshot s m t es) (hs : s.Sound) (hnames : s.Homed)
    (ht : t.Wired) {q : Projection S V} (hq : s.get? q.id = some q)
    (hdead : ¬ t.Living (.view q.id)) : t.Gone q.entry := by
  have htracks := hs.tracks hnames (hs.wired.entered (link?_of_get? hq))
  refine (htracks.lists_or_gone hs hu).resolve_left fun ⟨a, ha, _, htarget⟩ => hdead ?_
  obtain ⟨origin, hlink, -⟩ := ht.targeted ha htarget
  rw [Living, hlink]
  rfl

end Store

namespace Estate

/-! ## What an act leaves behind -/

variable {e : Estate S V H}

/-- Undertaking a move leaves what would be stuck. -/
theorem undertake_sticks (e : Estate S V H) (m : Move S V H) :
    (e.undertake m).sticks = e.sticks := by
  unfold undertake
  split <;> rfl

/-- Undertaking a move leaves what would be stranded. -/
theorem undertake_strands (e : Estate S V H) (m : Move S V H) :
    (e.undertake m).strands = e.strands := by
  unfold undertake
  split <;> rfl

/-- Where nothing goes, nothing stays behind. -/
theorem strands_self (hs : e.store.Wired) : e.strands e.store = [] := by
  rw [strands, List.filter_eq_nil_iff.mpr fun q hq => by simp [Store.has_of_mem_living hs hq]]
  rfl

/-- An entry is stuck if the list that it is in is borrowed. -/
theorem isStuck_iff {o : ObserverId} :
    e.isStuck o = true ↔ ∃ src, e.store.home? o = some src ∧ e.isBorrowed src = true := by
  rw [isStuck, Option.any_eq_true]

/-- A move leaves the entry of a subscription behind, or it is noted as it is asked for. -/
theorem effective_cases (e : Estate S V H) (m : Move S V H) :
    (∃ o, m = .observe (.unsubscribe o) ∧ e.isStuck o = true ∧ e.sticks m = [o] ∧
      e.effective m = .observe (.detach o)) ∨
    e.sticks m = [] ∧ ∀ (l : Holdings S V) (s : Store S V H),
      l.note s (e.effective m) = l.note s m := by
  cases m with
  | tick =>
    refine Or.inr ⟨rfl, fun l s => ?_⟩
    show l.note s (if e.failing then .panic else .tick) = l.note s .tick
    split <;> rfl
  | observe a =>
    cases a with
    | unsubscribe o =>
      cases hstuck : e.isStuck o with
      | true => exact Or.inl ⟨o, rfl, hstuck, by simp [sticks, hstuck], by simp [effective, hstuck]⟩
      | false => exact Or.inr ⟨by simp [sticks, hstuck], fun l s => by simp [effective, hstuck]⟩
    | project | chain | share | drop | subscribe | watch | detach =>
      exact Or.inr ⟨rfl, fun _ _ => rfl⟩
  | change | ret | panic | enter | leave => exact Or.inr ⟨rfl, fun _ _ => rfl⟩

section Acts

variable [DecidableEq V]

/-- What is held after an act, by the caller and by code. -/
def note (l : Holdings S V) (e : Estate S V H) (a : Act S V H) : Holdings S V :=
  (e.asks a).elim l (l.note e.store)

/-- What is held after a run. -/
def holdings (e : Estate S V H) (l : Holdings S V) : List (Act S V H) → Holdings S V
  | [] => l
  | a :: as => (e.step a).1.holdings (note l e a) as

/-- What is noted in two runs after each other. -/
theorem holdings_append (e : Estate S V H) (l : Holdings S V) (as as' : List (Act S V H)) :
    e.holdings l (as ++ as') = (e.after as).holdings (e.holdings l as) as' := by
  induction as generalizing e l with
  | nil => rfl
  | cons a as ih => exact ih (e.step a).1 (note l e a)

/-- A subscription stays on the list, with its source. -/
theorem holdings_keep (e : Estate S V H) (l : Holdings S V) (as : List (Act S V H))
    {x : Subscription} (hx : x ∈ l.subscriptions) :
    ∃ y ∈ (e.holdings l as).subscriptions, y.id = x.id ∧ y.source = x.source := by
  induction as generalizing e l x with
  | nil => exact ⟨x, hx, rfl, rfl⟩
  | cons a as ih =>
    obtain ⟨y, hy, hid, hsrc⟩ :
        ∃ y ∈ (note l e a).subscriptions, y.id = x.id ∧ y.source = x.source := by
      unfold note
      cases e.asks a with
      | none => exact ⟨x, hx, rfl, rfl⟩
      | some m =>
        obtain ⟨y, hy, hid, hsrc, -⟩ := l.note_keep e.store m hx
        exact ⟨y, hy, hid, hsrc⟩
    obtain ⟨z, hz, hzid, hzsrc⟩ := ih (e.step a).1 (note l e a) hy
    exact ⟨z, hz, hzid.trans hid, hzsrc.trans hsrc⟩

/-- What becomes stuck when a request is attended to. -/
theorem attend_stuck (e : Estate S V H) :
    e.attend.1.stuck = e.stuck ++ e.asked.elim [] e.sticks := by
  have hcases := e.attended
  generalize e.asked = x, e.attend.1 = u, e.attend.2 = es at hcases ⊢
  cases hcases with
  | idle | given => exact (List.append_nil _).symm
  | released => rfl
  | made =>
    unfold conclude
    split <;> rfl

/-- What is stranded when a request is attended to. -/
theorem attend_strays (hs : e.store.Wired) :
    e.attend.1.strays = e.strays ++ e.strands e.attend.1.store := by
  have hcases := e.attended
  generalize e.asked = x, e.attend.1 = u, e.attend.2 = es at hcases ⊢
  cases hcases with
  | idle | given => exact (List.append_nil _).symm.trans (congrArg _ (strands_self hs).symm)
  | released => rfl
  | made =>
    rw [conclude_store]
    unfold conclude
    split <;> rfl

/-- The subscriptions whose entries an act leaves behind. -/
theorem step_stuck (e : Estate S V H) (a : Act S V H) :
    (e.step a).1.stuck = e.stuck ++ (e.asks a).elim [] e.sticks := by
  unfold step asks
  split
  · cases a with
    | make m =>
      dsimp only
      rw [if_pos ‹_›, attend_stuck, undertake_sticks]
      unfold undertake
      split <;> rfl
    | entrust | reclaim => exact (List.append_nil _).symm
  · cases a with
    | make m =>
      dsimp only
      rw [if_neg ‹_›]
      exact (List.append_nil _).symm
    | entrust | reclaim => exact (List.append_nil _).symm

/-- The entries of projections that an act leaves behind. -/
theorem step_strays (hs : e.store.Wired) (a : Act S V H) :
    (e.step a).1.strays = e.strays ++ e.strands (e.step a).1.store := by
  have hnone : e.strays = e.strays ++ e.strands e.store := by
    rw [strands_self hs, List.append_nil]
  unfold step
  split
  · cases a with
    | make m =>
      dsimp only
      rw [attend_strays (by rwa [undertake_store]), undertake_strands]
      unfold undertake
      split <;> rfl
    | entrust | reclaim => exact hnone
  · exact hnone

end Acts

/-! ## The record of what is held -/

/-- The lists are those of what is held, but for what stayed behind, and what stayed behind is of
what is gone. -/
structure Recorded (e : Estate S V H) (l : Holdings S V) : Prop where
  accounted : e.store.Accounted (l.relist e.stuck)
  registered : e.store.Registered (l.relist e.stuck)
  homed : e.store.Homed
  stuck : ∀ {o}, o ∈ e.stuck → ∃ x ∈ l.subscriptions, x.id = o ∧ x.standing = .dropped
  strays : ∀ {src o}, (src, o) ∈ e.strays → e.store.Gone o ∧
    ∃ p < e.store.nextProjection, (l.origins p).map (·.source) = some src ∧
      ¬ e.store.Living (.view p)
  distinct : (e.strays.map (·.2)).Nodup

namespace Recorded

variable {l : Holdings S V}

theorem opening (initial : S) : (opening initial : Estate S V H).Recorded .none where
  accounted := by
    rw [show (Estate.opening initial : Estate S V H).stuck = [] from rfl, Holdings.relist_nil]
    exact .opening initial
  registered := .opening initial
  homed := .opening initial
  stuck ho := by cases ho
  strays ho := by cases ho
  distinct := .nil

/-- A subscription is noted once. -/
theorem nodup_ids (h : e.Recorded l) : (l.subscriptions.map (·.id)).Nodup := by
  have hdistinct := h.registered.distinct
  rw [Holdings.relist, List.pairwise_map] at hdistinct
  simp only [Subscription.relist_id] at hdistinct
  exact List.pairwise_map.mpr hdistinct

/-- Subscriptions with one name are the same. -/
theorem eq_of_id (h : e.Recorded l) {x y : Subscription} (hx : x ∈ l.subscriptions)
    (hy : y ∈ l.subscriptions) (hid : x.id = y.id) : x = y :=
  List.inj_on_of_nodup_map h.nodup_ids hx hy hid

/-- The entry of a subscription that is held did not stay behind. -/
theorem not_mem_stuck (h : e.Recorded l) {x : Subscription} (hx : x ∈ l.subscriptions)
    (hheld : x.standing = .held) : x.id ∉ e.stuck := by
  intro hstuck
  obtain ⟨y, hy, hid, hdropped⟩ := h.stuck hstuck
  rw [h.eq_of_id hy hx hid, hheld] at hdropped
  cases hdropped

/-- The subscription of an entry that is held is held. -/
theorem held_of_home? (h : e.Recorded l) (hs : e.Sound) {o : ObserverId} {src : Source}
    (hhome : e.store.home? o = some src) :
    ∃ x ∈ l.subscriptions, x.id = o ∧ x.standing = .held := by
  obtain ⟨z, hz, rfl, htarget, hheld⟩ := Store.exists_of_home? hs.steady.wired hhome
  obtain ⟨y, hy, -, hlisted⟩ := h.accounted.subscription_of_mem hz htarget
  obtain ⟨x, hx, rfl⟩ := List.mem_map.mp hy
  have hid := (Subscription.listed?_eq_some hlisted).1
  exact ⟨x, hx, (hid.trans (x.relist_id _)).symm,
    Subscription.relist_held.mp (Subscription.held_of_listed? hlisted hheld)⟩

/-- An entry can only stay behind if its subscription is held. -/
theorem held_of_isStuck (h : e.Recorded l) (hs : e.Sound) {o : ObserverId}
    (ho : e.isStuck o = true) : ∃ x ∈ l.subscriptions, x.id = o ∧ x.standing = .held := by
  obtain ⟨src, hhome, -⟩ := isStuck_iff.mp ho
  exact h.held_of_home? hs hhome

/-- The lists show what a move comes to. -/
theorem relist_note (h : e.Recorded l) (hs : e.Sound) (m : Move S V H) :
    (l.note e.store m).relist (e.stuck ++ e.sticks m)
      = (l.relist e.stuck).note e.store (e.effective m) := by
  rcases e.effective_cases m with ⟨o, rfl, ho, hsticks, heff⟩ | ⟨hsticks, hnote⟩
  · rw [hsticks, heff]
    refine l.relist_stuck e.stuck fun x hx hid => ?_
    obtain ⟨y, hy, hyid, hheld⟩ := h.held_of_isStuck hs ho
    rwa [h.eq_of_id hx hy (hid.trans hyid.symm)]
  · rw [hsticks, hnote, List.append_nil]
    exact l.relist_note e.store m fun x hx hheld => h.not_mem_stuck hx hheld

/-- The record depends on the store and on what is left in it. -/
theorem congr {u : Estate S V H} (h : e.Recorded l) (hstore : u.store = e.store)
    (hstuck : u.stuck = e.stuck) (hstrays : u.strays = e.strays) : u.Recorded l where
  accounted := by rw [hstore, hstuck]; exact h.accounted
  registered := by rw [hstore, hstuck]; exact h.registered
  homed := by rw [hstore]; exact h.homed
  stuck ho := h.stuck (hstuck ▸ ho)
  strays ho := by rw [hstore]; exact h.strays (hstrays ▸ ho)
  distinct := by rw [hstrays]; exact h.distinct

/-- Undertaking a move leaves the record true. -/
theorem undertake (h : e.Recorded l) (m : Move S V H) : (e.undertake m).Recorded l := by
  unfold Estate.undertake
  split
  · exact h.congr rfl rfl rfl
  · exact h

/-- What had ended before a move has ended after it, and so has what the move leaves behind. -/
theorem dropped_note (h : e.Recorded l) (hs : e.Sound) (m : Move S V H) {o : ObserverId}
    (ho : o ∈ e.stuck ++ e.sticks m) :
    ∃ x ∈ (l.note e.store m).subscriptions, x.id = o ∧ x.standing = .dropped := by
  rcases List.mem_append.mp ho with ho | ho
  · obtain ⟨x, hx, hid, hdropped⟩ := h.stuck ho
    obtain ⟨y, hy, hyid, -, hends⟩ := l.note_keep e.store m hx
    exact ⟨y, hy, hyid.trans hid, hends hdropped⟩
  · rcases e.effective_cases m with ⟨o', rfl, hstuck, hsticks, -⟩ | ⟨hsticks, -⟩
    · rw [hsticks] at ho
      obtain rfl := List.mem_singleton.mp ho
      obtain ⟨x, hx, hid, hheld⟩ := h.held_of_isStuck hs hstuck
      exact ⟨_, List.mem_map_of_mem hx, (Subscription.settle_id ..).trans hid,
        by simp [Subscription.settle, hid, hheld]⟩
    · rw [hsticks] at ho
      cases ho

/-- Everything that stays behind is an entry of its own. -/
theorem distinct_strands (h : e.Recorded l) (hs : e.Sound) (t : Store S V H) :
    ((e.strays ++ e.strands t).map (·.2)).Nodup := by
  have hwired := hs.steady.wired
  have hentries : (e.strands t).map (·.2) = (e.store.living.filter fun q =>
      e.isBorrowed q.origin.source && !t.has (.view q.id)).map (·.entry) := by
    rw [strands, List.map_map]
    rfl
  rw [List.map_append, hentries]
  refine List.nodup_append.mpr ⟨h.distinct, ?_, fun o ho o' ho' => ?_⟩
  · refine (e.store.living_nodup.filter _).map_on fun q hq q' hq' heq => ?_
    exact hwired.entry_inj h.homed (List.mem_filter.mp hq).1 (List.mem_filter.mp hq').1 heq
  · -- an entry that stayed behind before is not in the lists of the store
    rintro rfl
    obtain ⟨⟨src, o⟩, hstray, rfl⟩ := List.mem_map.mp ho
    obtain ⟨q, hq, hid⟩ := List.mem_map.mp ho'
    have hget := (Store.mem_living hwired).mp (List.mem_filter.mp hq).1
    exact (h.strays hstray).1.unlisted (hwired.entered (Store.link?_of_get? hget)) hid

variable [DecidableEq V]

/-- What is left behind in a move is the entry of a projection that goes. -/
theorem strays_strands (h : e.Recorded l) (hs : e.Sound) {t : Store S V H} {m : Move S V H}
    {es : List (Event S V)} (hu : e.store.Upshot m t es) (ht : t.Wired) {src : Source}
    {o : ObserverId} (ho : (src, o) ∈ e.strands t) :
    t.Gone o ∧ ∃ p < e.store.nextProjection, (l.origins p).map (·.source) = some src ∧
      ¬ t.Living (.view p) := by
  obtain ⟨q, hq, heq⟩ := List.mem_map.mp ho
  cases heq
  obtain ⟨hq, hgone⟩ := List.mem_filter.mp hq
  have hget := (Store.mem_living hs.steady.wired).mp hq
  have hlink := Store.link?_of_get? hget
  have hdead : ¬ t.Living (.view q.id) := by
    rw [← Store.has_iff]
    simpa using ((Bool.and_eq_true _ _).mp hgone).2
  refine ⟨hu.gone_entry hs.steady.toSound h.homed ht hget hdead, q.id,
    hs.steady.wired.named hlink, ?_, hdead⟩
  have horigin : l.origins q.id = some q.origin := h.accounted.origins hlink
  rw [horigin]
  rfl

/-- What stayed behind before a move is still of what is gone, and so is what the move leaves
behind. -/
theorem strays_move (h : e.Recorded l) (hs : e.Sound) {t : Store S V H} {m m' : Move S V H}
    {es : List (Event S V)} (hu : e.store.Upshot m' t es) (ht : t.Wired) {src : Source}
    {o : ObserverId} (ho : (src, o) ∈ e.strays ++ e.strands t) :
    t.Gone o ∧ ∃ p < t.nextProjection,
      ((l.note e.store m).origins p).map (·.source) = some src ∧ ¬ t.Living (.view p) := by
  obtain ⟨hgone, p, hp, horigin, hdead⟩ : t.Gone o ∧ ∃ p < e.store.nextProjection,
      (l.origins p).map (·.source) = some src ∧ ¬ t.Living (.view p) := by
    rcases List.mem_append.mp ho with ho | ho
    · obtain ⟨hgone, p, hp, horigin, hdead⟩ := h.strays ho
      refine ⟨hgone.keep (hu.entries hs.steady.toSound), p, hp, horigin, fun hliving => hdead ?_⟩
      obtain ⟨k, hk⟩ := Option.isSome_iff_exists.mp hliving
      rw [Store.Living, hu.link? hk hp]
      rfl
    · exact h.strays_strands hs hu ht ho
  exact ⟨hgone, p, hp.trans_le hu.nextProjection_le, by rwa [l.note_origins e.store m hp], hdead⟩

/-- **The moves under way keep the record.** -/
theorem attend (h : e.Recorded l) (hs : e.Sound) :
    e.attend.1.Recorded (e.asked.elim l (l.note e.store)) := by
  have hstore := e.attend_store.1
  have hstuck := e.attend_stuck
  have hstrays := attend_strays hs.steady.wired
  -- an act that asks for nothing leaves the store, and so nothing stays behind
  cases hasked : e.asked with
  | none =>
    rw [hasked] at hstore hstuck
    have hstore : e.attend.1.store = e.store := hstore
    rw [hstore, strands_self hs.steady.wired, List.append_nil] at hstrays
    exact h.congr hstore (hstuck.trans (List.append_nil _)) hstrays
  | some m =>
    rw [hasked] at hstore hstuck
    have hstore : e.attend.1.store = (e.store.step (e.effective m)).1 := hstore
    have hstuck : e.attend.1.stuck = e.stuck ++ e.sticks m := hstuck
    have hadmits := hs.admits_effective (Option.filter_eq_some_iff.mp hasked).1
    have hsteady := hs.steady.advance hadmits
    have hnames := h.homed.step hs.steady hadmits
    have haccounted := h.accounted.step hs.steady.toSound hadmits
    have hregistered := h.registered.step hs.steady hadmits hnames haccounted
    have hu := hs.steady.upshot hadmits
    rw [← h.relist_note hs m] at haccounted hregistered
    rw [← hstore] at hsteady hnames haccounted hregistered hu
    rw [← hstuck] at haccounted hregistered
    refine ⟨haccounted, hregistered, hnames, fun ho => h.dropped_note hs m (hstuck ▸ ho),
      fun ho => h.strays_move hs hu hsteady.wired (hstrays ▸ ho), ?_⟩
    rw [hstrays]
    exact h.distinct_strands hs _

/-- **Every act that is possible keeps the record.** -/
theorem step (h : e.Recorded l) (hs : e.Sound) {a : Act S V H} (ha : e.admits a = true) :
    (e.step a).1.Recorded (note l e a) := by
  have hpermits := ((Bool.and_eq_true _ _).mp ha).1
  unfold note asks Estate.step
  rw [if_pos hpermits]
  cases a with
  | make m =>
    dsimp only
    rw [if_pos hpermits, ← undertake_store e m]
    exact (h.undertake m).attend (hs.undertake ha)
  | entrust | reclaim => exact h.congr rfl rfl rfl

/-- **After every run the record is true.** -/
theorem after (h : e.Recorded l) (hs : e.Sound) {as : List (Act S V H)} (hrun : e.Feasible as) :
    (e.after as).Recorded (e.holdings l as) := by
  induction as generalizing e l with
  | nil => exact h
  | cons a as ih => exact ih (h.step hs hrun.1) (hs.step hrun.1) hrun.2

end Recorded

end Estate

end LiveDesk.Observable
