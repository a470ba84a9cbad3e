import LiveDesk.Proofs.Observable.Lifetimes
import LiveDesk.Proofs.Observable.Fates

/-!
# What the caller holds

The caller of a store holds handles and subscriptions, and every projection holds its source. Read
off the moves alone, without a look at the observer lists, that says which projections live and who
is told.

- `Holdings`: the handles that the caller has, where the projections come from, and what became of
  the subscriptions.
- `Holdings.note`: the holdings after a move.
- `Holdings.Live`: a projection is held, by the caller or by another one that lives.
- `Store.Accounted`: the entries and the handles of a store are those of the holdings.
- **`Accounted.step`**: every move keeps it.
- **`Accounted.living_iff`**: while nothing is being delivered, exactly the projections that are
  held live.
-/

namespace LiveDesk.Observable

variable {S V H : Type}

/-- What became of a subscription. -/
inductive Standing where
  | held
  | detached
  | dropped
  deriving DecidableEq, Repr

/-- A subscription that the caller made. -/
structure Subscription where
  id : ObserverId
  source : Source
  standing : Standing
  deriving DecidableEq

namespace Subscription

/-- The entry that it has in the list of its source. -/
def listed? (x : Subscription) : Option Observer :=
  match x.standing with
  | .held => some ⟨x.id, .subscriber, true⟩
  | .detached => some ⟨x.id, .subscriber, false⟩
  | .dropped => none

/-- The subscription when one is given another standing. -/
def settle (o : ObserverId) (standing : Standing) (x : Subscription) : Subscription :=
  if x.id = o ∧ x.standing = .held then { x with standing } else x

@[simp] theorem settle_id (o : ObserverId) (standing : Standing) (x : Subscription) :
    (settle o standing x).id = x.id := by
  unfold settle
  split <;> rfl

@[simp] theorem settle_source (o : ObserverId) (standing : Standing) (x : Subscription) :
    (settle o standing x).source = x.source := by
  unfold settle
  split <;> rfl

/-- A subscription that is held at the end was held before. -/
theorem held_of_settle {o : ObserverId} {standing : Standing} {x : Subscription}
    (hs : standing ≠ .held) (h : (settle o standing x).standing = .held) :
    x.standing = .held := by
  unfold settle at h
  split at h
  · exact absurd h hs
  · exact h

/-- The entry of a subscription has its name, and belongs to a subscriber. -/
theorem listed?_eq_some {x : Subscription} {e : Observer} (h : x.listed? = some e) :
    e.id = x.id ∧ e.target = .subscriber ∧ x.standing ≠ .dropped := by
  unfold listed? at h
  split at h
  all_goals cases h
  all_goals simp [*]

/-- An entry that is held is that of a subscription that is held. -/
theorem held_of_listed? {x : Subscription} {e : Observer} (h : x.listed? = some e)
    (hheld : e.held = true) : x.standing = .held := by
  unfold listed? at h
  split at h
  · assumption
  · cases h
    cases hheld
  · cases h

/-- A subscription that is not dropped has an entry. -/
theorem listed?_isSome {x : Subscription} (h : x.standing ≠ .dropped) :
    ∃ e, x.listed? = some e := by
  cases hx : x.standing with
  | held | detached => exact ⟨_, by rw [listed?, hx]⟩
  | dropped => exact absurd hx h

/-- A subscription that is dropped loses its entry. -/
theorem listed?_dropped (o : ObserverId) (x : Subscription) :
    (settle o .dropped x).listed? = x.listed?.filter (Store.survives o) := by
  obtain ⟨id, source, standing⟩ := x
  by_cases h : id = o <;> cases standing <;>
    simp [settle, listed?, Store.survives, Option.filter, h]

/-- A subscription that is detached lets go of its entry. -/
theorem listed?_detached (o : ObserverId) (x : Subscription) :
    (settle o .detached x).listed? = x.listed?.map (Store.letGo o) := by
  obtain ⟨id, source, standing⟩ := x
  by_cases h : id = o <;> cases standing <;> simp [settle, listed?, Store.letGo, h]

end Subscription

/-- What the caller holds, and what it was made from. -/
structure Holdings (S V : Type) where
  /-- How many handles the caller has. -/
  handles : ProjectionId → Nat
  /-- Where a projection takes its values from. -/
  origins : ProjectionId → Option (Origin S V)
  /-- The subscriptions, in the order in which they were made. -/
  subscriptions : List Subscription

namespace Holdings

/-- Nothing is held. -/
def none : Holdings S V where
  handles _ := 0
  origins _ := .none
  subscriptions := []

/-- A projection is made, and the caller gets a handle. -/
def create (l : Holdings S V) (p : ProjectionId) (origin : Origin S V) : Holdings S V :=
  { l with
    handles := Function.update l.handles p 1
    origins := Function.update l.origins p (some origin) }

/-- A subscription is made. -/
def register (l : Holdings S V) (o : ObserverId) (source : Source) : Holdings S V :=
  { l with subscriptions := l.subscriptions ++ [⟨o, source, .held⟩] }

/-- A subscription that is held is given another standing. -/
def settle (l : Holdings S V) (o : ObserverId) (standing : Standing) : Holdings S V :=
  { l with subscriptions := l.subscriptions.map (·.settle o standing) }

/-- What the caller holds after a move. The store is asked only for the names that it gives next,
and whose code returns. -/
def note (l : Holdings S V) (s : Store S V H) : Move S V H → Holdings S V
  | .observe (.project select) => l.create s.nextProjection (.store select)
  | .observe (.chain source select) =>
    if 0 < l.handles source then l.create s.nextProjection (.view source select) else l
  | .observe (.share p) =>
    if 0 < l.handles p then { l with handles := Function.update l.handles p (l.handles p + 1) }
    else l
  | .observe (.drop p) => { l with handles := Function.update l.handles p (l.handles p - 1) }
  | .observe .subscribe => l.register s.nextObserver .store
  | .observe (.unsubscribe o) => l.settle o .dropped
  | .observe (.detach o) => l.settle o .detached
  | .ret =>
    match s.stack with
    | .replay o p :: _ => l.register o (.view p)
    | _ => l
  | .tick | .change _ | .observe (.watch _) | .panic | .enter _ | .leave => l

/-- Something holds the projection: a handle, one that a running call has borrowed, a subscription
that is not detached, or a projection over it that is held itself. -/
inductive Live (l : Holdings S V) (borrowed : ProjectionId → Prop) : ProjectionId → Prop where
  | handle {p : ProjectionId} : 0 < l.handles p → Live l borrowed p
  | borrowed {p : ProjectionId} : borrowed p → Live l borrowed p
  | subscription {p : ProjectionId} {x : Subscription} : x ∈ l.subscriptions →
    x.source = .view p → x.standing = .held → Live l borrowed p
  | chained {p q : ProjectionId} {select : V → V} : l.origins q = some (.view p select) →
    Live l borrowed q → Live l borrowed p

end Holdings

namespace Store

/-- Which sources there are is read off the links. -/
theorem living_congr {s t : Store S V H} (h : t.link? = s.link?) {src : Source} :
    t.Living src ↔ s.Living src := by
  cases src with
  | store => exact Iff.rfl
  | view p => rw [Living, Living, h]

/-- A call that subscribes to the projection has borrowed a handle of it, since its subscriber's
code is running for the first value. -/
def Subscribing (s : Store S V H) (p : ProjectionId) : Prop :=
  ∃ o, .replay o p ∈ s.stack

/-- No entry of a subscriber goes with a projection but those in its own list: the one that it has
with its source leads to itself. -/
theorem Wired.subscribers_remove {s : Store S V H} (hs : s.Wired) {q : Projection S V}
    (hq : s.get? q.id = some q) {src : Source} (hne : src ≠ .view q.id) :
    ((s.remove q).observersOf src).filter (·.target = .subscriber)
      = (s.observersOf src).filter (·.target = .subscriber) := by
  rw [observersOf_remove, if_neg hne]
  split
  · next heq =>
    rw [List.filter_filter, List.filter_congr fun e he => ?_]
    by_cases htarget : e.target = .subscriber
    · have hid : e.id ≠ q.entry := by
        intro hid
        rw [hs.eq_entry (link?_of_get? hq) (heq ▸ he) hid] at htarget
        cases htarget
      simp [htarget, hid]
    · simp [htarget]
  · rfl

/-- The entries of the subscribers and the handles of a store are those of the holdings. -/
structure Accounted (s : Store S V H) (l : Holdings S V) : Prop where
  handles : ∀ p, l.handles p = (s.handles? p).getD 0
  origins : ∀ {p k}, s.link? p = some k → l.origins p = some k.1
  unborn : ∀ {p}, s.nextProjection ≤ p → l.origins p = none
  named : ∀ {x p}, x ∈ l.subscriptions → x.source = .view p → p < s.nextProjection
  entries : ∀ {src}, s.Living src → (s.observersOf src).filter (·.target = .subscriber)
    = (l.subscriptions.filter (·.source = src)).filterMap Subscription.listed?
  /-- A subscription that is held keeps its source. -/
  backed : ∀ {x}, x ∈ l.subscriptions → x.standing = .held → s.Living x.source

namespace Accounted

variable {s t : Store S V H} {l : Holdings S V}

theorem opening (initial : S) : (opening initial : Store S V H).Accounted .none where
  handles p := by simp [handles?, get?, Store.opening, Holdings.none]
  origins h := by simp [link?, get?, Store.opening] at h
  unborn _ := rfl
  named h := by cases h
  entries {src} _ := by
    cases src <;> simp [observersOf, get?, Store.opening, Channel.empty, Holdings.none]
  backed h := by cases h

/-- The accounts depend on the handles, the links and the lists only. -/
theorem congr (h : s.Accounted l) (hh : t.handles? = s.handles?) (hl : t.link? = s.link?)
    (hn : t.nextProjection = s.nextProjection) (ho : t.observersOf = s.observersOf) :
    t.Accounted l := by
  refine ⟨fun p => ?_, fun hk => ?_, fun hp => ?_, fun hx hsrc => ?_, fun hsrc => ?_,
    fun hx hheld => ?_⟩
  · rw [hh, h.handles p]
  · rw [hl] at hk
    exact h.origins hk
  · exact h.unborn (hn ▸ hp)
  · rw [hn]
    exact h.named hx hsrc
  · rw [ho]
    exact h.entries ((living_congr hl).mp hsrc)
  · exact (living_congr hl).mpr (h.backed hx hheld)

theorem same (h : s.Accounted l) (hsame : s.SameHolders t) : t.Accounted l :=
  h.congr hsame.handles? hsame.link? hsame.nextProjection hsame.observersOf

/-- A subscription that lasts has its entry with its source. -/
theorem mem_observersOf (h : s.Accounted l) {x : Subscription} (hx : x ∈ l.subscriptions)
    {e : Observer} (he : x.listed? = some e) (hliving : s.Living x.source) :
    e ∈ s.observersOf x.source := by
  refine List.mem_of_mem_filter (p := fun e => decide (e.target = .subscriber)) ?_
  rw [h.entries hliving]
  exact List.mem_filterMap.mpr ⟨x, List.mem_filter.mpr ⟨hx, by simp⟩, he⟩

/-- A subscription that is held keeps its projection. -/
theorem pinned (h : s.Accounted l) {x : Subscription} (hx : x ∈ l.subscriptions)
    (hheld : x.standing = .held) {p : ProjectionId} (hsrc : x.source = .view p) : s.Pinned p := by
  have hin := h.mem_observersOf hx (e := ⟨x.id, .subscriber, true⟩)
    (by rw [Subscription.listed?, hheld]) (h.backed hx hheld)
  exact Or.inr (Or.inl ⟨_, hsrc ▸ hin, rfl⟩)

/-- A projection that nothing refers to is not held either. -/
theorem remove (h : s.Accounted l) (hs : s.Wired) {p : ProjectionId} {q : Projection S V}
    (hq : s.get? p = some q) (hpin : s.isPinned q = false) : (s.remove q).Accounted l := by
  obtain rfl := get?_id hq
  refine ⟨fun r => ?_, fun {r k} hk => ?_, fun {r} hr => ?_, fun hx hsrc => ?_,
    fun {src} hsrc => ?_, fun {x} hx hheld => ?_⟩
  · rw [handles?_remove, h.handles r]
    split
    · next hr =>
      have hnone : q.handles = 0 := by
        simp only [isPinned, Bool.or_eq_false_iff, decide_eq_false_iff_not] at hpin
        exact Nat.eq_zero_of_not_pos hpin.1.1
      rw [hr, handles?, hq]
      exact hnone
    · rfl
  · exact h.origins (link?_of_remove hk).2
  · rw [remove_nextProjection] at hr
    exact h.unborn hr
  · rw [remove_nextProjection]
    exact h.named hx hsrc
  · obtain ⟨hliving, hne⟩ := hsrc.of_remove
    rw [hs.subscribers_remove hq hne, h.entries hliving]
  · have hliving := h.backed hx hheld
    cases hsrc : x.source with
    | store => trivial
    | view r =>
      rw [hsrc] at hliving
      rw [Living, link?_remove, if_neg ((h.pinned hx hheld hsrc).ne hq hpin)]
      exact hliving

/-- A sweep leaves the accounts: what it takes away has no handle, and nobody's entry is in its
list. -/
theorem sweep (h : s.Accounted l) (hs : s.Wired) : s.sweep.Accounted l := by
  have hboth : s.sweep.Accounted l ∧ s.sweep.Wired :=
    sweep_induction (P := fun t => t.Accounted l ∧ t.Wired)
      (fun _ _ _ ht hq hpin => ⟨ht.1.remove ht.2 hq hpin, ht.2.remove hq hpin⟩) ⟨h, hs⟩
  exact hboth.1

/-- A move that leaves what refers to the projections leaves the accounts. -/
theorem of_holds (h : s.Accounted l) (hs : s.Wired) (ht : s.Holds t) : t.Accounted l := by
  obtain ⟨u, hu, ⟨rfl, -⟩ | rfl⟩ := ht
  · exact h.same hu
  · exact (h.same hu).sweep (hu.toSameLists.wired hs)

/-- The caller can use a projection exactly if it has a handle of it. -/
theorem handled?_isSome (h : s.Accounted l) (p : ProjectionId) :
    (s.handled? p).isSome = true ↔ 0 < l.handles p := by
  rw [h.handles p, handled?, Store.handles?]
  cases s.get? p <;> simp [Option.filter]

/-- A projection is made. -/
theorem addProjection (h : s.Accounted l) (origin : Origin S V) (v : V)
    (hsource : ∀ p, origin.source = .view p → (s.link? p).isSome = true) :
    (s.addProjection origin v).Accounted (l.create s.nextProjection origin) := by
  refine ⟨fun p => ?_, fun {p k} hk => ?_, fun {p} hp => ?_, fun hx hsrc => ?_,
    fun {src} hsrc => ?_, fun {x} hx hheld => ?_⟩
  · rw [handles?_addProjection]
    show Function.update l.handles _ _ p = _
    rw [Function.update_apply]
    split
    · rfl
    · exact h.handles p
  · rw [link?_addProjection] at hk
    show Function.update l.origins _ _ p = _
    rw [Function.update_apply]
    by_cases hp : p = s.nextProjection
    · rw [if_pos hp] at hk ⊢
      cases hk
      rfl
    · rw [if_neg hp] at hk ⊢
      exact h.origins hk
  · show Function.update l.origins _ _ p = _
    have hlt : s.nextProjection < p := hp
    rw [Function.update_of_ne hlt.ne']
    exact h.unborn hlt.le
  · exact Nat.lt_succ_of_lt (h.named hx hsrc)
  · show _ = (l.subscriptions.filter _).filterMap _
    rw [observersOf_addProjection s origin v src hsource]
    split
    · next hnew =>
      -- nobody has subscribed to the new projection yet
      have hnone : l.subscriptions.filter (·.source = src) = [] := by
        refine List.filter_eq_nil_iff.mpr fun x hx hxsrc => ?_
        exact (h.named hx ((of_decide_eq_true hxsrc).trans hnew)).ne rfl
      rw [hnone]
      rfl
    · next hold =>
      have hliving : s.Living src := by
        cases src with
        | store => trivial
        | view p =>
          rw [Living, link?_addProjection, if_neg (by simpa using hold)] at hsrc
          exact hsrc
      rw [← h.entries hliving]
      split
      · simp
      · rfl
  · have hliving := h.backed hx hheld
    cases hsrc : x.source with
    | store => trivial
    | view p =>
      rw [hsrc] at hliving
      rw [Living, link?_addProjection]
      split
      · rfl
      · exact hliving

/-- The handles of one projection change. -/
theorem modify (h : s.Accounted l) {p : ProjectionId} {q : Projection S V}
    (hq : s.get? p = some q) (n : Nat) (f : Projection S V → Projection S V)
    (hid : ∀ q, (f q).id = q.id) (ho : ∀ q, (f q).origin = q.origin)
    (he : ∀ q, (f q).entry = q.entry) (hc : ∀ q, (f q).channel = q.channel)
    (hn : (f q).handles = n) :
    (s.modify p f).Accounted { l with handles := Function.update l.handles p n } := by
  have hlink := link?_modify s p f hid ho he
  have hobs := observersOf_modify s p f hid fun q => by rw [hc]
  have hliving : ∀ {src}, (s.modify p f).Living src ↔ s.Living src := living_congr hlink
  refine ⟨fun r => ?_, fun hk => ?_, fun hr => h.unborn hr, fun hx hsrc => h.named hx hsrc,
    fun hsrc => ?_, fun hx hheld => hliving.mpr (h.backed hx hheld)⟩
  · rw [handles?_modify s p r f hid]
    show Function.update l.handles p n r = _
    rw [Function.update_apply]
    split
    · next hr => rw [hr, hq, Option.map_some, Option.getD_some, hn]
    · exact h.handles r
  · rw [hlink] at hk
    exact h.origins hk
  · rw [hobs]
    exact h.entries (hliving.mp hsrc)

/-- A subscription is made with a source that lives. -/
theorem register (h : s.Accounted l) {src₀ : Source} {o : ObserverId}
    (halive : s.Living src₀) (hnamed : ∀ {p}, src₀ = .view p → p < s.nextProjection)
    (hh : t.handles? = s.handles?) (hl : t.link? = s.link?)
    (hn : t.nextProjection = s.nextProjection)
    (ho : ∀ src, t.observersOf src = if src = src₀ then
      s.observersOf src ++ [⟨o, .subscriber, true⟩] else s.observersOf src) :
    t.Accounted (l.register o src₀) := by
  refine ⟨fun p => ?_, fun hk => ?_, fun hp => ?_, fun hx hsrc => ?_, fun {src} hsrc => ?_,
    fun hx hheld => (living_congr hl).mpr ?_⟩
  · rw [hh]
    exact h.handles p
  · rw [hl] at hk
    exact h.origins hk
  · exact h.unborn (hn ▸ hp)
  · rw [hn]
    rcases List.mem_append.mp hx with hx | hx
    · exact h.named hx hsrc
    · rw [List.mem_singleton.mp hx] at hsrc
      exact hnamed hsrc
  · show _ = ((l.subscriptions ++ [_]).filter _).filterMap _
    rw [ho, List.filter_append, List.filterMap_append, ← h.entries ((living_congr hl).mp hsrc)]
    by_cases heq : src = src₀
    · rw [if_pos heq, List.filter_append]
      simp [heq, Subscription.listed?]
    · rw [if_neg heq]
      simp [Ne.symm heq]
  · rcases List.mem_append.mp hx with hx | hx
    · exact h.backed hx hheld
    · rw [List.mem_singleton.mp hx]
      exact halive

/-- A subscription that is held is given another standing. -/
theorem settle (h : s.Accounted l) (o : ObserverId) {standing : Standing}
    (hs : standing ≠ .held) (edit : List Observer → List Observer) (hnil : edit [] = [])
    (hedit : ∀ es : List Observer, (edit es).filter (·.target = .subscriber)
      = edit (es.filter (·.target = .subscriber)))
    (hentry : ∀ xs : List Subscription, (xs.map (·.settle o standing)).filterMap
      Subscription.listed? = edit (xs.filterMap Subscription.listed?)) :
    (s.editObservers edit).Accounted (l.settle o standing) := by
  have hlink := link?_editObservers s edit
  have hliving : ∀ {src}, (s.editObservers edit).Living src ↔ s.Living src := living_congr hlink
  refine ⟨fun p => ?_, fun hk => ?_, fun hp => h.unborn hp, fun hx hsrc => ?_,
    fun {src} hsrc => ?_, fun hx hheld => hliving.mpr ?_⟩
  · rw [handles?_editObservers]
    exact h.handles p
  · rw [hlink] at hk
    exact h.origins hk
  · obtain ⟨y, hy, rfl⟩ := List.mem_map.mp hx
    exact h.named hy ((Subscription.settle_source o standing y).symm.trans hsrc)
  · show _ = ((l.subscriptions.map _).filter _).filterMap _
    have hsource : (fun x : Subscription => decide (x.source = src)) ∘
        (Subscription.settle o standing) = fun x => decide (x.source = src) := by
      funext x
      simp
    rw [observersOf_editObservers s edit hnil, hedit, h.entries (hliving.mp hsrc),
      List.filter_map, hsource, hentry]
  · obtain ⟨y, hy, rfl⟩ := List.mem_map.mp hx
    rw [Subscription.settle_source]
    exact h.backed hy (Subscription.held_of_settle hs hheld)

/-- A subscription that ends is written off. -/
theorem unsubscribe (h : s.Accounted l) (hs : s.Sound) (o : ObserverId) :
    (s.unsubscribe o).Accounted (l.settle o .dropped) := by
  refine (h.settle o (by simp) (List.filter (survives o)) rfl (fun es => ?_) fun xs => ?_).sweep
    (hs.filterSurvivors o).wired
  · rw [List.filter_filter, List.filter_filter]
    exact List.filter_congr fun e _ => Bool.and_comm _ _
  · rw [List.filterMap_map, List.filter_filterMap]
    exact List.filterMap_congr fun x _ => Subscription.listed?_dropped o x

/-- A subscription that is detached is noted as such. -/
theorem detach (h : s.Accounted l) (hs : s.Sound) (o : ObserverId) :
    (s.detach o).Accounted (l.settle o .detached) := by
  refine (h.settle o (by simp) (List.map (letGo o)) rfl (fun es => ?_) fun xs => ?_).sweep
    (hs.mapLetGo o).wired
  · rw [List.filter_map]
    congr 1
    exact List.filter_congr fun e _ => by simp
  · rw [List.filterMap_map, List.map_filterMap]
    exact List.filterMap_congr fun x _ => Subscription.listed?_detached o x

/-- A handle that is dropped is written off. -/
theorem drop (h : s.Accounted l) (hs : s.Sound) (p : ProjectionId) :
    (s.drop p).Accounted { l with handles := Function.update l.handles p (l.handles p - 1) } := by
  let less : Projection S V → Projection S V := fun q => { q with handles := q.handles - 1 }
  have hsound := hs.modify p less (fun _ => rfl) (fun _ => rfl) (fun _ => rfl) fun _ => rfl
  refine sweep ?_ hsound.wired
  cases hq : s.get? p with
  | some q =>
    refine h.modify hq _ less (fun _ => rfl) (fun _ => rfl) (fun _ => rfl) (fun _ => rfl) ?_
    rw [h.handles p, handles?, hq]
    rfl
  | none =>
    -- there was no handle to give up
    have hzero : l.handles p = 0 := by rw [h.handles p, handles?, hq]; rfl
    have hsame : ∀ r, (s.modify p less).get? r = s.get? r := by
      intro r
      rw [get?_modify s p r less fun _ => rfl]
      split
      · next hr => rw [hr, hq]; rfl
      · rfl
    have hl : ({ l with handles := Function.update l.handles p (l.handles p - 1) } :
        Holdings S V) = l := by
      rw [hzero, Nat.zero_sub, ← hzero, Function.update_eq_self]
    rw [hl]
    refine h.congr ?_ ?_ rfl ?_
    · funext r
      rw [handles?, hsame, handles?]
    · funext r
      rw [link?, hsame, link?]
    · funext src
      cases src with
      | store => rfl
      | view r => rw [observersOf, hsame, observersOf]

/-- One more handle is noted. -/
theorem share (h : s.Accounted l) (p : ProjectionId) :
    (s.share p).Accounted (l.note s (.observe (.share p))) := by
  have hhandled := h.handled?_isSome p
  show (s.share p).Accounted (if _ then _ else _)
  unfold Store.share
  cases hq : s.handled? p with
  | none =>
    rw [hq] at hhandled
    rw [if_neg fun hpos => by cases hhandled.mpr hpos]
    exact h
  | some q =>
    rw [hq] at hhandled
    have hget := Sound.handled?_eq_some hq
    rw [if_pos (hhandled.mp rfl)]
    refine h.modify hget _ _ (fun _ => rfl) (fun _ => rfl) (fun _ => rfl) (fun _ => rfl) ?_
    rw [h.handles p, handles?, hget]
    rfl

/-- **Whatever the code asks for is noted.** -/
theorem observe (h : s.Accounted l) (hs : s.Sound) (a : Observation S V) :
    (s.observe a).1.Accounted (l.note s (.observe a)) := by
  cases a with
  | project select =>
    exact h.addProjection (.store select) (select s.current.state) fun p hp => by cases hp
  | chain source select =>
    have hhandled := h.handled?_isSome source
    show (s.chain source select).1.Accounted (if _ then _ else _)
    unfold Store.chain
    cases hq : s.handled? source with
    | none =>
      rw [hq] at hhandled
      rw [if_neg fun hpos => by cases hhandled.mpr hpos]
      exact h
    | some q =>
      rw [hq] at hhandled
      rw [if_pos (hhandled.mp rfl)]
      refine h.addProjection (.view source select) (select q.value) fun p hp => ?_
      cases hp
      rw [link?_of_get? (Sound.handled?_eq_some hq)]
      rfl
  | share p => exact h.share p
  | drop p => exact h.drop hs p
  | subscribe =>
    refine h.register (t := s.subscribe) trivial (fun hsrc => by cases hsrc) rfl rfl rfl
      fun src => ?_
    cases src <;> rfl
  | watch p =>
    show (s.watch p).1.Accounted l
    unfold Store.watch
    split
    · exact h
    · exact h.congr rfl rfl rfl rfl
  | unsubscribe o => exact h.unsubscribe hs o
  | detach o => exact h.detach hs o

/-- A subscription whose first value has been delivered is noted. -/
theorem ret (h : s.Accounted l) (hs : s.Sound) : s.ret.Accounted (l.note s .ret) := by
  show s.ret.Accounted (match s.stack with
    | .replay o p :: _ => l.register o (.view p)
    | _ => l)
  unfold Store.ret
  split
  · next hst => simpa only [hst] using h.same (.stack s _)
  · next o p below hst =>
    have halive : s.Living (.view p) :=
      hs.stacked.alive (hst ▸ List.mem_cons_self ..) (by simp [Frame.keeps])
    rw [hst]
    -- the entry is added, and the handle that was borrowed for the call is given back
    refine sweep ?_ (hs.addReplayed hst).wired
    refine h.register halive (fun hsrc => ?_) ?_ ?_ rfl ?_
    · cases hsrc
      obtain ⟨k, hk⟩ := Option.isSome_iff_exists.mp halive
      exact hs.wired.named hk
    · exact handles?_modifyChannel s p (·.add ⟨o, .subscriber, true⟩)
    · exact link?_modify s p (fun q => { q with channel := q.channel.add ⟨o, .subscriber, true⟩ })
        (fun _ => rfl) (fun _ => rfl) fun _ => rfl
    · exact observersOf_add halive ⟨o, .subscriber, true⟩
  · next hcallback hreplay =>
    split
    · next hst => exact absurd hst (hreplay _ _ _)
    · exact h

/-- **Every move is noted.** -/
theorem perform (h : s.Accounted l) (hs : s.Sound) (m : Move S V H) :
    (s.perform m).1.Accounted (l.note s m) := by
  cases m with
  | tick => exact h
  | change c => exact h.of_holds hs.wired (holds_change s c)
  | observe a => exact h.observe hs a
  | ret => exact h.ret hs
  | panic =>
    exact (h.same ((SameHolders.foldl_abandon s.stack s).trans (.stack _ []))).sweep
      hs.giveUp.wired
  | enter c => exact h.same (.stack s _)
  | leave =>
    show s.leave.Accounted l
    unfold Store.leave
    split
    · exact h.same (.stack s _)
    · exact h

/-- **Every possible move keeps the account.** -/
theorem step [DecidableEq V] (h : s.Accounted l) (hs : s.Sound) {m : Move S V H}
    (hm : s.admits m = true) : (s.step m).1.Accounted (l.note s m) := by
  unfold Store.step
  split
  · exact h.perform hs m
  · next hother =>
    cases m with
    | tick => exact h.of_holds hs.wired (holds_tick s)
    | panic => exact absurd rfl hother
    | change | observe | ret | enter | leave => exact absurd hm hother

/-- The entry of a subscriber is that of a subscription. -/
theorem subscription_of_mem (h : s.Accounted l) {src : Source} {e : Observer}
    (he : e ∈ s.observersOf src) (htarget : e.target = .subscriber) :
    ∃ x ∈ l.subscriptions, x.source = src ∧ x.listed? = some e := by
  have hliving : s.Living src := Lists.living ⟨e, he, rfl, rfl⟩
  have hmem : e ∈ (s.observersOf src).filter (·.target = .subscriber) :=
    List.mem_filter.mpr ⟨he, by simpa using htarget⟩
  rw [h.entries hliving] at hmem
  obtain ⟨x, hx, hxe⟩ := List.mem_filterMap.mp hmem
  obtain ⟨hx, hsrc⟩ := List.mem_filter.mp hx
  exact ⟨x, hx, by simpa using hsrc, hxe⟩

/-- **While nothing is being delivered, exactly the projections that are held live.** -/
theorem living_iff (h : s.Accounted l) (hs : s.Sound) (hswept : s.Swept)
    (hidle : s.deliveries = []) (p : ProjectionId) :
    s.Living (.view p) ↔ l.Live s.Subscribing p := by
  refine ⟨fun hliving => ?_, fun hlive => ?_⟩
  · -- a projection is older than those over it, and there are finitely many
    generalize hn : s.nextProjection - p = n
    induction n using Nat.strong_induction_on generalizing p with
    | _ n ih =>
      rcases hswept p hliving with ⟨k, hk, hpos⟩ | ⟨e, he, hheld⟩ | ⟨f, hf, hkeeps⟩
      · refine .handle ?_
        rw [h.handles p, hk]
        exact hpos
      -- an entry that is held is that of a subscription, or of a projection that is younger
      · cases htarget : e.target with
        | subscriber =>
          obtain ⟨x, hx, hsrc, hentry⟩ := h.subscription_of_mem he htarget
          exact .subscription hx hsrc (Subscription.held_of_listed? hentry hheld)
        | projection q =>
          obtain ⟨origin, hlink, hsrc⟩ := hs.wired.targeted he htarget
          cases origin with
          | store => cases hsrc
          | view source select =>
            cases hsrc
            have holder := hs.wired.older hlink rfl
            have hnamed := hs.wired.named hlink
            refine .chained (h.origins hlink) (ih (s.nextProjection - q) ?_ q ?_ rfl)
            · rw [← hn]
              exact Nat.sub_lt_sub_left (Nat.lt_trans holder hnamed) holder
            · rw [Living, hlink]
              rfl
      · cases f with
        | emitting q now =>
          have hdel : ∃ d, d ∈ s.deliveries := ⟨_, List.mem_filterMap.mpr ⟨_, hf, rfl⟩⟩
          rw [hidle] at hdel
          obtain ⟨d, hd⟩ := hdel
          cases hd
        | replay o q =>
          obtain rfl : q = p := by simpa [Frame.keeps] using hkeeps
          exact .borrowed ⟨o, hf⟩
        | publishing | callback | code => cases hkeeps
  · induction hlive with
    | @handle p hpos =>
      rw [h.handles p] at hpos
      cases hq : s.get? p with
      | none =>
        rw [Store.handles?, hq] at hpos
        cases hpos
      | some q =>
        rw [Living, link?_of_get? hq]
        rfl
    | borrowed hp =>
      obtain ⟨o, ho⟩ := hp
      exact hs.stacked.alive ho (by simp [Frame.keeps])
    | subscription hx hsrc hheld =>
      rw [← hsrc]
      exact h.backed hx hheld
    | chained horigin _ ih =>
      obtain ⟨k, hk⟩ := Option.isSome_iff_exists.mp ih
      have hsame := h.origins hk
      rw [horigin] at hsame
      have hsource := hs.living_source hk
      rw [← Option.some.inj hsame] at hsource
      exact hsource

end Accounted

end Store

end LiveDesk.Observable
