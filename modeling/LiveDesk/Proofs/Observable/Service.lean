import LiveDesk.Proofs.Observable.Holdings
import LiveDesk.Proofs.Observable.Staleness

/-!
# Who is served

A subscription has one name for good, and its entry belongs to one source. So what is held tells who
will be told, in all that comes, and for how long.

- `Registered`: the subscriptions have different names, which belong to their sources.
- **`Registered.step`**: every possible move keeps it.
- **`Registered.served`**: whose subscription lasts is told everything.
- **`Steady.applied`**: the selector of a projection that lives on is applied to everything.
- **`Accounted.existsUnique_entry`**, **`Accounted.living_of_entry`**: exactly the projections that
  live have an entry with their source, and they have one.
-/

namespace LiveDesk.Observable

variable {S V H : Type}

namespace Store

/-- The subscriptions have different names, and everything that goes by one of these belongs to its
source. -/
structure Registered (s : Store S V H) (l : Holdings S V) : Prop where
  distinct : l.subscriptions.Pairwise fun x y => x.id ≠ y.id
  tracked : ∀ {x}, x ∈ l.subscriptions → s.Tracks x.source ⟨x.id, .subscriber, true⟩

/-- A subscription is one from before a move, which may have another standing now, or is made in
it. -/
theorem noted (l : Holdings S V) (s : Store S V H) (m : Move S V H) :
    (∃ standing o, (l.note s m).subscriptions = l.subscriptions.map (·.settle o standing)) ∨
      (l.note s m).subscriptions = l.subscriptions ∨
      (l.note s m).subscriptions = l.subscriptions ++ [⟨s.nextObserver, .store, .held⟩] ∨
      ∃ o p below, s.stack = .replay o p :: below ∧
        (l.note s m).subscriptions = l.subscriptions ++ [⟨o, .view p, .held⟩] := by
  cases m with
  | tick | change | panic | enter | leave => exact Or.inr (Or.inl rfl)
  | observe a =>
    cases a with
    | project | watch | drop => exact Or.inr (Or.inl rfl)
    | chain source select =>
      refine Or.inr (Or.inl ?_)
      show (if _ then _ else _ : Holdings S V).subscriptions = _
      split <;> rfl
    | share p =>
      refine Or.inr (Or.inl ?_)
      show (if _ then _ else _ : Holdings S V).subscriptions = _
      split <;> rfl
    | subscribe => exact Or.inr (Or.inr (Or.inl rfl))
    | unsubscribe o => exact Or.inl ⟨.dropped, o, rfl⟩
    | detach o => exact Or.inl ⟨.detached, o, rfl⟩
  | ret =>
    cases hst : s.stack with
    | nil => exact Or.inr (Or.inl (by simp [Holdings.note, hst]))
    | cons f below =>
      cases f with
      | replay o p =>
        exact Or.inr (Or.inr (Or.inr ⟨o, p, below, rfl, by simp [Holdings.note, hst,
          Holdings.register]⟩))
      | publishing | emitting | callback | code =>
        exact Or.inr (Or.inl (by simp [Holdings.note, hst]))

namespace Registered

variable {s t : Store S V H} {l : Holdings S V}

theorem opening (initial : S) : (opening initial : Store S V H).Registered .none :=
  ⟨.nil, fun hx => by cases hx⟩

/-- The names stay different when a new one is given. -/
theorem append (h : s.Registered l) {o : ObserverId} (src : Source)
    (hnew : s.nextObserver ≤ o ∨ o ∈ s.unborn) :
    (l.subscriptions ++ [(⟨o, src, .held⟩ : Subscription)]).Pairwise fun x y => x.id ≠ y.id := by
  refine List.pairwise_append.mpr ⟨h.distinct, List.pairwise_singleton _ _, fun x hx y hy => ?_⟩
  rw [List.mem_singleton.mp hy]
  have htracks := h.tracked hx
  rintro rfl
  rcases hnew with hle | hmem
  · exact absurd htracks.given (Nat.not_lt.mpr hle)
  · obtain ⟨f, hf, hfo⟩ := List.mem_filterMap.mp hmem
    cases f with
    | replay o p =>
      cases hfo
      exact htracks.born hf
    | publishing | emitting | callback | code => cases hfo

theorem eq_of_id (h : s.Registered l) {x y : Subscription} (hx : x ∈ l.subscriptions)
    (hy : y ∈ l.subscriptions) (hid : x.id = y.id) : x = y :=
  List.inj_on_of_nodup_map (List.pairwise_map.mpr h.distinct) hx hy hid

/-- Whoever is not served any more is gone: the subscription was dropped, or its source does not
live. -/
theorem gone (h : s.Registered l) (ha : s.Accounted l) {x : Subscription}
    (hx : x ∈ l.subscriptions) (hout : x.standing = .dropped ∨ ¬ s.Living x.source) :
    s.Gone x.id := by
  have htracks := h.tracked hx
  refine ⟨htracks.given, fun {src e} he hid => ?_, htracks.born⟩
  obtain rfl := htracks.listed he hid
  obtain ⟨y, hy, hsrc, hentry⟩ := ha.subscription_of_mem he (htracks.same he hid)
  have hyid : y.id = x.id := (Subscription.listed?_eq_some hentry).1.symm.trans hid
  obtain rfl := h.eq_of_id hy hx hyid
  rcases hout with hdropped | hdead
  · exact (Subscription.listed?_eq_some hentry).2.2 hdropped
  · exact hdead (Lists.living ⟨e, he, rfl, rfl⟩)

variable [DecidableEq V]

theorem step (h : s.Registered l) (hs : s.Steady) {m : Move S V H} (hm : s.admits m = true)
    (hnames : (s.step m).1.Homed) (ha : (s.step m).1.Accounted (l.note s m)) :
    (s.step m).1.Registered (l.note s m) := by
  have hu := hs.upshot hm
  have ht := hs.toSound.step m
  have hold : ∀ {x}, x ∈ l.subscriptions →
      (s.step m).1.Tracks x.source ⟨x.id, .subscriber, true⟩ :=
    fun hx => (h.tracked hx).step hs.toSound hu
  -- the entry of a new subscription is in the list of its source
  have hnew : ∀ {x}, x ∈ (l.note s m).subscriptions → x.standing = .held →
      (s.step m).1.Tracks x.source ⟨x.id, .subscriber, true⟩ := by
    intro x hx hheld
    refine ht.tracks hnames (ha.mem_observersOf hx ?_ (ha.backed hx hheld))
    rw [Subscription.listed?, hheld]
  rcases noted l s m with ⟨standing, o, hsubs⟩ | hsubs | hsubs | ⟨o, p, below, hst, hsubs⟩
  · refine ⟨?_, fun hx => ?_⟩
    · rw [hsubs, List.pairwise_map]
      simpa only [Subscription.settle_id] using h.distinct
    · rw [hsubs] at hx
      obtain ⟨y, hy, rfl⟩ := List.mem_map.mp hx
      rw [Subscription.settle_id, Subscription.settle_source]
      exact hold hy
  · refine ⟨by rw [hsubs]; exact h.distinct, fun hx => hold (hsubs ▸ hx)⟩
  · refine ⟨?_, fun hx => ?_⟩
    · rw [hsubs]
      exact h.append .store (Or.inl (Nat.le_refl _))
    · have hx' := hx
      rw [hsubs] at hx'
      rcases List.mem_append.mp hx' with hx' | hx'
      · exact hold hx'
      · exact hnew hx (by rw [List.mem_singleton.mp hx'])
  · refine ⟨?_, fun hx => ?_⟩
    · rw [hsubs]
      exact h.append (.view p) (Or.inr (unborn_of_replay (hst ▸ List.mem_cons_self ..)))
    · have hx' := hx
      rw [hsubs] at hx'
      rcases List.mem_append.mp hx' with hx' | hx'
      · exact hold hx'
      · exact hnew hx (by rw [List.mem_singleton.mp hx'])

end Registered

section Runs

variable [DecidableEq V] {s : Store S V H} {l : Holdings S V} {ms : List (Move S V H)}

/-- What an entry that stays is served with, in a run without failures. -/
theorem Tracks.served {src : Source} {e : Observer} (h : s.Tracks src e) (hs : s.Steady)
    (hcalm : s.Calm ms) (hin : s.Lists src e)
    (hstays : ∃ a ∈ (s.after ms).observersOf src, a.id = e.id) :
    received e (s.events ms) ++ (s.after ms).owed src e.id
      = s.owed src e.id ++ s.begun src ms := by
  have hfates := h.fates_after hs hcalm.feasible hin hstays
  rwa [fates_of_calm hcalm, Fate.map_signal_told] at hfates

/-- The selector of a projection that lives on is applied to everything. -/
theorem Steady.applied (hs : s.Steady) (hnames : s.Homed) (hcalm : s.Calm ms) {p : ProjectionId}
    {origin : Origin S V} {o : ObserverId} (hlink : s.link? p = some (origin, o))
    (hliving : (s.after ms).Living (.view p)) :
    (evaluations p (s.events ms)).map (·.1) ++ (s.after ms).owed origin.source o
      = s.owed origin.source o ++ s.begun origin.source ms := by
  have hin := hs.wired.entered hlink
  obtain ⟨k, hk⟩ := Option.isSome_iff_exists.mp hliving
  have hsame := hs.link?_of_after hcalm.feasible (hs.wired.named hlink) hk
  rw [hlink] at hsame
  cases hsame
  have hstays := (hs.after hcalm.feasible).wired.entered hk
  rw [← received_projection (e := ⟨o, .projection p, true⟩) rfl]
  exact (hs.toSound.tracks hnames hin).served hs hcalm ⟨_, hin, rfl, rfl⟩ ⟨_, hstays, rfl⟩

/-- Whose subscription lasts is told everything. -/
theorem Registered.served (h : s.Registered l) (ha : s.Accounted l) (hs : s.Steady)
    (hcalm : s.Calm ms) {l' : Holdings S V} (h' : (s.after ms).Accounted l')
    {x y : Subscription} (hx : x ∈ l.subscriptions) (hy : y ∈ l'.subscriptions)
    (hid : y.id = x.id) (hsrc : y.source = x.source) (hlasts : y.standing ≠ .dropped)
    (hliving : (s.after ms).Living y.source) :
    heard x.id (s.events ms) ++ (s.after ms).owed x.source x.id
      = s.owed x.source x.id ++ s.begun x.source ms := by
  obtain ⟨e, he⟩ := Subscription.listed?_isSome hlasts
  have hin := h'.mem_observersOf hy he hliving
  rw [hsrc] at hin
  have heid : e.id = x.id := (Subscription.listed?_eq_some he).1.trans hid
  -- who is told at the end was told before
  have hthere : ¬ (x.standing = .dropped ∨ ¬ s.Living x.source) := fun hout =>
    ((h.gone ha hx hout).after hs hcalm.feasible).2 hin heid
  obtain ⟨hdropped, hthere⟩ := not_or.mp hthere
  obtain ⟨e₀, he₀⟩ := Subscription.listed?_isSome hdropped
  obtain ⟨heid₀, htarget₀, -⟩ := Subscription.listed?_eq_some he₀
  rw [← received_subscriber (e := ⟨x.id, .subscriber, true⟩) rfl]
  exact (h.tracked hx).served hs hcalm
    ⟨e₀, ha.mem_observersOf hx he₀ (not_not.mp hthere), heid₀, htarget₀⟩ ⟨e, hin, heid⟩

end Runs

/-- A projection that lives has one entry with its source. -/
theorem Accounted.existsUnique_entry {s : Store S V H} {l : Holdings S V} (h : s.Accounted l)
    (hs : s.Wired) {src : Source} {p : ProjectionId} (hliving : s.Living (.view p))
    (horigin : (l.origins p).map (·.source) = some src) :
    ∃! e, e ∈ s.observersOf src ∧ e.target = .projection p := by
  obtain ⟨⟨origin, o⟩, hlink⟩ := Option.isSome_iff_exists.mp hliving
  rw [h.origins hlink, Option.map_some, Option.some.injEq] at horigin
  subst horigin
  refine ⟨_, ⟨hs.entered hlink, rfl⟩, fun e ⟨he, htarget⟩ => ?_⟩
  obtain ⟨origin', hlink', -⟩ := hs.targeted he htarget
  rw [hlink] at hlink'
  cases hlink'
  exact hs.eq_of_id he (hs.entered hlink) rfl

/-- And no other has one. -/
theorem Accounted.living_of_entry {s : Store S V H} {l : Holdings S V} (h : s.Accounted l)
    (hs : s.Wired) {src : Source} {p : ProjectionId} {e : Observer} (he : e ∈ s.observersOf src)
    (htarget : e.target = .projection p) :
    s.Living (.view p) ∧ (l.origins p).map (·.source) = some src := by
  obtain ⟨origin, hlink, rfl⟩ := hs.targeted he htarget
  refine ⟨by rw [Living, hlink]; rfl, ?_⟩
  rw [h.origins hlink]
  rfl

end Store

end LiveDesk.Observable
