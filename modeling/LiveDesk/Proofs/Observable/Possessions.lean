import LiveDesk.Proofs.Observable.Records

/-!
# What code owns is there

A handle that code owns is one of those that are held, and a subscription that code owns is held; so
is what is just being given up. No handle is owned twice, and no subscription.

- `Holdings.count`: how often a belonging is there to be had.
- `Estate.committed`: how often it is owned by code or just being given up.
- **`Conserved.step`**: nothing is owned that is not there.
- **`Conserved.unsubscribed`**: once nothing is under way, a subscription that the caller has ended
  is gone.
- **`Sound.settles`**: what is under way ends.
-/

namespace LiveDesk.Observable

variable {S V H : Type}

namespace Move

/-- What a move gives up. -/
def gives? : Move S V H → Option Belonging
  | .observe (.drop p) => some (.handle p)
  | .observe (.unsubscribe o) | .observe (.detach o) => some (.subscription o)
  | _ => none

/-- To release a belonging is to give it up. -/
theorem gives?_release (b : Belonging) :
    (Move.observe b.release : Move S V H).gives? = some b := by
  cases b <;> rfl

end Move

namespace Holdings

/-- How many of a belonging there are. -/
def count (l : Holdings S V) : Belonging → Nat
  | .handle p => l.handles p
  | .subscription o => l.subscriptions.countP fun x => x.id = o ∧ x.standing = .held

/-- A subscription that counts is held. -/
theorem exists_held {l : Holdings S V} {o : ObserverId} (h : 0 < l.count (.subscription o)) :
    ∃ x ∈ l.subscriptions, x.id = o ∧ x.standing = .held := by
  obtain ⟨x, hx, hheld⟩ := List.countP_pos_iff.mp h
  exact ⟨x, hx, of_decide_eq_true hheld⟩

/-- A new subscription takes nothing from the others. -/
theorem count_register_le (l : Holdings S V) (o : ObserverId) (src : Source) (b : Belonging) :
    l.count b ≤ (l.register o src).count b := by
  cases b with
  | handle p => exact Nat.le_refl _
  | subscription o' =>
    rw [count, count, register, List.countP_append]
    exact Nat.le_add_right _ _

/-- A new projection takes nothing from the others. -/
theorem count_create_le (l : Holdings S V) {p : ProjectionId} (hp : l.handles p = 0)
    (origin : Origin S V) (b : Belonging) : l.count b ≤ (l.create p origin).count b := by
  cases b with
  | subscription o => exact Nat.le_refl _
  | handle r =>
    show l.handles r ≤ Function.update l.handles p 1 r
    rw [Function.update_apply]
    split
    · next hr =>
      rw [hr, hp]
      exact Nat.zero_le 1
    · exact Nat.le_refl _

/-- Only the subscription itself is settled. -/
theorem count_settle (l : Holdings S V) {o : ObserverId} (standing : Standing) {b : Belonging}
    (hb : b ≠ .subscription o) : (l.settle o standing).count b = l.count b := by
  cases b with
  | handle p => rfl
  | subscription o' =>
    rw [count, count, settle, List.countP_map]
    refine List.countP_congr fun x _ => ?_
    by_cases hid : x.id = o
    · have hne : x.id ≠ o' := fun h => hb (by rw [← h, hid])
      simp [hne]
    · simp [Subscription.settle, hid]

/-- A move takes away what it gives up. -/
theorem count_note (l : Holdings S V) (s : Store S V H) (m : Move S V H) (b : Belonging)
    (hone : ∀ o, l.count (.subscription o) ≤ 1) (hnew : l.handles s.nextProjection = 0) :
    l.count b ≤ (l.note s m).count b + m.gives?.toList.count b := by
  have hsettle : ∀ o standing, l.count b
      ≤ (l.settle o standing).count b + [Belonging.subscription o].count b := by
    intro o standing
    by_cases hb : b = .subscription o
    · rw [hb, List.count_singleton_self]
      exact (hone o).trans (Nat.le_add_left _ _)
    · rw [l.count_settle standing hb]
      exact Nat.le_add_right _ _
  cases m with
  | tick | change | panic | enter | leave => exact Nat.le_refl _
  | observe a =>
    cases a with
    | project select => exact l.count_create_le hnew _ b
    | chain source select =>
      refine Nat.le_add_right_of_le ?_
      simp only [note]
      split
      · exact l.count_create_le hnew _ b
      · exact Nat.le_refl _
    | share p =>
      refine Nat.le_add_right_of_le ?_
      simp only [note]
      split
      · cases b with
        | subscription o => exact Nat.le_refl _
        | handle r =>
          show l.handles r ≤ Function.update l.handles p _ r
          rw [Function.update_apply]
          split
          · next hr => simp [hr]
          · exact Nat.le_refl _
      · exact Nat.le_refl _
    | drop p =>
      cases b with
      | subscription o => exact Nat.le_add_right _ _
      | handle r =>
        show l.handles r ≤ Function.update l.handles p _ r + [Belonging.handle p].count (.handle r)
        rw [Function.update_apply]
        split
        · next hr =>
          rw [hr, List.count_singleton_self]
          omega
        · exact Nat.le_add_right _ _
    | subscribe => exact l.count_register_le _ _ b
    | watch => exact Nat.le_refl _
    | unsubscribe o | detach o => exact hsettle o _
  | ret =>
    refine Nat.le_add_right_of_le ?_
    simp only [note]
    split
    · exact l.count_register_le _ _ b
    · exact Nat.le_refl _

end Holdings

namespace Estate

/-! ## Nothing is owned that is not there -/

section Committed

variable {e : Estate S V H} {l : Holdings S V}

/-- How often a belonging is owned by code, or just being given up. -/
def committed (e : Estate S V H) (b : Belonging) : Nat :=
  (e.owned.map (·.2)).count b + (e.releases.map (·.belonging)).count b
    + (e.request.bind Move.gives?).toList.count b

/-- Nothing is owned or being given up that is not there. -/
def Conserved (e : Estate S V H) (l : Holdings S V) : Prop :=
  ∀ b, e.committed b ≤ l.count b

theorem Conserved.opening (initial : S) : (opening initial : Estate S V H).Conserved .none :=
  fun _ => Nat.zero_le _

/-- Nobody holds a subscription twice. -/
theorem Recorded.count_le_one (h : e.Recorded l) (o : ObserverId) :
    l.count (.subscription o) ≤ 1 := by
  refine le_trans ?_ (List.nodup_iff_count_le_one.mp h.nodup_ids o)
  rw [List.count_eq_countP, List.countP_map]
  exact List.countP_mono_left fun x _ hx => by simpa using (of_decide_eq_true hx).1

/-- There is no handle of a projection that is not created yet. -/
theorem Recorded.handles_next (h : e.Recorded l) (hs : e.Sound) :
    l.handles e.store.nextProjection = 0 := by
  have hhandles : l.handles e.store.nextProjection = _ := h.accounted.handles _
  rw [hhandles, Store.handles?]
  cases hq : e.store.get? e.store.nextProjection with
  | none => rfl
  | some q => exact absurd (hs.steady.wired.named (Store.link?_of_get? hq)) (Nat.lt_irrefl _)

/-- What is free is there, besides what code owns. -/
theorem Recorded.lt_count_of_isFree (h : e.Recorded l) (hs : e.Sound) {b : Belonging}
    (hfree : e.isFree b = true) : (e.owned.map (·.2)).count b < l.count b := by
  cases b with
  | handle p =>
    have hhandles : l.handles p = _ := h.accounted.handles p
    rw [isFree, decide_eq_true_eq, Store.handleCount, ← List.countP_eq_length_filter] at hfree
    rw [List.count_eq_countP, List.countP_map, Holdings.count, hhandles]
    exact hfree
  | subscription o =>
    obtain ⟨hhome, hnone⟩ := (Bool.and_eq_true _ _).mp hfree
    obtain ⟨src, hhome⟩ := Option.isSome_iff_exists.mp hhome
    obtain ⟨x, hx, hheld⟩ := h.held_of_home? hs hhome
    -- a subscription that is free is owned by nobody, and there is one of it
    have hzero : (e.owned.map (·.2)).count (.subscription o) = 0 := by
      rw [List.count_eq_zero]
      intro hmem
      obtain ⟨y, hy, heq⟩ := List.mem_map.mp hmem
      have : e.owned.any (·.2 == .subscription o) = true :=
        List.any_eq_true.mpr ⟨y, hy, by simp [heq]⟩
      rw [this] at hnone
      cases hnone
    rw [hzero]
    exact List.countP_pos_iff.mpr ⟨x, hx, decide_eq_true hheld⟩

/-- The belonging that code gives up is given up in place of being owned. -/
theorem count_erase_owned {owned : List (ObserverId × Belonging)} {x : ObserverId × Belonging}
    (hx : x ∈ owned) (b : Belonging) :
    ((owned.erase x).map (·.2)).count b + [x.2].count b = (owned.map (·.2)).count b := by
  rw [((List.perm_cons_erase hx).map Prod.snd).count_eq b, List.map_cons, ← List.count_append]
  exact (List.perm_append_singleton _ _).count_eq b

/-- The caller begins a move with what it has. -/
theorem Conserved.undertake (h : e.Conserved l) (hrecord : e.Recorded l) (hs : e.Sound)
    {m : Move S V H} (hm : e.permits (.make m) = true) : (e.undertake m).Conserved l := by
  unfold Estate.undertake
  split
  · next hsettled =>
    have hrel : e.releases = [] := (hs.settled (Option.isNone_iff_eq_none.mp hsettled)).1
    have haffords : e.affords m = true := by
      simpa [permits, hsettled] using ((Bool.and_eq_true _ _).mp hm).2
    -- the caller gives up only what no code owns
    have hfree : ∀ {b}, m.gives? = some b → e.isFree b = true := by
      intro b hb
      cases m with
      | observe a =>
        cases a with
        | drop | unsubscribe | detach =>
          cases hb
          exact ((Bool.and_eq_true _ _).mp haffords).2
        | project | chain | share | subscribe | watch => cases hb
      | tick | change | ret | panic | enter | leave => cases hb
    intro b
    show (e.owned.map (·.2)).count b + (e.releases.map (·.belonging)).count b
      + m.gives?.toList.count b ≤ l.count b
    rw [hrel, List.map_nil, List.count_nil, Nat.add_zero]
    by_cases hb : m.gives? = some b
    · have hlt := hrecord.lt_count_of_isFree hs (hfree hb)
      rw [hb, Option.toList_some, List.count_singleton_self]
      exact hlt
    · have hzero : m.gives?.toList.count b = 0 := by
        rw [List.count_eq_zero, Option.mem_toList]
        exact hb
      have howned := (Nat.le_add_right _ _).trans ((Nat.le_add_right _ _).trans (h b))
      rwa [hzero, Nat.add_zero]
  · exact h

variable [DecidableEq V]

/-- What goes first is owned. -/
theorem mem_owned_of_firstToGo? {m : Move S V H} {x : ObserverId × Belonging}
    (hgo : e.firstToGo? m = some x) : x ∈ e.owned := by
  obtain ⟨o, -, hfind⟩ := List.exists_of_findSome?_eq_some hgo
  exact List.mem_of_find?_eq_some hfind

/-- **The moves under way take away only what they give up.** -/
theorem Conserved.attend (h : e.Conserved l) (hrecord : e.Recorded l) (hs : e.Sound) :
    e.attend.1.Conserved (e.asked.elim l (l.note e.store)) := by
  have hnote := fun m b => l.count_note e.store m b hrecord.count_le_one (hrecord.handles_next hs)
  have hcases := e.attended
  generalize e.asked = x, e.attend.1 = u, e.attend.2 = es at hcases ⊢
  intro b
  have hb := h b
  cases hcases with
  | idle => exact hb
  | @given m o b' hdue hgo =>
    have hmoved : ((e.owned.erase (o, b')).map (·.2)).count b + [b'].count b
        = (e.owned.map (·.2)).count b := count_erase_owned (mem_owned_of_firstToGo? hgo) b
    show ((e.owned.erase (o, b')).map (·.2)).count b
      + (b' :: e.releases.map (·.belonging)).count b + (e.request.bind Move.gives?).toList.count b
        ≤ l.count b
    rw [committed, ← hmoved] at hb
    rw [← List.singleton_append, List.count_append]
    omega
  | @released r rest hrel hgo =>
    -- what was being given up is taken away
    have htaken := hnote (.observe r.belonging.release) b
    rw [Move.gives?_release, Option.toList_some] at htaken
    rw [committed, hrel, List.map_cons, ← List.singleton_append, List.count_append] at hb
    show (e.owned.map (·.2)).count b + (rest.map (·.belonging)).count b
      + (e.request.bind Move.gives?).toList.count b ≤ _
    rw [Option.elim_some]
    omega
  | @made m hrel hreq hgo =>
    have htaken := hnote m b
    -- the request has been made, and a failure that follows gives nothing up
    have hnone : ((e.carryOut m).1.conclude.request.bind Move.gives?) = none := by
      unfold conclude
      split <;> rfl
    have hreleases : (e.carryOut m).1.conclude.releases = [] := by
      unfold conclude
      split <;> exact hrel
    rw [committed, hreq, hrel, List.map_nil, List.count_nil, Option.bind_some] at hb
    rw [committed, hnone, hreleases, conclude_owned, Option.elim_some]
    show (e.owned.map (·.2)).count b + 0 + 0 ≤ _
    omega

/-- **Nothing is owned that is not there, after every act that is possible.** -/
theorem Conserved.step (h : e.Conserved l) (hrecord : e.Recorded l) (hs : e.Sound) {a : Act S V H}
    (ha : e.admits a = true) : (e.step a).1.Conserved (note l e a) := by
  have hpermits := ((Bool.and_eq_true _ _).mp ha).1
  unfold note asks Estate.step
  rw [if_pos hpermits]
  cases a with
  | make m =>
    dsimp only
    rw [if_pos hpermits, ← undertake_store e m]
    exact (h.undertake hrecord hs hpermits).attend (hrecord.undertake m) (hs.undertake ha)
  | entrust o b =>
    intro b'
    simp only [permits, Bool.and_eq_true] at hpermits
    have hsettled : e.request = none := Option.isNone_iff_eq_none.mp hpermits.1.1.1.2
    have hlt := hrecord.lt_count_of_isFree hs hpermits.2
    have hb := h b'
    rw [committed, (hs.settled hsettled).1, hsettled, Option.bind_none] at hb
    show ((e.owned ++ [(o, b)]).map (·.2)).count b' + (e.releases.map (·.belonging)).count b'
      + (e.request.bind Move.gives?).toList.count b' ≤ l.count b'
    rw [(hs.settled hsettled).1, hsettled, Option.bind_none, List.map_append, List.count_append]
    by_cases hbb : b = b'
    · subst hbb
      simpa using hlt
    · simpa [List.count_singleton, hbb] using hb
  | reclaim o b =>
    intro b'
    have hb := h b'
    simp only [permits, Bool.and_eq_true] at hpermits
    have hmoved := count_erase_owned (List.contains_iff_mem.mp hpermits.2) b'
    rw [committed, ← hmoved] at hb
    exact le_trans (Nat.add_le_add_right (Nat.add_le_add_right (Nat.le_add_right _ _) _) _) hb

/-- **In every run, nothing is owned or being given up that is not there.** -/
theorem Conserved.after (h : e.Conserved l) (hrecord : e.Recorded l) (hs : e.Sound)
    {as : List (Act S V H)} (hrun : e.Feasible as) : (e.after as).Conserved (e.holdings l as) := by
  induction as generalizing e l with
  | nil => exact h
  | cons a as ih =>
    exact ih (h.step hrecord hs hrun.1) (hrecord.step hs hrun.1) (hs.step hrun.1) hrun.2

end Committed

/-! ## What is under way ends -/

section Endings

variable [DecidableEq V] {e : Estate S V H} {l : Holdings S V} {o : ObserverId}

/-- A subscription that ends while nothing is being taken out of its list is gone. -/
theorem Recorded.gone_of_unsubscribe (h : e.Recorded l) (hs : e.Sound)
    (hasked : e.asked = some (.observe (.unsubscribe o)))
    (hheld : ∃ x ∈ l.subscriptions, x.id = o ∧ x.standing = .held) (hfree : e.isStuck o = false) :
    e.attend.1.store.Gone o := by
  have hnext := h.attend hs
  rw [hasked] at hnext
  have hstuck : e.attend.1.stuck = e.stuck := by
    rw [attend_stuck, hasked, Option.elim_some, sticks, hfree]
    exact List.append_nil _
  obtain ⟨x, hx, rfl, hstanding⟩ := hheld
  have hends : x.settle x.id .dropped ∈ (l.settle x.id .dropped).subscriptions :=
    List.mem_map_of_mem hx
  have hdropped : (x.settle x.id .dropped).standing = .dropped := by
    simp [Subscription.settle, hstanding]
  have hgone := hnext.registered.gone hnext.accounted (List.mem_map_of_mem hends)
    (Or.inl (Subscription.relist_dropped.mpr ⟨hdropped, ?_⟩))
  · rwa [Subscription.relist_id, Subscription.settle_id] at hgone
  · rw [hstuck, Subscription.settle_id]
    exact h.not_mem_stuck hx hstanding

/-- Until the caller has ended the subscription, this is what is under way. -/
theorem Conserved.ends (h : e.Conserved l) (hrecord : e.Recorded l) (hs : e.Sound)
    (hreq : e.request = some (.observe (.unsubscribe o))) :
    e.attend.1.request = some (.observe (.unsubscribe o)) ∨ e.attend.1.store.Gone o := by
  by_cases hasked : e.asked = some (.observe (.unsubscribe o)) ∧ e.releases = []
  · refine Or.inr (hrecord.gone_of_unsubscribe hs hasked.1 (Holdings.exists_held ?_)
      (isStuck_eq_false hasked.2 o))
    have hcommitted := h (.subscription o)
    rw [committed, hreq] at hcommitted
    refine lt_of_lt_of_le ?_ ((Nat.le_add_left _ _).trans hcommitted)
    exact Nat.lt_of_lt_of_eq Nat.one_pos (List.count_singleton_self ..).symm
  · refine Or.inl ?_
    have hcases := e.attended
    generalize e.asked = x, e.attend.1 = u, e.attend.2 = es at hcases hasked ⊢
    cases hcases with
    | idle | given | released => exact hreq
    | made hrel hreq' =>
      rw [hreq] at hreq'
      cases hreq'
      exact absurd ⟨rfl, hrel⟩ hasked

/-- The moves of the store leave alone who is gone. -/
theorem Sound.gone_step (hs : e.Sound) (hgone : e.store.Gone o) {a : Act S V H}
    (ha : e.admits a = true) : (e.step a).1.store.Gone o := by
  rw [(e.step_store a).1]
  cases hm : e.makes a with
  | none => exact hgone
  | some m =>
    have hu := hs.steady.upshot (hs.admits_makes ha hm)
    exact hgone.keep (hu.entries hs.steady.toSound)

/-- Who is gone stays gone. -/
theorem Sound.gone_after (hs : e.Sound) (hgone : e.store.Gone o) {as : List (Act S V H)}
    (hrun : e.Feasible as) : (e.after as).store.Gone o := by
  induction as generalizing e with
  | nil => exact hgone
  | cons a as ih => exact ih (hs.step hrun.1) (hs.gone_step hgone hrun.1) hrun.2

/-- A subscription that is being ended is so until its entry is gone. -/
theorem Conserved.ends_step (h : e.Conserved l) (hrecord : e.Recorded l) (hs : e.Sound)
    (hends : e.request = some (.observe (.unsubscribe o)) ∨ e.store.Gone o) {a : Act S V H}
    (ha : e.admits a = true) :
    (e.step a).1.request = some (.observe (.unsubscribe o)) ∨ (e.step a).1.store.Gone o := by
  rcases hends with hreq | hgone
  · have hpermits := ((Bool.and_eq_true _ _).mp ha).1
    have hbusy : e.isSettled = false := by rw [isSettled, hreq]; rfl
    cases a with
    | make m =>
      have hstep : (e.step (.make m)).1 = e.attend.1 := by
        unfold Estate.step
        rw [if_pos hpermits]
        simp [Estate.undertake, hbusy]
      rw [hstep]
      exact h.ends hrecord hs hreq
    | entrust | reclaim => simp [permits, hbusy] at hpermits
  · exact Or.inr (hs.gone_step hgone ha)

/-- A subscription that is being ended is so, or its entry is gone, after every run. -/
theorem Conserved.ends_after (h : e.Conserved l) (hrecord : e.Recorded l) (hs : e.Sound)
    (hends : e.request = some (.observe (.unsubscribe o)) ∨ e.store.Gone o)
    {as : List (Act S V H)} (hrun : e.Feasible as) :
    (e.after as).request = some (.observe (.unsubscribe o)) ∨ (e.after as).store.Gone o := by
  induction as generalizing e l with
  | nil => exact hends
  | cons a as ih =>
    obtain ⟨ha, hrun⟩ := hrun
    exact ih (h.step hrecord hs ha) (hrecord.step hs ha) (hs.step ha)
      (h.ends_step hrecord hs hends ha) hrun

/-- **Once nothing is under way, a subscription that the caller has ended is gone.** -/
theorem Conserved.unsubscribed (h : e.Conserved l) (hrecord : e.Recorded l) (hs : e.Sound)
    {as : List (Act S V H)} (hrun : e.Feasible (.make (.observe (.unsubscribe o)) :: as))
    (hsettled : (e.after (.make (.observe (.unsubscribe o)) :: as)).isSettled = true) :
    (e.after (.make (.observe (.unsubscribe o)) :: as)).store.Gone o := by
  obtain ⟨ha, hrun⟩ := hrun
  have hpermits := ((Bool.and_eq_true _ _).mp ha).1
  have hidle := settled_of_permits hpermits rfl
  let e' : Estate S V H := e.undertake (.observe (.unsubscribe o))
  have hreq : e'.request = some (.observe (.unsubscribe o)) := by simp [e', Estate.undertake, hidle]
  have hstep : (e.step (.make (.observe (.unsubscribe o)))).1 = e'.attend.1 := by
    unfold Estate.step
    rw [if_pos hpermits]
  have hfirst : e'.attend.1.request = some (.observe (.unsubscribe o)) ∨ e'.attend.1.store.Gone o :=
    (h.undertake hrecord hs hpermits).ends (hrecord.undertake _) (hs.undertake ha) hreq
  rw [← hstep] at hfirst
  refine ((h.step hrecord hs ha).ends_after (hrecord.step hs ha) (hs.step ha) hfirst
    hrun).resolve_left fun hbusy => ?_
  rw [after_cons, isSettled, hbusy] at hsettled
  cases hsettled

/-- What is still to be done: two ticks for what is owned, one for what is being given up, and those
for the move that was begun. -/
def burden (e : Estate S V H) : Nat :=
  2 * e.owned.length + e.releases.length
    + match e.request with
      | none => 0
      | some m => if m.isFailure then 1 else 2

/-- **Attending to a request lightens the burden.** -/
theorem burden_attend (hbusy : e.isSettled = false) : e.attend.1.burden < e.burden := by
  have hcases := e.attended
  generalize e.asked = x, e.attend.1 = u, e.attend.2 = es at hcases ⊢
  cases hcases with
  | idle hdue =>
    -- there is a request, or something to be given up
    unfold due? at hdue
    split at hdue
    · cases hdue
    · rw [isSettled, hdue] at hbusy
      cases hbusy
  | @given m o b hdue hgo =>
    have hmem := mem_owned_of_firstToGo? hgo
    have hlength := List.length_erase_of_mem hmem
    have hpos := List.length_pos_of_mem hmem
    simp only [burden, List.length_cons, hlength]
    omega
  | @released r rest hrel hgo =>
    simp only [burden, carryOut, hrel, List.length_cons]
    omega
  | @made m hrel hreq hgo =>
    unfold conclude
    split
    · next hfails =>
      -- a failure leaves nothing on the stack
      have hm : m.isFailure = false := by
        by_contra hfailure
        obtain rfl : m = .panic := by
          cases m with
          | panic => rfl
          | tick | change | observe | ret | enter | leave => exact absurd rfl hfailure
        have hst := ((Bool.and_eq_true _ _).mp hfails).2
        have heff : e.effective .panic = .panic := rfl
        rw [carryOut_store, heff, Store.step_panic, Store.panic_stack] at hst
        cases hst
      have hpanic : (Move.panic : Move S V H).isFailure = true := rfl
      simp [burden, carryOut, hrel, hreq, hm, hpanic]
    · simp only [burden, carryOut, hreq]
      split <;> omega

/-- **What is under way ends after finitely many ticks, if the program does not.** -/
theorem Sound.settles (hs : e.Sound) : ∃ n, e.Feasible (List.replicate n (.make .tick)) ∧
    ((e.after (List.replicate n (.make .tick))).isSettled = true ∨
      (e.after (List.replicate n (.make .tick))).aborted = true) := by
  generalize hn : e.burden = n
  induction n using Nat.strong_induction_on generalizing e with
  | _ n ih =>
    by_cases hend : e.isSettled = true ∨ e.aborted = true
    · exact ⟨0, trivial, hend⟩
    · obtain ⟨hbusy, hgoes⟩ := not_or.mp hend
      have hbusy := Bool.eq_false_iff.mpr hbusy
      have hpermits : e.permits (.make .tick) = true := by
        simp [permits, hbusy, Bool.eq_false_iff.mpr hgoes, Move.isTick]
      have hadmits : e.admits (.make .tick) = true := by simp [admits, hpermits, hbusy]
      have hstep : (e.step (.make .tick)).1 = e.attend.1 := by
        unfold Estate.step
        rw [if_pos hpermits]
        simp [Estate.undertake, hbusy]
      -- every tick gives something up, or makes a move that was waiting
      have hless : (e.step (.make .tick)).1.burden < n := by
        rw [hstep, ← hn]
        exact burden_attend hbusy
      obtain ⟨k, hrun, hdone⟩ := ih _ hless (hs.step hadmits) rfl
      exact ⟨k + 1, ⟨hadmits, hrun⟩, hdone⟩

end Endings

end Estate

end LiveDesk.Observable
