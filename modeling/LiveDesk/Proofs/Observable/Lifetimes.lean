import LiveDesk.Proofs.Observable.Sound

/-!
# How long a projection lives

A projection lives exactly as long as something refers to it: a handle, an entry of its list that is
held, or an activity under way. Every move that takes a reference away sweeps away what nothing
refers to any more.

- `Store.handles?`: the handles of a living projection.
- `Store.Pinned`: something refers to a projection.
- `Store.Swept`: something refers to every projection that lives.
- `Store.SameHolders`: stores in which the same entries and handles refer to the projections.
- **`Wired.swept`**: a sweep leaves only what something refers to.
- **`Swept.step`**, `Swept.run`: that is so after every move, and in every run.
-/

namespace LiveDesk.Observable

namespace Store

variable {S V H : Type}

/-- How many handles of a living projection the caller has. -/
def handles? (s : Store S V H) (p : ProjectionId) : Option Nat :=
  (s.get? p).map (·.handles)

/-- A handle, an entry that is held, or an activity under way refers to the projection. -/
def Pinned (s : Store S V H) (p : ProjectionId) : Prop :=
  (∃ n, s.handles? p = some n ∧ 0 < n) ∨ (∃ e ∈ s.observersOf (.view p), e.held = true) ∨
    ∃ f ∈ s.stack, f.keeps p = true

/-- Something refers to every projection that lives. -/
def Swept (s : Store S V H) : Prop :=
  ∀ p, (s.link? p).isSome = true → s.Pinned p

/-- A projection is pinned by its handles, by the entries that hold it, and by the frames at work.
-/
theorem isPinned_iff {s : Store S V H} {p : ProjectionId} {q : Projection S V}
    (hq : s.get? p = some q) : s.isPinned q = true ↔ s.Pinned p := by
  simp [isPinned, Pinned, handles?, observersOf, hq, get?_id hq, or_assoc]

/-- A projection that something refers to is not the one that is swept away. -/
theorem Pinned.ne {s : Store S V H} {p r : ProjectionId} {q : Projection S V} (h : s.Pinned p)
    (hq : s.get? r = some q) (hpin : s.isPinned q = false) : p ≠ q.id := by
  rintro rfl
  have hpinned := (isPinned_iff (get?_id hq ▸ hq)).mpr h
  rw [hpin] at hpinned
  cases hpinned

/-! ## Handles after a change -/

/-- Changing a record shows in its handles only. -/
theorem handles?_modify (s : Store S V H) (p r : ProjectionId)
    (f : Projection S V → Projection S V) (hid : ∀ q, (f q).id = q.id) :
    (s.modify p f).handles? r
      = if r = p then (s.get? r).map fun q => (f q).handles else s.handles? r := by
  rw [handles?, get?_modify s p r f hid]
  split
  · rw [Option.map_map]
    rfl
  · rfl

theorem handles?_modifyChannel (s : Store S V H) (p : ProjectionId) (f : Channel V → Channel V) :
    (s.modifyChannel p f).handles? = s.handles? := by
  funext r
  rw [handles?, get?_modifyChannel, handles?]
  split
  · rw [Option.map_map]
    rfl
  · rfl

/-- Editing the lists leaves the handles. -/
theorem handles?_editObservers (s : Store S V H) (edit : List Observer → List Observer) :
    (s.editObservers edit).handles? = s.handles? := by
  funext r
  rw [handles?, get?_editObservers, handles?]
  cases s.get? r <;> rfl

/-- A projection that goes has no handles any more, and the others keep theirs. -/
theorem handles?_remove (s : Store S V H) (q : Projection S V) (r : ProjectionId) :
    (s.remove q).handles? r = if r = q.id then none else s.handles? r :=
  read_remove s q r _ fun _ _ => rfl

/-- A new projection has one handle. -/
theorem handles?_addProjection (s : Store S V H) (origin : Origin S V) (v : V)
    (r : ProjectionId) :
    (s.addProjection origin v).handles? r
      = if r = s.nextProjection then some 1 else s.handles? r :=
  read_addProjection s origin v r _ fun _ _ => rfl

/-! ## Stores with the same references -/

/-- The same entries and the same handles. -/
structure SameHolders (s t : Store S V H) : Prop extends s.SameLists t where
  handles? : t.handles? = s.handles?

/-- Every projection that an activity under way refers to in the first store is referred to by one
in the second store. -/
def Engages (s t : Store S V H) : Prop :=
  ∀ {p f}, f ∈ s.stack → f.keeps p = true → ∃ g ∈ t.stack, g.keeps p = true

namespace SameHolders

variable {s t u : Store S V H}

theorem trans (h : s.SameHolders t) (h' : t.SameHolders u) : s.SameHolders u :=
  ⟨h.toSameLists.trans h'.toSameLists, h'.handles?.trans h.handles?⟩

theorem stack (s : Store S V H) (st : List (Frame S V H)) :
    s.SameHolders { s with stack := st } :=
  ⟨(sameState_stack s st).toSameLists, rfl⟩

theorem channel (s : Store S V H) (c : Channel (Snapshot S))
    (h : c.observers = s.channel.observers) : s.SameHolders { s with channel := c } :=
  ⟨(sameState_channel s c h).toSameLists, rfl⟩

/-- A change of a record that leaves its links, its list and its handles. -/
theorem modify (s : Store S V H) (p : ProjectionId) (f : Projection S V → Projection S V)
    (hid : ∀ q, (f q).id = q.id) (ho : ∀ q, (f q).origin = q.origin)
    (he : ∀ q, (f q).entry = q.entry) (hc : ∀ q, (f q).channel.observers = q.channel.observers)
    (hh : ∀ q, (f q).handles = q.handles) : s.SameHolders (s.modify p f) where
  link? := link?_modify s p f hid ho he
  observersOf := observersOf_modify s p f hid hc
  nextProjection := rfl
  nextObserver := rfl
  handles? := by
    funext r
    rw [handles?_modify s p r f hid]
    split
    · rw [Store.handles?, funext hh]
    · rfl

theorem modifyChannel (s : Store S V H) (p : ProjectionId) (f : Channel V → Channel V)
    (hf : ∀ c, (f c).observers = c.observers) : s.SameHolders (s.modifyChannel p f) :=
  modify s p _ (fun _ => rfl) (fun _ => rfl) (fun _ => rfl) (fun q => hf q.channel) fun _ => rfl

/-- A store stays swept while the entries, the handles and what is at work refer to the same
projections. -/
theorem swept (h : s.SameHolders t) (he : s.Engages t) (hs : s.Swept) : t.Swept := by
  intro p hp
  rw [h.link?] at hp
  rcases hs p hp with hn | hheld | ⟨f, hf, hk⟩
  · exact Or.inl (by rwa [h.handles?])
  · exact Or.inr (Or.inl (by rwa [h.observersOf]))
  · exact Or.inr (Or.inr (he hf hk))

/-- Ending every delivery of a stack takes no entry and no handle away. -/
theorem foldl_abandon (st : List (Frame S V H)) (s : Store S V H) :
    s.SameHolders (st.foldl abandon s) := by
  induction st generalizing s with
  | nil => exact stack s s.stack
  | cons f st ih =>
    refine trans ?_ (ih (s.abandon f))
    cases f with
    | publishing => exact channel s _ rfl
    | emitting p => exact modifyChannel s p (fun c => { c with publishing := false }) fun _ => rfl
    | callback | replay | code => exact stack s s.stack

end SameHolders

/-! ## A sweep -/

/-- Going down, what is above the bound stays referred to, since a projection is younger than its
source. -/
theorem Wired.swept_below {s : Store S V H} (h : s.Wired) {n : Nat}
    (habove : ∀ {p}, n ≤ p → (s.link? p).isSome = true → s.Pinned p) : (sweepBelow n s).Swept := by
  induction n generalizing s with
  | zero => exact fun p hp => habove (Nat.zero_le p) hp
  | succ n ih =>
    have hgrow : s.Pinned n ∨ s.get? n = none → ∀ {p}, n ≤ p → (s.link? p).isSome = true →
        s.Pinned p := by
      intro hn p hp hlive
      rcases Nat.eq_or_lt_of_le hp with rfl | hlt
      · refine hn.resolve_right fun hnone => ?_
        rw [link?, hnone] at hlive
        cases hlive
      · exact habove hlt hlive
    unfold sweepBelow
    split
    · next hnone => exact ih h (hgrow (Or.inr hnone))
    · next q hq =>
      split
      · next hpin => exact ih h (hgrow (Or.inl ((isPinned_iff hq).mp hpin)))
      · next hpin =>
        refine ih (h.remove hq (Bool.eq_false_iff.mpr hpin)) fun {p} hp hlive => ?_
        have hid := get?_id hq
        rw [link?_remove, hid] at hlive
        split at hlive
        · cases hlive
        next hne =>
        have hlt : n < p := lt_of_le_of_ne hp (Ne.symm hne)
        -- the list that loses an entry is the one of an older projection
        have hother : Source.view p ≠ q.origin.source := by
          intro hsrc
          exact absurd (h.older (link?_of_get? hq) hsrc.symm) (Nat.lt_asymm hlt)
        rcases habove hlt hlive with hn | hheld | hframe
        · exact Or.inl (by rwa [handles?_remove, hid, if_neg hne])
        · refine Or.inr (Or.inl ?_)
          rwa [observersOf_remove, if_neg (by simpa [hid] using hne), if_neg hother]
        · exact Or.inr (Or.inr (by rwa [remove_stack]))

/-- **A sweep leaves only what something refers to.** -/
theorem Wired.swept {s : Store S V H} (h : s.Wired) : s.sweep.Swept :=
  h.swept_below fun hp hlive => by
    obtain ⟨l, hl⟩ := Option.isSome_iff_exists.mp hlive
    exact absurd (h.named hl) (Nat.not_lt.mpr hp)

/-! ## Steps of a delivery -/

/-- What a step comes to for the references: entries and handles stay, and so does what an activity
refers to, or a sweep follows. -/
def Holds (s t : Store S V H) : Prop :=
  ∃ u, s.SameHolders u ∧ (t = u ∧ s.Engages u ∨ t = u.sweep)

namespace Holds

variable {s t : Store S V H}

/-- A move that leaves the holders. -/
theorem of_same (h : s.SameHolders t) (he : s.Engages t) : s.Holds t :=
  ⟨t, h, Or.inl ⟨rfl, he⟩⟩

theorem refl (s : Store S V H) : s.Holds s :=
  of_same (.stack s s.stack) fun hf hk => ⟨_, hf, hk⟩

/-- The frame on top may be another one that refers to the same. -/
theorem retop {f g : Frame S V H} {below : List (Frame S V H)} (hst : s.stack = f :: below)
    (hfg : ∀ p, g.keeps p = f.keeps p)
    (h : ({ s with stack := g :: below } : Store S V H).Holds t) : s.Holds t := by
  obtain ⟨w, hw, hcases⟩ := h
  refine ⟨w, (SameHolders.stack s _).trans hw, hcases.imp_left fun ⟨ht, he⟩ =>
    ⟨ht, fun {p f'} hf' hk => ?_⟩⟩
  rw [hst] at hf'
  rcases List.mem_cons.mp hf' with rfl | hmem
  · exact he (List.mem_cons_self ..) ((hfg p).trans hk)
  · exact he (List.mem_cons_of_mem _ hmem) hk

end Holds

section Ticks

variable [DecidableEq V]

/-- Taking a value leaves the holders. -/
theorem holds_accept (s : Store S V H) (q : Projection S V) (v : V) :
    s.Holds (s.accept q v).1 := by
  have hkept := SameHolders.modify s q.id
    (fun q => { q with value := v, channel := { q.channel.push v with publishing := true } })
    (fun _ => rfl) (fun _ => rfl) (fun _ => rfl) (fun _ => rfl) fun _ => rfl
  unfold accept
  split
  · exact .refl s
  · dsimp only
    split
    · exact .of_same hkept fun hf hk => ⟨_, hf, hk⟩
    · exact .of_same (hkept.trans (.stack _ _)) fun hf hk => ⟨_, List.mem_cons_of_mem _ hf, hk⟩

/-- Telling an observer leaves the holders, and what is told is there. -/
theorem holds_tell (s : Store S V H) (o : Observer) (signal : Signal S V) :
    s.Holds (s.tell o signal).1 := by
  unfold tell
  split
  · exact .refl s
  · split
    · exact .of_same (.stack s _) fun hf hk => ⟨_, List.mem_cons_of_mem _ hf, hk⟩
    · split
      · exact .refl s
      · split
        · exact .refl s
        · exact holds_accept s _ _

/-- One step of the delivery of snapshots leaves the holders. -/
theorem holds_publishStep {s : Store S V H} {below : List (Frame S V H)}
    {now : Option (Snapshot S × List Observer)} (hst : s.stack = .publishing now :: below) :
    s.Holds (s.publishStep below now).1 := by
  unfold publishStep
  split
  · next x o rest =>
    refine .retop (g := .publishing (some (x, rest))) hst (fun _ => rfl) ?_
    dsimp only
    split
    · exact holds_tell _ _ _
    · exact .refl _
  · exact .retop (g := .publishing none) hst (fun _ => rfl) (.refl _)
  · split
    · next x later _ =>
      refine .retop (g := .publishing (some (x, s.channel.observers))) hst (fun _ => rfl) ?_
      exact .of_same (.channel _ { s.channel with pending := later } rfl) fun hf hk => ⟨_, hf, hk⟩
    · -- the frame that goes refers to no projection
      refine .of_same ((SameHolders.channel s { s.channel with publishing := false } rfl).trans
        (.stack _ below)) fun {p f} hf hk => ?_
      rw [hst] at hf
      rcases List.mem_cons.mp hf with rfl | hf
      · cases hk
      · exact ⟨f, hf, hk⟩

theorem holds_emitStep {s : Store S V H} {p : ProjectionId} {below : List (Frame S V H)}
    {now : Option (V × List Observer)} (hst : s.stack = .emitting p now :: below) :
    s.Holds (s.emitStep below p now).1 := by
  unfold emitStep
  split
  · next v o rest =>
    refine .retop (g := .emitting p (some (v, rest))) hst (fun _ => rfl) ?_
    dsimp only
    split
    · exact holds_tell _ _ _
    · exact .refl _
  · exact .retop (g := .emitting p none) hst (fun _ => rfl) (.refl _)
  · split
    · exact ⟨_, .stack s below, Or.inr rfl⟩
    · next q _ =>
      split
      · next v later _ =>
        refine .retop (g := .emitting p (some (v, q.channel.observers))) hst (fun _ => rfl) ?_
        have hsame := SameHolders.modifyChannel s p (fun c => { c with pending := later })
          fun _ => rfl
        exact .of_same ⟨⟨hsame.link?, hsame.observersOf, rfl, rfl⟩, hsame.handles?⟩
          fun hf hk => ⟨_, hf, hk⟩
      · have hsame := SameHolders.modifyChannel s p (fun c => { c with publishing := false })
          fun _ => rfl
        exact ⟨_, hsame.trans (.stack _ below), Or.inr rfl⟩

/-- What the delivery does by itself leaves the holders. -/
theorem holds_tick (s : Store S V H) : s.Holds s.tick.1 := by
  unfold tick
  split
  · next hst => exact holds_publishStep hst
  · next hst => exact holds_emitStep hst
  · exact .refl s

end Ticks

/-- Publishing a snapshot leaves the holders. -/
theorem holds_change (s : Store S V H) (c : Change S) : s.Holds (s.change c).1 := by
  have hqueued : ∀ st, s.SameHolders { s with
      current := s.following c
      channel := { s.channel.push (s.following c) with publishing := true }
      stack := st } := fun st => ⟨s.sameLists_queued c st, rfl⟩
  unfold change
  dsimp only
  split
  · exact .of_same (hqueued s.stack) fun hf hk => ⟨_, hf, hk⟩
  · exact .of_same (hqueued _) fun hf hk => ⟨_, List.mem_cons_of_mem _ hf, hk⟩

/-! ## Every move -/

namespace Swept

variable {s t : Store S V H}

theorem opening (initial : S) : (opening initial : Store S V H).Swept := by
  intro p hp
  simp [link?, get?, Store.opening] at hp

/-- A store stays swept when what refers to its projections is the same. -/
theorem of_holds (h : s.Swept) (hs : s.Wired) (ht : s.Holds t) : t.Swept := by
  obtain ⟨u, hu, ⟨rfl, he⟩ | rfl⟩ := ht
  · exact hu.swept he h
  · exact (hu.toSameLists.wired hs).swept

/-- A new projection is held by its handle. -/
theorem addProjection (h : s.Swept) (origin : Origin S V) (v : V)
    (hsource : ∀ p, origin.source = .view p → (s.link? p).isSome = true) :
    (s.addProjection origin v).Swept := by
  intro p hp
  by_cases hnew : p = s.nextProjection
  · exact Or.inl ⟨1, by rw [handles?_addProjection, if_pos hnew], Nat.one_pos⟩
  · rw [link?_addProjection, if_neg hnew] at hp
    rcases h p hp with hn | ⟨e, he, hheld⟩ | hf
    · exact Or.inl (by rwa [handles?_addProjection, if_neg hnew])
    · refine Or.inr (Or.inl ⟨e, ?_, hheld⟩)
      rw [observersOf_addProjection s origin v _ hsource, if_neg (by simpa using hnew)]
      split
      · exact List.mem_append_left _ he
      · exact he
    · refine Or.inr (Or.inr ?_)
      have hstack : (s.addProjection origin v).stack = s.stack := by cases origin <;> rfl
      rwa [hstack]

/-- One more handle lets nothing go. -/
theorem share (h : s.Swept) (p : ProjectionId) : (s.share p).Swept := by
  unfold Store.share
  split
  · exact h
  · let more : Projection S V → Projection S V := fun q => { q with handles := q.handles + 1 }
    intro r hr
    rw [link?_modify s p more (fun _ => rfl) (fun _ => rfl) fun _ => rfl] at hr
    rcases h r hr with ⟨n, hn, hpos⟩ | hheld | hf
    · refine Or.inl ?_
      rw [handles?_modify s p r more fun _ => rfl]
      split
      · obtain ⟨q, hq, -⟩ := Option.map_eq_some_iff.mp hn
        exact ⟨q.handles + 1, by rw [hq]; rfl, Nat.succ_pos _⟩
      · exact ⟨n, hn, hpos⟩
    · exact Or.inr (Or.inl (by
        rwa [observersOf_modify s p more (fun _ => rfl) fun _ => rfl]))
    · exact Or.inr (Or.inr hf)

/-- Every observation leaves only what something refers to. -/
theorem observe (h : s.Swept) (hs : s.Sound) (a : Observation S V) : (s.observe a).1.Swept := by
  cases a with
  | project select =>
    exact h.addProjection (.store select) (select s.current.state) fun p hp => by cases hp
  | chain source select =>
    show (s.chain source select).1.Swept
    unfold Store.chain
    split
    · exact h
    · next q hq =>
      refine h.addProjection (.view source select) (select q.value) fun p hp => ?_
      cases hp
      rw [link?_of_get? (Sound.handled?_eq_some hq)]
      rfl
  | share p => exact h.share p
  | drop p =>
    exact (hs.modify p (fun q => { q with handles := q.handles - 1 }) (fun _ => rfl)
      (fun _ => rfl) (fun _ => rfl) fun _ => rfl).wired.swept
  | subscribe => exact h
  | watch p =>
    show (s.watch p).1.Swept
    unfold Store.watch
    split
    · exact h
    · intro r hr
      exact (h r hr).imp_right (Or.imp_right fun ⟨f, hf, hk⟩ => ⟨f, List.mem_cons_of_mem _ hf, hk⟩)
  | unsubscribe o => exact (hs.filterSurvivors o).wired.swept
  | detach o => exact (hs.mapLetGo o).wired.swept

/-- A frame that refers to no projection may go. -/
theorem pop (h : s.Swept) {f : Frame S V H} {below : List (Frame S V H)}
    (hst : s.stack = f :: below) (hf : ∀ p, f.keeps p = false) :
    ({ s with stack := below } : Store S V H).Swept := by
  refine (SameHolders.stack s below).swept (fun {p g} hg hk => ?_) h
  rw [hst] at hg
  rcases List.mem_cons.mp hg with rfl | hg
  · rw [hf] at hk
    cases hk
  · exact ⟨g, hg, hk⟩

/-- **Every move leaves a store in which something refers to every projection.** -/
theorem perform (h : s.Swept) (hs : s.Sound) (m : Move S V H) : (s.perform m).1.Swept := by
  cases m with
  | tick => exact h
  | change c => exact h.of_holds hs.wired (holds_change s c)
  | observe a => exact h.observe hs a
  | ret =>
    show s.ret.Swept
    unfold Store.ret
    split
    · next hst => exact h.pop hst fun _ => rfl
    · next hst => exact (hs.addReplayed hst).wired.swept
    · exact h
  | panic => exact hs.giveUp.wired.swept
  | enter c =>
    exact (SameHolders.stack s (.code c :: s.stack)).swept
      (fun hf hk => ⟨_, List.mem_cons_of_mem _ hf, hk⟩) h
  | leave =>
    show s.leave.Swept
    unfold Store.leave
    split
    · next hst => exact h.pop hst fun _ => rfl
    · exact h

variable [DecidableEq V]

/-- **After every move, something refers to every projection that lives.** -/
theorem step (h : s.Swept) (hs : s.Sound) (m : Move S V H) : (s.step m).1.Swept := by
  unfold Store.step
  split
  · exact h.perform hs m
  · split
    · exact h.of_holds hs.wired (holds_tick s)
    · exact h

/-- **So does every run.** -/
theorem run (h : s.Swept) (hs : s.Sound) (ms : List (Move S V H)) : (s.run ms).1.Swept := by
  induction ms generalizing s with
  | nil => exact h
  | cons m ms ih => exact ih (h.step hs m) (hs.step m)

end Swept

end Store

end LiveDesk.Observable
