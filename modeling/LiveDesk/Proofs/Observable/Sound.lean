import LiveDesk.Proofs.Observable.Ticks

/-!
# Sound stores

In every run, panics included, the observer lists, the living projections and the stack fit
together.

- `Store.Sound`: the store is wired, and its stack fits.
- `Sound.sweep`, `Sound.told`, …: what the operations of a store keep.
- **`Sound.step`**: every move keeps it.
-/

namespace LiveDesk.Observable

namespace Store

variable {S V H : Type}

/-- The observer lists, the living projections and the stack fit together. -/
structure Sound (s : Store S V H) : Prop where
  wired : s.Wired
  stacked : s.Stacked

/-- The snapshot that a change makes current. -/
def following (s : Store S V H) (c : Change S) : Snapshot S :=
  { version := s.current.version + 1, state := c.apply s.initial s.current.state }

/-- A change that is queued leaves the lists as they are. -/
theorem sameLists_queued (s : Store S V H) (c : Change S) (st : List (Frame S V H)) :
    s.SameLists { s with
      current := s.following c
      channel := { s.channel.push (s.following c) with publishing := true }
      stack := st } := by
  refine ⟨rfl, ?_, rfl, rfl⟩
  funext src
  cases src <;> rfl

/-- While the caller's code has control, no delivery is on top. -/
theorem isWaiting_eq_true {s : Store S V H} (h : s.isWaiting = true) :
    ∀ f below, s.stack = f :: below → f.delivery? = none := by
  intro f below hst
  unfold isWaiting at h
  rw [hst] at h
  cases f <;> simp_all [Frame.delivery?]

/-- While it has not, one is. -/
theorem delivers_of_not_isWaiting {s : Store S V H} (h : ¬ s.isWaiting = true) :
    ∃ d below, s.Delivers d below := by
  unfold isWaiting at h
  split at h
  · next now below hst => exact ⟨_, below, _, rfl, hst⟩
  · next p now below hst => exact ⟨_, below, _, rfl, hst⟩
  · exact absurd rfl h

/-- An entry added to the list of a living projection. -/
theorem observersOf_add {s : Store S V H} {p : ProjectionId}
    (halive : (s.link? p).isSome = true) (e : Observer) (src : Source) :
    (s.modifyChannel p (·.add e)).observersOf src
      = if src = .view p then s.observersOf src ++ [e] else s.observersOf src := by
  obtain ⟨l, hl⟩ := Option.isSome_iff_exists.mp halive
  obtain ⟨q, hq, -, -⟩ := get?_of_link? hl
  cases src with
  | store => rfl
  | view r =>
    rw [observersOf, get?_modifyChannel, observersOf]
    by_cases hr : r = p
    · simp [hr, hq, Channel.add]
    · simp [hr]

namespace Stacked

variable {s t : Store S V H}

/-- A delivery begins. -/
theorem start (h : s.Stacked) {f : Frame S V H} {src : Source}
    (hf : f.delivery? = some ⟨src, none⟩) (hst : t.stack = f :: s.stack)
    (hl : t.link? = s.link?) (ho : t.observersOf = s.observersOf)
    (hn : t.nextObserver = s.nextObserver)
    (hb : ∀ x, t.isPublishing x = true ↔ x = src ∨ s.isPublishing x = true)
    (hlay : Layered t.stack) (hnest : Nested s.link? (src :: s.sources))
    (halive : ∀ p, f.keeps p = true → (s.link? p).isSome = true) : t.Stacked := by
  have hdel : t.deliveries = ⟨src, none⟩ :: s.deliveries := by
    rw [deliveries, hst, List.filterMap_cons_some hf, deliveries]
  have hfu := Frame.unborn?_of_delivery? hf
  have hunborn : t.unborn = s.unborn := by
    rw [unborn, hst, List.filterMap_cons_none hfu, unborn]
  have hsrc : t.sources = src :: s.sources := by rw [sources, hdel, List.map_cons, sources]
  refine ⟨hlay, ?_, ?_, ?_, ?_, ?_, ?_, ?_⟩
  · rw [hsrc, hl]
    exact hnest
  · intro x
    rw [hb, hsrc, List.mem_cons, h.busy]
  · intro g hg p hk
    rw [hst] at hg
    rw [hl]
    rcases List.mem_cons.mp hg with rfl | hg
    · exact halive p hk
    · exact h.alive hg hk
  · rw [hunborn]
    exact h.unbornOnce
  · intro o hmem
    rw [hunborn] at hmem
    rw [hn]
    exact h.unbornFresh hmem
  · intro o hmem x e he
    rw [hunborn] at hmem
    rw [ho] at he
    exact h.unbornAbsent hmem he
  · intro d hd signal rest hnow
    rw [hdel] at hd
    rcases List.mem_cons.mp hd with rfl | hd
    · cases hnow
    · have := h.telling hd hnow
      refine ⟨this.distinct, this.ordered, ?_, ?_⟩
      · rw [hn, hunborn]
        exact this.fresh
      · rw [ho]
        exact this.same

/-- The innermost delivery ends. -/
theorem finish (h : s.Stacked)
    (holder : ∀ {p l r}, s.link? p = some l → l.1.source = .view r → r < p)
    {f : Frame S V H} {d : Delivery S V} (hf : f.delivery? = some d)
    (hst : s.stack = f :: t.stack) (hl : t.link? = s.link?)
    (ho : t.observersOf = s.observersOf) (hn : t.nextObserver = s.nextObserver)
    (hb : ∀ x, t.isPublishing x = true ↔ x ≠ d.source ∧ s.isPublishing x = true) :
    t.Stacked := by
  have hdel : s.deliveries = d :: t.deliveries := by
    rw [deliveries, hst, List.filterMap_cons_some hf, deliveries]
  have hfu := Frame.unborn?_of_delivery? hf
  have hunborn : s.unborn = t.unborn := by
    rw [unborn, hst, List.filterMap_cons_none hfu, unborn]
  have hsrc : s.sources = d.source :: t.sources := by rw [sources, hdel, List.map_cons, sources]
  have hnest := h.nested
  rw [hsrc] at hnest
  -- what the rest of the stack refers to was referred to before
  have hmem : ∀ {g}, g ∈ t.stack → g ∈ s.stack := by
    intro g hg
    rw [hst]
    exact List.mem_cons_of_mem _ hg
  refine ⟨?_, ?_, ?_, ?_, ?_, ?_, ?_, ?_⟩
  · have hlay := h.layered
    rw [hst] at hlay
    exact (hlay.driven_of_delivery (by rw [hf]; rfl)).tail
  · rw [hl]
    exact hnest.tail
  · intro x
    rw [hb, h.busy, hsrc, List.mem_cons]
    constructor
    · rintro ⟨hne, rfl | hx⟩
      · exact absurd rfl hne
      · exact hx
    · intro hx
      refine ⟨?_, Or.inr hx⟩
      rintro rfl
      exact hnest.not_mem_tail holder hx
  · intro g hg p hk
    rw [hl]
    exact h.alive (hmem hg) hk
  · rw [← hunborn]
    exact h.unbornOnce
  · intro o ho'
    rw [← hunborn] at ho'
    rw [hn]
    exact h.unbornFresh ho'
  · intro o ho' x e he
    rw [← hunborn] at ho'
    rw [ho] at he
    exact h.unbornAbsent ho' he
  · intro d' hd signal rest hnow
    have := h.telling (hdel ▸ List.mem_cons_of_mem _ hd) hnow
    refine ⟨this.distinct, this.ordered, ?_, ?_⟩
    · rw [hn, ← hunborn]
      exact this.fresh
    · rw [ho]
      exact this.same

end Stacked

namespace Sound

variable {s t : Store S V H}

/-- A new store is sound. -/
theorem opening (initial : S) : (opening initial : Store S V H).Sound :=
  ⟨.opening initial, .opening initial⟩

/-! ## Projections that come and go -/

/-- **A projection that nothing refers to can go.** -/
theorem remove (h : s.Sound) {p : ProjectionId} {q : Projection S V} (hq : s.get? p = some q)
    (hpin : s.isPinned q = false) : (s.remove q).Sound := by
  obtain ⟨-, hkeep⟩ := isPinned_eq_false hpin
  -- a projection that is being emptied is pinned by the frame
  have hidle : s.isPublishing (.view q.id) = false := by
    rw [Bool.eq_false_iff]
    intro hpub
    obtain ⟨f, hf, hfk⟩ := keeps_of_mem_sources ((h.stacked.busy _).mp hpub)
    rw [hkeep f hf] at hfk
    cases hfk
  refine ⟨h.wired.remove hq hpin, h.stacked.regraph (by simp) (by simp) ?_ ?_ ?_⟩
  · funext src
    rw [isPublishing_remove]
    split
    · next hsrc => rw [hsrc, hidle]
    · rfl
  · intro f hf r hk
    rw [link?_remove, if_neg]
    rintro rfl
    rw [hkeep f hf] at hk
    cases hk
  · intro src e he
    exact Or.inr ⟨e, (mem_observersOf_remove.mp he).2.1, rfl, rfl⟩

/-- A sweep keeps a store sound. -/
theorem sweep (h : s.Sound) : s.sweep.Sound :=
  sweep_induction (fun _ _ _ ht hq hpin => ht.remove hq hpin) h

/-- **A projection can be added over a source that lives.** -/
theorem addProjection (h : s.Sound) (origin : Origin S V) (v : V)
    (hsource : ∀ p, origin.source = .view p → (s.link? p).isSome) :
    (s.addProjection origin v).Sound := by
  have hlt : ∀ p, (s.link? p).isSome = true → p ≠ s.nextProjection := by
    rintro p hp rfl
    obtain ⟨l, hl⟩ := Option.isSome_iff_exists.mp hp
    exact lt_irrefl _ (h.wired.named hl)
  refine ⟨h.wired.addProjection origin v hsource,
    h.stacked.regraph (by cases origin <;> rfl) (Nat.le_succ _) ?_ ?_ ?_⟩
  · funext src
    rw [isPublishing_addProjection]
    split
    · next hsrc =>
      -- nothing on the stack refers to a name that is not given
      rw [hsrc, eq_comm, Bool.eq_false_iff]
      intro hpub
      obtain ⟨f, hf, hfk⟩ := keeps_of_mem_sources ((h.stacked.busy _).mp hpub)
      exact hlt _ (h.stacked.alive hf hfk) rfl
    · rfl
  · intro f hf p hk
    rw [link?_addProjection, if_neg (hlt p (h.stacked.alive hf hk))]
  · intro src e he
    rw [observersOf_addProjection s origin v src hsource] at he
    split at he
    · cases he
    · split at he
      · rcases List.mem_append.mp he with he | he
        · exact Or.inr ⟨e, he, rfl, rfl⟩
        · rw [List.mem_singleton.mp he]
          exact Or.inl (h.stacked.stranger_of_le (Nat.le_refl _))
      · exact Or.inr ⟨e, he, rfl, rfl⟩

/-- Queues, values and handles do not matter. -/
theorem congr (h : s.Sound) (hsame : s.SameLists t) (hb : t.isPublishing = s.isPublishing)
    (hst : t.stack = s.stack) : t.Sound := by
  refine ⟨hsame.wired h.wired, h.stacked.regraph hst hsame.nextObserver.ge hb ?_ ?_⟩
  · intro f _ p _
    rw [hsame.link?]
  · intro src e he
    rw [hsame.observersOf] at he
    exact Or.inr ⟨e, he, rfl, rfl⟩

/-! ## The store's own steps -/

/-- A store that is delivering has a delivery on top of its stack. -/
theorem driven (h : s.Sound) {d : Delivery S V} {below : List (Frame S V H)}
    (htop : s.Delivers d below) : Driven s.stack := by
  obtain ⟨f, hf, hst⟩ := htop
  have hlay := h.stacked.layered
  rw [hst] at hlay ⊢
  exact hlay.driven_of_delivery (by rw [hf]; rfl)

/-- The delivery on top of the stack is the innermost one. -/
theorem deliveries_of_delivers {d : Delivery S V} {below : List (Frame S V H)}
    (htop : s.Delivers d below) :
    s.deliveries = d :: below.filterMap Frame.delivery? := by
  obtain ⟨f, hf, hst⟩ := htop
  rw [deliveries, hst, List.filterMap_cons_some hf]

theorem sources_of_delivers {d : Delivery S V} {below : List (Frame S V H)}
    (htop : s.Delivers d below) :
    s.sources = d.source :: (below.filterMap Frame.delivery?).map (·.source) := by
  rw [sources, deliveries_of_delivers htop, List.map_cons]

/-- The delivery on top gets to another point. -/
theorem redeliver (h : s.Sound) {d d' : Delivery S V} {below : List (Frame S V H)}
    (htop : s.Delivers d below) (hsame : s.SameLists t) (hb : t.isPublishing = s.isPublishing)
    (ht : t.Delivers d' below) (hsrc : d'.source = d.source)
    (htell : ∀ signal rest, d'.now = some (signal, rest) → s.Telling d'.source rest) :
    t.Sound := by
  refine ⟨hsame.wired h.wired, h.stacked.restack hsame hb ?_ ?_ ?_ ?_ ?_⟩
  · -- the shape of the stack does not depend on how far its deliveries are
    have hdriven := h.driven htop
    obtain ⟨f, hf, hst⟩ := htop
    obtain ⟨g, hg, hgt⟩ := ht
    rw [hst] at hdriven
    rw [hgt]
    exact .driven (hdriven.retop (by rw [hg]; rfl))
  · rw [sources_of_delivers ht, sources_of_delivers htop, hsrc]
  · intro g hg p hk
    obtain ⟨f, hf, hst⟩ := htop
    obtain ⟨f', hf', hgt⟩ := ht
    rw [hgt] at hg
    rw [hst]
    rcases List.mem_cons.mp hg with rfl | hg
    · refine ⟨f, List.mem_cons_self .., (Frame.keeps_iff_of_delivery? hf p).mpr ?_⟩
      rw [← hsrc]
      exact (Frame.keeps_iff_of_delivery? hf' p).mp hk
    · exact ⟨g, List.mem_cons_of_mem _ hg, hk⟩
  · obtain ⟨f, hf, hst⟩ := htop
    obtain ⟨f', hf', hgt⟩ := ht
    rw [unborn, hgt, List.filterMap_cons_none (Frame.unborn?_of_delivery? hf'), unborn, hst,
      List.filterMap_cons_none (Frame.unborn?_of_delivery? hf)]
  · intro e he signal rest hnow
    rw [deliveries_of_delivers ht] at he
    rcases List.mem_cons.mp he with rfl | he
    · exact htell signal rest hnow
    · refine h.stacked.telling ?_ hnow
      rw [deliveries_of_delivers htop]
      exact List.mem_cons_of_mem _ he

/-- The observers of a source, as they stand, can be told. -/
theorem telling (h : s.Sound) (src : Source) : s.Telling src (s.observersOf src) where
  distinct := h.wired.distinct src
  ordered hsrc := hsrc ▸ h.wired.ordered
  fresh hmem := ⟨h.wired.fresh hmem, fun hu => h.stacked.unbornAbsent hu hmem rfl⟩
  same hmem _ he hid := by rw [h.wired.eq_of_id he hmem hid]

/-- **Telling an observer keeps a store sound.** -/
theorem told [DecidableEq V] (h : s.Sound) {src : Source} {rest : List Source}
    (hsrc : s.sources = src :: rest) (hdriven : Driven s.stack) {o : Observer}
    {signal : Signal S V} {es : List (Event S V)} (ht : Told s src o signal t es) :
    t.Sound := by
  cases ht with
  | called _ hsame hb _ hst =>
    refine ⟨hsame.wired h.wired, h.stacked.restack hsame.toSameLists hb ?_ ?_ ?_ ?_ ?_⟩
    · rw [hst]
      have hnil : ∀ g ∈ ([] : List (Frame S V H)), g.isOwn = true := by simp
      exact .told hnil hdriven
    · rw [sources, deliveries, hst, sources, deliveries]
      rfl
    · intro f hf p hk
      rw [hst] at hf
      rcases List.mem_cons.mp hf with rfl | hf
      · cases hk
      · exact ⟨f, hf, hk⟩
    · rw [unborn, hst, unborn]
      exact .refl _
    · intro d hd signal rest hnow
      rw [deliveries, hst] at hd
      exact h.stacked.telling hd hnow
  | kept => exact h
  | @took p origin v w _ _ hl hos _ _ _ hsame _ _ _ hb _ hst =>
    refine ⟨hsame.wired h.wired,
      h.stacked.start (f := .emitting p none) rfl hst hsame.link?
        hsame.observersOf hsame.nextObserver hb ?_ ?_ ?_⟩
    · rw [hst]
      exact .driven (.inner rfl hdriven)
    · -- the new delivery lies on the one of its source
      rw [hsrc]
      have hnest := h.stacked.nested
      rw [hsrc] at hnest
      exact ⟨⟨p, _, rfl, hl, hos⟩, hnest⟩
    · intro r hk
      have : p = r := by simpa [Frame.keeps] using hk
      rw [← this, hl]
      rfl

/-- A projection that delivers lives. -/
theorem alive_of_delivers (h : s.Sound) {d : Delivery S V} {below : List (Frame S V H)}
    (htop : s.Delivers d below) (p : ProjectionId) (hp : d.source = .view p) :
    (s.link? p).isSome = true := by
  obtain ⟨f, hf, hst⟩ := htop
  refine h.stacked.alive (hst ▸ List.mem_cons_self ..) ?_
  exact (Frame.keeps_iff_of_delivery? hf p).mpr hp

/-- The observers behind the next one can still be told. -/
theorem telling_tail {src : Source} {o : Observer} {rest : List Observer}
    (h : s.Telling src (o :: rest)) : s.Telling src rest where
  distinct := h.distinct.of_cons
  ordered hsrc := (h.ordered hsrc).of_cons
  fresh ho := h.fresh (List.mem_cons_of_mem _ ho)
  same ho := h.same (List.mem_cons_of_mem _ ho)

/-- The next observer is told in a sound store, in which its entry leads where it did when the
delivery began. -/
theorem told_cases [DecidableEq V] (h : s.Sound) {src : Source} {signal : Signal S V}
    {o : Observer} {rest : List Observer} {below : List (Frame S V H)}
    (htop : s.Delivers ⟨src, some (signal, o :: rest)⟩ below)
    (hin : ∃ e ∈ s.observersOf src, e.id = o.id) (hsame : s.SameState t)
    (hb : t.isPublishing = s.isPublishing) (ht : t.Delivers ⟨src, some (signal, rest)⟩ below) :
    t.Sound ∧ (∃ e ∈ s.observersOf src, e.id = o.id ∧ e.target = o.target) ∧
      signal.Fits src ∧ t.isRunning o = false ∧
      Told t src o signal (t.tell o signal).1 (t.tell o signal).2 := by
  have hmem : ⟨src, some (signal, o :: rest)⟩ ∈ s.deliveries := by
    rw [deliveries_of_delivers htop]
    exact List.mem_cons_self ..
  have htelling := h.stacked.telling hmem rfl
  -- the delivery goes on behind the observer that is told
  have hsound : t.Sound := by
    refine h.redeliver htop hsame.toSameLists hb ht rfl ?_
    rintro signal rest heq
    cases heq
    exact telling_tail htelling
  have hfits : signal.Fits src := by
    obtain ⟨f, hf, -⟩ := htop
    exact Frame.fits_of_delivery? hf rfl
  obtain ⟨e, he, hid⟩ := hin
  have hentry : ∃ e ∈ s.observersOf src, e.id = o.id ∧ e.target = o.target :=
    ⟨e, he, hid, htelling.same (List.mem_cons_self ..) he hid⟩
  refine ⟨hsound, hentry, hfits, ?_⟩
  rw [← hsame.observersOf] at hentry
  exact tell_cases hsound.wired hsound.stacked (sources_of_delivers ht) (hsound.driven ht) hfits
    hentry

/-- A delivery ends in a sound store. -/
theorem ended (h : s.Sound) {f : Frame S V H} {d : Delivery S V} {below : List (Frame S V H)}
    (hf : f.delivery? = some d) (hst : s.stack = f :: below) (hsame : s.SameState t)
    (hb : ∀ x, t.isPublishing x = true ↔ x ≠ d.source ∧ s.isPublishing x = true)
    (ht : t.stack = below) : t.Sound := by
  have hpop : s.stack = f :: t.stack := by rw [hst, ht]
  exact ⟨hsame.wired h.wired,
    h.stacked.finish h.wired.older hf hpop hsame.link? hsame.observersOf hsame.nextObserver hb⟩

/-- **What the delivery does by itself keeps a store sound.** -/
theorem tick [DecidableEq V] (h : s.Sound) {d : Delivery S V} {below : List (Frame S V H)}
    (htop : s.Delivers d below) : s.tick.1.Sound := by
  have hcases := tick_cases htop (h.alive_of_delivers htop)
  generalize s.tick.1 = u, s.tick.2 = es at hcases ⊢
  cases hcases with
  | took _ hsame hb _ ht =>
    refine h.redeliver htop hsame.toSameLists hb ht rfl ?_
    rintro signal rest heq
    cases heq
    exact h.telling _
  | @passed src signal o rest t _ hsame hb _ ht =>
    have hmem : ⟨src, some (signal, o :: rest)⟩ ∈ s.deliveries := by
      rw [deliveries_of_delivers htop]
      exact List.mem_cons_self ..
    refine h.redeliver htop hsame.toSameLists hb ht rfl ?_
    rintro signal rest heq
    cases heq
    exact telling_tail (h.stacked.telling hmem rfl)
  | told hin hsame hb _ ht =>
    obtain ⟨hsound, -, -, -, hcases⟩ := h.told_cases htop hin hsame hb ht
    exact hsound.told (sources_of_delivers ht) (hsound.driven ht) hcases
  | done hsame hb _ ht =>
    refine h.redeliver htop hsame.toSameLists hb ht rfl ?_
    rintro signal rest heq
    cases heq
  | ended _ hsame hb _ hst hu =>
    obtain ⟨f, hf, hst'⟩ := htop
    have ht := h.ended hf hst' hsame hb hst
    rcases hu with rfl | rfl
    · exact ht
    · exact ht.sweep

/-! ## The caller's moves -/

/-- Publishing a snapshot keeps a store sound. -/
theorem change (h : s.Sound) (c : Change S) :
    (s.change c).1.Sound := by
  unfold Store.change
  dsimp only
  split
  · next hpub =>
    refine h.congr ?_ ?_ rfl
    · exact s.sameLists_queued c s.stack
    · funext src
      cases src with
      | store => exact hpub.symm
      | view => rfl
  · next hpub =>
    -- no delivery is under way, so the stack holds frames of the caller only
    have hnil : s.sources = [] := h.stacked.sources_eq_nil (Bool.eq_false_iff.mpr hpub)
    have hlists := s.sameLists_queued c (.publishing none :: s.stack)
    refine ⟨hlists.wired h.wired,
      h.stacked.start (f := .publishing none) rfl rfl hlists.link?
        hlists.observersOf rfl ?_ ?_ ?_ ?_⟩
    · intro src
      cases src with
      | store => simp [isPublishing]
      | view r => simp [isPublishing, get?]
    · have hown := h.stacked.layered.own_of_filterMap_eq_nil (List.map_eq_nil_iff.mp hnil)
      exact .driven (.outer rfl hown)
    · rw [hnil]
      rfl
    · intro p hk
      cases hk

theorem modify (h : s.Sound) (p : ProjectionId) (f : Projection S V → Projection S V)
    (hid : ∀ q, (f q).id = q.id) (ho : ∀ q, (f q).origin = q.origin)
    (he : ∀ q, (f q).entry = q.entry) (hc : ∀ q, (f q).channel = q.channel) :
    (s.modify p f).Sound :=
  h.congr ⟨link?_modify s p f hid ho he, observersOf_modify s p f hid fun q => by rw [hc],
    rfl, rfl⟩ (isPublishing_modify s p f hid fun q => by rw [hc]) rfl

theorem drop (h : s.Sound) (p : ProjectionId) : (s.drop p).Sound := by
  unfold Store.drop
  exact (h.modify p (fun q => { q with handles := q.handles - 1 }) (fun _ => rfl) (fun _ => rfl)
    (fun _ => rfl) fun _ => rfl).sweep

theorem share (h : s.Sound) (p : ProjectionId) : (s.share p).Sound := by
  unfold Store.share
  split
  · exact h
  · exact h.modify p (fun q => { q with handles := q.handles + 1 }) (fun _ => rfl)
      (fun _ => rfl) (fun _ => rfl) fun _ => rfl

theorem project (h : s.Sound) (select : S → V) : (s.project select).1.Sound :=
  h.addProjection (.store select) (select s.current.state) fun _ hp => by cases hp

theorem handled?_eq_some {p : ProjectionId} {q : Projection S V} (h : s.handled? p = some q) :
    s.get? p = some q :=
  (Option.filter_eq_some_iff.mp h).1

theorem chain (h : s.Sound) (source : ProjectionId) (select : V → V) :
    (s.chain source select).1.Sound := by
  unfold Store.chain
  split
  · exact h
  · next q hq =>
    refine h.addProjection (.view source select) (select q.value) fun p hp => ?_
    cases hp
    rw [link?_of_get? (handled?_eq_some hq)]
    rfl

theorem subscribe (h : s.Sound) : s.subscribe.Sound := by
  have hobs : ∀ src, s.subscribe.observersOf src
      = if src = .store then s.observersOf src ++ [⟨s.nextObserver, .subscriber, true⟩]
        else s.observersOf src := by
    intro src
    cases src <;> rfl
  refine ⟨h.wired.insert rfl hobs rfl (Nat.le_succ _) rfl (Nat.lt_succ_self _)
    (fun a ha => (h.wired.fresh ha).ne) fun _ a ha => h.wired.fresh ha,
    h.stacked.regraph rfl (Nat.le_succ _) ?_ (fun _ _ _ _ => rfl) ?_⟩
  · funext src
    cases src <;> rfl
  · intro src e he
    rw [hobs] at he
    split at he
    · rcases List.mem_append.mp he with he | he
      · exact Or.inr ⟨e, he, rfl, rfl⟩
      · rw [List.mem_singleton.mp he]
        exact Or.inl (h.stacked.stranger_of_le (Nat.le_refl _))
    · exact Or.inr ⟨e, he, rfl, rfl⟩

/-- A frame of the caller's own that refers to nothing new. -/
theorem pushOwn (h : s.Sound) (hwait : s.isWaiting = true) {f : Frame S V H}
    (hf : f.isOwn = true) (hu : f.unborn? = none) (hk : ∀ p, f.keeps p = false) :
    ({ s with stack := f :: s.stack } : Store S V H).Sound := by
  have hnone := Frame.delivery?_eq_none_of_isOwn hf
  have hsame := sameState_stack s (f :: s.stack)
  refine ⟨hsame.wired h.wired, h.stacked.restack hsame.toSameLists rfl ?_ ?_ ?_ ?_ ?_⟩
  · exact h.stacked.layered.push hf (isWaiting_eq_true hwait)
  · rw [sources, deliveries, List.filterMap_cons_none hnone, sources, deliveries]
  · intro g hg p hgk
    rcases List.mem_cons.mp hg with rfl | hg
    · rw [hk] at hgk
      cases hgk
    · exact ⟨g, hg, hgk⟩
  · rw [unborn, List.filterMap_cons_none hu, unborn]
  · intro d hd signal rest hnow
    rw [deliveries, List.filterMap_cons_none hnone] at hd
    exact h.stacked.telling hd hnow

/-- A frame that is no delivery can be taken from the top. -/
theorem pop (h : s.Sound) {f : Frame S V H} {below : List (Frame S V H)}
    (hst : s.stack = f :: below) (hf : f.delivery? = none) :
    ({ s with stack := below } : Store S V H).Sound := by
  have hsame := sameState_stack s below
  have hdel : ({ s with stack := below } : Store S V H).deliveries = s.deliveries := by
    rw [deliveries, deliveries, hst, List.filterMap_cons_none hf]
  refine ⟨hsame.wired h.wired, h.stacked.restack hsame.toSameLists rfl ?_ ?_ ?_ ?_ ?_⟩
  · have hlay := h.stacked.layered
    -- below the code of a subscriber lies the delivery that called it
    rw [hst] at hlay
    cases f with
    | callback o => exact .driven hlay.of_callback
    | replay | code => exact hlay.of_own rfl
    | publishing | emitting => cases hf
  · rw [sources, hdel, sources]
  · intro g hg p hk
    exact ⟨g, hst ▸ List.mem_cons_of_mem _ hg, hk⟩
  · rw [unborn, unborn, hst]
    exact (List.sublist_cons_self f below).filterMap _
  · intro d hd signal rest hnow
    rw [hdel] at hd
    exact h.stacked.telling hd hnow

/-- Calling a new subscriber keeps a store sound. -/
theorem watch (h : s.Sound) (hwait : s.isWaiting = true) (p : ProjectionId) :
    (s.watch p).1.Sound := by
  unfold Store.watch
  split
  · exact h
  · next q hq =>
    have hlink : s.link? p = some (q.origin, q.entry) := link?_of_get? (handled?_eq_some hq)
    have hst := h.stacked
    refine ⟨h.wired.congr rfl rfl rfl (Nat.le_succ _), ?_, ?_, ?_, ?_, ?_, ?_, ?_, ?_⟩
    · exact hst.layered.push rfl (isWaiting_eq_true hwait)
    · exact hst.nested
    · exact hst.busy
    · intro f hf r hk
      rcases List.mem_cons.mp hf with rfl | hf
      · have : p = r := by simpa [Frame.keeps] using hk
        show (s.link? r).isSome = true
        rw [← this, hlink]
        rfl
      · exact hst.alive hf hk
    · -- the name of the new subscriber was not given before
      show (s.nextObserver :: s.unborn).Nodup
      refine List.nodup_cons.mpr ⟨fun hmem => ?_, hst.unbornOnce⟩
      exact lt_irrefl _ (hst.unbornFresh hmem)
    · intro o ho
      show o < s.nextObserver + 1
      rcases List.mem_cons.mp (show o ∈ s.nextObserver :: s.unborn from ho) with rfl | ho
      · exact Nat.lt_succ_self _
      · exact Nat.lt_succ_of_lt (hst.unbornFresh ho)
    · intro o ho src e he
      rcases List.mem_cons.mp (show o ∈ s.nextObserver :: s.unborn from ho) with rfl | ho
      · exact (h.wired.fresh he).ne
      · exact hst.unbornAbsent ho he
    · intro d hd signal rest hnow
      have := hst.telling hd hnow
      refine ⟨this.distinct, this.ordered, fun {o} ho => ?_, this.same⟩
      refine ⟨Nat.lt_succ_of_lt (this.fresh ho).1, fun hu => ?_⟩
      rcases List.mem_cons.mp (show o.id ∈ s.nextObserver :: s.unborn from hu) with heq | hu
      · exact (this.fresh ho).1.ne heq
      · exact (this.fresh ho).2 hu

/-- A subscriber's entry can be added under a name that nothing goes by. -/
theorem insert (h : s.Sound) {p : ProjectionId} {o : ObserverId}
    (halive : (s.link? p).isSome = true) (ho : o < s.nextObserver) (hnew : s.Stranger o)
    (habsent : ∀ e ∈ s.observersOf (.view p), e.id ≠ o) :
    (s.modifyChannel p (·.add ⟨o, .subscriber, true⟩)).Sound := by
  have hobs := observersOf_add halive ⟨o, .subscriber, true⟩
  have hlink := link?_modify s p
    (fun q => { q with channel := q.channel.add ⟨o, .subscriber, true⟩ }) (fun _ => rfl)
    (fun _ => rfl) fun _ => rfl
  refine ⟨h.wired.insert hlink hobs rfl (Nat.le_refl _) rfl ho habsent (fun hp => by cases hp),
    h.stacked.regraph rfl (Nat.le_refl _) ?_ (fun _ _ _ _ => congrFun hlink _) ?_⟩
  · exact isPublishing_modify s p _ (fun _ => rfl) fun _ => rfl
  · intro src e he
    rw [hobs] at he
    split at he
    · rcases List.mem_append.mp he with he | he
      · exact Or.inr ⟨e, he, rfl, rfl⟩
      · rw [List.mem_singleton.mp he]
        exact Or.inl hnew
    · exact Or.inr ⟨e, he, rfl, rfl⟩

/-- A subscriber's code for its first value returns, and its entry is added. -/
theorem addReplayed (h : s.Sound) {o : ObserverId} {p : ProjectionId}
    {below : List (Frame S V H)} (hst : s.stack = .replay o p :: below) :
    (({ s with stack := below } : Store S V H).modifyChannel p
      (·.add ⟨o, .subscriber, true⟩)).Sound := by
  have hpop := h.pop hst rfl
  have hunborn : s.unborn = o :: ({ s with stack := below } : Store S V H).unborn := by
    rw [unborn, hst]
    rfl
  have hmem : o ∈ s.unborn := by
    rw [hunborn]
    exact List.mem_cons_self ..
  -- while the code ran, its name was kept free
  refine hpop.insert ?_ (h.stacked.unbornFresh hmem) ⟨?_, ?_⟩ ?_
  · exact h.stacked.alive (hst ▸ List.mem_cons_self ..) (by simp [Frame.keeps])
  · have := h.stacked.unbornOnce
    rw [hunborn] at this
    exact (List.nodup_cons.mp this).1
  · intro d hd signal rest hnow e he
    have hd' : d ∈ s.deliveries := by
      rw [deliveries, hst]
      exact hd
    rintro rfl
    exact ((h.stacked.telling hd' hnow).fresh he).2 hmem
  · intro e he
    have he' : e ∈ s.observersOf (.view p) := he
    exact h.stacked.unbornAbsent hmem he'

/-- The return of a subscriber's code keeps a store sound. -/
theorem ret (h : s.Sound) : s.ret.Sound := by
  unfold Store.ret
  split
  · next hst => exact h.pop hst rfl
  · next o p below hst => exact (h.addReplayed hst).sweep
  · exact h

/-- The entries that an ended subscription leaves. -/
theorem filterSurvivors (h : s.Sound) (o : ObserverId) :
    (s.editObservers (List.filter (survives o))).Sound := by
  have hlink := link?_editObservers s (List.filter (survives o))
  have hobs := observersOf_editObservers s (List.filter (survives o)) rfl
  refine ⟨h.wired.filter (survives o) hlink hobs rfl rfl ?_,
    h.stacked.regraph rfl (Nat.le_refl _) (isPublishing_editObservers s _)
      (fun _ _ _ _ => congrFun hlink _) ?_⟩
  · intro e p hp
    simp [survives, hp]
  · intro src e he
    rw [hobs] at he
    exact Or.inr ⟨e, List.mem_of_mem_filter he, rfl, rfl⟩

theorem mapLetGo (h : s.Sound) (o : ObserverId) :
    (s.editObservers (List.map (letGo o))).Sound := by
  have hlink := link?_editObservers s (List.map (letGo o))
  have hobs := observersOf_editObservers s (List.map (letGo o)) rfl
  refine ⟨h.wired.retag (letGo o) hlink hobs rfl rfl (letGo_id o) (letGo_target o) ?_,
    h.stacked.regraph rfl (Nat.le_refl _) (isPublishing_editObservers s _)
      (fun _ _ _ _ => congrFun hlink _) ?_⟩
  · intro e p hp
    simp [letGo, hp]
  · intro src e he
    rw [hobs] at he
    obtain ⟨a, ha, rfl⟩ := List.mem_map.mp he
    exact Or.inr ⟨a, ha, (letGo_id o a).symm, (letGo_target o a).symm⟩

end Sound

/-! ## Failures -/

/-- Ending a delivery in the middle changes nothing but the flag of its channel. -/
theorem abandon_sameState (s : Store S V H) (f : Frame S V H) : s.SameState (s.abandon f) := by
  cases f with
  | publishing => exact sameState_channel s _ rfl
  | emitting p =>
    exact sameState_modifyChannel s p (fun c => { c with publishing := false }) fun _ => rfl
  | callback | replay | code => exact sameState_stack s s.stack

/-- A delivery that is abandoned leaves its channel unmarked, and the others as they were. -/
theorem isPublishing_abandon {s : Store S V H} {f : Frame S V H} {src : Source} :
    (s.abandon f).isPublishing src = true ↔
      s.isPublishing src = true ∧ ∀ d, f.delivery? = some d → d.source ≠ src := by
  cases f with
  | publishing now =>
    cases src <;> simp [abandon, isPublishing, Frame.delivery?, get?]
  | emitting p now =>
    cases hq : s.get? p with
    | none =>
      -- a projection that is gone has no channel that could be marked
      have hp : s.isPublishing (.view p) = false := by simp [isPublishing, hq]
      have hsame : (s.abandon (.emitting p now)).isPublishing src = s.isPublishing src := by
        cases src with
        | store => rfl
        | view r =>
          rw [abandon, isPublishing, get?_modifyChannel, isPublishing]
          by_cases hr : r = p
          · simp [hr, hq]
          · simp [hr]
      rw [hsame]
      refine ⟨fun h => ⟨h, fun d hd => ?_⟩, fun h => h.1⟩
      simp only [Frame.delivery?, Option.some.injEq] at hd
      subst hd
      rintro rfl
      rw [hp] at h
      cases h
    | some q =>
      rw [abandon, isPublishing_modifyChannel hq, Function.update_apply]
      by_cases h : src = .view p
      · simp [h, Frame.delivery?]
      · simp [h, Frame.delivery?, Ne.symm h]
  | callback | replay | code => simp [abandon, Frame.delivery?]

/-- Ending every delivery of a stack clears the flags of their channels. -/
theorem foldl_abandon (st : List (Frame S V H)) (s : Store S V H) :
    s.SameState (st.foldl abandon s) ∧ ∀ src, (st.foldl abandon s).isPublishing src = true ↔
      s.isPublishing src = true ∧ src ∉ (st.filterMap Frame.delivery?).map (·.source) := by
  induction st generalizing s with
  | nil => exact ⟨sameState_stack s s.stack, fun src => by simp⟩
  | cons f st ih =>
    obtain ⟨hsame, hbusy⟩ := ih (s.abandon f)
    refine ⟨(abandon_sameState s f).trans hsame, fun src => ?_⟩
    rw [List.foldl_cons, hbusy, isPublishing_abandon]
    cases hf : f.delivery? with
    | none => simp [List.filterMap_cons_none hf]
    | some d =>
      rw [List.filterMap_cons_some hf, List.map_cons, List.mem_cons, not_or]
      simp only [Option.some.injEq, forall_eq', and_assoc, ne_comm (a := src), ne_eq]

namespace Sound

variable {s t : Store S V H}

/-- Before what nothing refers to is swept away, a failure leaves the lists as they were, no channel
marked, and nothing on the stack. -/
theorem giveUp (h : s.Sound) :
    ({ s.stack.foldl abandon s with stack := [] } : Store S V H).Sound := by
  obtain ⟨hsame, hbusy⟩ := foldl_abandon s.stack s
  have hlists := hsame.stack []
  -- exactly the channels that are being emptied were marked
  have hquiet : ∀ src, ¬ ({ s.stack.foldl abandon s with stack := [] } :
      Store S V H).isPublishing src = true := by
    intro src hp
    obtain ⟨hp, hnot⟩ := (hbusy src).mp hp
    exact hnot ((h.stacked.busy src).mp hp)
  refine ⟨hlists.wired h.wired, ⟨.idle (by simp), trivial, ?_, ?_, .nil, ?_, ?_, ?_⟩⟩
  · intro src
    simp [hquiet, sources, deliveries]
  · intro f hf
    cases hf
  · intro o ho
    cases ho
  · intro o ho
    cases ho
  · intro d hd
    cases hd

/-- A failure keeps a store sound. -/
theorem panic (h : s.Sound) : s.panic.Sound :=
  h.giveUp.sweep

/-- What only gives something up can be done at any time, and the rest while the caller's code has
control. -/
theorem perform (h : s.Sound) {m : Move S V H} (hm : m.givesUp = true ∨ s.isWaiting = true) :
    (s.perform m).1.Sound := by
  cases m with
  | tick => exact h
  | change c => exact h.change c
  | observe a =>
    cases a with
    | project select => exact h.project select
    | chain source select => exact h.chain source select
    | share p => exact h.share p
    | drop p => exact h.drop p
    | subscribe => exact h.subscribe
    | watch p => exact h.watch (hm.resolve_left (by simp [Move.givesUp])) p
    | unsubscribe o => exact (h.filterSurvivors o).sweep
    | detach o => exact (h.mapLetGo o).sweep
  | ret => exact h.ret
  | panic => exact h.panic
  | enter c =>
    exact h.pushOwn (hm.resolve_left (by simp [Move.givesUp])) rfl rfl fun _ => rfl
  | leave =>
    show s.leave.Sound
    unfold Store.leave
    split
    · next hst => exact h.pop hst rfl
    · exact h

/-- **Every move keeps a store sound.** -/
theorem step [DecidableEq V] (h : s.Sound) (m : Move S V H) : (s.step m).1.Sound := by
  unfold Store.step
  split
  · next hm => exact h.perform ((Bool.or_eq_true _ _).mp hm)
  · next hm =>
    split
    · obtain ⟨d, below, htop⟩ := delivers_of_not_isWaiting (by simpa [Move.givesUp] using hm)
      exact h.tick htop
    · exact h

end Sound

/-- Every run keeps a store sound. -/
theorem Sound.run [DecidableEq V] {s : Store S V H} (h : s.Sound) (ms : List (Move S V H)) :
    (s.run ms).1.Sound := by
  induction ms generalizing s with
  | nil => exact h
  | cons m ms ih => exact ih (h.step m)

end Store

end LiveDesk.Observable
