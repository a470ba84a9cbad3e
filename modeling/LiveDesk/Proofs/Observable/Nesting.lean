import LiveDesk.Proofs.Observable.Wiring

/-!
# How deliveries lie in one another

The control stack has a fixed shape. Frames of the caller are at the bottom; upon them lies the
delivery of the store's snapshots, if there is one, then the delivery of a projection that a
snapshot reached, then that of a projection over it, and so on. Above the innermost delivery there
is at most one subscriber's code, with the frames of what it does.

- `Driven`, `Layered`: the shape of a stack.
- `Nested`: every delivery lies on the delivery of its source, and the lowest is the store's.
- `Store.Stacked`: this, that a channel is marked as being emptied exactly while it is, and that the
  observers a delivery is still to tell are known by the same names in the list.
- **`Nested.lt`**: the projections that are being emptied are older than those they reach.
-/

namespace LiveDesk.Observable

variable {S V H : Type}

/-! ## The shape of a stack -/

/-- Deliveries lie upon one another, upon frames of the caller. -/
inductive Driven : List (Frame S V H) → Prop where
  | outer {f : Frame S V H} {below : List (Frame S V H)} :
    f.delivery?.isSome = true → (∀ g ∈ below, g.isOwn = true) → Driven (f :: below)
  | inner {f : Frame S V H} {below : List (Frame S V H)} :
    f.delivery?.isSome = true → Driven below → Driven (f :: below)

/-- The shape of every stack. -/
inductive Layered : List (Frame S V H) → Prop where
  /-- Nothing is being delivered. -/
  | idle {st : List (Frame S V H)} : (∀ g ∈ st, g.isOwn = true) → Layered st
  /-- The innermost delivery goes on next. -/
  | driven {st : List (Frame S V H)} : Driven st → Layered st
  /-- A subscriber's code runs, with what it began. -/
  | told {top : List (Frame S V H)} {o : ObserverId} {below : List (Frame S V H)} :
    (∀ g ∈ top, g.isOwn = true) → Driven below → Layered (top ++ .callback o :: below)

namespace Driven

theorem head {f : Frame S V H} {below : List (Frame S V H)} (h : Driven (f :: below)) :
    f.delivery?.isSome = true := by
  cases h <;> assumption

theorem tail {f : Frame S V H} {below : List (Frame S V H)} (h : Driven (f :: below)) :
    Layered below := by
  cases h with
  | outer _ hown => exact .idle hown
  | inner _ hbelow => exact .driven hbelow

/-- Another step of the delivery on top. -/
theorem retop {f g : Frame S V H} {below : List (Frame S V H)} (h : Driven (f :: below))
    (hg : g.delivery?.isSome = true) : Driven (g :: below) := by
  cases h with
  | outer _ hown => exact .outer hg hown
  | inner _ hbelow => exact .inner hg hbelow

/-- A stack with a delivery on top has deliveries. -/
theorem filterMap_ne_nil {st : List (Frame S V H)} (h : Driven st) :
    st.filterMap Frame.delivery? ≠ [] := by
  cases h with
  | outer hf _ | inner hf _ =>
    obtain ⟨d, hd⟩ := Option.isSome_iff_exists.mp hf
    simp [hd]

/-- No subscriber's code is under a delivery. -/
theorem not_callback {st : List (Frame S V H)} (h : Driven st) (o : ObserverId) :
    Frame.callback o ∉ st := by
  induction h with
  | outer hf hown =>
    rw [List.mem_cons, not_or]
    refine ⟨?_, fun hmem => ?_⟩
    · rintro rfl
      cases hf
    · cases hown _ hmem
  | inner hf _ ih =>
    rw [List.mem_cons, not_or]
    refine ⟨?_, ih⟩
    rintro rfl
    cases hf

end Driven

namespace Layered

/-- If a delivery is on top, no code of a subscriber is on the stack. -/
theorem driven_of_delivery {f : Frame S V H} {below : List (Frame S V H)}
    (h : Layered (f :: below)) (hf : f.delivery?.isSome = true) : Driven (f :: below) := by
  generalize hst : f :: below = st at h
  cases h with
  | idle hown =>
    subst hst
    have := Frame.delivery?_eq_none_of_isOwn (hown f (List.mem_cons_self ..))
    rw [this] at hf
    cases hf
  | driven h => exact h
  | @told top o below hown _ =>
    cases top with
    | nil =>
      simp only [List.nil_append, List.cons.injEq] at hst
      rw [hst.1] at hf
      cases hf
    | cons g top =>
      simp only [List.cons_append, List.cons.injEq] at hst
      have := Frame.delivery?_eq_none_of_isOwn (hown g (List.mem_cons_self ..))
      rw [hst.1, this] at hf
      cases hf

/-- Below the code of a subscriber is the delivery that called it. -/
theorem of_callback {o : ObserverId} {below : List (Frame S V H)}
    (h : Layered (.callback o :: below)) : Driven below := by
  generalize hst : .callback o :: below = st at h
  cases h with
  | idle hown =>
    subst hst
    cases hown _ (List.mem_cons_self ..)
  | driven h =>
    subst hst
    cases h.head
  | @told top _ _ hown hbelow =>
    cases top with
    | nil =>
      simp only [List.nil_append, List.cons.injEq] at hst
      exact hst.2 ▸ hbelow
    | cons g top =>
      simp only [List.cons_append, List.cons.injEq] at hst
      have := hown g (List.mem_cons_self ..)
      rw [← hst.1] at this
      cases this

/-- Below the caller's own code is a layered stack. -/
theorem of_own {f : Frame S V H} {below : List (Frame S V H)} (h : Layered (f :: below))
    (hf : f.isOwn = true) : Layered below := by
  generalize hst : f :: below = st at h
  cases h with
  | idle hown =>
    subst hst
    exact .idle fun g hg => hown g (List.mem_cons_of_mem _ hg)
  | driven h =>
    subst hst
    have := h.head
    rw [Frame.delivery?_eq_none_of_isOwn hf] at this
    cases this
  | @told top o below' hown hbelow =>
    cases top with
    | nil =>
      simp only [List.nil_append, List.cons.injEq] at hst
      rw [hst.1] at hf
      cases hf
    | cons g top =>
      simp only [List.cons_append, List.cons.injEq] at hst
      rw [hst.2]
      exact .told (fun g' hg' => hown g' (List.mem_cons_of_mem _ hg')) hbelow

/-- Where no delivery is on top, the caller can put a frame of its own. -/
theorem push {f : Frame S V H} {st : List (Frame S V H)} (h : Layered st) (hf : f.isOwn = true)
    (htop : ∀ g below, st = g :: below → g.delivery? = none) : Layered (f :: st) := by
  cases h with
  | idle hown =>
    refine .idle fun g hg => ?_
    rcases List.mem_cons.mp hg with rfl | hg
    · exact hf
    · exact hown g hg
  | driven h =>
    cases h with
    | outer hg _ | inner hg _ => rw [htop _ _ rfl] at hg; cases hg
  | @told top o below hown hbelow =>
    -- the frame belongs to what the subscriber's code began
    have htop : ∀ g ∈ f :: top, g.isOwn = true := by
      intro g hg
      rcases List.mem_cons.mp hg with rfl | hg
      · exact hf
      · exact hown g hg
    exact .told htop hbelow

/-- Without a delivery there are only frames of the caller. -/
theorem own_of_filterMap_eq_nil {st : List (Frame S V H)} (h : Layered st)
    (hnil : st.filterMap Frame.delivery? = []) : ∀ g ∈ st, g.isOwn = true := by
  cases h with
  | idle hown => exact hown
  | driven h => exact absurd hnil h.filterMap_ne_nil
  | told _ hbelow =>
    rw [List.filterMap_append, List.append_eq_nil_iff] at hnil
    exact absurd hnil.2 hbelow.filterMap_ne_nil

end Layered

/-! ## Deliveries and their sources -/

/-- Every delivery lies on the delivery of its source, and the lowest is the store's. -/
def Nested (link? : ProjectionId → Option (Origin S V × ObserverId)) : List Source → Prop
  | [] => True
  | [src] => src = .store
  | src :: outer :: rest =>
    (∃ p l, src = .view p ∧ link? p = some l ∧ l.1.source = outer) ∧ Nested link? (outer :: rest)

namespace Nested

variable {link? : ProjectionId → Option (Origin S V × ObserverId)}

theorem congr {link?' : ProjectionId → Option (Origin S V × ObserverId)} :
    ∀ {l : List Source}, (∀ p, .view p ∈ l → link?' p = link? p) → Nested link? l →
      Nested link?' l
  | [], _, _ => trivial
  | [_], _, h => h
  | src :: outer :: rest, hl, ⟨⟨p, l, hp, hlink, hsrc⟩, h⟩ => by
    refine ⟨⟨p, l, hp, ?_, hsrc⟩, congr (fun r hr => hl r (List.mem_cons_of_mem _ hr)) h⟩
    rw [hl p (hp ▸ List.mem_cons_self ..), hlink]

theorem tail {src : Source} {l : List Source} (h : Nested link? (src :: l)) : Nested link? l := by
  cases l with
  | nil => trivial
  | cons outer rest => exact h.2

/-- **Whatever is being delivered, the snapshots are.** -/
theorem store_mem : ∀ {l : List Source}, Nested link? l → l ≠ [] → .store ∈ l
  | [], _, hne => absurd rfl hne
  | [src], h, _ => by
    rw [show src = .store from h]
    exact List.mem_singleton.mpr rfl
  | _ :: _ :: _, h, _ => List.mem_cons_of_mem _ (store_mem h.2 (by simp))

/-- **The projections that are being emptied are older than those they reach.** -/
theorem lt (holder : ∀ {p l r}, link? p = some l → l.1.source = .view r → r < p) :
    ∀ {l : List Source} {src : Source} {p : ProjectionId} {k : Origin S V × ObserverId},
      Nested link? (src :: l) → link? p = some k → k.1.source = src →
      ∀ {r : ProjectionId}, .view r ∈ src :: l → r < p
  | [], src, p, k, h, hlink, hsrc, r, hr => by
    rw [show src = .store from h] at hr
    simp at hr
  | outer :: rest, src, p, k, ⟨⟨p', k', hp', hlink', hsrc'⟩, h⟩, hlink, hsrc, r, hr => by
    -- `p'` is the source of `p`, and everything below it is older than `p'`
    have hlt : p' < p := holder hlink (hsrc.trans hp')
    rcases List.mem_cons.mp hr with hr | hr
    · rw [hp'] at hr
      cases hr
      exact hlt
    · exact lt_trans (lt holder h hlink' hsrc' hr) hlt

/-- A projection over the innermost source is not being delivered. -/
theorem not_mem_of_link (holder : ∀ {p l r}, link? p = some l → l.1.source = .view r → r < p)
    {l : List Source} {src : Source} {p : ProjectionId} {k : Origin S V × ObserverId}
    (h : Nested link? (src :: l)) (hlink : link? p = some k) (hsrc : k.1.source = src) :
    .view p ∉ src :: l :=
  fun hmem => lt_irrefl p (lt holder h hlink hsrc hmem)

/-- No source is being emptied twice. -/
theorem not_mem_tail (holder : ∀ {p l r}, link? p = some l → l.1.source = .view r → r < p)
    {l : List Source} {src : Source} (h : Nested link? (src :: l)) : src ∉ l := by
  cases l with
  | nil => simp
  | cons outer rest =>
    -- the innermost source is a projection over the next one, so it is younger than all others
    obtain ⟨⟨p, k, rfl, hlink, hsrc⟩, h⟩ := h
    exact not_mem_of_link holder h hlink hsrc

end Nested

namespace Store

/-- The sources of the deliveries under way, the innermost first. -/
def sources (s : Store S V H) : List Source :=
  s.deliveries.map (·.source)

/-- The observers that a delivery of the source is still to tell are known by these names. -/
structure Telling (s : Store S V H) (src : Source) (rest : List Observer) : Prop where
  distinct : rest.Pairwise fun a b => a.id ≠ b.id
  ordered : src = .store → rest.Pairwise fun a b => a.id < b.id
  fresh : ∀ {o}, o ∈ rest → o.id < s.nextObserver ∧ o.id ∉ s.unborn
  same : ∀ {o}, o ∈ rest → ∀ {e}, e ∈ s.observersOf src → e.id = o.id → e.target = o.target

/-- The stack fits the observer lists and the flags. -/
structure Stacked (s : Store S V H) : Prop where
  layered : Layered s.stack
  nested : Nested s.link? s.sources
  /-- A channel is marked as being emptied exactly while it is. -/
  busy : ∀ src, s.isPublishing src = true ↔ src ∈ s.sources
  alive : ∀ {f}, f ∈ s.stack → ∀ {p}, f.keeps p = true → (s.link? p).isSome = true
  unbornOnce : s.unborn.Nodup
  unbornFresh : ∀ {o}, o ∈ s.unborn → o < s.nextObserver
  unbornAbsent : ∀ {o}, o ∈ s.unborn → ∀ {src e}, e ∈ s.observersOf src → e.id ≠ o
  telling : ∀ {d}, d ∈ s.deliveries → ∀ {signal rest}, d.now = some (signal, rest) →
    s.Telling d.source rest

/-- Two stores with the same entries and names. -/
structure SameLists (s t : Store S V H) : Prop where
  link? : t.link? = s.link?
  observersOf : t.observersOf = s.observersOf
  nextProjection : t.nextProjection = s.nextProjection
  nextObserver : t.nextObserver = s.nextObserver

theorem SameLists.trans {s t u : Store S V H} (h : s.SameLists t) (h' : t.SameLists u) :
    s.SameLists u where
  link? := h'.link?.trans h.link?
  observersOf := h'.observersOf.trans h.observersOf
  nextProjection := h'.nextProjection.trans h.nextProjection
  nextObserver := h'.nextObserver.trans h.nextObserver

theorem SameLists.wired {s t : Store S V H} (h : s.SameLists t) (hs : s.Wired) : t.Wired :=
  hs.congr h.link? h.observersOf h.nextProjection h.nextObserver.ge

/-- A name that nothing on the stack goes by. -/
def Stranger (s : Store S V H) (o : ObserverId) : Prop :=
  o ∉ s.unborn ∧ ∀ d ∈ s.deliveries, ∀ signal rest, d.now = some (signal, rest) →
    ∀ e ∈ rest, e.id ≠ o

/-- A delivery of a projection refers to it. -/
theorem keeps_of_mem_sources {s : Store S V H} {p : ProjectionId} (h : .view p ∈ s.sources) :
    ∃ f ∈ s.stack, f.keeps p = true := by
  obtain ⟨d, hd, hsrc⟩ := List.mem_map.mp h
  obtain ⟨f, hf, hfd⟩ := List.mem_filterMap.mp hd
  refine ⟨f, hf, ?_⟩
  cases f with
  | emitting q now =>
    simp only [Frame.delivery?, Option.some.injEq] at hfd
    subst hfd
    simp only [Source.view.injEq] at hsrc
    simp [Frame.keeps, hsrc]
  | publishing now =>
    simp only [Frame.delivery?, Option.some.injEq] at hfd
    subst hfd
    cases hsrc
  | callback | replay | code => simp [Frame.delivery?] at hfd

namespace Stacked

variable {s t : Store S V H}

theorem opening (initial : S) : (opening initial : Store S V H).Stacked where
  layered := .idle (by simp [Store.opening])
  nested := trivial
  busy src := by
    cases src <;> simp [isPublishing, sources, deliveries, get?, Store.opening, Channel.empty]
  alive h := by simp [Store.opening] at h
  unbornOnce := .nil
  unbornFresh h := by simp [unborn, Store.opening] at h
  unbornAbsent h := by simp [unborn, Store.opening] at h
  telling h := by simp [deliveries, Store.opening] at h

/-- A name that is not given yet is a stranger. -/
theorem stranger_of_le (h : s.Stacked) {o : ObserverId} (ho : s.nextObserver ≤ o) :
    s.Stranger o := by
  refine ⟨fun hmem => ?_, fun d hd signal rest hnow e he heq => ?_⟩
  · exact absurd (h.unbornFresh hmem) (Nat.not_lt.mpr ho)
  · have := ((h.telling hd hnow).fresh he).1
    rw [heq] at this
    exact absurd this (Nat.not_lt.mpr ho)

/-- If the store's channel is not marked, nothing is being delivered. -/
theorem sources_eq_nil (h : s.Stacked) (hp : s.isPublishing .store = false) : s.sources = [] := by
  by_contra hne
  have := (h.busy .store).mpr (h.nested.store_mem hne)
  rw [hp] at this
  cases this

/-- The lists may change under an unchanged stack, as long as the entries that are new have names
that nothing on the stack goes by. -/
theorem regraph (h : s.Stacked) (hst : t.stack = s.stack)
    (hn : s.nextObserver ≤ t.nextObserver) (hb : t.isPublishing = s.isPublishing)
    (hl : ∀ f ∈ s.stack, ∀ p, f.keeps p = true → t.link? p = s.link? p)
    (ho : ∀ src e, e ∈ t.observersOf src →
      s.Stranger e.id ∨ ∃ a ∈ s.observersOf src, a.id = e.id ∧ a.target = e.target) :
    t.Stacked := by
  -- what is being delivered and who is without an entry is read off the stack
  have hdel : t.deliveries = s.deliveries := by rw [deliveries, hst, deliveries]
  have hunborn : t.unborn = s.unborn := by rw [unborn, hst, unborn]
  have hsrc : t.sources = s.sources := by rw [sources, hdel, sources]
  refine ⟨?_, ?_, ?_, ?_, ?_, ?_, ?_, ?_⟩
  · rw [hst]
    exact h.layered
  · rw [hsrc]
    refine h.nested.congr fun p hp => ?_
    obtain ⟨f, hf, hkeep⟩ := keeps_of_mem_sources hp
    exact hl f hf p hkeep
  · intro src
    rw [hb, hsrc]
    exact h.busy src
  · intro f hf p hkeep
    rw [hst] at hf
    rw [hl f hf p hkeep]
    exact h.alive hf hkeep
  · rw [hunborn]
    exact h.unbornOnce
  · intro o hmem
    rw [hunborn] at hmem
    exact lt_of_lt_of_le (h.unbornFresh hmem) hn
  · intro o hmem src e he
    rw [hunborn] at hmem
    rcases ho src e he with hnew | ⟨a, ha, hid, -⟩
    · rintro rfl
      exact hnew.1 hmem
    · rw [← hid]
      exact h.unbornAbsent hmem ha
  · intro d hd signal rest hnow
    rw [hdel] at hd
    have htell := h.telling hd hnow
    refine ⟨htell.distinct, htell.ordered, fun hmem => ?_, fun {o} hmem {e} he hid => ?_⟩
    · rw [hunborn]
      exact ⟨lt_of_lt_of_le (htell.fresh hmem).1 hn, (htell.fresh hmem).2⟩
    · -- a new entry has another name than the observers still to be told
      rcases ho d.source e he with hnew | ⟨a, ha, hida, htarget⟩
      · exact absurd hid.symm (hnew.2 d hd signal rest hnow o hmem)
      · rw [← htarget]
        exact htell.same hmem ha (hida.trans hid)

/-- The stack may change over unchanged lists, as long as the deliveries stay those of the same
sources and nothing new is referred to. -/
theorem restack (h : s.Stacked) (hsame : s.SameLists t)
    (hb : t.isPublishing = s.isPublishing) (hlay : Layered t.stack)
    (hsrc : t.sources = s.sources)
    (hkeep : ∀ f ∈ t.stack, ∀ p, f.keeps p = true → ∃ g ∈ s.stack, g.keeps p = true)
    (hunborn : t.unborn.Sublist s.unborn)
    (htell : ∀ d ∈ t.deliveries, ∀ signal rest, d.now = some (signal, rest) →
      s.Telling d.source rest) : t.Stacked := by
  -- the shape of the stack is given; the rest speaks of lists that did not change
  refine ⟨hlay, ?_, ?_, ?_, ?_, ?_, ?_, ?_⟩
  · rw [hsrc, hsame.link?]
    exact h.nested
  · intro src
    rw [hb, hsrc]
    exact h.busy src
  · intro f hf p hk
    obtain ⟨g, hg, hgk⟩ := hkeep f hf p hk
    rw [hsame.link?]
    exact h.alive hg hgk
  · exact hunborn.nodup h.unbornOnce
  · intro o hmem
    rw [hsame.nextObserver]
    exact h.unbornFresh (hunborn.subset hmem)
  · intro o hmem src e he
    rw [hsame.observersOf] at he
    exact h.unbornAbsent (hunborn.subset hmem) he
  · intro d hd signal rest hnow
    have := htell d hd signal rest hnow
    refine ⟨this.distinct, this.ordered, fun hmem => ?_, fun hmem e he => ?_⟩
    · rw [hsame.nextObserver]
      exact ⟨(this.fresh hmem).1, fun hu => (this.fresh hmem).2 (hunborn.subset hu)⟩
    · rw [hsame.observersOf] at he
      exact this.same hmem he

end Stacked

end Store

end LiveDesk.Observable
