import LiveDesk.Proofs.Observable.Replay

/-!
# What the values of a projection stem from

A projection derives its values from snapshots, or from the values of another projection, which
derives its own in turn. So every value stems from one snapshot, the one that was at hand when the
chain of projections got to it.

- `Derived`: a value with the snapshot that it stems from.
- `Store.note`, `Store.history`: what the projections derive in a run, read off the events.
- `held`: the values that a projection had, among those that it derived.
- `Store.Recorded`: a history fits the values and the selectors of the projections.
- **`Recorded.step`**: every possible move keeps it.
- **`Recorded.images`**: what a projection derives are the images of snapshots.
- **`Recorded.held_history`**: a projection has what it derives first, and then what it takes.
-/

namespace LiveDesk.Observable

variable {S V H : Type}

/-- A value with the snapshot that it stems from. -/
structure Derived (S V : Type) where
  stem : Snapshot S
  value : V

/-- What every projection derived, the oldest first. -/
abbrev History (S V : Type) := ProjectionId → List (Derived S V)

/-! ## The values that were held -/

section Held

variable [DecidableEq V]

/-- The values that a projection had: what it derives is dropped while it is the same. -/
def held (l : List (Derived S V)) : List (Derived S V) :=
  l.destutter fun a b => a.value ≠ b.value

/-- The values that are held never go back to one that stems from an older snapshot. -/
def Ascends (l : List (Derived S V)) : Prop :=
  (held l).Pairwise fun a b => a.stem.version ≤ b.stem.version

/-- Another value is held if it is not the last one. -/
theorem held_concat {l : List (Derived S V)} {w : V} (hlast : l.getLast?.map (·.value) = some w)
    (b : Derived S V) :
    held (l ++ [b]) = held l ++ if w = b.value then [] else [b] := by
  have key : ∀ (l : List (Derived S V)) (c : Derived S V),
      (c :: l).getLast?.map (·.value) = some w →
      (l ++ [b]).destutter' (fun a b => a.value ≠ b.value) c
        = l.destutter' (fun a b => a.value ≠ b.value) c ++ if w = b.value then [] else [b] := by
    intro l
    induction l with
    | nil =>
      intro c hc
      cases hc
      by_cases h : c.value = b.value <;> simp [h]
    | cons d l ih =>
      intro c hc
      rw [List.cons_append]
      by_cases h : c.value = d.value
      · rw [List.destutter'_cons_neg _ (not_not_intro h), List.destutter'_cons_neg _
          (not_not_intro h)]
        refine ih c ?_
        -- what is dropped has the value of the last one that is kept
        cases l with
        | nil =>
          cases hc
          exact congrArg some h
        | cons e l => exact hc
      · rw [List.destutter'_cons_pos _ h, List.destutter'_cons_pos _ h, ih d hc,
          List.cons_append]
  cases l with
  | nil => cases hlast
  | cons c l => exact key l c hlast

/-- Every value that is derived is held. -/
theorem exists_mem_held {l : List (Derived S V)} {a : Derived S V} (ha : a ∈ l) :
    ∃ b ∈ held l, b.value = a.value := by
  -- the value that is compared with may be any, so the induction is over all first values
  have key : ∀ (l : List (Derived S V)) (c : Derived S V), a ∈ c :: l →
      ∃ b ∈ l.destutter' (fun a b => a.value ≠ b.value) c, b.value = a.value := by
    intro l
    induction l with
    | nil =>
      intro c hc
      exact ⟨a, hc, rfl⟩
    | cons d l ih =>
      intro c hc
      by_cases h : c.value = d.value
      · rw [List.destutter'_cons_neg _ (not_not_intro h)]
        rcases List.mem_cons.mp hc with rfl | hc
        · exact ih a (List.mem_cons_self ..)
        · rcases List.mem_cons.mp hc with rfl | hc
          · exact ⟨c, List.mem_destutter' _ _ _, h⟩
          · exact ih c (List.mem_cons_of_mem _ hc)
      · rw [List.destutter'_cons_pos _ h]
        rcases List.mem_cons.mp hc with rfl | hc
        · exact ⟨a, List.mem_cons_self .., rfl⟩
        · obtain ⟨b, hb, hvalue⟩ := ih d hc
          exact ⟨b, List.mem_cons_of_mem _ hb, hvalue⟩
  cases l with
  | nil => cases ha
  | cons c l => exact key l c ha

/-- If what is derived after the first value stems from newer and newer snapshots, the values go
back if and only if one of them is derived from an older snapshot than the first and differs from
it. -/
theorem ascends_cons (a : Derived S V) {l : List (Derived S V)}
    (hl : l.Pairwise fun b c => b.stem.version < c.stem.version) :
    Ascends (a :: l) ↔ ∀ b ∈ l, b.stem.version < a.stem.version → b.value = a.value := by
  show ((l.destutter' _ a).Pairwise _) ↔ _
  induction l with
  | nil => simp
  | cons b l ih =>
    obtain ⟨hb, hl⟩ := List.pairwise_cons.mp hl
    by_cases h : a.value = b.value
    -- a repetition is left out, and is no way back either
    · rw [List.destutter'_cons_neg _ (not_not_intro h), ih hl, List.forall_mem_cons]
      exact ⟨fun hall => ⟨fun _ => h.symm, hall⟩, fun hall => hall.2⟩
    · rw [List.destutter'_cons_pos _ h, List.pairwise_cons, List.forall_mem_cons]
      have hsub := List.destutter'_sublist (R := fun a b : Derived S V => a.value ≠ b.value) l b
      have hrest : ∀ c ∈ b :: l, b.stem.version ≤ c.stem.version := by
        intro c hc
        rcases List.mem_cons.mp hc with rfl | hc
        · exact Nat.le_refl _
        · exact (hb c hc).le
      constructor
      · rintro ⟨hle, -⟩
        have hab := hle b (List.mem_destutter' _ _ _)
        refine ⟨fun hlt => absurd hab (Nat.not_le.mpr hlt), fun c hc hlt => ?_⟩
        exact absurd (hab.trans (hb c hc).le) (Nat.not_le.mpr hlt)
      · rintro ⟨hfirst, -⟩
        have hab : a.stem.version ≤ b.stem.version := by
          by_contra hlt
          exact h (hfirst (Nat.not_le.mp hlt)).symm
        refine ⟨fun c hc => hab.trans (hrest c (hsub.subset hc)), ?_⟩
        refine List.Pairwise.sublist hsub (List.pairwise_cons.mpr ⟨fun c hc => (hb c hc).le, ?_⟩)
        exact hl.imp fun hlt => hlt.le

end Held

namespace Store

/-! ## The history of a run -/

/-- The values as signals. -/
def views (l : List (Derived S V)) : List (Signal S V) :=
  l.map fun a => .view a.value

/-- The snapshots that values stem from, as signals. -/
def stems (l : List (Derived S V)) : List (Signal S V) :=
  l.map fun a => .snapshot a.stem

/-- The snapshot that a signal for a projection stems from. A value stems from what its projection
derived last. -/
def stem? (s : Store S V H) (past : History S V) (p : ProjectionId) :
    Signal S V → Option (Snapshot S)
  | .snapshot x => some x
  | .view _ =>
    match s.link? p with
    | some (.view r _, _) => (past r).getLast?.map (·.stem)
    | some (.store _, _) | none => none

/-- Adds what a projection derives in an event. -/
def note (s : Store S V H) (past : History S V) : Event S V → History S V
  | .evaluated p signal v =>
    Function.update past p
      (past p ++ ((s.stem? past p signal).map fun x => ⟨x, v⟩).toList)
  | .published _ | .called _ _ | .emitted _ _ => past

/-- What the projections derived before a run and in it. -/
def history [DecidableEq V] (s : Store S V H) (past : History S V) :
    List (Move S V H) → History S V
  | [] => past
  | m :: ms => (s.step m).1.history ((s.step m).2.foldl (s.step m).1.note past) ms

/-- The history only grows. -/
theorem prefix_note (s : Store S V H) (p : ProjectionId) (es : List (Event S V))
    (past : History S V) : past p <+: es.foldl s.note past p := by
  induction es generalizing past with
  | nil => exact List.prefix_rfl
  | cons e es ih =>
    refine List.IsPrefix.trans ?_ (ih (s.note past e))
    cases e with
    | evaluated q signal v =>
      rw [note, Function.update_apply]
      split
      · next hp =>
        rw [hp]
        exact List.prefix_append ..
      · exact List.prefix_rfl
    | published | called | emitted => exact List.prefix_rfl

theorem prefix_history [DecidableEq V] (s : Store S V H) (p : ProjectionId)
    (ms : List (Move S V H)) (past : History S V) : past p <+: s.history past ms p := by
  induction ms generalizing s past with
  | nil => exact List.prefix_rfl
  | cons m ms ih => exact (prefix_note _ p _ past).trans (ih _ _)

/-- What the projections derived is what they have, by their selectors. -/
structure Recorded (s : Store S V H) (past : History S V) : Prop where
  unborn : ∀ {p}, s.nextProjection ≤ p → past p = []
  last : ∀ {p v}, s.value? p = some v → ∃ x, (past p).getLast? = some ⟨x, v⟩
  image : ∀ {p f}, s.Composes p f → ∀ a ∈ past p, a.value = f a.stem.state

theorem Recorded.opening (initial : S) :
    (opening initial : Store S V H).Recorded fun _ => [] where
  unborn _ := rfl
  last h := by simp [value?, get?, Store.opening] at h
  image _ a ha := by cases ha

/-! ## One move -/

/-- The selectors of an older projection were there before. -/
theorem Composes.older {s t : Store S V H} (ht : t.Sound) {n : ProjectionId}
    (hlink : ∀ {p l}, t.link? p = some l → p < n → s.link? p = some l) {p : ProjectionId}
    {f : S → V} (h : t.Composes p f) (hp : p < n) : s.Composes p f := by
  induction h with
  | store hl => exact .store (hlink hl hp)
  | view hl _ ih => exact .view (hlink hl hp) (ih (lt_trans (ht.wired.older hl rfl) hp))

section Moves

variable {s t : Store S V H} {m : Move S V H} {es : List (Event S V)} {past : History S V}

/-- A value is derived from a snapshot by an origin, going by what its source derived last. -/
inductive Stems (past : History S V) (x : Snapshot S) : Origin S V → V → Prop where
  | store {select : S → V} : Stems past x (.store select) (select x.state)
  | view {r : ProjectionId} {select : V → V} {u : V} : (past r).getLast? = some ⟨x, u⟩ →
    Stems past x (.view r select) (select u)

/-- What a projection derives stems from a snapshot. -/
theorem Recorded.note_evaluated (h : s.Recorded past) {p : ProjectionId}
    {origin : Origin S V} {o : ObserverId} {signal : Signal S V} {v : V}
    (hlink : t.link? p = some (origin, o)) (himage : origin.image? signal = some v)
    (hnewest : ∀ r, origin.source = .view r → s.newest? (.view r) = some signal) :
    ∃ x, t.note past (.evaluated p signal v) = Function.update past p (past p ++ [⟨x, v⟩]) ∧
      Stems past x origin v ∧ (origin.source = .store → signal = .snapshot x) := by
  cases origin with
  | store select =>
    cases signal with
    | view u => cases himage
    | snapshot x =>
      cases himage
      exact ⟨x, rfl, .store, fun _ => rfl⟩
  -- a value stems from where the value that the source has last stems from
  | view r select =>
    cases signal with
    | snapshot x => cases himage
    | view u =>
      cases himage
      have hvalue : s.value? r = some u := by
        have := hnewest r rfl
        rw [newest?, Option.map_eq_some_iff] at this
        obtain ⟨u', hu', heq⟩ := this
        cases heq
        exact hu'
      obtain ⟨x, hx⟩ := h.last hvalue
      refine ⟨x, ?_, .view hx, fun hsrc => by cases hsrc⟩
      rw [note, stem?, hlink]
      simp [hx]

/-- What a projection is told is the newest of its source, if that is a projection. -/
theorem Orderly.newest_of_told (hs : s.Orderly) {origin : Origin S V} {signal : Signal S V}
    {rest : List Observer} {ds : List (Delivery S V)}
    (hdel : s.deliveries = ⟨origin.source, some (signal, rest)⟩ :: ds) (r : ProjectionId)
    (hsrc : origin.source = .view r) : s.newest? (.view r) = some signal := by
  rw [hsrc] at hdel
  exact hs.newest_of_hand hdel (hs.queue_view_of_ne hdel (by simp))

/-- What the creation of a projection adds to the history. -/
theorem Recorded.note_first (h : s.Recorded past) {origin : Origin S V}
    {signal : Signal S V} {v : V} (heq : t = s.addProjection origin v)
    (hnewest : s.newest? origin.source = some signal) (himage : origin.image? signal = some v) :
    ∃ x, [Event.evaluated s.nextProjection signal v].foldl t.note past
        = Function.update past s.nextProjection [⟨x, v⟩] ∧
      Stems past x origin v ∧ (origin.source = .store → signal = .snapshot x) := by
  have hlink : t.link? s.nextProjection = some (origin, s.nextObserver) := by
    rw [heq, link?_addProjection, if_pos rfl]
  obtain ⟨x, hnote, hstems⟩ := h.note_evaluated hlink himage fun r hr => hr ▸ hnewest
  rw [h.unborn (Nat.le_refl _)] at hnote
  exact ⟨x, hnote, hstems⟩

variable [DecidableEq V]

/-- What a move comes to for what the projections derive. -/
inductive Derives (s t : Store S V H) : List (Event S V) → Prop where
  /-- No projection derives anything. -/
  | nothing {es : List (Event S V)} : (∀ past, es.foldl t.note past = past) →
    (∀ p, taken (.view p) es = []) → (∀ {p l}, t.link? p = some l → s.link? p = some l) →
    (∀ {p v}, t.value? p = some v → s.value? p = some v) →
    t.nextProjection = s.nextProjection →
    (∀ {p}, .view p ∈ t.sources → .view p ∈ s.sources) → Derives s t es
  /-- A new projection derives its first value. -/
  | first {origin : Origin S V} {signal : Signal S V} {v : V} :
    t = s.addProjection origin v → s.newest? origin.source = some signal →
    origin.image? signal = some v →
    (∀ p, origin.source = .view p → (s.link? p).isSome = true) →
    Derives s t [.evaluated s.nextProjection signal v]
  /-- A projection derives a value from the signal at hand, and takes it if it is another one. -/
  | next {p : ProjectionId} {origin : Origin S V} {o : Observer} {signal : Signal S V} {v w : V}
    {rest : List Observer} {ds : List (Delivery S V)} :
    s.deliveries = ⟨origin.source, some (signal, o :: rest)⟩ :: ds →
    s.link? p = some (origin, o.id) → origin.image? signal = some v → s.value? p = some w →
    t.link? = s.link? → (∀ {r u}, t.value? r = some u → if r = p then u = v else
      s.value? r = some u) → t.nextProjection = s.nextProjection →
    t.current = s.current → (∀ {r}, .view r ∈ t.sources → r = p ∨ .view r ∈ s.sources) →
    t.owed origin.source o.id = [] → t.queue .store = s.queue .store →
    Derives s t (.evaluated p signal v :: if w = v then [] else [.emitted p v])

theorem Outcome.derives (hs : s.Orderly) (ho : Outcome s m t es) : Derives s t es := by
  -- a quiet move without a new delivery
  have hquiet : ∀ {m : Move S V H}, Quiet m s t → (∀ past, es.foldl t.note past = past) →
      (∀ p, taken (.view p) es = []) → (∀ {p}, .view p ∈ t.sources → .view p ∈ s.sources) →
      Derives s t es := fun hq hnote htaken hsources =>
    .nothing hnote htaken hq.link? hq.value? hq.nextProjection hsources
  have hsame : ∀ {d d' : Delivery S V} {ds}, s.deliveries = d :: ds → t.deliveries = d' :: ds →
      d'.source = d.source → ∀ {p}, .view p ∈ t.sources → .view p ∈ s.sources := by
    intro d d' ds hdel hdt hsrc p hp
    rw [sources_cons hdel, ← hsrc, ← sources_cons hdt]
    exact hp
  cases ho with
  | quiet _ _ hq _ hdt | replayed _ hq _ hdt =>
    refine hquiet hq (fun _ => rfl) (fun _ => rfl) fun hp => ?_
    rw [sources, ← hdt]
    exact hp
  | changed _ _ _ hlists hvalue _ hdel =>
    refine .nothing (fun _ => rfl) (fun _ => rfl) (fun h => hlists.link? ▸ h)
      (fun h => hvalue ▸ h) hlists.nextProjection fun hp => ?_
    rcases hdel with ⟨-, hdt⟩ | ⟨-, hdt⟩
    · rw [sources, ← hdt]
      exact hp
    · rw [sources, hdt] at hp
      simp at hp
  | created _ hnewest himage hsource => exact .first rfl hnewest himage hsource
  | took hdel _ hq _ hdt | passed hdel _ hq _ hdt | called hdel _ _ hq _ hdt
  | done hdel hq _ hdt =>
    exact hquiet hq (fun _ => rfl) (fun _ => rfl) (hsame hdel hdt rfl)
  | ended hdel _ hq _ hdt =>
    refine hquiet hq (fun _ => rfl) (fun _ => rfl) fun hp => ?_
    rw [sources_cons hdel]
    rw [sources, hdt] at hp
    exact List.mem_cons_of_mem _ hp
  | @kept _ signal _ _ p _ v _ _ hdel hlink hsource himage hvalue hq hqueue hdt hlinks =>
    subst hsource
    have : Derives s t (.evaluated p signal v :: if v = v then [] else [.emitted p v]) := by
      refine .next hdel hlink himage hvalue hlinks (fun {r u} hu => ?_) hq.nextProjection
        hq.current (fun hr => Or.inr (hsame hdel hdt rfl hr)) ?_ (by rw [hqueue])
      · have hold := hq.value? hu
        split
        · next hr =>
          rw [hr, hvalue] at hold
          exact (Option.some.inj hold).symm
        · exact hold
      · rw [owed, hdt]
        exact (hs.owed_told hdel).2
    rwa [if_pos rfl] at this
  | @accepted _ signal _ _ p _ v w _ _ hdel hlink hsource himage hvalue hne _ _ hc hlists hvalue'
      hqueue _ hdt =>
    subst hsource
    have : Derives s t (.evaluated p signal v :: if w = v then [] else [.emitted p v]) := by
      refine .next hdel hlink himage hvalue hlists.link? (fun {r u} hu => ?_)
        hlists.nextProjection hc (fun {r} hr => ?_) ?_ ?_
      · rw [hvalue', Function.update_apply] at hu
        split at hu
        · next hr =>
          rw [if_pos hr]
          exact (Option.some.inj hu).symm
        · next hr =>
          rw [if_neg hr]
          exact hu
      · rw [sources_cons hdt] at hr
        rcases List.mem_cons.mp hr with hr | hr
        · cases hr
          exact Or.inl rfl
        · rw [sources_cons hdel]
          exact Or.inr hr
      · rw [owed_cons hdt, (hs.owed_told hdel).2]
        rfl
      · rw [hqueue, Function.update_of_ne (by simp)]
    rwa [if_neg hne] at this

theorem Derives.link? (h : Derives s t es) {p : ProjectionId} {l : Origin S V × ObserverId}
    (hl : t.link? p = some l) (hp : p < s.nextProjection) : s.link? p = some l := by
  cases h with
  | nothing _ _ hlink => exact hlink hl
  | @first origin signal v ht =>
    rw [ht, link?_addProjection, if_neg hp.ne] at hl
    exact hl
  | next _ _ _ _ hlink => rwa [hlink] at hl

/-- What a projection that is told adds to the history. -/
theorem Recorded.note_next (h : s.Recorded past) (hs : s.Orderly)
    {p : ProjectionId} {origin : Origin S V} {o : Observer} {signal : Signal S V} {v : V}
    {rest : List Observer} {ds : List (Delivery S V)}
    (hdel : s.deliveries = ⟨origin.source, some (signal, o :: rest)⟩ :: ds)
    (hlink : t.link? p = some (origin, o.id)) (himage : origin.image? signal = some v) (w : V) :
    ∃ x, (Event.evaluated p signal v :: if w = v then [] else [.emitted p v]).foldl t.note past
        = Function.update past p (past p ++ [⟨x, v⟩]) ∧
      Stems past x origin v ∧ (origin.source = .store → signal = .snapshot x) := by
  obtain ⟨x, hnote, hstems⟩ := h.note_evaluated hlink himage (hs.newest_of_told hdel)
  refine ⟨x, ?_, hstems⟩
  rw [← hnote, List.foldl_cons]
  split <;> rfl

/-- What a move adds to the history. -/
theorem Recorded.derives (h : s.Recorded past) (hs : s.Orderly)
    (hd : Derives s t es) :
    es.foldl t.note past = past ∧ (∀ {r u}, t.value? r = some u → s.value? r = some u) ∨
      ∃ p origin o v x, t.link? p = some (origin, o) ∧ Stems past x origin v ∧
        (origin.source = .store → x = s.current ∨ .snapshot x ∈ s.hand .store) ∧
        (∀ {r u}, t.value? r = some u → if r = p then u = v else s.value? r = some u) ∧
        es.foldl t.note past = Function.update past p (past p ++ [⟨x, v⟩]) := by
  cases hd with
  | nothing hnote _ _ hvalue => exact Or.inl ⟨hnote past, hvalue⟩
  | @first origin signal v heq hnewest himage =>
    obtain ⟨x, hnote, hstems, hsignal⟩ := h.note_first heq hnewest himage
    refine Or.inr ⟨s.nextProjection, origin, s.nextObserver, v, x, ?_, hstems, fun hsrc => ?_,
      fun {r u} hu => ?_, ?_⟩
    · rw [heq, link?_addProjection, if_pos rfl]
    · rw [hsignal hsrc, hsrc] at hnewest
      cases hnewest
      exact Or.inl rfl
    · rw [heq, value?_addProjection] at hu
      split at hu
      · next hr =>
        rw [if_pos hr]
        exact (Option.some.inj hu).symm
      · next hr =>
        rw [if_neg hr]
        exact hu
    · rw [hnote, h.unborn (Nat.le_refl _)]
      rfl
  | @next p origin o signal v w _ _ hdel hlink himage _ hlinks hvalue =>
    rw [← hlinks] at hlink
    obtain ⟨x, hnote, hstems, hsignal⟩ := h.note_next hs hdel hlink himage w
    refine Or.inr ⟨p, origin, o.id, v, x, hlink, hstems, fun hsrc => Or.inr ?_, hvalue, hnote⟩
    rw [hand_cons hdel, ← hsignal hsrc, hsrc]
    exact List.mem_append_left _ (List.mem_singleton.mpr rfl)

theorem Derives.nextProjection_le (h : Derives s t es) :
    s.nextProjection ≤ t.nextProjection := by
  cases h with
  | nothing _ _ _ _ hnext => exact hnext.ge
  | first ht =>
    rw [ht]
    exact Nat.le_succ _
  | next _ _ _ _ _ _ hnext => exact hnext.ge

/-- **Every possible move keeps the history in accord with the projections.** -/
theorem Recorded.step (h : s.Recorded past) (hs : s.Orderly) (ht : t.Sound)
    (hd : Derives s t es) : t.Recorded (es.foldl t.note past) := by
  -- what was derived before still fits
  have hunborn : ∀ {q}, t.nextProjection ≤ q → past q = [] :=
    fun hq => h.unborn (hd.nextProjection_le.trans hq)
  have himage : ∀ {q f}, t.Composes q f → ∀ a ∈ past q, a.value = f a.stem.state := by
    intro q f hf a ha
    by_cases hq : q < s.nextProjection
    · exact h.image (hf.older ht hd.link? hq) a ha
    · rw [h.unborn (Nat.not_lt.mp hq)] at ha
      cases ha
  rcases h.derives hs hd with ⟨hsame, hvalue⟩ | ⟨p, origin, o, v, x, hlink, hstems, -, hvalue, heq⟩
  · rw [hsame]
    exact ⟨hunborn, fun hv => h.last (hvalue hv), himage⟩
  rw [heq]
  refine ⟨fun {q} hq => ?_, fun {q u} hu => ?_, fun {q f} hf a ha => ?_⟩
  · rw [Function.update_of_ne ((ht.wired.named hlink).trans_le hq).ne']
    exact hunborn hq
  · have hq := hvalue hu
    by_cases hqp : q = p
    · rw [if_pos hqp] at hq
      refine ⟨x, ?_⟩
      rw [hqp, Function.update_self, List.getLast?_concat, hq]
    · rw [if_neg hqp] at hq
      rw [Function.update_of_ne hqp]
      exact h.last hq
  · by_cases hqp : q = p
    · subst hqp
      rw [Function.update_self] at ha
      rcases List.mem_append.mp ha with ha | ha
      · exact himage hf a ha
      rw [List.mem_singleton.mp ha]
      -- the new value is the image of the snapshot that its source derived its last value from
      cases hstems with
      | store => rw [hf.unique (.store hlink)]
      | view hlast =>
        cases hf with
        | store hl =>
          rw [hlink] at hl
          cases hl
        | view hl hg =>
          rw [hlink] at hl
          cases hl
          exact congrArg _ (himage hg _ (List.mem_of_getLast? hlast))
    · rw [Function.update_of_ne hqp] at ha
      exact himage hf a ha

/-- A projection that is gone derives nothing. -/
theorem Recorded.note_gone (h : s.Recorded past) (hs : s.Orderly)
    (hd : Derives s t es) {p : ProjectionId} (hgone : ¬ t.Living (.view p)) :
    es.foldl t.note past p = past p := by
  rcases h.derives hs hd with ⟨hsame, -⟩ | ⟨q, origin, o, v, x, hlink, -, -, -, heq⟩
  · rw [hsame]
  · rw [heq, Function.update_of_ne]
    rintro rfl
    refine hgone ?_
    show (t.link? p).isSome = true
    rw [hlink]
    rfl

/-- The selectors of a projection stay for as long as it is there. -/
theorem Composes.newer (ht : t.Sound) (hd : Derives s t es) {p : ProjectionId} {f : S → V}
    (h : s.Composes p f) (hs : s.Sound) (hliving : t.Living (.view p)) : t.Composes p f := by
  induction h with
  | store hl =>
    obtain ⟨l, hlt⟩ := Option.isSome_iff_exists.mp hliving
    have hold := hd.link? hlt (hs.wired.named hl)
    rw [hl] at hold
    cases hold
    exact .store hlt
  | view hl _ ih =>
    obtain ⟨l, hlt⟩ := Option.isSome_iff_exists.mp hliving
    have hold := hd.link? hlt (hs.wired.named hl)
    rw [hl] at hold
    cases hold
    exact .view hlt (ih (ht.living_source hlt))

/-- What a projection holds is what it held and what it takes. -/
theorem Recorded.held_step (h : s.Recorded past) (hs : s.Orderly)
    (hd : Derives s t es) {p : ProjectionId} (hp : past p ≠ []) :
    views (held (es.foldl t.note past p)) = views (held (past p)) ++ taken (.view p) es := by
  cases hd with
  | nothing hnote htaken =>
    rw [hnote, htaken, List.append_nil]
  | @first origin signal v heq hnewest himage =>
    obtain ⟨x, hnote, -, -⟩ := h.note_first heq hnewest himage
    rw [hnote, Function.update_of_ne]
    · exact (List.append_nil _).symm
    · rintro rfl
      exact hp (h.unborn (Nat.le_refl _))
  | @next q origin o signal v w _ _ hdel hlink himage hvalue hlinks =>
    obtain ⟨x, hnote, -, -⟩ := h.note_next hs hdel (hlinks ▸ hlink) himage w
    rw [hnote]
    -- a value that repeats the last one is not held again, and is not taken either
    by_cases hqp : p = q
    · subst hqp
      obtain ⟨x', hlast⟩ := h.last hvalue
      rw [Function.update_self, held_concat (w := w) (by rw [hlast]; rfl), views, List.map_append]
      by_cases hwv : w = v <;> simp [hwv, views, taken, List.filterMap_cons, Event.taken?]
    · rw [Function.update_of_ne hqp]
      by_cases hwv : w = v <;> simp [hwv, hqp, taken, List.filterMap_cons, Event.taken?]

/-- A projection that derived nothing takes nothing, and derives at most its first value. -/
theorem Recorded.first_step (h : s.Recorded past) (hs : s.Orderly)
    (hd : Derives s t es) {p : ProjectionId} (hp : past p = []) :
    taken (.view p) es = [] ∧ (es.foldl t.note past p).length ≤ 1 := by
  have hempty : (past p).length ≤ 1 := by rw [hp]; exact Nat.zero_le _
  cases hd with
  | nothing hnote htaken =>
    rw [hnote]
    exact ⟨htaken p, hempty⟩
  | first heq hnewest himage =>
    obtain ⟨x, hnote, -, -⟩ := h.note_first heq hnewest himage
    rw [hnote, Function.update_apply]
    refine ⟨rfl, ?_⟩
    split
    · exact Nat.le_refl _
    · exact hempty
  | @next q origin o signal v w _ _ hdel hlink himage hvalue hlinks =>
    obtain ⟨x, hnote, -, -⟩ := h.note_next hs hdel (hlinks ▸ hlink) himage w
    -- a projection that has a value has derived it
    have hqp : p ≠ q := by
      rintro rfl
      obtain ⟨x, hlast⟩ := h.last hvalue
      rw [hp] at hlast
      cases hlast
    rw [hnote, Function.update_of_ne hqp]
    refine ⟨?_, hempty⟩
    by_cases hwv : w = v <;> simp [hwv, hqp, taken, List.filterMap_cons, Event.taken?]

end Moves

/-! ## Runs -/

section Runs

variable [DecidableEq V] {s : Store S V H} {past : History S V}

theorem history_append (s : Store S V H) (past : History S V) (ms ms' : List (Move S V H)) :
    s.history past (ms ++ ms') = (s.after ms).history (s.history past ms) ms' := by
  induction ms generalizing s past with
  | nil => rfl
  | cons m ms ih => exact ih (s.step m).1 _

theorem Recorded.after (h : s.Recorded past) (hs : s.Orderly) {ms : List (Move S V H)}
    (hcalm : s.Calm ms) : (s.after ms).Recorded (s.history past ms) := by
  induction ms generalizing s past with
  | nil => exact h
  | cons m ms ih =>
    obtain ⟨hm, hcalm⟩ := hcalm
    exact ih (h.step hs (hs.toSound.step m) ((hs.toSound.outcome hm).derives hs)) (hs.step hm)
      hcalm

/-- A projection that is gone derives nothing more. -/
theorem Recorded.history_gone (h : s.Recorded past) (hs : s.Orderly) {ms : List (Move S V H)}
    (hcalm : s.Calm ms) {p : ProjectionId} (hp : p < s.nextProjection)
    (hgone : ¬ s.Living (.view p)) : s.history past ms p = past p := by
  induction ms generalizing s past with
  | nil => rfl
  | cons m ms ih =>
    obtain ⟨hm, hcalm⟩ := hcalm
    have ho := hs.toSound.outcome hm
    have hd := ho.derives hs
    have hgone' : ¬ (s.step m).1.Living (.view p) := by
      intro hliving
      refine hgone (ho.projections.2 hliving fun hsrc => ?_)
      cases hsrc
      exact hp
    rw [history, ih (h.step hs (hs.toSound.step m) hd) (hs.step hm) hcalm
      (lt_of_lt_of_le hp ho.projections.1) hgone', h.note_gone hs hd hgone']

/-- **What a projection derives are the images of snapshots** under its selectors. -/
theorem Recorded.images (h : s.Recorded past) (hs : s.Orderly) {p : ProjectionId} {f : S → V}
    (hf : s.Composes p f) {ms : List (Move S V H)} (hcalm : s.Calm ms) :
    ∀ a ∈ s.history past ms p, a.value = f a.stem.state := by
  induction ms generalizing s past with
  | nil => exact h.image hf
  | cons m ms ih =>
    obtain ⟨hm, hcalm⟩ := hcalm
    have ht := hs.toSound.step m
    have hd := (hs.toSound.outcome hm).derives hs
    have hrecorded := h.step hs ht hd
    by_cases hliving : (s.step m).1.Living (.view p)
    · exact ih hrecorded (hs.step hm) (hf.newer ht hd hs.toSound hliving) hcalm
    · -- a projection that goes derives nothing in the move, and nothing later
      have hp : p < (s.step m).1.nextProjection := by
        have hold : p < s.nextProjection := by
          cases hf with
          | store hl | view hl => exact hs.wired.named hl
        exact lt_of_lt_of_le hold hd.nextProjection_le
      rw [history, hrecorded.history_gone (hs.step hm) hcalm hp hliving, h.note_gone hs hd hliving]
      exact h.image hf

/-- **A projection holds what it held, and then what it takes.** -/
theorem Recorded.held_history (h : s.Recorded past) (hs : s.Orderly) {p : ProjectionId}
    (hp : past p ≠ []) {ms : List (Move S V H)} (hcalm : s.Calm ms) :
    views (held (s.history past ms p))
      = views (held (past p)) ++ taken (.view p) (s.events ms) := by
  induction ms generalizing s past with
  | nil => exact (List.append_nil _).symm
  | cons m ms ih =>
    obtain ⟨hm, hcalm⟩ := hcalm
    have hd := (hs.toSound.outcome hm).derives hs
    have hne := (prefix_note (s.step m).1 p (s.step m).2 past).ne_nil hp
    rw [history, ih (h.step hs (hs.toSound.step m) hd) (hs.step hm) hne hcalm,
      h.held_step hs hd hp, events_cons, taken_append, List.append_assoc]

/-- A projection holds its first value, and then what it takes. -/
theorem Recorded.held_born (h : s.Recorded past) (hs : s.Orderly) {p : ProjectionId}
    (hp : past p = []) {ms : List (Move S V H)} (hcalm : s.Calm ms) :
    views (held (s.history past ms p))
      = views ((s.history past ms p).take 1) ++ taken (.view p) (s.events ms) := by
  induction ms generalizing s past with
  | nil =>
    rw [history, hp]
    rfl
  | cons m ms ih =>
    obtain ⟨hm, hcalm⟩ := hcalm
    have hd := (hs.toSound.outcome hm).derives hs
    have hrec := h.step hs (hs.toSound.step m) hd
    obtain ⟨htaken, hlength⟩ := h.first_step hs hd hp
    rw [events_cons, taken_append, htaken, List.nil_append, history]
    by_cases hborn : (s.step m).2.foldl (s.step m).1.note past p = []
    · exact ih hrec (hs.step hm) hborn hcalm
    · -- the first value was derived in this move
      obtain ⟨a, ha⟩ := List.length_eq_one_iff.mp
        (Nat.le_antisymm hlength (List.length_pos_iff.mpr hborn))
      obtain ⟨l, hl⟩ := prefix_history (s.step m).1 p ms
        ((s.step m).2.foldl (s.step m).1.note past)
      rw [hrec.held_history (hs.step hm) hborn hcalm, ← hl, ha]
      rfl

/-! ## Where the snapshots come from -/

/-- Every snapshot that there is, or that a value stems from, is known. -/
structure Known (s : Store S V H) (past : History S V) (known : List (Signal S V)) : Prop where
  current : .snapshot s.current ∈ known
  outstanding : ∀ {signal}, signal ∈ s.outstanding .store → signal ∈ known
  stems : ∀ {p a}, a ∈ past p → .snapshot a.stem ∈ known

theorem Known.step {t : Store S V H} {m : Move S V H} {es : List (Event S V)}
    {known : List (Signal S V)} (h : s.Known past known) (hrec : s.Recorded past) (hs : s.Orderly)
    (ht : t.Sound) (ho : Outcome s m t es) :
    t.Known (es.foldl t.note past) (known ++ taken .store es) := by
  refine ⟨?_, fun {signal} hmem => ?_, fun {p a} ha => List.mem_append_left _ ?_⟩
  · rcases ho.current with ⟨-, hc⟩ | ⟨htaken, -⟩
    · rw [hc]
      exact List.mem_append_left _ h.current
    · rw [htaken]
      exact List.mem_append_right _ (List.mem_singleton.mpr rfl)
  · rcases List.mem_append.mp ((hs.outstanding_step ht ho .store).subset hmem) with hmem | hmem
    · exact List.mem_append_left _ (h.outstanding hmem)
    · exact List.mem_append_right _ hmem
  · rcases hrec.derives hs (ho.derives hs) with ⟨hsame, -⟩ | ⟨q, origin, o, v, x, -, hstems, hx, -,
      heq⟩
    · rw [hsame] at ha
      exact h.stems ha
    rw [heq, Function.update_apply] at ha
    split at ha
    · rcases List.mem_append.mp ha with ha | ha
      · exact h.stems ha
      rw [List.mem_singleton.mp ha]
      cases hstems with
      | store =>
        rcases hx rfl with rfl | hx
        · exact h.current
        · exact h.outstanding (List.mem_append_left _ hx)
      | view hlast =>
        have hmem := h.stems (List.mem_of_getLast? hlast)
        exact hmem
    · exact h.stems ha

theorem Known.after {known : List (Signal S V)} (h : s.Known past known) (hrec : s.Recorded past)
    (hs : s.Orderly) {ms : List (Move S V H)} (hcalm : s.Calm ms) :
    (s.after ms).Known (s.history past ms) (known ++ taken .store (s.events ms)) := by
  induction ms generalizing s past known with
  | nil =>
    show s.Known past (known ++ [])
    rw [List.append_nil]
    exact h
  | cons m ms ih =>
    obtain ⟨hm, hcalm⟩ := hcalm
    have ho := hs.toSound.outcome hm
    have ht := hs.toSound.step m
    rw [events_cons, taken_append, ← List.append_assoc]
    exact ih (h.step hrec hs ht ho) (hrec.step hs ht (ho.derives hs)) (hs.step hm) hcalm

end Runs

end Store

end LiveDesk.Observable
