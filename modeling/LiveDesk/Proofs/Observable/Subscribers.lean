import LiveDesk.Proofs.Observable.Flow

/-!
# What a subscriber is told

A subscriber with an entry in the list of a source is told every signal whose delivery begins from
then on, each once and in order, until the subscription ends. Nobody is told anything afterwards.

- `Store.heard`: what a subscriber was told, read off the events.
- `Store.owed`: the signal at hand, if the subscriber is still to be told.
- `Move.lasts`: whether an entry outlives the moves of a run.
- `Store.Follows`: a subscriber has its entry, and goes by its name nowhere else.
- **`Follows.step`**: in every move, what is heard and still owed was owed before, or its delivery
  begins.
- **`Follows.received`**: the same for the calm runs in which the subscription ends, or does not.
-/

namespace LiveDesk.Observable

variable {S V H : Type}

namespace Move

/-- Whether an entry outlives the moves. -/
def lasts (e : Observer) : List (Move S V H) → Bool
  | [] => true
  | m :: ms => m.spares e && lasts (m.retag e) ms

/-- An entry after the moves that it outlives. -/
def retags (e : Observer) (ms : List (Move S V H)) : Observer :=
  ms.foldl (fun e m => m.retag e) e

@[simp] theorem retags_id (e : Observer) (ms : List (Move S V H)) : (retags e ms).id = e.id := by
  induction ms generalizing e with
  | nil => rfl
  | cons m ms ih => exact (ih (m.retag e)).trans (m.retag_id e)

theorem lasts_append (e : Observer) (ms ms' : List (Move S V H)) :
    lasts e (ms ++ ms') = (lasts e ms && lasts (retags e ms) ms') := by
  induction ms generalizing e with
  | nil => rfl
  | cons m ms ih =>
    show (m.spares e && lasts (m.retag e) (ms ++ ms')) = _
    rw [ih, ← Bool.and_assoc]
    rfl

end Move

namespace Event

/-- What a subscriber is told in an event. -/
def heard? (o : ObserverId) : Event S V → Option (Signal S V)
  | .called o' signal => if o' = o then some signal else none
  | .published _ | .evaluated _ _ _ | .emitted _ _ => none

end Event

namespace Delivery

/-- The signal at hand, if it is one of the source and the observer is still to be told. -/
def owed (src : Source) (o : ObserverId) (d : Delivery S V) : List (Signal S V) :=
  match d.now with
  | some (signal, rest) => if d.source = src ∧ rest.any (·.id == o) then [signal] else []
  | none => []

theorem owed_of_ne {src : Source} {o : ObserverId} {d : Delivery S V} (h : d.source ≠ src) :
    d.owed src o = [] := by
  unfold owed
  split
  · rw [if_neg fun hand => h hand.1]
  · rfl

theorem flatMap_owed_of_not_mem {src : Source} {o : ObserverId} {ds : List (Delivery S V)}
    (h : src ∉ ds.map (·.source)) : ds.flatMap (·.owed src o) = [] := by
  refine List.flatMap_eq_nil_iff.mpr fun d hd => owed_of_ne ?_
  rintro rfl
  exact h (List.mem_map_of_mem hd)

/-- Another observer is told or passed. -/
theorem owed_cons_of_ne {src src' : Source} {o : ObserverId} {o' : Observer}
    {signal : Signal S V} {rest : List Observer} (h : o'.id ≠ o) :
    (⟨src', some (signal, o' :: rest)⟩ : Delivery S V).owed src o
      = (⟨src', some (signal, rest)⟩ : Delivery S V).owed src o := by
  simp [owed, h]

/-- An observer is told or passed. -/
theorem owed_sublist_cons (src src' : Source) (o : ObserverId) (o' : Observer)
    (signal : Signal S V) (rest : List Observer) :
    ((⟨src', some (signal, rest)⟩ : Delivery S V).owed src o).Sublist
      ((⟨src', some (signal, o' :: rest)⟩ : Delivery S V).owed src o) := by
  by_cases h : src' = src ∧ rest.any (·.id == o) = true
  · simp [owed, h]
  · have hnil : (⟨src', some (signal, rest)⟩ : Delivery S V).owed src o = [] := if_neg h
    rw [hnil]
    exact List.nil_sublist _

theorem owed_told {src src' : Source} {o : ObserverId} {signal : Signal S V} :
    (⟨src', some (signal, [])⟩ : Delivery S V).owed src o = [] := by
  simp [owed]

end Delivery

/-- Of the signals at hand, those that are still owed come last. -/
theorem Nested.owed_suffix {link? : ProjectionId → Option (Origin S V × ObserverId)}
    (holder : ∀ {p l r}, link? p = some l → l.1.source = .view r → r < p) (src : Source)
    (o : ObserverId) : ∀ {ds : List (Delivery S V)}, Nested link? (ds.map (·.source)) →
      ds.flatMap (·.owed src o) <:+ ds.flatMap (·.hand src)
  | [], _ => List.suffix_rfl
  | d :: ds, h => by
    rw [List.flatMap_cons, List.flatMap_cons]
    by_cases hsrc : d.source = src
    · -- no other delivery is one of the source
      have hnot : src ∉ ds.map (·.source) := hsrc ▸ h.not_mem_tail holder
      rw [Delivery.flatMap_owed_of_not_mem hnot, Delivery.flatMap_hand_of_not_mem hnot,
        List.append_nil, List.append_nil]
      obtain ⟨_, _ | ⟨signal, rest⟩⟩ := d
      · exact List.nil_suffix
      · by_cases hrest : rest.any (·.id == o) = true
        · simp [Delivery.owed, Delivery.hand, hrest]
        · simp [Delivery.owed, hrest]
    · rw [Delivery.owed_of_ne hsrc, Delivery.hand_of_ne hsrc]
      exact Nested.owed_suffix holder src o h.tail

namespace Store

/-- What a subscriber was told. -/
def heard (o : ObserverId) (es : List (Event S V)) : List (Signal S V) :=
  es.filterMap (Event.heard? o)

@[simp] theorem heard_append (o : ObserverId) (es es' : List (Event S V)) :
    heard o (es ++ es') = heard o es ++ heard o es' :=
  List.filterMap_append ..

theorem heard_called (o o' : ObserverId) (signal : Signal S V) :
    heard o [.called o' signal] = if o' = o then [signal] else [] := by
  by_cases h : o' = o <;> simp [heard, Event.heard?, h]

/-- What the delivery of a source still owes to an observer. -/
def owed (s : Store S V H) (src : Source) (o : ObserverId) : List (Signal S V) :=
  s.deliveries.flatMap (·.owed src o)

theorem owed_cons {s : Store S V H} {d : Delivery S V} {ds : List (Delivery S V)}
    (hdel : s.deliveries = d :: ds) (src : Source) (o : ObserverId) :
    s.owed src o = d.owed src o ++ ds.flatMap (·.owed src o) := by
  rw [owed, hdel, List.flatMap_cons]

theorem owed_eq {s t : Store S V H} (h : t.deliveries = s.deliveries) : t.owed = s.owed := by
  funext src o
  rw [owed, h, owed]

/-- Another observer is told or passed. -/
theorem owed_next {s t : Store S V H} {src src' : Source} {signal : Signal S V} {o' : Observer}
    {rest : List Observer} {ds : List (Delivery S V)} {o : ObserverId}
    (hdel : s.deliveries = ⟨src', some (signal, o' :: rest)⟩ :: ds)
    (hdt : t.deliveries = ⟨src', some (signal, rest)⟩ :: ds) (hne : src' = src → o'.id ≠ o) :
    t.owed src o = s.owed src o := by
  rw [owed_cons hdt, owed_cons hdel]
  by_cases hsrc : src' = src
  · rw [Delivery.owed_cons_of_ne (hne hsrc)]
  · rw [Delivery.owed_of_ne hsrc, Delivery.owed_of_ne hsrc]

/-- Another projection is told, and begins to deliver what it takes. -/
theorem owed_accepted {s t : Store S V H} {src src' : Source} {signal : Signal S V}
    {o' : Observer} {rest : List Observer} {ds : List (Delivery S V)} {o : ObserverId}
    {p : ProjectionId} (hdel : s.deliveries = ⟨src', some (signal, o' :: rest)⟩ :: ds)
    (hdt : t.deliveries = ⟨.view p, none⟩ :: ⟨src', some (signal, rest)⟩ :: ds)
    (hne : src' = src → o'.id ≠ o) : t.owed src o = s.owed src o := by
  rw [owed_cons hdt, List.flatMap_cons, owed_cons hdel]
  by_cases hsrc : src' = src
  · rw [Delivery.owed_cons_of_ne (hne hsrc)]
    rfl
  · rw [Delivery.owed_of_ne (d := ⟨src', some (signal, rest)⟩) hsrc,
      Delivery.owed_of_ne (d := ⟨src', some (signal, o' :: rest)⟩) hsrc]
    rfl

/-- A snapshot is queued, and its delivery begins unless one is running. -/
theorem owed_changed {s t : Store S V H}
    (hdel : s.deliveries ≠ [] ∧ t.deliveries = s.deliveries ∨
      s.deliveries = [] ∧ t.deliveries = [⟨.store, none⟩]) : t.owed = s.owed := by
  rcases hdel with ⟨-, hdt⟩ | ⟨hnil, hdt⟩
  · exact owed_eq hdt
  · funext src o
    rw [owed_cons hdt, owed, hnil]
    rfl

/-- Every observer has been told the signal at hand. -/
theorem owed_done {s t : Store S V H} {src : Source} {signal : Signal S V}
    {ds : List (Delivery S V)} (hdel : s.deliveries = ⟨src, some (signal, [])⟩ :: ds)
    (hdt : t.deliveries = ⟨src, none⟩ :: ds) : t.owed = s.owed := by
  funext src' o
  rw [owed_cons hdt, owed_cons hdel, Delivery.owed_told]
  rfl

/-- A delivery ends. -/
theorem owed_ended {s t : Store S V H} {src : Source} {ds : List (Delivery S V)}
    (hdel : s.deliveries = ⟨src, none⟩ :: ds) (hdt : t.deliveries = ds) : t.owed = s.owed := by
  funext src' o
  rw [owed_cons hdel, owed, hdt]
  rfl

/-- Nobody is owed anything while nothing is being delivered. -/
theorem owed_of_deliveries_nil {s : Store S V H} (hdel : s.deliveries = []) (src : Source)
    (o : ObserverId) : s.owed src o = [] := by
  rw [owed, hdel]
  rfl

/-- Who is nowhere in the rest of a delivery is owed nothing. -/
theorem owed_eq_nil {s : Store S V H} {src : Source} {o : ObserverId}
    (h : ∀ d ∈ s.deliveries, ∀ signal rest, d.now = some (signal, rest) →
      ∀ e ∈ rest, e.id ≠ o) : s.owed src o = [] := by
  refine List.flatMap_eq_nil_iff.mpr fun d hd => ?_
  unfold Delivery.owed
  split
  · next signal rest hnow =>
    rw [if_neg]
    rintro ⟨-, hany⟩
    obtain ⟨e, he, hid⟩ := List.any_eq_true.mp hany
    exact h d hd signal rest hnow e he (by simpa using hid)
  · rfl

/-- Whatever goes by the name belongs to the source. -/
structure Belongs (s : Store S V H) (src : Source) (o : ObserverId) : Prop where
  given : o < s.nextObserver
  listed : ∀ {src' e}, e ∈ s.observersOf src' → e.id = o → src' = src
  due : ∀ {d}, d ∈ s.deliveries → ∀ {signal rest}, d.now = some (signal, rest) →
    ∀ {e}, e ∈ rest → e.id = o → d.source = src
  replayed : ∀ {p}, .replay o p ∈ s.stack → src = .view p

/-- A subscriber has its entry with the source, if that is there, and goes by its name nowhere
else. -/
structure Follows (s : Store S V H) (src : Source) (e : Observer) : Prop
    extends s.Belongs src e.id where
  subscriber : e.target = .subscriber
  entry : s.Living src → e ∈ s.observersOf src
  /-- A projection that is gone does not come back. -/
  named : ∀ {p}, src = .view p → p < s.nextProjection
  born : ∀ {p}, .replay e.id p ∉ s.stack

/-- Nothing goes by the name any more. -/
structure Gone (s : Store S V H) (o : ObserverId) : Prop where
  given : o < s.nextObserver
  unlisted : ∀ {src e}, e ∈ s.observersOf src → e.id ≠ o
  born : ∀ {p}, .replay o p ∉ s.stack

/-- A new subscriber of the store has its entry, and nothing is owed to it. -/
theorem Sound.follows_subscribe {s : Store S V H} (h : s.Sound) :
    s.subscribe.Follows .store ⟨s.nextObserver, .subscriber, true⟩ ∧
      s.subscribe.owed .store s.nextObserver = [] := by
  have hfresh := h.stacked.stranger_of_le (Nat.le_refl s.nextObserver)
  have hborn : ∀ {p}, .replay s.nextObserver p ∉ s.stack := by
    intro p hr
    exact hfresh.1 (List.mem_filterMap.mpr ⟨_, hr, rfl⟩)
  refine ⟨⟨⟨Nat.lt_succ_self _, ?_, ?_, fun hr => absurd hr hborn⟩, rfl, fun _ => ?_,
    (fun hsrc => by cases hsrc), hborn⟩, owed_eq_nil fun d hd signal rest hnow e he => ?_⟩
  · intro src e he hid
    cases src with
    | store => rfl
    | view p =>
      have he' : e ∈ s.observersOf (.view p) := he
      exact absurd hid (h.wired.fresh he').ne
  · intro d hd signal rest hnow e he hid
    exact absurd hid (hfresh.2 d hd signal rest hnow e he)
  · exact List.mem_append_right _ (List.mem_singleton.mpr rfl)
  · exact hfresh.2 d hd signal rest hnow e he

/-! ## Entries and names in one move -/

section Moves

variable {s t : Store S V H} {m : Move S V H} {es : List (Event S V)}

theorem leaves_of_origin? {a : Observation S V} {origin : Origin S V}
    (h : origin? a = some origin) : (Move.observe a : Move S V H).Leaves := by
  intro e
  cases a with
  | project | chain => exact ⟨rfl, rfl⟩
  | share | drop | subscribe | watch | unsubscribe | detach => cases h

/-- The entry of a projection is not that of a subscriber. -/
theorem Follows.ne_of_link? {src : Source} {e : Observer} (h : s.Follows src e) (hs : s.Sound)
    {p : ProjectionId} {origin : Origin S V} {o : ObserverId}
    (hlink : s.link? p = some (origin, o)) : o ≠ e.id := by
  intro hid
  have hentered := hs.wired.entered hlink
  have hsrc := h.listed hentered hid
  have hliving : s.Living src := by
    by_contra hdead
    rw [hsrc, observersOf_eq_nil_of_not_living hdead] at hentered
    cases hentered
  have heq := hs.wired.eq_of_id hentered (hsrc ▸ h.entry hliving) hid
  have := h.subscriber
  rw [← heq] at this
  cases this

/-- Who has just been told is owed nothing. -/
theorem Sound.owed_told (hs : s.Sound) {src : Source} {signal : Signal S V} {o : Observer}
    {rest : List Observer} {ds : List (Delivery S V)}
    (hdel : s.deliveries = ⟨src, some (signal, o :: rest)⟩ :: ds) :
    s.owed src o.id = [signal] ∧
      (⟨src, some (signal, rest)⟩ :: ds : List (Delivery S V)).flatMap (·.owed src o.id) = [] := by
  have hmem : ⟨src, some (signal, o :: rest)⟩ ∈ s.deliveries := hdel ▸ List.mem_cons_self ..
  have hdistinct := (hs.stacked.telling hmem rfl).distinct
  have hnot : rest.any (·.id == o.id) = false := by
    rw [List.any_eq_false]
    intro b hb hbid
    exact List.rel_of_pairwise_cons hdistinct hb (by simpa using hbid : b.id = o.id).symm
  have hds := Delivery.flatMap_owed_of_not_mem (o := o.id) (hs.not_mem_tail hdel)
  rw [owed_cons hdel, List.flatMap_cons, hds]
  simp [Delivery.owed, hnot]

/-- What is owed is the end of what is at hand. -/
theorem Sound.owed_suffix_hand (hs : s.Sound) (src : Source) (o : ObserverId) :
    s.owed src o <:+ s.hand src :=
  Nested.owed_suffix hs.wired.older src o hs.stacked.nested

/-- The signal whose delivery begins is owed to every entry of its source. -/
theorem Sound.owed_took (hs : s.Sound) {src src' : Source} {signal : Signal S V}
    {later : List (Signal S V)} {ds : List (Delivery S V)} {o : ObserverId}
    (hdel : s.deliveries = ⟨src', none⟩ :: ds) (hq : s.queue src' = signal :: later)
    (hdt : t.deliveries = ⟨src', some (signal, s.observersOf src')⟩ :: ds)
    (hin : src' = src → ∃ e ∈ s.observersOf src, e.id = o) :
    t.owed src o = s.owed src o ++ s.begins src .tick := by
  rw [owed_cons hdt, owed_cons hdel, begins, hdel]
  by_cases hsrc : src' = src
  · obtain ⟨e, he, hid⟩ := hin hsrc
    subst hsrc
    have hany : (s.observersOf src').any (·.id == o) = true :=
      List.any_eq_true.mpr ⟨e, he, beq_iff_eq.mpr hid⟩
    rw [Delivery.flatMap_owed_of_not_mem (hs.not_mem_tail hdel)]
    simp [Delivery.owed, hany, hq]
  · simp [Delivery.owed, hsrc]

/-- What goes by a name still belongs to the source when the entries have changed as they may. -/
theorem Belongs.keep {src : Source} {o : ObserverId} (h : s.Belongs src o) (he : Entries m s t)
    (hdue : ∀ {d}, d ∈ t.deliveries → ∀ {signal rest}, d.now = some (signal, rest) →
      ∀ {e}, e ∈ rest → e.id = o → d.source = src) : t.Belongs src o := by
  refine ⟨lt_of_lt_of_le h.given he.nextObserver, ?_, hdue, ?_⟩
  · intro src' e he' hid
    rcases he.appeared he' with ⟨a, ha, -, rfl⟩ | ⟨p, hsrc, hr⟩ | hnew
    · exact h.listed ha ((m.retag_id a).symm.trans hid)
    · rw [hid] at hr
      rw [hsrc, h.replayed hr]
    · rw [hid] at hnew
      exact absurd h.given (Nat.not_lt.mpr hnew)
  · intro p hr
    rcases he.replays hr with hr | hnew
    · exact h.replayed hr
    · exact absurd h.given (Nat.not_lt.mpr hnew)

/-- Who is gone stays gone when the entries have changed as they may. -/
theorem Gone.keep {o : ObserverId} (h : s.Gone o) (he : Entries m s t) : t.Gone o := by
  refine ⟨lt_of_lt_of_le h.given he.nextObserver, ?_, ?_⟩
  · intro src e he' hid
    rcases he.appeared he' with ⟨a, ha, -, rfl⟩ | ⟨p, -, hr⟩ | hnew
    · exact h.unlisted ha ((m.retag_id a).symm.trans hid)
    · exact h.born (hid ▸ hr)
    · rw [hid] at hnew
      exact absurd h.given (Nat.not_lt.mpr hnew)
  · intro p hr
    rcases he.replays hr with hr | hnew
    · exact h.born hr
    · exact absurd h.given (Nat.not_lt.mpr hnew)

variable [DecidableEq V]

/-- Every move treats the entries in the same way. -/
theorem Outcome.entries (hs : s.Sound) (ho : Outcome s m t es) : Entries m s t := by
  cases ho with
  | quiet _ _ hq | replayed _ hq | took _ _ hq | passed _ _ hq | called _ _ _ hq
  | kept _ _ _ _ _ hq | done _ hq | ended _ _ hq =>
    exact hq.toEntries
  | changed he | accepted _ _ _ _ _ _ he => exact he
  | @created a origin signal v ha _ _ hsource =>
    have hm := leaves_of_origin? (H := H) ha
    have hstack : (s.addProjection origin v).stack = s.stack := by cases origin <;> rfl
    -- the entry of the new projection is the only one that is added
    refine ⟨Nat.le_succ _, fun hr => Or.inl (hstack ▸ hr), ?_, ?_⟩
    · intro src e he _ _ hliving
      rw [(hm e).2, observersOf_addProjection s origin v src hsource]
      split
      · next hsrc =>
        rw [hsrc, observersOf_eq_nil_of_not_living hs.not_living_next] at he
        cases he
      · split
        · exact List.mem_append_left _ he
        · exact he
    · intro src e he
      rw [observersOf_addProjection s origin v src hsource] at he
      split at he
      · cases he
      · split at he
        · rcases List.mem_append.mp he with he | he
          · exact Or.inl ⟨e, he, (hm e).1, (hm e).2.symm⟩
          · rw [List.mem_singleton.mp he]
            exact Or.inr (Or.inr (Nat.le_refl _))
        · exact Or.inl ⟨e, he, (hm e).1, (hm e).2.symm⟩

/-- A projection that has a name keeps its origin and its entry. -/
theorem Outcome.link? (ho : Outcome s m t es) {p : ProjectionId} {l : Origin S V × ObserverId}
    (hl : t.link? p = some l) (hp : p < s.nextProjection) : s.link? p = some l := by
  cases ho with
  | quiet _ _ hq | replayed _ hq | took _ _ hq | passed _ _ hq | called _ _ _ hq
  | kept _ _ _ _ _ hq | done _ hq | ended _ _ hq =>
    exact hq.link? hl
  | changed _ _ _ hlists | accepted _ _ _ _ _ _ _ _ _ hlists => rwa [hlists.link?] at hl
  | created => rwa [link?_addProjection, if_neg hp.ne] at hl

/-- Names of projections are not given twice. -/
theorem Outcome.projections (ho : Outcome s m t es) :
    s.nextProjection ≤ t.nextProjection ∧ ∀ {src}, t.Living src →
      (∀ {p}, src = .view p → p < s.nextProjection) → s.Living src := by
  refine ⟨?_, fun {src} hliving hnamed => ?_⟩
  · cases ho with
    | quiet _ _ hq | replayed _ hq | took _ _ hq | passed _ _ hq | called _ _ _ hq
    | kept _ _ _ _ _ hq | done _ hq | ended _ _ hq =>
      exact hq.nextProjection.ge
    | changed _ _ _ hlists | accepted _ _ _ _ _ _ _ _ _ hlists => exact hlists.nextProjection.ge
    | created => exact Nat.le_succ _
  · cases src with
    | store => trivial
    | view p =>
      obtain ⟨l, hl⟩ := Option.isSome_iff_exists.mp hliving
      rw [Living, ho.link? hl (hnamed rfl)]
      rfl

/-- An observer that is still to be told was so before, or the delivery of the signal begins and the
source has it in the list. -/
theorem Outcome.due (ho : Outcome s m t es) {d : Delivery S V} (hd : d ∈ t.deliveries)
    {signal : Signal S V} {rest : List Observer} (hnow : d.now = some (signal, rest))
    {e : Observer} (he : e ∈ rest) :
    (∃ d' ∈ s.deliveries, d'.source = d.source ∧
      ∃ rest', d'.now = some (signal, rest') ∧ e ∈ rest') ∨
      e ∈ s.observersOf d.source ∧ signal ∈ s.queue d.source := by
  have hold : d ∈ s.deliveries → ∃ d' ∈ s.deliveries, d'.source = d.source ∧
      ∃ rest', d'.now = some (signal, rest') ∧ e ∈ rest' :=
    fun hd => ⟨d, hd, rfl, rest, hnow, he⟩
  -- the innermost delivery is one observer further
  have hnext : ∀ {src signal' o rest' ds},
      s.deliveries = ⟨src, some (signal', o :: rest')⟩ :: ds →
      d ∈ (⟨src, some (signal', rest')⟩ :: ds : List (Delivery S V)) →
      ∃ d' ∈ s.deliveries, d'.source = d.source ∧
        ∃ rest', d'.now = some (signal, rest') ∧ e ∈ rest' := by
    intro src signal' o rest' ds hdel hd
    rcases List.mem_cons.mp hd with rfl | hd
    · cases hnow
      refine ⟨⟨src, some (_, o :: _)⟩, ?_, rfl, _, rfl, List.mem_cons_of_mem _ he⟩
      rw [hdel]
      exact List.mem_cons_self ..
    · exact hold (hdel ▸ List.mem_cons_of_mem _ hd)
  cases ho with
  | quiet _ _ _ _ hdt | replayed _ _ _ hdt => exact Or.inl (hold (hdt ▸ hd))
  | changed _ _ _ _ _ _ hdel =>
    rcases hdel with ⟨-, hdt⟩ | ⟨-, hdt⟩
    · exact Or.inl (hold (hdt ▸ hd))
    · rw [hdt, List.mem_singleton] at hd
      rw [hd] at hnow
      cases hnow
  | created =>
    rw [deliveries_addProjection] at hd
    exact Or.inl (hold hd)
  | took hdel hq _ _ hdt =>
    rw [hdt] at hd
    rcases List.mem_cons.mp hd with rfl | hd
    · cases hnow
      exact Or.inr ⟨he, hq ▸ List.mem_cons_self ..⟩
    · exact Or.inl (hold (hdel ▸ List.mem_cons_of_mem _ hd))
  | passed hdel _ _ _ hdt | called hdel _ _ _ _ hdt | kept hdel _ _ _ _ _ _ hdt =>
    rw [hdt] at hd
    exact Or.inl (hnext hdel hd)
  | accepted hdel _ _ _ _ _ _ _ _ _ _ _ _ hdt =>
    rw [hdt] at hd
    rcases List.mem_cons.mp hd with rfl | hd
    · cases hnow
    · exact Or.inl (hnext hdel hd)
  | done hdel _ _ hdt =>
    rw [hdt] at hd
    rcases List.mem_cons.mp hd with rfl | hd
    · cases hnow
    · exact Or.inl (hold (hdel ▸ List.mem_cons_of_mem _ hd))
  | ended hdel _ _ _ hdt =>
    rw [hdt] at hd
    exact Or.inl (hold (hdel ▸ List.mem_cons_of_mem _ hd))

/-- Nobody is called by a name that is not given yet. -/
theorem Outcome.unheard (hs : s.Sound) (ho : Outcome s m t es) {o : ObserverId}
    (hnew : t.nextObserver ≤ o) : heard o es = [] := by
  cases ho with
  | replayed _ _ _ _ hlt =>
    rw [heard_called, if_neg (lt_of_lt_of_le hlt hnew).ne]
  | called _ hentry _ hq =>
    obtain ⟨e, he, hid, -⟩ := hentry
    have hlt : e.id < o := lt_of_lt_of_le (hs.wired.fresh he) (hq.nextObserver.trans hnew)
    rw [heard_called, if_neg (hid ▸ hlt.ne)]
  | quiet | changed | created | took | passed | kept | accepted | done | ended => rfl

/-- What goes by a name belongs to the same source after a move. -/
theorem Belongs.step {src : Source} {o : ObserverId} (h : s.Belongs src o)
    (hs : s.Sound) (ho : Outcome s m t es) : t.Belongs src o := by
  refine h.keep (ho.entries hs) fun {_} hd {_ _} hnow {_} he hid => ?_
  rcases ho.due hd hnow he with ⟨d', hd', hsrc, rest', hnow', he'⟩ | ⟨he', -⟩
  · rw [← hsrc]
    exact h.due hd' hnow' he' hid
  · exact h.listed he' hid

/-- A subscriber that a move spares keeps its entry. -/
theorem Follows.next {src : Source} {e : Observer} (h : s.Follows src e) (hs : s.Sound)
    (ho : Outcome s m t es) (hspare : m.spares e = true) : t.Follows src (m.retag e) where
  toBelongs := by
    rw [m.retag_id]
    exact h.toBelongs.step hs ho
  subscriber := (m.retag_target e).trans h.subscriber
  entry hliving := by
    have hold := ho.projections.2 hliving h.named
    exact (ho.entries hs).retained (h.entry hold) h.subscriber hspare hliving
  named hsrc := lt_of_lt_of_le (h.named hsrc) ho.projections.1
  born {p} hr := by
    rw [m.retag_id] at hr
    rcases (ho.entries hs).replays hr with hr | hnew
    · exact h.born hr
    · exact absurd h.given (Nat.not_lt.mpr hnew)

/-- A subscriber that a move does not spare is gone, and is told nothing in it. -/
theorem Follows.gone {src : Source} {e : Observer} (h : s.Follows src e) (hs : s.Sound)
    (ho : Outcome s m t es) (hspare : m.spares e = false) :
    t.Gone e.id ∧ heard e.id es = [] := by
  have hentries := ho.entries hs
  refine ⟨⟨lt_of_lt_of_le h.given hentries.nextObserver, ?_, ?_⟩, ?_⟩
  · intro src' a' ha' hid
    rcases hentries.appeared ha' with ⟨a, ha, hsa, rfl⟩ | ⟨p, -, hr⟩ | hnew
    · rw [m.retag_id] at hid
      have hsrc := h.listed ha hid
      subst hsrc
      have hliving : s.Living src' := by
        by_contra hdead
        rw [observersOf_eq_nil_of_not_living hdead] at ha
        cases ha
      rw [hs.wired.eq_of_id ha (h.entry hliving) hid, hspare] at hsa
      cases hsa
    · exact h.born (hid ▸ hr)
    · rw [hid] at hnew
      exact absurd h.given (Nat.not_lt.mpr hnew)
  · intro p hr
    rcases hentries.replays hr with hr | hnew
    · exact h.born hr
    · exact absurd h.given (Nat.not_lt.mpr hnew)
  · -- only the end of a subscription does not spare an entry
    cases ho with
    | quiet => rfl
    | created ha =>
      rw [(leaves_of_origin? ha e).1] at hspare
      cases hspare
    | replayed | changed | took | passed | called | kept | accepted | done | ended => cases hspare

/-- Who is gone stays gone, and is told nothing. -/
theorem Gone.step {o : ObserverId} (h : s.Gone o) (hs : s.Sound) (ho : Outcome s m t es) :
    t.Gone o ∧ heard o es = [] := by
  refine ⟨h.keep (ho.entries hs), ?_⟩
  cases ho with
  | replayed =>
    rw [heard_called, if_neg h.given.ne']
  | called _ hentry =>
    obtain ⟨e, he, hid, -⟩ := hentry
    rw [heard_called, if_neg]
    rintro rfl
    exact h.unlisted he hid
  | quiet | changed | created | took | passed | kept | accepted | done | ended => rfl

/-- **What is owed to an entry that is not told stays, and the signal whose delivery begins is owed
to it as well.** -/
theorem Outcome.owed_untold (hs : s.Sound) (ho : Outcome s m t es) {src : Source} {o : ObserverId}
    (hin : src ∈ s.sources → ∃ e ∈ s.observersOf src, e.id = o)
    (huntold : m = .tick → es ≠ [] → ∀ {signal e rest ds},
      s.deliveries = ⟨src, some (signal, e :: rest)⟩ :: ds → e.id ≠ o) :
    t.owed src o = s.owed src o ++ s.begins src m := by
  cases ho with
  | quiet hm _ _ _ hdt =>
    rw [owed_eq hdt, begins_of_ne_tick s src hm, List.append_nil]
  | replayed _ _ _ hdt =>
    rw [owed_eq hdt, begins_of_ne_tick s src (by simp), List.append_nil]
  | changed _ _ _ _ _ _ hdel =>
    rw [owed_changed hdel, begins_of_ne_tick s src (by simp), List.append_nil]
  | created =>
    rw [owed_eq (deliveries_addProjection s _ _), begins_of_ne_tick s src (by simp),
      List.append_nil]
  | took hdel hq _ _ hdt =>
    refine hs.owed_took hdel hq hdt fun hsrc => hin ?_
    rw [← hsrc]
    exact mem_sources hdel
  | passed hdel hgone _ _ hdt =>
    rw [begins_eq_nil hdel src rfl, List.append_nil, owed_next hdel hdt]
    -- an entry that is in the list is not passed
    rintro rfl hid
    obtain ⟨e, he, heid⟩ := hin (mem_sources hdel)
    exact hgone e he (heid.trans hid.symm)
  | called hdel _ _ _ _ hdt | kept hdel _ _ _ _ _ _ hdt =>
    rw [begins_eq_nil hdel src rfl, List.append_nil, owed_next hdel hdt]
    rintro rfl
    exact huntold rfl (by simp) hdel
  | accepted hdel _ _ _ _ _ _ _ _ _ _ _ _ hdt =>
    rw [begins_eq_nil hdel src rfl, List.append_nil, owed_accepted hdel hdt]
    rintro rfl
    exact huntold rfl (by simp) hdel
  | done hdel _ _ hdt =>
    rw [owed_done hdel hdt, begins_eq_nil hdel src rfl, List.append_nil]
  | ended hdel hnil _ _ hdt =>
    rw [owed_ended hdel hdt, begins_of_queue_nil hdel hnil, List.append_nil]

/-- **What is heard and still owed was owed before, or its delivery begins.** -/
theorem Follows.step {src : Source} {e : Observer} (h : s.Follows src e) (hs : s.Sound)
    (ho : Outcome s m t es) :
    heard e.id es ++ t.owed src e.id = s.owed src e.id ++ s.begins src m := by
  have hin : src ∈ s.sources → ∃ a ∈ s.observersOf src, a.id = e.id :=
    fun hsrc => ⟨e, h.entry (hs.living hsrc), rfl⟩
  have huntold := ho.owed_untold hs hin
  cases ho with
  | replayed =>
    rw [heard_called, if_neg h.given.ne', List.nil_append]
    exact huntold fun hm => by cases hm
  | @called src' signal o rest _ ds hdel hentry _ _ _ hdt =>
    rw [heard_called]
    by_cases hid : o.id = e.id
    · obtain ⟨a, ha, haid, -⟩ := hentry
      -- the name belongs to one source only, so the signal is the one that is owed
      obtain rfl : src' = src := h.listed ha (haid.trans hid)
      obtain ⟨hold, hnew⟩ := hs.owed_told hdel
      rw [if_pos hid, ← hid, hold, owed, hdt, hnew, begins_eq_nil hdel src' rfl]
    · rw [if_neg hid, List.nil_append]
      refine huntold fun _ _ {_ _ _ _} hdel' => ?_
      rw [hdel] at hdel'
      cases hdel'
      exact hid
  | kept hdel hlink | accepted hdel hlink =>
    refine huntold fun _ _ {_ _ _ _} hdel' => ?_
    rw [hdel] at hdel'
    cases hdel'
    exact h.ne_of_link? hs hlink
  | changed | created => exact huntold fun hm => by cases hm
  | quiet | took | passed | done | ended => exact huntold fun _ hne => absurd rfl hne

/-- What is owed was owed before, or its delivery begins. -/
theorem Outcome.owed_step (hs : s.Sound) (ho : Outcome s m t es) (src : Source)
    (o : ObserverId) : (t.owed src o).Sublist (s.owed src o ++ s.begins src m) := by
  have hright : ∀ {l l' : List (Signal S V)}, l.Sublist l' →
      l.Sublist (l' ++ s.begins src m) :=
    fun h => h.trans (List.sublist_append_left ..)
  cases ho with
  | quiet _ _ _ _ hdt | replayed _ _ _ hdt => exact hright (by rw [owed_eq hdt])
  | changed _ _ _ _ _ _ hdel => exact hright (by rw [owed_changed hdel])
  | created => exact hright (by rw [owed_eq (deliveries_addProjection s _ _)])
  -- whoever is in the list when a signal begins to be delivered is owed it
  | @took src' signal later _ ds hdel hq _ _ hdt =>
    rw [owed_cons hdt, owed_cons hdel, begins, hdel]
    by_cases hsrc : src' = src
    · subst hsrc
      rw [Delivery.flatMap_owed_of_not_mem (hs.not_mem_tail hdel), List.append_nil]
      by_cases hin : (s.observersOf src').any (·.id == o) = true
      · simp [Delivery.owed, hin, hq]
      · simp [Delivery.owed, hin]
    · simp [Delivery.owed, hsrc]
  | passed hdel _ _ _ hdt | called hdel _ _ _ _ hdt | kept hdel _ _ _ _ _ _ hdt =>
    rw [owed_cons hdt, owed_cons hdel]
    exact hright ((Delivery.owed_sublist_cons ..).append (List.Sublist.refl _))
  | accepted hdel _ _ _ _ _ _ _ _ _ _ _ _ hdt =>
    rw [owed_cons hdt, owed_cons hdel, List.flatMap_cons]
    exact hright ((Delivery.owed_sublist_cons ..).append (List.Sublist.refl _))
  | done hdel _ _ hdt => exact hright (by rw [owed_done hdel hdt])
  | ended hdel _ _ _ hdt => exact hright (by rw [owed_ended hdel hdt])

/-- What is owed or queued was owed or queued before, or is taken. -/
theorem Orderly.due_step (h : s.Orderly) (ht : t.Sound) (ho : Outcome s m t es) (src : Source)
    (o : ObserverId) :
    (t.owed src o ++ t.queue src).Sublist (s.owed src o ++ s.queue src ++ taken src es) := by
  rw [List.append_assoc, h.flow_step ht ho, ← List.append_assoc]
  exact (ho.owed_step h.toSound src o).append (List.Sublist.refl _)

/-- Whoever goes by a name hears no more than what is owed. -/
theorem Belongs.heard_step {src : Source} {o : ObserverId} (h : s.Belongs src o) (hs : s.Sound)
    (ho : Outcome s m t es) :
    (heard o es ++ t.owed src o).Sublist (s.owed src o ++ s.begins src m) := by
  have howed := ho.owed_step hs src o
  cases ho with
  | replayed =>
    rw [heard_called, if_neg h.given.ne']
    exact howed
  | @called src' signal o' rest _ ds hdel hentry _ _ _ hdt =>
    rw [heard_called]
    by_cases hid : o'.id = o
    · obtain ⟨a, ha, haid, -⟩ := hentry
      obtain rfl : src' = src := h.listed ha (haid.trans hid)
      obtain rfl := hid
      obtain ⟨hold, hnew⟩ := hs.owed_told hdel
      rw [if_pos rfl, owed, hdt, hnew, hold]
      exact List.sublist_append_left ..
    · rw [if_neg hid]
      exact howed
  | quiet | changed | created | took | passed | kept | accepted | done | ended => exact howed

end Moves

/-! ## Runs -/

section Runs

variable [DecidableEq V] {s : Store S V H}

theorem Sound.nextObserver_le (hs : s.Sound) {ms : List (Move S V H)} (hcalm : s.Calm ms) :
    s.nextObserver ≤ (s.after ms).nextObserver := by
  induction ms generalizing s with
  | nil => exact Nat.le_refl _
  | cons m ms ih =>
    obtain ⟨hm, hcalm⟩ := hcalm
    exact ((hs.outcome hm).entries hs).nextObserver.trans (ih (hs.step m) hcalm)

/-- A name that is given at the end of a run was not called in it. -/
theorem Sound.unheard (hs : s.Sound) {ms : List (Move S V H)} (hcalm : s.Calm ms)
    {o : ObserverId} (hnew : (s.after ms).nextObserver ≤ o) : heard o (s.events ms) = [] := by
  induction ms generalizing s with
  | nil => rfl
  | cons m ms ih =>
    obtain ⟨hm, hcalm⟩ := hcalm
    have hle := (hs.step m).nextObserver_le hcalm
    rw [events_cons, heard_append, (hs.outcome hm).unheard hs (hle.trans hnew),
      ih (hs.step m) hcalm hnew]
    rfl

theorem Gone.heard {o : ObserverId} (h : s.Gone o) (hs : s.Sound) {ms : List (Move S V H)}
    (hcalm : s.Calm ms) : heard o (s.events ms) = [] := by
  induction ms generalizing s with
  | nil => rfl
  | cons m ms ih =>
    obtain ⟨hm, hcalm⟩ := hcalm
    obtain ⟨hgone, hnil⟩ := h.step hs (hs.outcome hm)
    rw [events_cons, heard_append, hnil, ih hgone (hs.step m) hcalm]
    rfl

/-- While its entry lasts, a subscriber has heard or is owed everything whose delivery began. -/
theorem Follows.after {src : Source} {e : Observer} (h : s.Follows src e) (hs : s.Sound)
    {ms : List (Move S V H)} (hcalm : s.Calm ms) (hlasts : Move.lasts e ms = true) :
    (s.after ms).Follows src (Move.retags e ms) ∧
      Store.heard e.id (s.events ms) ++ (s.after ms).owed src e.id
        = s.owed src e.id ++ s.begun src ms := by
  induction ms generalizing s e with
  | nil => exact ⟨h, (List.append_nil _).symm⟩
  | cons m ms ih =>
    obtain ⟨hm, hcalm⟩ := hcalm
    obtain ⟨hspare, hlasts⟩ := Bool.and_eq_true_iff.mp hlasts
    have ho := hs.outcome hm
    obtain ⟨hfollows, hheard⟩ := ih (h.next hs ho hspare) (hs.step m) hcalm hlasts
    rw [m.retag_id] at hheard
    refine ⟨hfollows, ?_⟩
    rw [events_cons, heard_append, after_cons, List.append_assoc, hheard, ← List.append_assoc,
      h.step hs ho, List.append_assoc]
    rfl

/-- Whoever goes by a name hears no more than what is owed, and what begins. -/
theorem Belongs.heard_after {src : Source} {o : ObserverId} (h : s.Belongs src o) (hs : s.Sound)
    {ms : List (Move S V H)} (hcalm : s.Calm ms) :
    (Store.heard o (s.events ms)).Sublist (s.owed src o ++ s.begun src ms) := by
  induction ms generalizing s with
  | nil => exact List.nil_sublist _
  | cons m ms ih =>
    obtain ⟨hm, hcalm⟩ := hcalm
    have ho := hs.outcome hm
    have hrest := ih (h.step hs ho) (hs.step m) hcalm
    rw [events_cons, heard_append, begun, ← List.append_assoc]
    refine ((List.Sublist.refl _).append hrest).trans ?_
    rw [← List.append_assoc]
    exact (h.heard_step hs ho).append (List.Sublist.refl _)

/-- **A subscriber is told every signal whose delivery begins while its entry lasts, but for one
that had not got to it at the end.** -/
theorem Follows.received {src : Source} {e : Observer} (h : s.Follows src e) (hs : s.Sound)
    {b c : List (Move S V H)} (hcalm : s.Calm (b ++ c)) (hlasts : Move.lasts e b = true)
    (hends : ∀ m ∈ c.head?, Move.lasts e (b ++ [m]) = false) :
    Store.heard e.id (s.events (b ++ c)) ++ (s.after b).owed src e.id
      = s.owed src e.id ++ s.begun src b := by
  obtain ⟨hb, hc⟩ := calm_append.mp hcalm
  obtain ⟨hfollows, hheard⟩ := h.after hs hb hlasts
  -- the first move of `c` ends the subscription
  have hnil : Store.heard e.id ((s.after b).events c) = [] := by
    cases c with
    | nil => rfl
    | cons m c =>
      obtain ⟨hm, hc⟩ := hc
      have hsb : (s.after b).Sound := hs.run b
      have ho := hsb.outcome hm
      have hspare : m.spares (Move.retags e b) = false := by
        have := hends m rfl
        rw [Move.lasts_append, hlasts, Bool.true_and] at this
        simpa [Move.lasts] using this
      obtain ⟨hgone, hquiet⟩ := hfollows.gone hsb ho hspare
      rw [Move.retags_id] at hgone hquiet
      rw [events_cons, heard_append, hquiet, hgone.heard (hsb.step m) hc]
      rfl
  rw [events_append, heard_append, hnil, List.append_nil]
  exact hheard

end Runs

end Store

end LiveDesk.Observable
