import LiveDesk.Proofs.Observable.Subscribers

/-!
# What a move comes to for a selector

A move creates a projection, applies the selectors of the projections that it tells, and leaves what
the others have and what is owed to them as it is.

- `Store.evaluations`: the applications of a selector with their results, read off the events.
- `Store.Applies`: what a move comes to for the selector of a projection.
- **`Outcome.applies`**: every possible move applies it at most once, to the signal that is owed.
- `Outcome.created_of_lt`: a move creates the next projection or none.
-/

namespace LiveDesk.Observable

namespace Event

variable {S V : Type}

/-- The signal that the selector of a projection is applied to in an event, and the result. -/
def evaluated? (p : ProjectionId) : Event S V → Option (Signal S V × V)
  | .evaluated q signal v => if q = p then some (signal, v) else none
  | .published _ | .called _ _ | .emitted _ _ => none

end Event

namespace Store

variable {S V H : Type}

/-- The applications of the selector of a projection, with their results. -/
def evaluations (p : ProjectionId) (es : List (Event S V)) : List (Signal S V × V) :=
  es.filterMap (Event.evaluated? p)

@[simp] theorem evaluations_append (p : ProjectionId) (es es' : List (Event S V)) :
    evaluations p (es ++ es') = evaluations p es ++ evaluations p es' :=
  List.filterMap_append ..

theorem evaluations_self (p : ProjectionId) (signal : Signal S V) (v : V)
    (es : List (Event S V)) :
    evaluations p (.evaluated p signal v :: es) = (signal, v) :: evaluations p es := by
  simp [evaluations, Event.evaluated?]

theorem evaluations_of_ne {p q : ProjectionId} (h : q ≠ p) (signal : Signal S V) (v : V)
    (es : List (Event S V)) :
    evaluations p (.evaluated q signal v :: es) = evaluations p es := by
  simp [evaluations, Event.evaluated?, h]

section Moves

variable {s t : Store S V H} {m : Move S V H} {es : List (Event S V)}

/-- The source of a living projection lives. -/
theorem Sound.living_source (h : s.Sound) {p : ProjectionId}
    {origin : Origin S V} {o : ObserverId} (hlink : s.link? p = some (origin, o)) :
    s.Living origin.source := by
  have hentered := h.wired.entered hlink
  by_contra hdead
  rw [observersOf_eq_nil_of_not_living hdead] at hentered
  cases hentered

/-- Two projections over one source have different entries. -/
theorem Sound.eq_of_link? (h : s.Sound) {p p' : ProjectionId}
    {origin origin' : Origin S V} {o : ObserverId} (hlink : s.link? p = some (origin, o))
    (hlink' : s.link? p' = some (origin', o)) (hsource : origin'.source = origin.source) :
    p' = p ∧ origin' = origin := by
  have hentry : (⟨o, .projection p, true⟩ : Observer) ∈ s.observersOf origin.source :=
    h.wired.entered hlink
  have hentry' : (⟨o, .projection p', true⟩ : Observer) ∈ s.observersOf origin.source := by
    rw [← hsource]
    exact h.wired.entered hlink'
  cases h.wired.eq_of_id hentry hentry' rfl
  rw [hlink] at hlink'
  cases hlink'
  exact ⟨rfl, rfl⟩

/-- Another projection is told than the one that the entry belongs to. -/
theorem Sound.other_told (hs : s.Sound) {src : Source} {signal signal' : Signal S V}
    {a b : Observer} {rest rest' : List Observer} {ds ds' : List (Delivery S V)}
    {p p' : ProjectionId} {origin origin' : Origin S V} {o : ObserverId}
    (hdel : s.deliveries = ⟨src, some (signal, a :: rest)⟩ :: ds)
    (hlink' : s.link? p' = some (origin', a.id)) (hsource : origin'.source = src)
    (hlink : s.link? p = some (origin, o)) (hp : p' ≠ p)
    (hdel' : s.deliveries = ⟨origin.source, some (signal', b :: rest')⟩ :: ds') : b.id ≠ o := by
  rw [hdel] at hdel'
  cases hdel'
  intro hid
  exact hp (hs.eq_of_link? hlink (hid ▸ hlink') hsource).1

/-- The observer that is told is not the entry of the projection. -/
theorem Sound.subscriber_told (hs : s.Sound) {src : Source} {signal signal' : Signal S V}
    {a b : Observer} {rest rest' : List Observer} {ds ds' : List (Delivery S V)}
    {p : ProjectionId} {origin : Origin S V} {o : ObserverId}
    (hdel : s.deliveries = ⟨src, some (signal, a :: rest)⟩ :: ds)
    (hentry : ∃ e ∈ s.observersOf src, e.id = a.id ∧ e.target = .subscriber)
    (hlink : s.link? p = some (origin, o))
    (hdel' : s.deliveries = ⟨origin.source, some (signal', b :: rest')⟩ :: ds') : b.id ≠ o := by
  rw [hdel] at hdel'
  cases hdel'
  intro hid
  obtain ⟨e, he, heid, htarget⟩ := hentry
  rw [hs.wired.eq_of_id he (hs.wired.entered hlink) (heid.trans hid)] at htarget
  cases htarget

/-- What a living projection has is its value. -/
theorem Living.value? {p : ProjectionId} (h : s.Living (.view p)) : ∃ v, s.value? p = some v := by
  obtain ⟨l, hl⟩ := Option.isSome_iff_exists.mp h
  obtain ⟨q, hq, -⟩ := get?_of_link? hl
  exact ⟨q.value, by rw [Store.value?, hq]; rfl⟩

variable [DecidableEq V]

/-- What a move comes to for the selector of a projection with the given origin and entry. -/
inductive Applies (s : Store S V H) (m : Move S V H) (t : Store S V H) (es : List (Event S V))
    (p : ProjectionId) (origin : Origin S V) (o : ObserverId) : Prop where
  /-- It is not applied, and the value stays as long as the projection does. -/
  | idle : evaluations p es = [] → taken (.view p) es = [] →
    (∀ {v}, t.value? p = some v → s.value? p = some v) →
    t.owed origin.source o = s.owed origin.source o ++ s.begins origin.source m →
    Applies s m t es p origin o
  /-- It is applied to the signal that was owed, and the result is the value from then on. -/
  | applied {signal : Signal S V} {v w : V} : evaluations p es = [(signal, v)] →
    origin.image? signal = some v → s.value? p = some w → t.value? p = some v →
    taken (.view p) es = (if w = v then [] else [.view v]) → t.link? p = s.link? p →
    s.owed origin.source o = [signal] → t.owed origin.source o = [] →
    s.begins origin.source m = [] → Applies s m t es p origin o

/-- **Every possible move applies a selector at most once, to the signal that is owed.** -/
theorem Outcome.applies (hs : s.Sound) (ho : Outcome s m t es) {p : ProjectionId}
    {origin : Origin S V} {o : ObserverId} (hlink : s.link? p = some (origin, o)) :
    Applies s m t es p origin o := by
  -- unless the projection is told in this move, what is owed to it only grows by what begins
  have howed := ho.owed_untold hs fun _ => ⟨_, hs.wired.entered hlink, rfl⟩
  cases ho with
  | replayed _ hq => exact .idle rfl rfl hq.value? (howed fun hm => by cases hm)
  | changed _ _ _ _ hvalue =>
    exact .idle rfl rfl (fun h => hvalue ▸ h) (howed fun hm => by cases hm)
  | created =>
    have hp : p ≠ s.nextProjection := (hs.wired.named hlink).ne
    refine .idle (evaluations_of_ne hp.symm ..) rfl (fun h => ?_) (howed fun hm => by cases hm)
    rwa [value?_addProjection, if_neg hp] at h
  | quiet _ _ hq | took _ _ hq | passed _ _ hq | done _ hq | ended _ _ hq =>
    exact .idle rfl rfl hq.value? (howed fun _ hne => absurd rfl hne)
  | called hdel hentry _ hq =>
    exact .idle rfl rfl hq.value?
      (howed fun _ _ {_ _ _ _} => hs.subscriber_told hdel hentry hlink)
  | @kept src signal a rest p' origin' v _ ds hdel hlink' hsource himage hvalue hq _ hdt hlinks =>
    by_cases hp : p' = p
    · subst hp hsource
      rw [hlink] at hlink'
      cases hlink'
      obtain ⟨hold, hnew⟩ := hs.owed_told hdel
      have hv : t.value? p' = some v := by
        rw [hq.value?_eq, hvalue]
        rw [Living, hlinks, hlink]
        rfl
      refine .applied (evaluations_self ..) himage hvalue hv ?_ (by rw [hlinks]) hold ?_
        (begins_eq_nil hdel _ rfl)
      · rw [if_pos rfl]
        rfl
      · rw [owed, hdt, hnew]
    · exact .idle (evaluations_of_ne hp ..) rfl hq.value?
        (howed fun _ _ {_ _ _ _} => hs.other_told hdel hlink' hsource hlink hp)
  | @accepted src signal a rest p' origin' v w _ ds hdel hlink' hsource himage hvalue hne _ _ _
      hlists hvalue' _ _ hdt =>
    by_cases hp : p' = p
    · subst hp hsource
      rw [hlink] at hlink'
      cases hlink'
      obtain ⟨hold, hnew⟩ := hs.owed_told hdel
      refine .applied (evaluations_self ..) himage hvalue ?_ ?_ (by rw [hlists.link?]) hold ?_
        (begins_eq_nil hdel _ rfl)
      · rw [hvalue', Function.update_self]
      · rw [if_neg hne]
        simp [taken, List.filterMap_cons, Event.taken?]
      · rw [owed_cons hdt]
        exact hnew
    · refine .idle (evaluations_of_ne hp ..) ?_ (fun h => ?_)
        (howed fun _ _ {_ _ _ _} => hs.other_told hdel hlink' hsource hlink hp)
      · simp [taken, List.filterMap_cons, Event.taken?, Ne.symm hp]
      · rwa [hvalue', Function.update_of_ne (Ne.symm hp)] at h

/-- The selector of a projection that is not there is not applied, unless it is created. -/
theorem Outcome.evaluations_of_not_living (ho : Outcome s m t es) {p : ProjectionId}
    (hgone : ¬ s.Living (.view p)) (hp : p < s.nextProjection ∨ t.nextProjection ≤ p) :
    evaluations p es = [] := by
  have hne : ∀ {r l}, s.link? r = some l → r ≠ p := by
    rintro r l hl rfl
    exact hgone (by rw [Living, hl]; rfl)
  cases ho with
  | @created a origin signal v =>
    refine evaluations_of_ne ?_ ..
    rintro rfl
    exact hp.elim (lt_irrefl _) (Nat.not_succ_le_self _)
  | kept _ hlink => exact evaluations_of_ne (hne hlink) ..
  | accepted _ hlink => exact evaluations_of_ne (hne hlink) ..
  | quiet | replayed | changed | took | passed | called | done | ended => rfl

/-- A move creates the next projection, from what its source took last, or none. -/
theorem Outcome.created_of_lt (ho : Outcome s m t es) (hlt : s.nextProjection < t.nextProjection) :
    ∃ a origin signal v, m = .observe a ∧ origin? a = some origin ∧
      s.newest? origin.source = some signal ∧ origin.image? signal = some v ∧
      t = s.addProjection origin v ∧ es = [.evaluated s.nextProjection signal v] := by
  cases ho with
  | @created a origin signal v ha hnewest himage =>
    exact ⟨a, origin, signal, v, rfl, ha, hnewest, himage, rfl, rfl⟩
  | quiet _ _ hq | replayed _ hq | took _ _ hq | passed _ _ hq | called _ _ _ hq
  | kept _ _ _ _ _ hq | done _ hq | ended _ _ hq =>
    exact absurd hlt (by rw [hq.nextProjection]; exact lt_irrefl _)
  | changed _ _ _ hlists | accepted _ _ _ _ _ _ _ _ _ hlists =>
    exact absurd hlt (by rw [hlists.nextProjection]; exact lt_irrefl _)

end Moves

end Store

end LiveDesk.Observable
