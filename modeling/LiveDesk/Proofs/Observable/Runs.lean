import LiveDesk.Proofs.Observable.Outcomes

/-!
# Runs without failures

A run is a list of moves. The results about what observers are told concern the runs in which every
move is possible when it is made and no code fails.

- `Store.after`, `Store.events`: the two results of a run.
- `Store.Calm`: the runs without failures.
- **`Store.Calm.induction`**: what every possible move of a sound store keeps holds after every calm
  run.
-/

namespace LiveDesk.Observable

namespace Store

variable {S V H : Type} [DecidableEq V]

/-- The store that a run leads to. -/
def after (s : Store S V H) (ms : List (Move S V H)) : Store S V H :=
  (s.run ms).1

/-- What happens in a run. -/
def events (s : Store S V H) (ms : List (Move S V H)) : List (Event S V) :=
  (s.run ms).2

@[simp] theorem after_nil (s : Store S V H) : s.after [] = s := rfl

@[simp] theorem after_cons (s : Store S V H) (m : Move S V H) (ms : List (Move S V H)) :
    s.after (m :: ms) = (s.step m).1.after ms := rfl

@[simp] theorem events_nil (s : Store S V H) : s.events [] = [] := rfl

@[simp] theorem events_cons (s : Store S V H) (m : Move S V H) (ms : List (Move S V H)) :
    s.events (m :: ms) = (s.step m).2 ++ (s.step m).1.events ms := rfl

/-- A run leads on from where the one before it led. -/
@[simp] theorem after_append (s : Store S V H) (ms ms' : List (Move S V H)) :
    s.after (ms ++ ms') = (s.after ms).after ms' := by
  induction ms generalizing s with
  | nil => rfl
  | cons m ms ih => exact ih (s.step m).1

/-- What happens in two runs after each other. -/
@[simp] theorem events_append (s : Store S V H) (ms ms' : List (Move S V H)) :
    s.events (ms ++ ms') = s.events ms ++ (s.after ms).events ms' := by
  induction ms generalizing s with
  | nil => rfl
  | cons m ms ih =>
    rw [List.cons_append, events_cons, ih, events_cons, after_cons, List.append_assoc]

/-- Every move is possible when it is made, and none is a failure. -/
def Calm (s : Store S V H) : List (Move S V H) → Prop
  | [] => True
  | m :: ms => s.allows m = true ∧ (s.step m).1.Calm ms

instance Calm.decide (s : Store S V H) : (ms : List (Move S V H)) → Decidable (s.Calm ms)
  | [] => .isTrue trivial
  | m :: ms =>
    have := Calm.decide (s.step m).1 ms
    inferInstanceAs (Decidable (s.allows m = true ∧ (s.step m).1.Calm ms))

/-- Two runs after each other are calm if the first is, and the second where it starts. -/
theorem calm_append {s : Store S V H} {ms ms' : List (Move S V H)} :
    s.Calm (ms ++ ms') ↔ s.Calm ms ∧ (s.after ms).Calm ms' := by
  induction ms generalizing s with
  | nil => exact ⟨fun h => ⟨trivial, h⟩, fun h => h.2⟩
  | cons m ms ih =>
    show s.allows m = true ∧ (s.step m).1.Calm (ms ++ ms') ↔ _
    rw [ih, ← and_assoc]
    rfl

/-- **What every possible move of a sound store keeps holds after every calm run.** -/
theorem Calm.induction {P : Store S V H → Prop}
    (hstep : ∀ s m, s.Sound → s.allows m = true → P s → P (s.step m).1) :
    ∀ {s : Store S V H} {ms : List (Move S V H)}, s.Calm ms → s.Sound → P s → P (s.after ms)
  | _, [], _, _, hp => hp
  | s, m :: ms, hcalm, hs, hp => by
    obtain ⟨hallowed, hcalm⟩ := hcalm
    show P ((s.step m).1.after ms)
    exact Calm.induction hstep hcalm (hs.step m) (hstep s m hs hallowed hp)

end Store

end LiveDesk.Observable
