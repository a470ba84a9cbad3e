import LiveDesk.Proofs.Observable.Succession

/-!
# What a selector is applied to

The selector of a projection is applied once when the projection is created, to what its source took
last, and from then on once to every signal that its source delivers while the projection lives. A
result that equals the value of the projection is dropped, another one is taken.

- `Sound.created`: where a projection is created in a run.
- **`Orderly.evaluations_life`**: the selector is applied to what the source delivers.
- **`Orderly.taken_evaluations`**: a projection takes the results that differ from those before.
-/

namespace LiveDesk.Observable

namespace Store

variable {S V H : Type}

section Moves

variable {s : Store S V H}

theorem Sound.not_living_of_le (hs : s.Sound) {p : ProjectionId} (hp : s.nextProjection ≤ p) :
    ¬ s.Living (.view p) := by
  intro hliving
  obtain ⟨l, hl⟩ := Option.isSome_iff_exists.mp hliving
  exact absurd (hs.wired.named hl) (Nat.not_lt.mpr hp)

theorem living_of_value? {p : ProjectionId} {v : V} (h : s.value? p = some v) :
    s.Living (.view p) := by
  by_contra hdead
  have hnone := newest?_eq_none.mpr hdead
  rw [newest?, h] at hnone
  cases hnone

end Moves

/-! ## Runs -/

section Runs

variable [DecidableEq V] {s : Store S V H} {ms : List (Move S V H)} {p : ProjectionId}

theorem Sound.nextProjection_le (hs : s.Sound) (hcalm : s.Calm ms) :
    s.nextProjection ≤ (s.after ms).nextProjection := by
  induction ms generalizing s with
  | nil => exact Nat.le_refl _
  | cons m ms ih =>
    obtain ⟨hm, hcalm⟩ := hcalm
    exact (hs.outcome hm).projections.1.trans (ih (hs.step m) hcalm)

/-- A projection that is not created takes nothing, and its selector is not applied. -/
theorem Sound.evaluations_unborn (hs : s.Sound) (hcalm : s.Calm ms)
    (hp : (s.after ms).nextProjection ≤ p) :
    evaluations p (s.events ms) = [] ∧ taken (.view p) (s.events ms) = [] := by
  induction ms generalizing s with
  | nil => exact ⟨rfl, rfl⟩
  | cons m ms ih =>
    obtain ⟨hm, hcalm⟩ := hcalm
    have ho := hs.outcome hm
    have hlater := ((hs.step m).nextProjection_le hcalm).trans hp
    have hgone := hs.not_living_of_le (ho.projections.1.trans hlater)
    obtain ⟨hevaluations, htaken⟩ := ih (hs.step m) hcalm hp
    rw [events_cons, evaluations_append, taken_append, hevaluations, htaken,
      ho.evaluations_of_not_living hgone (Or.inr hlater)]
    refine ⟨rfl, ?_⟩
    rcases ho.taken_view p with hnil | ⟨w, v, -, hsome, -⟩
    · rw [hnil]
      rfl
    · rw [newest?_eq_none.mpr hgone] at hsome
      cases hsome

/-- The selector of a projection that is gone is not applied any more. -/
theorem Sound.evaluations_gone (hs : s.Sound) (hcalm : s.Calm ms) (hp : p < s.nextProjection)
    (hgone : ¬ s.Living (.view p)) : evaluations p (s.events ms) = [] := by
  induction ms generalizing s with
  | nil => rfl
  | cons m ms ih =>
    obtain ⟨hm, hcalm⟩ := hcalm
    have ho := hs.outcome hm
    have hgone' : ¬ (s.step m).1.Living (.view p) := fun h =>
      hgone (ho.projections.2 h fun hsrc => by cases hsrc; exact hp)
    rw [events_cons, evaluations_append, ho.evaluations_of_not_living hgone (Or.inl hp),
      ih (hs.step m) hcalm (lt_of_lt_of_le hp ho.projections.1) hgone']
    rfl

/-- A projection that is there after a run, but was not before, is created in one of the moves. -/
theorem Sound.created (hs : s.Sound) (hcalm : s.Calm ms) (hunborn : s.nextProjection ≤ p)
    (hborn : p < (s.after ms).nextProjection) :
    ∃ before a later origin signal v, ms = before ++ .observe a :: later ∧
      (s.after before).nextProjection = p ∧ origin? a = some origin ∧
      (s.after before).newest? origin.source = some signal ∧ origin.image? signal = some v ∧
      (s.after before).step (.observe a)
        = ((s.after before).addProjection origin v, [.evaluated p signal v]) := by
  induction ms generalizing s with
  | nil => exact absurd hborn (Nat.not_lt.mpr hunborn)
  | cons m ms ih =>
    obtain ⟨hm, hcalm⟩ := hcalm
    have ho := hs.outcome hm
    by_cases hp : (s.step m).1.nextProjection ≤ p
    · obtain ⟨before, a, later, origin, signal, v, hms, hrest⟩ := ih (hs.step m) hcalm hp hborn
      exact ⟨m :: before, a, later, origin, signal, v, by rw [hms]; rfl, hrest⟩
    · obtain ⟨a, origin, signal, v, hm, ha, hnewest, himage, ht, hes⟩ :=
        ho.created_of_lt (lt_of_le_of_lt hunborn (Nat.not_le.mp hp))
      subst hm
      -- the move creates one projection, so the name is the next one
      have hnext : (s.step (.observe a)).1.nextProjection = s.nextProjection + 1 := by
        rw [ht]
        cases origin <;> rfl
      have hname : s.nextProjection = p := by
        refine Nat.le_antisymm hunborn (Nat.lt_succ_iff.mp ?_)
        rw [← Nat.succ_eq_add_one] at hnext
        exact hnext ▸ Nat.not_le.mp hp
      refine ⟨[], a, ms, origin, signal, v, rfl, hname, ha, hnewest, himage, ?_⟩
      rw [← hname]
      exact Prod.ext ht hes

/-- **The selector of a projection is applied to what is owed and what its source begins to deliver,
in order, for as long as the projection lives**, and never afterwards. What is still owed to it at
the end of its life is not derived from. -/
theorem Orderly.evaluations_life (hs : s.Orderly) {origin : Origin S V} {o : ObserverId}
    (hlink : s.link? p = some (origin, o)) (hcalm : s.Calm ms) :
    (∀ e ∈ evaluations p (s.events ms), origin.image? e.1 = some e.2) ∧
      ∃ life rest, ms = life ++ rest ∧ (s.after life).Living (.view p) ∧
        (∀ m ∈ rest.head?, ¬ (s.after (life ++ [m])).Living (.view p)) ∧
        (evaluations p (s.events ms)).map (·.1) ++ (s.after life).owed origin.source o
          = s.owed origin.source o ++ s.begun origin.source life := by
  have hliving : s.Living (.view p) := by
    rw [Living, hlink]
    rfl
  induction ms generalizing s with
  | nil =>
    refine ⟨fun e he => (by cases he), [], [], rfl, hliving, fun m hm => (by cases hm), ?_⟩
    rw [begun, List.append_nil]
    rfl
  | cons m ms ih =>
    obtain ⟨hm, hcalm⟩ := hcalm
    have ht := hs.toSound.step m
    have ho := hs.toSound.outcome hm
    have hp := hs.wired.named hlink
    have happlies := ho.applies hs.toSound hlink
    rw [events_cons, evaluations_append]
    by_cases hnext : (s.step m).1.Living (.view p)
    · obtain ⟨l, hl⟩ := Option.isSome_iff_exists.mp hnext
      have hsame := ho.link? hl hp
      rw [hlink] at hsame
      cases hsame
      obtain ⟨himages, life, rest, hms, hlast, hend, hsignals⟩ := ih (hs.step hm) hl hcalm hnext
      -- what the move applies the selector to comes first
      have hmap : (evaluations p (s.step m).2).map (·.1) ++ (s.step m).1.owed origin.source o
          = s.owed origin.source o ++ s.begins origin.source m := by
        cases happlies with
        | idle hnil _ _ howed => rw [hnil, howed]; rfl
        | applied hone _ _ _ _ _ hold hnew hbegins => rw [hone, hold, hnew, hbegins]; rfl
      refine ⟨fun e he => ?_, m :: life, rest, by rw [hms]; rfl, hlast, hend, ?_⟩
      · rcases List.mem_append.mp he with he | he
        · cases happlies with
          | idle hnil => rw [hnil] at he; cases he
          | applied hone himage => rw [hone, List.mem_singleton] at he; rw [he]; exact himage
        · exact himages e he
      · rw [List.map_append, List.append_assoc, after_cons, hsignals, ← List.append_assoc, hmap,
          begun, List.append_assoc]
    · -- the projection goes in this move
      have hnil : evaluations p (s.step m).2 = [] := by
        cases happlies with
        | idle hnil => exact hnil
        | applied _ _ _ hvalue => exact absurd (living_of_value? hvalue) hnext
      have hgone := ht.evaluations_gone hcalm (lt_of_lt_of_le hp ho.projections.1) hnext
      rw [hnil, hgone]
      refine ⟨fun e he => (by cases he), [], m :: ms, rfl, hliving, ?_, ?_⟩
      · intro m' hm'
        cases hm'
        exact hnext
      · rw [begun, List.append_nil, List.append_nil]
        rfl

/-- The first value stays, whatever follows it. -/
theorem destutter'_eq_cons (w : V) (l : List V) :
    l.destutter' (· ≠ ·) w = w :: (l.destutter' (· ≠ ·) w).tail := by
  induction l with
  | nil => rfl
  | cons v l ih =>
    by_cases h : w = v
    · rw [List.destutter'_cons_neg _ (not_not_intro h)]
      exact ih
    · rw [List.destutter'_cons_pos _ h]
      rfl

/-- **A projection takes the results of its selector that differ from the value before.** -/
theorem Orderly.taken_evaluations (hs : s.Orderly) {w : V} (hvalue : s.value? p = some w)
    (hcalm : s.Calm ms) :
    taken (.view p) (s.events ms)
      = (((w :: (evaluations p (s.events ms)).map (·.2)).destutter (· ≠ ·)).tail.map .view) := by
  show _ = (List.destutter' (· ≠ ·) w _).tail.map _
  induction ms generalizing s w with
  | nil => rfl
  | cons m ms ih =>
    obtain ⟨hm, hcalm⟩ := hcalm
    have ht := hs.toSound.step m
    have ho := hs.toSound.outcome hm
    obtain ⟨l, hlink⟩ := Option.isSome_iff_exists.mp (living_of_value? hvalue)
    have hp := hs.wired.named hlink
    rw [events_cons, taken_append, evaluations_append]
    cases ho.applies hs.toSound hlink with
    | idle hnil htaken hkeeps =>
      rw [hnil, htaken, List.nil_append, List.nil_append]
      by_cases hnext : (s.step m).1.Living (.view p)
      · obtain ⟨u, hu⟩ := hnext.value?
        have huw := hkeeps hu
        rw [hvalue] at huw
        cases huw
        exact ih (hs.step hm) hu hcalm
      · -- a projection that is gone neither derives nor takes anything
        have hp' := lt_of_lt_of_le hp ho.projections.1
        rw [ht.evaluations_gone hcalm hp' hnext, (ht.taken_gone hcalm hp' hnext).1]
        rfl
    -- the selector is applied once, and its result is taken if it differs
    | @applied signal v w' hone _ hold hnew htaken =>
      rw [hvalue] at hold
      cases hold
      rw [hone, htaken, ih (hs.step hm) hnew hcalm, List.map_append, List.map_singleton,
        List.singleton_append]
      by_cases hwv : w = v
      · subst hwv
        rw [if_pos rfl, List.destutter'_cons_neg _ (not_not_intro rfl)]
        rfl
      · rw [if_neg hwv, List.destutter'_cons_pos _ hwv, List.tail_cons, destutter'_eq_cons v]
        rfl

end Runs

end Store

end LiveDesk.Observable
