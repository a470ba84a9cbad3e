import Mathlib.Data.List.TakeWhile
import LiveDesk.Record.Template

/-!
# The placeholders of a body

A body is scanned from the left, and the scan goes on behind a placeholder that it has found.
Nothing is missed by that, whatever surrounds a placeholder: no placeholder begins inside another
one.

- `IsName`, `Written`: names, and placeholders as they are written.
- `Fills`: a placeholder in a body.
- `placeholderAhead?_eq_some`: what is found at the front of a text is a placeholder.
- `Written.ahead_drop`, `Written.apart`: none begins inside another one, so no two overlap.
- `placesFrom`, `namesFrom_eq`: the scan finds what a look at every single place finds.
- **`placeholders_exact`**: the names of a body are those of the placeholders that occur in it, each
  once, in the order of their first occurrences.
-/

namespace LiveDesk.Template

/-! ## Placeholders as they are written -/

/-- A letter or an underscore, then letters, digits, underscores and dots, all of them ASCII. -/
def IsName (name : List Char) : Prop :=
  ∃ c cs, name = c :: cs ∧
    ('A' ≤ c ∧ c ≤ 'Z' ∨ 'a' ≤ c ∧ c ≤ 'z' ∨ c = '_') ∧
    ∀ d ∈ cs, 'A' ≤ d ∧ d ≤ 'Z' ∨ 'a' ≤ d ∧ d ≤ 'z' ∨ '0' ≤ d ∧ d ≤ '9' ∨ d = '_' ∨ d = '.'

/-- A placeholder of the given name: two opening braces, white space, the name, white space, and two
closing braces. -/
inductive Written (name : List Char) : List Char → Prop where
  | intro {gap gap' : List Char} : (∀ c ∈ gap, Text.isBlank c = true) → IsName name →
    (∀ c ∈ gap', Text.isBlank c = true) →
    Written name ('{' :: '{' :: (gap ++ (name ++ (gap' ++ ['}', '}']))))

/-- A placeholder of the given name fills the characters of a body from `first` up to `stop`. -/
def Fills (body : String) (first stop : Nat) (name : String) : Prop :=
  ∃ before marker behind, body.toList = before ++ (marker ++ behind) ∧ before.length = first ∧
    first + marker.length = stop ∧ Written name.toList marker

theorem isAlpha_iff {c : Char} :
    c.isAlpha = true ↔ 'A' ≤ c ∧ c ≤ 'Z' ∨ 'a' ≤ c ∧ c ≤ 'z' := by
  have hupper : c.isUpper = true ↔ 'A' ≤ c ∧ c ≤ 'Z' := decide_eq_true_iff
  have hlower : c.isLower = true ↔ 'a' ≤ c ∧ c ≤ 'z' :=
    Bool.and_eq_true_iff.trans (and_congr decide_eq_true_iff decide_eq_true_iff)
  exact Bool.or_eq_true_iff.trans (or_congr hupper hlower)

theorem isNameStart_iff {c : Char} :
    isNameStart c = true ↔ 'A' ≤ c ∧ c ≤ 'Z' ∨ 'a' ≤ c ∧ c ≤ 'z' ∨ c = '_' := by
  simp [isNameStart, isAlpha_iff, or_assoc]

theorem isNameRest_iff {c : Char} : isNameRest c = true ↔
    'A' ≤ c ∧ c ≤ 'Z' ∨ 'a' ≤ c ∧ c ≤ 'z' ∨ '0' ≤ c ∧ c ≤ '9' ∨ c = '_' ∨ c = '.' := by
  simp [isNameRest, Char.isAlphanum, isAlpha_iff, Char.isDigit, Char.le_def, or_assoc]

theorem isNameRest_of_isNameStart {c : Char} (h : isNameStart c = true) : isNameRest c = true := by
  rw [isNameStart_iff] at h
  rw [isNameRest_iff]
  exact h.imp_right fun h => h.imp_right fun h => .inr (.inl h)

/-- A name is a run of the characters that it may go on with, and the first one may start it. -/
theorem isName_iff {name : List Char} :
    IsName name ↔ name.head?.any isNameStart = true ∧ ∀ c ∈ name, isNameRest c = true := by
  cases name with
  | nil => simp [IsName]
  | cons c cs =>
    simp only [IsName, List.cons.injEq, ← isNameStart_iff, ← isNameRest_iff]
    constructor
    · rintro ⟨_, _, ⟨rfl, rfl⟩, hc, hcs⟩
      exact ⟨hc, List.forall_mem_cons.mpr ⟨isNameRest_of_isNameStart hc, hcs⟩⟩
    · rintro ⟨hc, hcs⟩
      exact ⟨c, cs, ⟨rfl, rfl⟩, hc, (List.forall_mem_cons.mp hcs).2⟩

/-- White space is neither part of a name nor a brace. -/
theorem isNameRest_of_isBlank {c : Char} (h : Text.isBlank c = true) : isNameRest c = false := by
  refine Bool.eq_false_iff.mpr fun hrest => ?_
  simp [Text.isBlank, Text.blankPoints] at h
  simp [isNameRest_iff, Char.le_def, UInt32.le_iff_toNat_le, ← Char.toNat_inj] at hrest
  have hval : c.val.toNat = c.toNat := rfl
  omega

theorem isBlank_brace : Text.isBlank '{' = false ∧ Text.isBlank '}' = false := by
  decide

theorem isNameRest_brace : isNameRest '{' = false ∧ isNameRest '}' = false := by
  decide

/-! ## What is found at the front of a text -/

section Runs

variable {α : Type} {p : α → Bool} {run : List α}

/-- A run of characters of one kind ends where another one follows. -/
theorem takeWhile_run (hrun : ∀ c ∈ run, p c = true) (rest : List α)
    (hrest : rest.head?.any p = false) :
    (run ++ rest).takeWhile p = run ∧ (run ++ rest).dropWhile p = rest := by
  rw [List.takeWhile_append_of_pos hrun, List.dropWhile_append_of_pos hrun]
  cases rest with
  | nil => exact ⟨List.append_nil _, rfl⟩
  | cons c cs =>
    have hc : ¬ p c = true := Bool.eq_false_iff.mp hrest
    rw [List.takeWhile_cons_of_neg hc, List.dropWhile_cons_of_neg hc]
    exact ⟨List.append_nil _, rfl⟩

end Runs

/-- A placeholder at the front of a text is found. -/
theorem Written.ahead {name marker : List Char} (h : Written name marker) (behind : List Char) :
    placeholderAhead? (marker ++ behind) = some (name, marker.length) := by
  cases h with
  | @intro gap gap' hgap hname hgap' =>
    obtain ⟨hstart, hrest⟩ := isName_iff.mp hname
    -- each run ends where the next one begins
    have hbraces := takeWhile_run hgap' ('}' :: '}' :: behind) isBlank_brace.2
    have hnames := takeWhile_run hrest (gap' ++ '}' :: '}' :: behind) <| by
      cases gap' with
      | nil => exact isNameRest_brace.2
      | cons c cs => exact isNameRest_of_isBlank (hgap' c (List.mem_cons_self ..))
    have hgaps := takeWhile_run hgap (name ++ (gap' ++ '}' :: '}' :: behind)) <| by
      cases name with
      | nil => cases hstart
      | cons c cs =>
        refine Bool.eq_false_iff.mpr fun hblank => ?_
        exact nomatch (isNameRest_of_isBlank hblank).symm.trans (hrest c (List.mem_cons_self ..))
    simp only [placeholderAhead?, List.cons_append, List.append_assoc, List.nil_append, hgaps,
      hnames, hbraces, if_pos hstart, List.length_cons, List.length_append, List.length_nil]
    congr 2
    omega

/-- What is found at the front of a text is a placeholder. -/
theorem placeholderAhead?_eq_some {cs name : List Char} {length : Nat} :
    placeholderAhead? cs = some (name, length) ↔
      ∃ marker behind, cs = marker ++ behind ∧ Written name marker ∧ marker.length = length := by
  constructor
  · intro h
    unfold placeholderAhead? at h
    split at h
    · next body =>
      dsimp only at h
      split at h
      · next behind hbehind =>
        split at h
        · next hstart =>
          cases h
          have hmarker : Written _ ('{' :: '{' :: (body.takeWhile Text.isBlank ++ (_ ++
              (((body.dropWhile Text.isBlank).dropWhile isNameRest).takeWhile Text.isBlank ++
                ['}', '}'])))) :=
            .intro (fun c => List.mem_takeWhile_imp)
              (isName_iff.mpr ⟨hstart, fun c => List.mem_takeWhile_imp⟩)
              (fun c => List.mem_takeWhile_imp)
          refine ⟨_, behind, ?_, hmarker, ?_⟩
          · simp only [List.cons_append, List.append_assoc, List.nil_append, ← hbehind,
              List.takeWhile_append_dropWhile]
          · simp only [List.length_cons, List.length_append, List.length_nil]
            omega
        · cases h
      · cases h
    · cases h
  · rintro ⟨marker, behind, rfl, hmarker, rfl⟩
    exact hmarker.ahead behind

/-! ## No placeholder begins inside another one -/

/-- Between its opening braces and its end a placeholder has no opening brace. -/
theorem Written.inner {name marker : List Char} (h : Written name marker) :
    ∃ inner, marker = '{' :: '{' :: inner ∧ inner ≠ [] ∧ '{' ∉ inner := by
  cases h with
  | @intro gap gap' hgap hname hgap' =>
    refine ⟨_, rfl, by simp, fun hmem => ?_⟩
    rw [List.mem_append, List.mem_append, List.mem_append] at hmem
    rcases hmem with hmem | hmem | hmem | hmem
    · exact nomatch isBlank_brace.1.symm.trans (hgap _ hmem)
    · exact nomatch isNameRest_brace.1.symm.trans ((isName_iff.mp hname).2 _ hmem)
    · exact nomatch isBlank_brace.1.symm.trans (hgap' _ hmem)
    · simp at hmem

/-- **No placeholder begins inside another one.** -/
theorem Written.ahead_drop {name marker : List Char} (h : Written name marker)
    (behind : List Char) (place : Nat) (hpos : 0 < place) (hlt : place < marker.length) :
    placeholderAhead? ((marker ++ behind).drop place) = none := by
  refine Option.eq_none_iff_forall_ne_some.mpr fun ⟨name', length⟩ hahead => ?_
  obtain ⟨marker', behind', hdrop, hmarker', -⟩ := placeholderAhead?_eq_some.mp hahead
  obtain ⟨inner, rfl, hinner, hbrace⟩ := h.inner
  obtain ⟨inner', rfl, -, -⟩ := hmarker'.inner
  match place, hpos with
  | 1, _ =>
    -- the second brace opens, but what follows it does not
    obtain ⟨c, cs, rfl⟩ := List.exists_cons_of_ne_nil hinner
    have hc : c = '{' := by
      simp only [List.cons_append, List.drop_succ_cons, List.drop_zero, List.cons.injEq] at hdrop
      exact hdrop.2.1
    exact hbrace (hc ▸ List.mem_cons_self ..)
  | k + 2, _ =>
    have hk : k < inner.length := by simpa using hlt
    rw [List.cons_append, List.cons_append, List.drop_succ_cons, List.drop_succ_cons,
      List.drop_append_of_le_length hk.le, List.drop_eq_getElem_cons hk] at hdrop
    exact hbrace ((List.cons.inj hdrop).1 ▸ List.getElem_mem hk)

section Overlaps

variable {name name' marker marker' before before' behind behind' : List Char}

/-- A placeholder that begins behind another one begins behind its end. -/
theorem Written.begins_behind (h : Written name marker) (h' : Written name' marker')
    (heq : before ++ (marker ++ behind) = before' ++ (marker' ++ behind'))
    (hlt : before.length < before'.length) :
    before.length + marker.length ≤ before'.length := by
  by_contra hover
  have hdrop : (marker ++ behind).drop (before'.length - before.length) = marker' ++ behind' := by
    have := congrArg (List.drop before'.length) heq
    rwa [List.drop_left, List.drop_append, List.drop_of_length_le hlt.le, List.nil_append] at this
  have hnone := h.ahead_drop behind (before'.length - before.length) (by omega) (by omega)
  rw [hdrop, h'.ahead behind'] at hnone
  cases hnone

/-- **Two placeholders of a text are one, or they do not overlap.** -/
theorem Written.apart (h : Written name marker) (h' : Written name' marker')
    (heq : before ++ (marker ++ behind) = before' ++ (marker' ++ behind')) :
    before = before' ∧ marker = marker' ∧ name = name' ∨
      before.length + marker.length ≤ before'.length ∨
      before'.length + marker'.length ≤ before.length := by
  rcases Nat.lt_trichotomy before.length before'.length with hlt | hsame | hlt
  · exact .inr (.inl (h.begins_behind h' heq hlt))
  · obtain ⟨rfl, hrest⟩ := List.append_inj heq hsame
    have hahead := h.ahead behind
    rw [hrest, h'.ahead behind'] at hahead
    obtain ⟨rfl, hlength⟩ := Prod.mk.inj (Option.some.inj hahead)
    exact .inl ⟨rfl, List.append_inj_left hrest hlength.symm, rfl⟩
  · exact .inr (.inr (h'.begins_behind h heq.symm hlt))

end Overlaps

/-! ## The scan -/

/-- The places at which placeholders begin, counted from `place` on, with their names: a look at
every single place of a text. -/
def placesFrom (place : Nat) : List Char → List (Nat × String)
  | [] => []
  | c :: cs =>
    match placeholderAhead? (c :: cs) with
    | some (name, _) => (place, String.ofList name) :: placesFrom (place + 1) cs
    | none => placesFrom (place + 1) cs

theorem mem_placesFrom_succ {place : Nat} {c : Char} {cs : List Char} {x : Nat × String}
    (h : x ∈ placesFrom (place + 1) cs) : x ∈ placesFrom place (c :: cs) := by
  rw [placesFrom]
  split
  · exact List.mem_cons_of_mem _ h
  · exact h

theorem mem_placesFrom {place i : Nat} {name : String} {cs : List Char} :
    (i, name) ∈ placesFrom place cs ↔
      ∃ before marker behind, cs = before ++ (marker ++ behind) ∧ place + before.length = i ∧
        Written name.toList marker := by
  constructor
  · intro h
    induction cs generalizing place with
    | nil => cases h
    | cons c cs ih =>
      -- a placeholder that begins later is found whether or not one begins here
      have hlater : (i, name) ∈ placesFrom (place + 1) cs → _ := fun hmem =>
        let ⟨before, marker, behind, hcs, hi, hmarker⟩ := ih hmem
        (⟨c :: before, marker, behind, congrArg (c :: ·) hcs, by simp; omega, hmarker⟩ :
          ∃ before marker behind, c :: cs = before ++ (marker ++ behind) ∧
            place + before.length = i ∧ Written name.toList marker)
      rw [placesFrom] at h
      split at h
      · next hahead =>
        rcases List.mem_cons.mp h with heq | hmem
        · obtain ⟨marker, behind, hcs, hmarker, -⟩ := placeholderAhead?_eq_some.mp hahead
          obtain ⟨rfl, rfl⟩ := Prod.mk.inj heq
          exact ⟨[], marker, behind, hcs, rfl, by rwa [String.toList_ofList]⟩
        · exact hlater hmem
      · exact hlater h
  · rintro ⟨before, marker, behind, rfl, rfl, hmarker⟩
    induction before generalizing place with
    | nil =>
      obtain ⟨inner, rfl, -, -⟩ := hmarker.inner
      have hahead := hmarker.ahead behind
      rw [List.nil_append, List.cons_append, placesFrom, ← List.cons_append, hahead]
      simp
    | cons c before ih =>
      refine mem_placesFrom_succ ?_
      rw [List.length_cons, Nat.add_comm before.length 1, ← Nat.add_assoc]
      exact ih

theorem pairwise_placesFrom (place : Nat) (cs : List Char) :
    (placesFrom place cs).Pairwise fun a b => a.1 < b.1 := by
  induction cs generalizing place with
  | nil => exact .nil
  | cons c cs ih =>
    rw [placesFrom]
    split
    · refine List.pairwise_cons.mpr ⟨fun x hx => ?_, ih (place + 1)⟩
      obtain ⟨before, -, -, -, hx, -⟩ := mem_placesFrom.mp hx
      show place < x.1
      omega
    · exact ih (place + 1)

/-- Places where nothing begins can be skipped. -/
theorem placesFrom_drop {n : Nat} {cs : List Char}
    (h : ∀ k < n, placeholderAhead? (cs.drop k) = none) (place : Nat) :
    placesFrom place cs = placesFrom (place + n) (cs.drop n) := by
  induction n generalizing place cs with
  | zero => rfl
  | succ n ih =>
    cases cs with
    | nil => rfl
    | cons c cs =>
      have hnone : placeholderAhead? (c :: cs) = none := h 0 (Nat.zero_lt_succ n)
      rw [placesFrom, hnone, ih fun k hk => h (k + 1) (Nat.succ_lt_succ hk), Nat.add_right_comm]
      rfl

/-- **The scan finds what a look at every single place finds.** -/
theorem namesFrom_eq (skip place : Nat) (cs : List Char) :
    namesFrom skip cs = (placesFrom (place + skip) (cs.drop skip)).map Prod.snd := by
  induction cs generalizing skip place with
  | nil => cases skip <;> rfl
  | cons c cs ih =>
    cases skip with
    | succ skip =>
      rw [namesFrom, ih skip (place + 1), Nat.add_right_comm]
      rfl
    | zero =>
      rw [namesFrom, List.drop_zero, placesFrom]
      cases hahead : placeholderAhead? (c :: cs) with
      | none => exact ih 0 (place + 1)
      | some found =>
        obtain ⟨name, length⟩ := found
        obtain ⟨marker, behind, hcs, hmarker, rfl⟩ := placeholderAhead?_eq_some.mp hahead
        -- nothing begins before the end of what was found
        have hnone : ∀ k < marker.length - 1, placeholderAhead? (cs.drop k) = none := by
          intro k hk
          have hdrop := hmarker.ahead_drop behind (k + 1) (Nat.succ_pos k) (by omega)
          rwa [← hcs] at hdrop
        dsimp only
        rw [ih (marker.length - 1) (place + 1), List.map_cons, placesFrom_drop hnone]

/-! ## Each name once -/

theorem mem_firstOnly {seen xs : List String} {x : String} :
    x ∈ firstOnly seen xs ↔ x ∈ xs ∧ x ∉ seen := by
  induction xs generalizing seen with
  | nil => simp [firstOnly]
  | cons y xs ih =>
    rw [firstOnly]
    by_cases hy : y ∈ seen
    · rw [if_pos hy, ih, List.mem_cons]
      exact and_congr_left fun hx => (or_iff_right fun heq : x = y => hx (heq ▸ hy)).symm
    · rw [if_neg hy, List.mem_cons, ih, List.mem_cons]
      by_cases heq : x = y
      · simp [heq, hy]
      · simp [heq]

theorem nodup_firstOnly (seen xs : List String) : (firstOnly seen xs).Nodup := by
  induction xs generalizing seen with
  | nil => exact .nil
  | cons y xs ih =>
    rw [firstOnly]
    split
    · exact ih seen
    · exact List.nodup_cons.mpr
        ⟨fun hmem => (mem_firstOnly.mp hmem).2 (List.mem_cons_self ..), ih (y :: seen)⟩

/-- A name comes before another one if its first place does. -/
theorem pairwise_firstOnly {places : List (Nat × String)}
    (h : places.Pairwise fun a b => a.1 < b.1) (seen : List String) :
    (firstOnly seen (places.map Prod.snd)).Pairwise fun n m =>
      ∃ i, (i, n) ∈ places ∧ ∀ j, (j, m) ∈ places → i < j := by
  induction places generalizing seen with
  | nil => exact .nil
  | cons a places ih =>
    obtain ⟨hfirst, hrest⟩ := List.pairwise_cons.mp h
    rw [List.map_cons, firstOnly]
    -- the place of `a` is a new one for no name that comes later
    have hlater : ∀ {seen}, a.2 ∈ seen → (firstOnly seen (places.map Prod.snd)).Pairwise
        fun n m => ∃ i, (i, n) ∈ a :: places ∧ ∀ j, (j, m) ∈ a :: places → i < j := by
      intro seen hseen
      refine (ih hrest seen).imp_of_mem fun _ hm ⟨i, hi, hj⟩ =>
        ⟨i, List.mem_cons_of_mem _ hi, fun j hmem => ?_⟩
      rcases List.mem_cons.mp hmem with heq | hmem
      · exact absurd hseen (heq ▸ (mem_firstOnly.mp hm).2)
      · exact hj j hmem
    by_cases hseen : a.2 ∈ seen
    · rw [if_pos hseen]
      exact hlater hseen
    · rw [if_neg hseen]
      refine List.pairwise_cons.mpr ⟨fun m hm => ?_, hlater (List.mem_cons_self ..)⟩
      refine ⟨a.1, List.mem_cons_self .., fun j hmem => ?_⟩
      rcases List.mem_cons.mp hmem with heq | hmem
      · exact absurd (List.mem_cons_self ..) (heq ▸ (mem_firstOnly.mp hm).2)
      · exact hfirst (j, m) hmem

/-- The places of a body are those that placeholders fill. -/
theorem mem_places {body : String} {first : Nat} {name : String} :
    (first, name) ∈ placesFrom 0 body.toList ↔ ∃ stop, Fills body first stop name := by
  rw [mem_placesFrom]
  constructor
  · rintro ⟨before, marker, behind, hbody, hfirst, hmarker⟩
    rw [Nat.zero_add] at hfirst
    exact ⟨_, before, marker, behind, hbody, hfirst, rfl, hmarker⟩
  · rintro ⟨stop, before, marker, behind, hbody, hfirst, -, hmarker⟩
    exact ⟨before, marker, behind, hbody, (Nat.zero_add _).trans hfirst, hmarker⟩

/-- **The placeholders of a body.** Whatever surrounds them:

- no name is listed twice;
- the names that are listed are those of the placeholders in the body;
- a name is listed before another one if a placeholder of that name comes before all placeholders of
  the other one;
- two placeholders are one, or they do not overlap. -/
theorem placeholders_exact (body : String) :
    (placeholders body).Nodup ∧
    (∀ name, name ∈ placeholders body ↔ ∃ first stop, Fills body first stop name) ∧
    ((placeholders body).Pairwise fun n m => ∃ first stop, Fills body first stop n ∧
      ∀ first' stop', Fills body first' stop' m → first < first') ∧
    ∀ first stop name first' stop' name', Fills body first stop name →
      Fills body first' stop' name' →
      first = first' ∧ stop = stop' ∧ name = name' ∨ stop ≤ first' ∨ stop' ≤ first := by
  -- the names are those of the places in order, each at its first occurrence
  have hnames : placeholders body
      = firstOnly [] ((placesFrom 0 body.toList).map Prod.snd) := by
    rw [placeholders, namesFrom_eq 0 0]
    rfl
  refine ⟨nodup_firstOnly _ _, fun name => ?_, ?_, ?_⟩
  · rw [hnames, mem_firstOnly, List.mem_map]
    constructor
    · rintro ⟨⟨⟨first, name⟩, hmem, rfl⟩, -⟩
      exact ⟨first, mem_places.mp hmem⟩
    · rintro ⟨first, hfills⟩
      exact ⟨⟨_, mem_places.mpr hfills, rfl⟩, List.not_mem_nil⟩
  · rw [hnames]
    refine (pairwise_firstOnly (pairwise_placesFrom 0 body.toList) []).imp ?_
    rintro n m ⟨first, hmem, hless⟩
    obtain ⟨stop, hfills⟩ := mem_places.mp hmem
    exact ⟨first, stop, hfills, fun first' stop' h => hless _ (mem_places.mpr ⟨stop', h⟩)⟩
  · rintro _ _ name _ _ name' ⟨before, marker, behind, hbody, rfl, rfl, hmarker⟩
      ⟨before', marker', behind', hbody', rfl, rfl, hmarker'⟩
    refine (hmarker.apart hmarker' (hbody.symm.trans hbody')).imp_left ?_
    rintro ⟨rfl, rfl, hname⟩
    exact ⟨rfl, rfl, String.toList_inj.mp hname⟩

/-- Three braces in a row do not hide a placeholder, nor does one that is broken off. -/
example : placeholders (String.ofList ['{', '{', '{', 'a', ' ', '}', '}', '}', '{', '{', 'b', ' ',
    '{', '{', ' ', 'c', '}', '}', '{', '{', 'a', '}', '}']) = ["a", "c"] := by decide

end LiveDesk.Template
