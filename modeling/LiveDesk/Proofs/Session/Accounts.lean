import Mathlib.Algebra.BigOperators.Group.Finset.Basic
import LiveDesk.Proofs.Session.Flags
import LiveDesk.Proofs.Session.Postings

/-!
# What each call has published

A call that is admitted raises its flag in one snapshot and lowers it in another one, in whatever
way it ends; an answer that is stored is stored in the second one. Some calls publish something
before. Nothing else is published but by edits, so the version counts the edits and the snapshots of
the calls.

- `Turn.Does`, `turnsOf`: the turns of a call, and the acts that they are.
- `Session.Account`: what a call has published since it began to raise its flag, by the spot where
  it is.
- **`Session.account`**: every call that was admitted has published what its account says.
- `Session.Ending`: the ways in which a call in flight ends.
- **`Session.postingsOf_ending`**: a call that ends publishes one snapshot, and no further one.
- `Session.heeded`: the edits of a run that are not ignored.
- **`Session.version_eq`**: the version counts them and what the calls have published.
-/

namespace LiveDesk

open Observable

variable {F : Feature} {V : Type}

/-! ## What a call has published -/

/-- A turn of a call that has begun, with the act that it is. -/
inductive Turn.Does (id : CallId) : Turn F → Act F → Prop
  | raised {c} : Does id (.raised id c) (.raised c)
  | sent {c} : Does id (.sent id c) (.sent c)
  | stored {c payload f} : Does id (.stored id c payload f) (.lowered c)
  | lowered {c} : Does id (.lowered id c) (.lowered c)
  | ended : Does id (.ended id) .ended

/-- A turn that does not begin a call is one act of it. -/
theorem Turn.does_of_subject {t : Turn F} {id : CallId} (h : t.subject? = some id)
    (hbegun : ∀ c, .begun c ∉ t.acts) : ∃ a, t.Does id a ∧ t.acts = [a] := by
  cases t with
  | idle | edited | published | declined | failed => cases h
  | begun i c | opened i c => exact absurd (List.mem_cons_self ..) (hbegun c)
  | raised | sent | stored | lowered | ended =>
    cases h
    exact ⟨_, by constructor, rfl⟩

/-- The turns of a call that has begun are its acts, one by one. -/
theorem forall₂_does {ts : List (Turn F)} {id : CallId} (h : ∀ t ∈ ts, t.subject? = some id)
    (hbegun : ∀ c, .begun c ∉ ts.flatMap Turn.acts) :
    List.Forall₂ (Turn.Does id) ts (ts.flatMap Turn.acts) := by
  induction ts with
  | nil => exact .nil
  | cons t ts ih =>
    obtain ⟨ht, hts⟩ := List.forall_mem_cons.mp h
    simp only [List.flatMap_cons, List.mem_append, not_or] at hbegun ⊢
    obtain ⟨a, hdoes, hacts⟩ := t.does_of_subject ht fun c => (hbegun c).1
    rw [hacts]
    exact .cons hdoes (ih hts fun c => (hbegun c).2)

/-- The turns of a call in a series of turns. -/
def turnsOf (id : CallId) (ts : List (Turn F)) : List (Turn F) :=
  ts.filter fun t => t.subject? = some id

theorem subject_of_mem_turnsOf {id : CallId} {ts : List (Turn F)} {t : Turn F}
    (h : t ∈ turnsOf id ts) : t.subject? = some id :=
  of_decide_eq_true (List.mem_filter.mp h).2

/-- What a call does it does in its turns. -/
theorem flatMap_turnsOf (id : CallId) (ts : List (Turn F)) :
    (turnsOf id ts).flatMap Turn.acts = actsOf id ts := by
  induction ts with
  | nil => rfl
  | cons t ts ih =>
    rw [actsOf_cons, Turn.actsOf, turnsOf]
    by_cases h : t.subject? = some id
    · rw [List.filter_cons_of_pos (by simpa using h), if_pos h, List.flatMap_cons, ← ih]
      rfl
    · rw [List.filter_cons_of_neg (by simpa using h), if_neg h, List.nil_append, ← ih]
      rfl

theorem Turn.acts_ne_nil {t : Turn F} {id : CallId} (h : t.subject? = some id) : t.acts ≠ [] := by
  cases t <;> simp_all [subject?, acts]

/-- A call that has done nothing has no turns. -/
theorem turnsOf_eq_nil {id : CallId} {ts : List (Turn F)} (h : actsOf id ts = []) :
    turnsOf id ts = [] := by
  rw [← flatMap_turnsOf, List.flatMap_eq_nil_iff] at h
  exact List.eq_nil_iff_forall_not_mem.mpr fun t ht =>
    Turn.acts_ne_nil (subject_of_mem_turnsOf ht) (h t ht)

namespace Session

/-- The snapshot raises the flag of a call, and nothing else. -/
def Raises (c : F.Call) (x : Posting F) : Prop :=
  x.after = x.before.next ((F.flag c).raise x.before.state)

/-- The snapshot lowers the flag of a call; what the answer stores is stored in it too. -/
def Lowers (c : F.Call) (x : Posting F) : Prop :=
  ∃ f : F.State → F.State, x.after = x.before.next ((F.flag c).lower (f x.before.state))

/-- What a call has published since it began to raise its flag, by the spot where it is. -/
inductive Account (s : Session F V) (id : CallId) (c : F.Call) : List (Posting F) → Prop
  /-- The flag is to be raised. -/
  | pending : .raising id c ∈ s.outline.spots → Account s id c []
  /-- The raised flag is being delivered, or the call is in flight. -/
  | open {up} : Raises c up → .sending id c ∈ s.outline.spots ∨ .inFlight id c ∈ s.outline.spots →
    Account s id c [up]
  /-- The call has only to return, or it is over. -/
  | closed {up down} : Raises c up → Lowers c down →
    (∀ x ∈ s.outline.spots, x.id = id → x = .closing id) → Account s id c [up, down]

section Runs

variable [DecidableEq V]

theorem turns_postingsOf (s : Session F V) (id : CallId) (ms : List (Move F V)) :
    (s.postingsOf id ms).map (·.turn) = (turnsOf id (s.turns ms)).filter Turn.publishes := by
  rw [postingsOf, turnsOf, List.filter_filter, List.filter_congr fun t _ => Bool.and_comm _ _,
    ← List.filter_filter, ← turns_postings, List.filter_map]
  rfl

/-- A call that has at most to return publishes nothing. -/
theorem postingsOf_eq_nil {s : Session F V} {id : CallId} {ms : List (Move F V)}
    (h : actsOf id (s.turns ms) <+: [.ended]) : s.postingsOf id ms = [] := by
  have hcases : actsOf id (s.turns ms) = [] ∨ actsOf id (s.turns ms) = [.ended] := by
    simpa using (List.mem_inits _ _).mpr h
  have hdoes : List.Forall₂ (Turn.Does id) (turnsOf id (s.turns ms)) (actsOf id (s.turns ms)) := by
    have hbegun : ∀ c, .begun c ∉ actsOf id (s.turns ms) := fun c hmem => by
      simpa using h.subset hmem
    rw [← flatMap_turnsOf] at hbegun ⊢
    exact forall₂_does (fun t => subject_of_mem_turnsOf) hbegun
  have hsilent : (turnsOf id (s.turns ms)).filter Turn.publishes = [] := by
    generalize turnsOf id (s.turns ms) = ts at hdoes
    rcases hcases with hacts | hacts <;> rw [hacts] at hdoes
    · cases hdoes
      rfl
    · obtain _ | ⟨hended, _ | _⟩ := hdoes
      cases hended
      rfl
  rw [← List.map_eq_nil_iff, turns_postingsOf, hsilent]

variable {initial : F.State} {ms : List (Move F V)} {id : CallId} {c : F.Call}

theorem raises_of_turn {x : Posting F} (hx : x ∈ (opening initial : Session F V).postings ms)
    (h : x.turn = .opened id c ∨ x.turn = .raised id c) : Raises c x := by
  rw [Raises, after_of_mem_postings hx]
  rcases h with h | h <;> rw [h] <;> rfl

theorem lowers_of_turn {x : Posting F} (hx : x ∈ (opening initial : Session F V).postings ms)
    (h : x.turn.Does id (.lowered c)) : Lowers c x := by
  have hafter := after_of_mem_postings hx
  generalize x.turn = t at h hafter
  cases h with
  | @stored _ payload f => exact ⟨f, hafter⟩
  | lowered => exact ⟨fun y => y, hafter⟩

/-- Without failures a call is where it has come to. -/
theorem mem_spots_of_past (hcalm : .panic ∉ ms) {x : Spot F}
    (hx : x.Past (actsOf x.id ((opening initial : Session F V).turns ms))) :
    x ∈ ((opening initial : Session F V).after ms).outline.spots := by
  rcases mem_spots_or_givenUp initial ms hx with hmem | ⟨-, a, b, rfl, -⟩
  · exact hmem
  · exact absurd (List.mem_append_right _ (List.mem_cons_self ..)) hcalm

/-- A call that has lowered its flag has at most to return. -/
theorem eq_closing_of_lowered
    (hacts : .lowered c ∈ actsOf id ((opening initial : Session F V).turns ms)) :
    ∀ x ∈ ((opening initial : Session F V).after ms).outline.spots, x.id = id →
      x = .closing id := by
  rintro x hx rfl
  have hpast := (lived initial ms).past hx
  cases x with
  | closing => rfl
  | raising | sending | inFlight =>
    rw [show actsOf _ _ = _ from hpast] at hacts
    simp at hacts

/-- What a call has left to do that has raised its flag. -/
theorem cases_of_raised_cons {l : List (Act F)}
    (h : ∃ c', .begun c :: .raised c :: l <+: Act.life c') :
    l = [] ∨ l = [.sent c] ∨ l = [.sent c, .lowered c] ∨ l = [.sent c, .lowered c, .ended] := by
  obtain ⟨c', hprefix⟩ := h
  obtain ⟨hc, hprefix⟩ := List.cons_prefix_cons.mp hprefix
  cases hc
  have hmem := (List.mem_inits _ _).mpr (List.cons_prefix_cons.mp hprefix).2
  simpa using hmem

/-- What a call has published that has raised its flag. -/
theorem account_of_raised (hcalm : .panic ∉ ms) {up : Posting F} (hup : Raises c up)
    {own : List (Posting F)} (hown : ∀ x ∈ own, x ∈ (opening initial : Session F V).postings ms)
    {ts : List (Turn F)} (hts : ∀ t ∈ ts, t.subject? = some id)
    (hturns : own.map (·.turn) = ts.filter Turn.publishes)
    (hacts : actsOf id ((opening initial : Session F V).turns ms)
      = .begun c :: .raised c :: ts.flatMap Turn.acts) :
    Account ((opening initial : Session F V).after ms) id c (up :: own) := by
  have hleft := cases_of_raised_cons <| by
    rw [← hacts]
    refine ((lived initial ms).whole id).resolve_left fun hnil => ?_
    rw [hacts] at hnil
    cases hnil
  have hdoes : List.Forall₂ (Turn.Does id) ts (ts.flatMap Turn.acts) :=
    forall₂_does hts fun c' hmem => by
      rcases hleft with hl | hl | hl | hl <;> simp [hl] at hmem
  -- the lowered flag is in the last snapshot, and nothing is published after it
  have hclosed : ∀ {t : Turn F} {rest : List (Turn F)}, t.Does id (.lowered c) →
      rest.filter Turn.publishes = [] → ts = .sent id c :: t :: rest →
      .lowered c ∈ ts.flatMap Turn.acts →
      Account ((opening initial : Session F V).after ms) id c (up :: own) := by
    intro t rest ht hrest hshape hlowered
    have hpublishes : t.publishes = true := by cases ht <;> rfl
    rw [hshape, List.filter_cons_of_neg Bool.false_ne_true, List.filter_cons_of_pos hpublishes,
      hrest, List.map_eq_singleton_iff] at hturns
    obtain ⟨down, rfl, rfl⟩ := hturns
    refine .closed hup (lowers_of_turn (hown down (List.mem_singleton_self _)) ht) ?_
    refine eq_closing_of_lowered (c := c) ?_
    rw [hacts]
    exact List.mem_cons_of_mem _ (List.mem_cons_of_mem _ hlowered)
  rcases hleft with hl | hl | hl | hl <;> rw [hl] at hdoes hacts
  · cases hdoes
    rw [List.map_eq_nil_iff.mp hturns]
    exact .open hup (.inl (mem_spots_of_past hcalm hacts))
  · obtain _ | ⟨hsent, _ | _⟩ := hdoes
    cases hsent
    rw [List.map_eq_nil_iff.mp hturns]
    exact .open hup (.inr (mem_spots_of_past hcalm hacts))
  · obtain _ | ⟨hsent, _ | ⟨hlowered, _ | _⟩⟩ := hdoes
    cases hsent
    exact hclosed hlowered rfl rfl (by simp [hl])
  · obtain _ | ⟨hsent, _ | ⟨hlowered, _ | ⟨hended, _ | _⟩⟩⟩ := hdoes
    cases hsent
    cases hended
    exact hclosed hlowered rfl rfl (by simp [hl])

/-- What a call has published whose flag is to be raised, and what it has published since. -/
theorem account_of_begun (hcalm : .panic ∉ ms) {own : List (Posting F)}
    (hown : ∀ x ∈ own, x ∈ (opening initial : Session F V).postings ms)
    {ts : List (Turn F)} (hts : ∀ t ∈ ts, t.subject? = some id)
    (hturns : own.map (·.turn) = ts.filter Turn.publishes)
    (hacts : actsOf id ((opening initial : Session F V).turns ms)
      = .begun c :: ts.flatMap Turn.acts) :
    Account ((opening initial : Session F V).after ms) id c own := by
  obtain ⟨c', hprefix⟩ : ∃ c', .begun c :: ts.flatMap Turn.acts <+: Act.life c' := by
    rw [← hacts]
    refine ((lived initial ms).whole id).resolve_left fun hnil => ?_
    rw [hacts] at hnil
    cases hnil
  obtain ⟨hc, hprefix⟩ := List.cons_prefix_cons.mp hprefix
  cases hc
  cases ts with
  | nil =>
    rw [List.map_eq_nil_iff.mp hturns]
    exact .pending (mem_spots_of_past hcalm hacts)
  | cons t ts =>
    obtain ⟨ht, hsub⟩ := List.forall_mem_cons.mp hts
    -- what comes next is that the flag is raised
    have hraised : t = .raised id c := by
      rw [List.flatMap_cons] at hprefix
      cases t <;> cases ht <;> simp_all [Turn.acts, Act.life]
    subst hraised
    rw [List.filter_cons_of_pos rfl, List.map_eq_cons_iff] at hturns
    obtain ⟨up, rest, rfl, hup, hrest⟩ := hturns
    obtain ⟨hmem, hown⟩ := List.forall_mem_cons.mp hown
    exact account_of_raised hcalm (raises_of_turn hmem (.inr hup)) hown hsub hrest hacts

/-- The first turn of a call is the one in which it is asked for. -/
theorem turnsOf_asked {a b : List (Move F V)} {ask : F.Ask} {t : Turn F}
    (hturn : ((opening initial : Session F V).after a).turn (.ask ask) = t)
    (ht : t.subject? = some ((opening initial : Session F V).after a).nextCall) :
    turnsOf ((opening initial : Session F V).after a).nextCall
        ((opening initial : Session F V).turns (a ++ .ask ask :: b))
      = t :: turnsOf ((opening initial : Session F V).after a).nextCall
        ((((opening initial : Session F V).after a).step (.ask ask)).1.turns b) := by
  have hnew : turnsOf ((opening initial : Session F V).after a).nextCall
      ((opening initial : Session F V).turns a) = [] :=
    turnsOf_eq_nil ((lived initial a).future (Nat.le_refl _))
  rw [turns_append, turns, hturn, turnsOf, List.filter_append, show List.filter _ _ = [] from hnew,
    List.nil_append, List.filter_cons_of_pos (by simpa using ht)]
  rfl

/-- **What a call has published that was admitted.** -/
theorem account {a b : List (Move F V)} {ask : F.Ask}
    (hcalm : .panic ∉ a ++ .ask ask :: b)
    (hfree : ((opening initial : Session F V).after a).isFree = true)
    (haccept : F.accept ask ((opening initial : Session F V).after a).state = .proceed c) :
    let start : Session F V := opening initial
    let id := (start.after a).nextCall
    ∃ before own, start.postingsOf id (a ++ .ask ask :: b) = before ++ own ∧
      before.length = (F.prelude c (start.after a).state).toList.length ∧
      Account (start.after (a ++ .ask ask :: b)) id c own := by
  intro start id
  have hmem : ∀ x ∈ start.postingsOf id (a ++ .ask ask :: b),
      x ∈ start.postings (a ++ .ask ask :: b) := fun x hx => List.mem_of_mem_filter hx
  have hown := start.turns_postingsOf id (a ++ .ask ask :: b)
  have hacts := flatMap_turnsOf id (start.turns (a ++ .ask ask :: b))
  have hsub : ∀ t ∈ turnsOf id (((start.after a).step (.ask ask)).1.turns b),
      t.subject? = some id := fun t => subject_of_mem_turnsOf
  generalize start.postingsOf id (a ++ .ask ask :: b) = own at hown hmem ⊢
  -- a call with a prelude publishes that first, and raises its flag afterwards
  cases hprelude : F.prelude c (start.after a).state with
  | none =>
    have hsplit := turnsOf_asked (b := b) (turn_of_opened hfree haccept hprelude) rfl
    rw [hsplit] at hown hacts
    rw [List.filter_cons_of_pos rfl, List.map_eq_cons_iff] at hown
    obtain ⟨up, own, rfl, hup, hown⟩ := hown
    obtain ⟨hmem, hrest⟩ := List.forall_mem_cons.mp hmem
    exact ⟨[], up :: own, rfl, rfl,
      account_of_raised hcalm (raises_of_turn hmem (.inl hup)) hrest hsub hown hacts.symm⟩
  | some p =>
    have hsplit := turnsOf_asked (b := b) (turn_of_begun hfree haccept hprelude) rfl
    rw [hsplit] at hown hacts
    rw [List.filter_cons_of_pos rfl, List.map_eq_cons_iff] at hown
    obtain ⟨switch, own, rfl, -, hown⟩ := hown
    obtain ⟨-, hrest⟩ := List.forall_mem_cons.mp hmem
    exact ⟨[switch], own, rfl, rfl, account_of_begun hcalm hrest hsub hown hacts.symm⟩

/-! ## How a call ends -/

/-- A move that ends a call in flight, with what it stores beside the lowered flag. -/
inductive Ending (s : Session F V) (id : CallId) (c : F.Call) :
    Move F V → (F.State → F.State) → Prop
  | stored {payload f label entry notice value} :
    F.settle c payload s.state = some (.store f label entry notice value) →
    Ending s id c (.resolve id (.ok payload)) f
  | stale {payload entry value} : F.settle c payload s.state = some (.stale entry value) →
    Ending s id c (.resolve id (.ok payload)) fun x => x
  | failed {f} : Ending s id c (.resolve id (.error f)) fun x => x
  | cancelled : Ending s id c (.cancel id) fun x => x

omit [DecidableEq V] in
/-- A call that ends lowers its flag in the snapshot in which it stores what it stores. -/
theorem Ending.turn {s : Session F V} {m : Move F V} {f : F.State → F.State}
    (h : Ending s id c m f) (hfree : s.isFree = true) (hcall : s.call? id = some c) :
    (s.turn m).Does id (.lowered c) ∧
      (s.turn m).apply s.store.initial s.state = (F.flag c).lower (f s.state) := by
  rw [turn_of_isFree hfree]
  cases h with
  | stored hsettle =>
    rw [freeTurn, hcall, Option.map_some, Option.getD_some, answerTurn, hsettle]
    exact ⟨.stored, rfl⟩
  | stale hsettle =>
    rw [freeTurn, hcall, Option.map_some, Option.getD_some, answerTurn, hsettle]
    exact ⟨.lowered, rfl⟩
  | failed | cancelled =>
    rw [freeTurn, hcall]
    exact ⟨.lowered, rfl⟩

/-- **A call that ends publishes one snapshot, and no further one.** -/
theorem postingsOf_ending {a b : List (Move F V)} {m : Move F V} {f : F.State → F.State}
    (hfree : ((opening initial : Session F V).after a).isFree = true)
    (hcall : ((opening initial : Session F V).after a).call? id = some c)
    (hending : Ending ((opening initial : Session F V).after a) id c m f) :
    let start : Session F V := opening initial
    let s := start.after a
    start.postingsOf id (a ++ m :: b) = start.postingsOf id a
      ++ [⟨s.turn m, s.store.current, s.store.current.next ((F.flag c).lower (f s.state))⟩] := by
  intro start s
  obtain ⟨hdoes, happly⟩ := hending.turn hfree hcall
  have hturn : (s.turn m).subject? = some id ∧ (s.turn m).publishes = true ∧
      (s.turn m).acts = [.lowered c] := by
    generalize s.turn m = t at hdoes
    cases hdoes <;> exact ⟨rfl, rfl, rfl⟩
  obtain ⟨hsubject, hpublishes, hacts⟩ := hturn
  -- nothing but its return is left of the call
  have hbefore : actsOf id (start.turns a) = [.begun c, .raised c, .sent c] :=
    (lived initial a).past (mem_spots_of_call? hcall)
  have hwhole := (lived initial (a ++ m :: b)).whole id
  rw [turns_append, actsOf_append, turns, actsOf_cons, hbefore, Turn.actsOf_self hsubject,
    hacts] at hwhole
  have hafter : (s.step m).1.postingsOf id b = [] := by
    rcases hwhole with hnil | ⟨c', hprefix⟩
    · cases hnil
    · have hlast : c = c' ∧ actsOf id ((s.step m).1.turns b) <+: [.ended] := by
        simpa [Act.life] using hprefix
      exact postingsOf_eq_nil hlast.2
  have hm : s.postingsOf id [m]
      = [⟨s.turn m, s.store.current, s.store.current.next ((F.flag c).lower (f s.state))⟩] := by
    rw [postingsOf, postings, postings, posting_of_publishes hpublishes, happly]
    exact List.filter_cons_of_pos (decide_eq_true hsubject)
  rw [postingsOf_append, ← List.singleton_append, postingsOf_append, hm, after_cons, after_nil,
    hafter, List.append_nil]

/-! ## What the version counts -/

/-- The edit that a move makes, unless it is ignored. -/
def heeded? (ignores : F.Edit → F.State → Bool) (s : Session F V) : Move F V → Option F.Edit
  | .edit e => if s.isFree && !ignores e s.state then some e else none
  | .tick | .publish _ | .ask _ | .resolve _ _ | .cancel _ | .observe _ | .ret | .panic => none

/-- The edits of a run that are not ignored. -/
def heeded (ignores : F.Edit → F.State → Bool) (s : Session F V) : List (Move F V) → List F.Edit
  | [] => []
  | m :: ms => (s.heeded? ignores m).toList ++ (s.step m).1.heeded ignores ms

variable {ignores : F.Edit → F.State → Bool}

omit [DecidableEq V] in
/-- What is published without a call is published by an edit. -/
theorem subject_of_publishes {s : Session F V} {m : Move F V} (hown : m.isOwn = true)
    (hedit : ∀ e, m ≠ .edit e) (h : (s.turn m).publishes = true) : (s.turn m).subject? ≠ none := by
  have hcause := s.cause m
  generalize s.turn m = t at hcause h
  cases hcause with
  | idle | declined | sent | ended | failed => cases h
  | edited => exact absurd rfl (hedit _)
  | published => cases hown
  | begun | opened | stored | lowered | raised => exact nofun

omit [DecidableEq V] in
/-- An edit is published unless it is ignored. -/
theorem turn_edit (hignores : ∀ e x, ignores e x = true ↔ F.edit e x = none) (s : Session F V)
    (e : F.Edit) :
    s.heeded? ignores (.edit e) = some e ∧ (∃ p, s.turn (.edit e) = .edited e p) ∨
      s.heeded? ignores (.edit e) = none ∧ s.turn (.edit e) = .idle := by
  by_cases hfree : s.isFree = true
  · have hturn : s.turn (.edit e) = ((F.edit e s.state).map (.edited e)).getD .idle :=
      turn_of_isFree hfree
    rw [hturn]
    cases hedit : F.edit e s.state with
    | none =>
      right
      simp [heeded?, (hignores e s.state).mpr hedit]
    | some p =>
      left
      have hnot : ignores e s.state = false :=
        Bool.eq_false_iff.mpr fun h => nomatch ((hignores e s.state).mp h).symm.trans hedit
      simp [heeded?, hfree, hnot]
  · right
    exact ⟨by simp [heeded?, hfree], turn_of_not_isFree hfree (fun h => nomatch h)⟩

/-- An edit that is not ignored publishes one snapshot without a call, and every other move none. -/
theorem length_posting_edit (hignores : ∀ e x, ignores e x = true ↔ F.edit e x = none)
    (s : Session F V) {m : Move F V} (hown : m.isOwn = true) :
    ((s.posting? m).toList.filter fun x => x.turn.subject? = none).length
      = (s.heeded? ignores m).toList.length := by
  have hcalls : (∀ e, m ≠ .edit e) →
      ((s.posting? m).toList.filter fun x => x.turn.subject? = none) = [] := by
    intro hedit
    by_cases hpublishes : (s.turn m).publishes = true
    · rw [posting_of_publishes hpublishes]
      simpa using subject_of_publishes hown hedit hpublishes
    · rw [posting_of_not_publishes (Bool.eq_false_iff.mpr hpublishes)]
      rfl
  cases m with
  | edit e =>
    rcases turn_edit hignores s e with ⟨hheeded, p, hturn⟩ | ⟨hheeded, hturn⟩
    · rw [hheeded, posting_of_publishes (by rw [hturn]; rfl), hturn]
      rfl
    · rw [hheeded, posting_of_not_publishes (by rw [hturn]; rfl)]
      rfl
  | tick | publish | ask | resolve | cancel | observe | ret | panic =>
    exact congrArg List.length (hcalls nofun)

theorem length_postings_edit (hignores : ∀ e x, ignores e x = true ↔ F.edit e x = none)
    (s : Session F V) {ms : List (Move F V)} (hown : ∀ m ∈ ms, m.isOwn = true) :
    ((s.postings ms).filter fun x => x.turn.subject? = none).length
      = (s.heeded ignores ms).length := by
  induction ms generalizing s with
  | nil => rfl
  | cons m ms ih =>
    obtain ⟨hm, hms⟩ := List.forall_mem_cons.mp hown
    rw [postings, List.filter_append, List.length_append, length_posting_edit hignores s hm,
      ih (s.step m).1 hms, heeded, List.length_append]

/-- A list is as long as what has no label and what has each label together. -/
theorem length_eq_add_sum {α : Type*} (label : α → Option Nat) {n : Nat} {l : List α}
    (h : ∀ x ∈ l, ∀ i, label x = some i → i < n) :
    l.length = (l.filter fun x => label x = none).length
      + ∑ i ∈ Finset.range n, (l.filter fun x => label x = some i).length := by
  induction l with
  | nil => simp
  | cons x l ih =>
    obtain ⟨hx, hl⟩ := List.forall_mem_cons.mp h
    have hcons : ∀ i, ((x :: l).filter fun x => label x = some i).length
        = (if label x = some i then 1 else 0) + (l.filter fun x => label x = some i).length := by
      intro i
      by_cases hi : label x = some i <;> simp [hi, Nat.add_comm]
    rw [Finset.sum_congr rfl fun i _ => hcons i, Finset.sum_add_distrib, List.length_cons, ih hl]
    cases hlabel : label x with
    | none => simp [hlabel]; omega
    | some j =>
      have hj : j ∈ Finset.range n := Finset.mem_range.mpr (hx j hlabel)
      simp [hlabel, hj]; omega

/-- **The version counts the edits that are not ignored and what the calls have published.** -/
theorem version_eq (hignores : ∀ e x, ignores e x = true ↔ F.edit e x = none)
    (hown : ∀ m ∈ ms, m.isOwn = true) :
    let start : Session F V := opening initial
    let s := start.after ms
    s.store.current.version = (start.heeded ignores ms).length
      + ∑ id ∈ Finset.range s.nextCall, (start.postingsOf id ms).length := by
  intro start s
  have hnamed : ∀ x ∈ start.postings ms, ∀ id, x.turn.subject? = some id → id < s.nextCall := by
    intro x hx id hid
    by_contra hnew
    have hnil : start.postingsOf id ms = [] := postingsOf_eq_nil <| by
      rw [show actsOf id (start.turns ms) = [] from
        (lived initial ms).future (Nat.le_of_not_lt hnew)]
      exact List.nil_prefix
    exact List.filter_eq_nil_iff.mp hnil x hx (decide_eq_true hid)
  have hversion : s.store.current.version = (start.postings ms).length :=
    (start.version_after ms).trans (Nat.zero_add _)
  rw [hversion, ← length_postings_edit hignores start hown]
  exact length_eq_add_sum (fun x : Posting F => x.turn.subject?) hnamed

end Runs

end Session

end LiveDesk
