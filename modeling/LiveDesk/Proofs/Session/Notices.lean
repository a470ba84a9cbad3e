import LiveDesk.Proofs.Session.Reports

/-!
# Notices are owed to successful calls

The user is told something when a call returns what it was asked for, and at no other time: not by
edits, and not for a call that is refused, fails, is given up, or is answered too late.

- `Feature.Notifies`: what the calls of a feature owe.
- `Session.asked`, `stale`: the calls of a run that are asked for, and those that are answered too
  late.
- `Session.owing`: what is owed for the calls that succeed in a run.
- `Traced`: every call that has not ended is known, with what it owes.
- **`Session.notices_eq`**: in every run the user is told what the successful calls owe.
- `Session.stored_of_notice`: the answer of such a call was stored before.
- `Session.mem_stale_iff`: the answers that are dropped are those that come too late.
-/

namespace LiveDesk

open Observable

variable {F : Feature} {V : Type}

/-- What is owed for a call that succeeds: what its answer says if it is stored, and nothing if
there is nothing to ask. -/
structure Feature.Notifies (F : Feature) (due : F.Ask → Option Notice) : Prop where
  proceed : ∀ {a x c payload y f label entry notice value}, F.accept a x = .proceed c →
    F.settle c payload y = some (.store f label entry notice value) → notice = due a
  done : ∀ {a x v}, F.accept a x = .done v → due a = none

namespace Session

/-! ## What is read off a run -/

/-- The call that is asked for in a move, with its name. -/
def asked? (s : Session F V) : Move F V → Option (CallId × F.Ask)
  | .ask a => if s.isFree then some (s.nextCall, a) else none
  | .tick | .edit _ | .publish _ | .resolve _ _ | .cancel _ | .observe _ | .ret | .panic => none

/-- The call whose answer arrives in a move and comes too late. -/
def stale? (s : Session F V) : Move F V → Option CallId
  | .resolve id (.ok payload) =>
    if s.isFree then
      match (s.call? id).bind fun c => F.settle c payload s.state with
      | some (.stale _ _) => some id
      | some (.store _ _ _ _ _) | none => none
    else none
  | .resolve _ (.error _) | .tick | .edit _ | .publish _ | .ask _ | .cancel _ | .observe _ | .ret
  | .panic => none

/-- The calls that are asked for in a run, with their names. -/
def asked [DecidableEq V] (s : Session F V) : List (Move F V) → List (CallId × F.Ask)
  | [] => []
  | m :: ms => (s.asked? m).toList ++ (s.step m).1.asked ms

/-- The calls of a run whose answers come too late. -/
def stale [DecidableEq V] (s : Session F V) : List (Move F V) → List CallId
  | [] => []
  | m :: ms => (s.stale? m).toList ++ (s.step m).1.stale ms

/-- The notice that is owed for a call that succeeds. -/
def owed (due : F.Ask → Option Notice) (asked : List (CallId × F.Ask)) (stale : List CallId)
    (id : CallId) : Option Notice :=
  if id ∈ stale then none else (asked.lookup id).bind due

/-- The notices that are owed for the calls that succeed in a run. -/
def owing [DecidableEq V] (due : F.Ask → Option Notice) (s : Session F V)
    (ms : List (Move F V)) : List Notice :=
  (returned (s.events ms)).filterMap fun r => owed due (s.asked ms) (s.stale ms) r.1

end Session

/-! ## Calls that have not ended -/

/-- The call is known by what it was admitted with, and has not been answered too late. -/
def Admitted (asked : List (CallId × F.Ask)) (stale : List CallId) (id : CallId) (c : F.Call) :
    Prop :=
  id ∉ stale ∧ ∃ a y, asked.lookup id = some a ∧ F.accept a y = .proceed c

/-- The call that goes on is known, with what it owes when it returns. -/
def Stage.Known (due : F.Ask → Option Notice) (asked : List (CallId × F.Ask))
    (stale : List CallId) : Stage F → Prop
  | .raising id c | .sending id c => Admitted asked stale id c
  | .closing id _ notice _ => id ∉ stale ∧ ∃ a, asked.lookup id = some a ∧ due a = notice
  | .leaving id _ answer => ∀ v, answer = some (.ok v) → id ∈ stale

section Known

variable {due : F.Ask → Option Notice} {asked : List (CallId × F.Ask)} {stale : List CallId}

theorem lookup_append_of_some {id : CallId} {a : F.Ask} (h : asked.lookup id = some a)
    (more : List (CallId × F.Ask)) : (asked ++ more).lookup id = some a := by
  rw [List.lookup_append, h, Option.some_or]

theorem Admitted.ask {id : CallId} {c : F.Call} (h : Admitted asked stale id c)
    (more : List (CallId × F.Ask)) : Admitted (asked ++ more) stale id c := by
  obtain ⟨hstale, a, y, ha, hy⟩ := h
  exact ⟨hstale, a, y, lookup_append_of_some ha more, hy⟩

theorem Admitted.drop {id i : CallId} {c : F.Call} (h : Admitted asked stale id c)
    (hne : id ≠ i) : Admitted asked (stale ++ [i]) id c :=
  ⟨by simpa [hne] using h.1, h.2⟩

theorem Stage.Known.ask {stage : Stage F} (h : stage.Known due asked stale)
    (more : List (CallId × F.Ask)) : stage.Known due (asked ++ more) stale := by
  cases stage with
  | raising | sending => exact Admitted.ask h more
  | leaving => exact h
  | closing id entry notice value =>
    obtain ⟨hstale, a, ha, hdue⟩ := h
    exact ⟨hstale, a, lookup_append_of_some ha more, hdue⟩

theorem Stage.Known.drop {stage : Stage F} {i : CallId} (h : stage.Known due asked stale)
    (hne : stage.id ≠ i) : stage.Known due asked (stale ++ [i]) := by
  cases stage with
  | raising | sending => exact Admitted.drop h hne
  | leaving => exact fun v hv => List.mem_append_left _ (h v hv)
  | closing id entry notice value => exact ⟨by simpa using ⟨h.1, hne⟩, h.2⟩

end Known

/-- Whether a turn gives a call its name. -/
def Turn.names : Turn F → Bool
  | .declined | .begun _ _ _ | .opened _ _ => true
  | .idle | .edited _ _ | .published _ | .raised _ _ | .sent _ _ | .stored _ _ _ _ | .lowered _ _
  | .ended _ | .failed => false

namespace Session

variable {s : Session F V} {m : Move F V}

theorem Course.begun_eq {o o' : Outline F} {id : CallId} {c : F.Call}
    {p : Publication F.State} (h : Course (.begun id c p) o o') :
    o' = ((o.enter (.raising o.nextCall c)).change p.change).named := by
  cases h
  rfl

theorem Course.opened_eq {o o' : Outline F} {id : CallId} {c : F.Call}
    (h : Course (.opened id c) o o') : o' = (o.raise o.nextCall c).named := by
  cases h
  rfl

/-- A call is asked for in the turns that name one. -/
theorem asked?_eq_none (h : (s.turn m).names = false) : s.asked? m = none := by
  cases m with
  | tick | edit | publish | resolve | cancel | observe | ret | panic => rfl
  | ask a =>
    refine if_neg fun hfree => ?_
    rw [turn_of_isFree hfree, freeTurn, askTurn] at h
    cases haccept : F.accept a s.state with
    | refuse | done =>
      rw [haccept] at h
      cases h
    | proceed c =>
      rw [haccept] at h
      dsimp only at h
      cases hprelude : F.prelude c s.state <;> rw [hprelude] at h <;> cases h

/-- An answer that comes too late lowers the flag of its call. -/
theorem turn_of_stale {id : CallId} (h : s.stale? m = some id) :
    ∃ c payload entry value, m = .resolve id (.ok payload) ∧ s.turn m = .lowered id c ∧
      s.call? id = some c ∧ F.settle c payload s.state = some (.stale entry value) := by
  cases m with
  | tick | edit | publish | ask | cancel | observe | ret | panic => cases h
  | resolve i reply =>
    cases reply with
    | error => cases h
    | ok payload =>
      rw [stale?] at h
      split at h
      · next hfree =>
        rw [turn_of_isFree hfree, freeTurn]
        cases hcall : s.call? i with
        | none =>
          rw [hcall] at h
          cases h
        | some c =>
          rw [hcall, Option.bind_some] at h
          rw [Option.map_some, Option.getD_some, answerTurn]
          cases hsettle : F.settle c payload s.state with
          | none =>
            rw [hsettle] at h
            cases h
          | some settlement =>
            rw [hsettle] at h
            cases settlement with
            | store => cases h
            | stale =>
              cases h
              exact ⟨c, payload, _, _, rfl, rfl, hcall, hsettle⟩
      · cases h

theorem isFree_of_stale {id : CallId} (h : s.stale? m = some id) : s.isFree = true := by
  obtain ⟨c, _, _, _, -, hturn, -⟩ := turn_of_stale h
  have hcause := s.cause m
  rw [hturn] at hcause
  cases hcause with
  | lowered hfree => exact hfree

theorem stale?_eq_none (h : ∀ id c, s.turn m ≠ .lowered id c) : s.stale? m = none := by
  cases hstale : s.stale? m with
  | none => rfl
  | some id =>
    obtain ⟨c, _, _, _, -, hturn, -⟩ := turn_of_stale hstale
    exact absurd hturn (h id c)

/-! ## How a flag is lowered -/

theorem outline_cancel {id : CallId} {c : F.Call} (h : s.call? id = some c) :
    (s.cancel id).1.outline = s.outline.settle id c (fun x => x) (.leaving id none none) := by
  unfold cancel
  rw [h]
  exact s.outline_lower id c none none

theorem outline_resolve_error {id : CallId} {c : F.Call} (h : s.call? id = some c) (f : Failure) :
    (s.resolve id (.error f)).1.outline
      = s.outline.settle id c (fun x => x)
        (.leaving id none (some (.error (.failed c f)))) := by
  unfold resolve
  rw [h]
  exact s.outline_lower id c none _

theorem outline_resolve_stale {id : CallId} {c : F.Call} (h : s.call? id = some c)
    {payload : F.Payload} {entry : LogEntry} {value : F.Value}
    (hsettle : F.settle c payload s.state = some (.stale entry value)) :
    (s.resolve id (.ok payload)).1.outline
      = s.outline.settle id c (fun x => x) (.leaving id (some entry) (some (.ok value))) := by
  unfold resolve
  simp only [h, hsettle]
  exact s.outline_lower id c _ _

variable [DecidableEq V]

/-- A call whose flag is lowered without storing anything succeeds only if its answer comes too
late. -/
theorem outline_lowered {id : CallId} {c : F.Call} (h : s.turn m = .lowered id c) :
    ∃ entry answer, (s.step m).1.outline
        = s.outline.settle id c (fun x => x) (.leaving id entry answer) ∧
      ∀ v, answer = some (.ok v) → s.stale? m = some id := by
  have hcause := s.cause m
  rw [h] at hcause
  cases hcause with
  | lowered hfree hcall =>
    rw [turn_of_isFree hfree] at h
    rw [show s.step m = s.perform m from if_pos hfree]
    cases m with
    | tick | publish | observe | ret | panic => cases h
    | edit e =>
      rw [freeTurn] at h
      cases hedit : F.edit e s.state <;> rw [hedit] at h <;> cases h
    | ask a =>
      rw [freeTurn, askTurn] at h
      cases haccept : F.accept a s.state with
      | refuse | done =>
        rw [haccept] at h
        cases h
      | proceed c' =>
        rw [haccept] at h
        dsimp only at h
        cases hprelude : F.prelude c' s.state <;> rw [hprelude] at h <;> cases h
    | cancel i =>
      rw [freeTurn] at h
      cases hi : s.call? i with
      | none =>
        rw [hi] at h
        cases h
      | some c' =>
        rw [hi] at h
        cases h
        exact ⟨none, none, outline_cancel hi, fun _ hv => by cases hv⟩
    | resolve i reply =>
      rw [freeTurn] at h
      cases hi : s.call? i with
      | none =>
        rw [hi] at h
        cases h
      | some c' =>
        rw [hi, Option.map_some, Option.getD_some] at h
        cases reply with
        | error f =>
          cases h
          exact ⟨none, _, outline_resolve_error hi f, fun _ hv => by cases hv⟩
        | ok payload =>
          rw [answerTurn] at h
          cases hsettle : F.settle c' payload s.state with
          | none =>
            rw [hsettle] at h
            cases h
          | some settlement =>
            rw [hsettle] at h
            cases settlement with
            | store => cases h
            | stale entry value =>
              cases h
              refine ⟨some entry, _, outline_resolve_stale hi hsettle, fun _ _ => ?_⟩
              rw [stale?, if_pos hfree, hi, Option.bind_some, hsettle]

/-- A call in flight has no method on the stack. -/
theorem Outline.Named.stage_ne {o : Outline F} (h : o.Named) {stage : Stage F}
    (hstage : stage ∈ o.stages) {id : CallId} {c : F.Call} (hcall : o.calls.lookup id = some c) :
    stage.id ≠ id := by
  obtain ⟨l, l', hcalls, -⟩ := List.lookup_eq_some_iff.mp hcall
  have honce := h.once
  rw [Outline.spots, List.map_append, List.nodup_append, List.map_map, List.map_map] at honce
  refine honce.2.2 stage.id (List.mem_map.mpr ⟨stage, hstage, ?_⟩) id
    (List.mem_map.mpr ⟨(id, c), ?_, rfl⟩)
  · cases stage <;> rfl
  · rw [hcalls]
    exact List.mem_append_right _ (List.mem_cons_self ..)

end Session

/-- Every call that has not ended is known, with what it owes when it returns. -/
structure Traced (due : F.Ask → Option Notice) (o : Session.Outline F)
    (asked : List (CallId × F.Ask)) (stale : List CallId) : Prop where
  stages : ∀ stage ∈ o.stages, stage.Known due asked stale
  calls : ∀ call ∈ o.calls, Admitted asked stale call.1 call.2
  fresh : ∀ id, o.nextCall ≤ id → id ∉ stale ∧ asked.lookup id = none

namespace Traced

open Session

variable {due : F.Ask → Option Notice} {o o' : Outline F} {asked : List (CallId × F.Ask)}
  {stale : List CallId} {t : Turn F}

/-- A call is asked for, and gets its name. -/
theorem named (h : Traced due o asked stale) (a : F.Ask) :
    Traced due o.named (asked ++ [(o.nextCall, a)]) stale where
  stages stage hstage := (h.stages stage hstage).ask _
  calls call hcall := (h.calls call hcall).ask _
  fresh id hid := by
    have hnew : o.nextCall + 1 ≤ id := hid
    obtain ⟨hstale, hasked⟩ := h.fresh id (Nat.le_of_succ_le hnew)
    refine ⟨hstale, ?_⟩
    rw [List.lookup_append, hasked, Option.none_or, List.lookup_cons,
      beq_false_of_ne (Nat.lt_of_succ_le hnew).ne']
    rfl

/-- The call that has just been asked for is known. -/
theorem admitted (h : Traced due o asked stale) {a : F.Ask} {c : F.Call}
    (haccept : F.accept a o.state = .proceed c) :
    Admitted (asked ++ [(o.nextCall, a)]) stale o.nextCall c := by
  obtain ⟨hstale, hasked⟩ := h.fresh o.nextCall (Nat.le_refl _)
  refine ⟨hstale, a, o.state, ?_, haccept⟩
  rw [List.lookup_append, hasked, Option.none_or, List.lookup_cons, beq_self_eq_true]

/-- A method that is to go on, in place of those on the stack. -/
theorem enter (h : Traced due o asked stale) (stage : Stage F)
    (hstage : stage.Known due asked stale) {rest : List (Stage F)} (hrest : rest ⊆ o.stages)
    {calls : List (CallId × F.Call)} (hcalls : calls ⊆ o.calls) {state : F.State} :
    Traced due ⟨o.initial, state, stage :: rest, calls, o.nextCall⟩ asked stale where
  stages := List.forall_mem_cons.mpr ⟨hstage, fun x hx => h.stages x (hrest hx)⟩
  calls call hcall := h.calls call (hcalls hcall)
  fresh := h.fresh

theorem call (h : Traced due o asked stale) {id : CallId} {c : F.Call}
    (hcall : o.calls.lookup id = some c) : Admitted asked stale id c := by
  obtain ⟨l, l', hcalls, -⟩ := List.lookup_eq_some_iff.mp hcall
  exact h.calls (id, c) (hcalls ▸ List.mem_append_right _ (List.mem_cons_self ..))

/-- An answer that comes too late is noted. The calls that have not ended are others. -/
theorem drop (h : Traced due o asked stale) {id : CallId} (hid : id < o.nextCall)
    (hstages : ∀ stage ∈ o.stages, stage.id ≠ id) (hcalls : ∀ call ∈ o.calls, call.1 ≠ id) :
    Traced due o asked (stale ++ [id]) where
  stages stage hstage := (h.stages stage hstage).drop (hstages stage hstage)
  calls call hcall := (h.calls call hcall).drop (hcalls call hcall)
  fresh i hi := by
    obtain ⟨hstale, hasked⟩ := h.fresh i hi
    exact ⟨by simpa [hstale] using (hid.trans_le hi).ne', hasked⟩

section Steps

variable [DecidableEq V] {s : Session F V} {m : Move F V}

/-- A call whose flag is lowered without storing anything succeeds only if its answer is noted as
one that comes too late. -/
theorem lowered (h : Traced due s.outline asked stale) (hn : s.outline.Named) {id : CallId}
    {c : F.Call} (hturn : s.turn m = .lowered id c) :
    Traced due (s.step m).1.outline asked (stale ++ (s.stale? m).toList) := by
  obtain ⟨entry, answer, houtline, hanswer⟩ := outline_lowered hturn
  have hcall : s.call? id = some c := by
    have hcause := s.cause m
    rw [hturn] at hcause
    cases hcause
    assumption
  -- the call is in flight no more
  have hrest : Traced due
      { s.outline with calls := s.outline.calls.filter fun call => call.1 != id } asked stale :=
    ⟨h.stages, fun call hmem => h.calls call (List.mem_of_mem_filter hmem), h.fresh⟩
  rw [houtline]
  cases hstale : s.stale? m with
  | none =>
    rw [Option.toList_none, List.append_nil]
    refine hrest.enter (.leaving id entry answer) (fun v hv => ?_) (List.Subset.refl _)
      (List.Subset.refl _)
    exact nomatch hstale.symm.trans (hanswer v hv)
  | some i =>
    obtain ⟨c', _, _, _, -, hlowered, -⟩ := turn_of_stale hstale
    cases hturn.symm.trans hlowered
    have hdropped := hrest.drop (hn.older (mem_spots_of_call? hcall))
      (fun stage hmem => hn.stage_ne hmem hcall)
      (fun call hmem => bne_iff_ne.mp (List.mem_filter.mp hmem).2)
    exact hdropped.enter (.leaving id entry answer)
      (fun _ _ => List.mem_append_right _ (List.mem_singleton_self _)) (List.Subset.refl _)
      (List.Subset.refl _)

/-- **Every call that has not ended stays known.** -/
theorem step (hdue : F.Notifies due) (h : Traced due s.outline asked stale)
    (hn : s.outline.Named) :
    Traced due (s.step m).1.outline (asked ++ (s.asked? m).toList)
      (stale ++ (s.stale? m).toList) := by
  have hcourse := s.course m
  have hcause := s.cause m
  -- a flag that is lowered may belong to an answer that comes too late; otherwise nothing is late
  by_cases hlowered : ∃ id c, s.turn m = .lowered id c
  · obtain ⟨id, c, hturn⟩ := hlowered
    rw [asked?_eq_none (by rw [hturn]; rfl), Option.toList_none, List.append_nil]
    exact h.lowered hn hturn
  · have hstale : s.stale? m = none := stale?_eq_none fun id c hturn => hlowered ⟨id, c, hturn⟩
    rw [hstale, Option.toList_none, List.append_nil]
    -- a turn that names a call is one that was asked for in this move
    by_cases hnames : (s.turn m).names = true
    · generalize s.turn m = t, (s.step m).1.outline = o' at hcause hcourse hnames
      cases hcause with
      | idle | edited | published | stored | lowered | raised | sent | ended | failed =>
        cases hnames
      | @declined a hfree =>
        rw [show s.asked? (.ask a) = some (s.nextCall, a) from if_pos hfree]
        cases hcourse with
        | declined => exact h.named a
      | @begun a c p hfree haccept hprelude =>
        rw [show s.asked? (.ask a) = some (s.nextCall, a) from if_pos hfree]
        rw [hcourse.begun_eq]
        exact (h.named a).enter (.raising s.nextCall c) (h.admitted haccept)
          (List.Subset.refl _) (List.Subset.refl _)
      | @opened a c hfree haccept hprelude =>
        rw [show s.asked? (.ask a) = some (s.nextCall, a) from if_pos hfree]
        rw [hcourse.opened_eq]
        exact (h.named a).enter (.sending s.nextCall c) (h.admitted haccept)
          (List.Subset.refl _) (List.Subset.refl _)
    · rw [asked?_eq_none (Bool.eq_false_iff.mpr hnames), Option.toList_none, List.append_nil]
      generalize s.turn m = t, s.outline = o, (s.step m).1.outline = o' at *
      cases hcourse with
      | idle | edited | published => exact ⟨h.stages, h.calls, h.fresh⟩
      | declined | begun | opened => exact absurd rfl hnames
      | lowered => exact absurd ⟨_, _, rfl⟩ hlowered
      | failed => exact ⟨List.forall_mem_nil _, h.calls, h.fresh⟩
      | @raised _ id c rest hstages =>
        have hhead := h.stages _ (hstages ▸ List.mem_cons_self ..)
        exact h.enter (.sending id c) hhead (hstages ▸ List.subset_cons_self _ _)
          (List.Subset.refl _)
      | @sent _ id c rest hstages =>
        have hhead := h.stages _ (hstages ▸ List.mem_cons_self ..)
        refine ⟨fun stage hstage => h.stages stage (hstages ▸ List.mem_cons_of_mem _ hstage), ?_,
          h.fresh⟩
        rw [List.forall_mem_append]
        exact ⟨h.calls, List.forall_mem_singleton.mpr hhead⟩
      | @stored _ id c payload f label entry notice value hcall hsettle =>
        obtain ⟨hfresh, a, y, hasked, haccept⟩ := h.call hcall
        exact h.enter (.closing id entry notice value)
          ⟨hfresh, a, hasked, (hdue.proceed haccept hsettle).symm⟩ (List.Subset.refl _)
          List.filter_sublist.subset
      | ended hstages =>
        exact ⟨fun stage hstage => h.stages stage (hstages ▸ List.mem_cons_of_mem _ hstage),
          h.calls, h.fresh⟩

end Steps

theorem opening (initial : F.State) :
    Traced due (Session.opening initial : Session F V).outline [] [] where
  stages := List.forall_mem_nil _
  calls := List.forall_mem_nil _
  fresh _ _ := ⟨List.not_mem_nil, rfl⟩

end Traced

/-! ## Runs -/

namespace Session

section Runs

variable [DecidableEq V] {s : Session F V} {done : CallId → List (Act F)} {id : CallId}

/-- A call that is gone is not answered too late. -/
theorem Outline.Gone.stale (h : s.outline.Gone id) (hl : Lived s.outline done)
    (ms : List (Move F V)) : id ∉ s.stale ms := by
  induction ms generalizing s done with
  | nil => exact List.not_mem_nil
  | cons m ms ih =>
    rw [Session.stale, List.mem_append, not_or]
    refine ⟨fun hmem => ?_, ih (h.step hl.toNamed (s.course m)).1 (hl.step (s.course m))⟩
    obtain ⟨c, _, _, _, -, -, hcall, -⟩ := turn_of_stale (Option.mem_toList.mp hmem)
    exact h.2 _ (mem_spots_of_call? hcall) rfl

/-! ### What is owed -/

section Owed

variable {due : F.Ask → Option Notice} {asked : List (CallId × F.Ask)} {stale : List CallId}

theorem owed_of_mem (h : id ∈ stale) : owed due asked stale id = none :=
  if_pos h

theorem owed_of_lookup (h : id ∉ stale) {a : F.Ask} (ha : asked.lookup id = some a) :
    owed due asked stale id = due a := by
  rw [owed, if_neg h, ha, Option.bind_some]

/-- What is owed for the calls that return in a step is what the user is told in it. -/
theorem Report.owed {m : Move F V} {ns : List Notice} {rs : List (CallId × F.Value)}
    (h : Report s m ns rs) (hdue : F.Notifies due) (ht : Traced due s.outline asked stale)
    (hl : Lived s.outline done) (ms : List (Move F V)) :
    ns = rs.filterMap fun r =>
      Session.owed due (asked ++ s.asked (m :: ms)) (stale ++ s.stale (m :: ms)) r.1 := by
  cases h with
  | silent => rfl
  | @done a v hfree haccept =>
    have hnew := (ht.fresh s.nextCall (Nat.le_refl _)).2
    have hlookup : (asked ++ s.asked (.ask a :: ms)).lookup s.nextCall = some a := by
      rw [List.lookup_append, hnew, Option.none_or, Session.asked,
        show s.asked? (.ask a) = some (s.nextCall, a) from if_pos hfree]
      exact List.lookup_cons_self
    rw [List.filterMap_cons]
    by_cases hmem : s.nextCall ∈ stale ++ s.stale (.ask a :: ms)
    · rw [owed_of_mem hmem]
      rfl
    · rw [owed_of_lookup hmem hlookup, hdue.done haccept]
      rfl
  | @closed m id entry notice value rest hturn hstages =>
    obtain ⟨hstale, a, hasked, ha⟩ := ht.stages _ (hstages ▸ List.mem_cons_self ..)
    have hnone : s.stale? m = none := stale?_eq_none fun _ _ h => nomatch hturn.symm.trans h
    -- the call is gone, so it is not answered too late afterwards
    have hlater : id ∉ (s.step m).1.stale ms :=
      (gone_of_ended hl hturn).stale (hl.step (s.course m)) ms
    have hmem : id ∉ stale ++ s.stale (m :: ms) := by
      rw [Session.stale, hnone, List.mem_append, List.mem_append, not_or, not_or]
      exact ⟨hstale, List.not_mem_nil, hlater⟩
    rw [List.filterMap_cons, owed_of_lookup hmem (lookup_append_of_some hasked _), ha]
    cases notice <;> rfl
  | left hturn hstages =>
    have hknown := ht.stages _ (hstages ▸ List.mem_cons_self ..)
    have hstale := hknown _ rfl
    rw [List.filterMap_cons, owed_of_mem (List.mem_append_left _ hstale)]
    rfl

/-- The notices of a run that goes on are those that the calls that return in it owe. -/
theorem notices_eq_of_traced (hdue : F.Notifies due) (ht : Traced due s.outline asked stale)
    (hl : Lived s.outline done) (ms : List (Move F V)) :
    notices (s.events ms) = (returned (s.events ms)).filterMap fun r =>
      owed due (asked ++ s.asked ms) (stale ++ s.stale ms) r.1 := by
  induction ms generalizing s asked stale done with
  | nil => rfl
  | cons m ms ih =>
    rw [events_cons, notices_append, returned_append, List.filterMap_append,
      ih (ht.step hdue hl.toNamed) (hl.step (s.course m)), List.append_assoc, List.append_assoc,
      ← (s.report m).owed hdue ht hl ms]
    rfl

end Owed

/-- **The user is told what the successful calls owe**, in the order in which they return. -/
theorem notices_eq {due : F.Ask → Option Notice} (hdue : F.Notifies due) (initial : F.State)
    (ms : List (Move F V)) :
    notices ((opening initial : Session F V).events ms) = (opening initial).owing due ms :=
  notices_eq_of_traced hdue (.opening initial) (lived (V := V) initial []) ms

/-! ### What happened before -/

theorem Traced.after {due : F.Ask → Option Notice} {asked : List (CallId × F.Ask)}
    {stale : List CallId} (hdue : F.Notifies due) (ht : Traced due s.outline asked stale)
    (hl : Lived s.outline done) (ms : List (Move F V)) :
    Traced due (s.after ms).outline (asked ++ s.asked ms) (stale ++ s.stale ms) := by
  induction ms generalizing s asked stale done with
  | nil => simpa [Session.asked, Session.stale] using ht
  | cons m ms ih =>
    rw [after_cons, Session.asked, Session.stale, ← List.append_assoc, ← List.append_assoc]
    exact ih (ht.step hdue hl.toNamed) (hl.step (s.course m))

/-- **Whoever is told something is told it by a call that returns after its answer was stored.** -/
theorem stored_of_notice {due : F.Ask → Option Notice} (hdue : F.Notifies due) {initial : F.State}
    {ms : List (Move F V)} {m : Move F V} {n : Notice}
    (h : n ∈ notices (((opening initial : Session F V).after ms).step m).2) :
    let start : Session F V := opening initial
    ∃ id a value, notices ((start.after ms).step m).2 = [n] ∧
      returned ((start.after ms).step m).2 = [(id, value)] ∧
      (start.asked ms).lookup id = some a ∧ due a = some n ∧ start.Stored id (some n) value ms := by
  intro start
  have ht : Traced due (start.after ms).outline (start.asked ms) (start.stale ms) :=
    Traced.after hdue (.opening initial) (lived (V := V) initial []) ms
  have hreport := (start.after ms).report m
  generalize hns : notices ((start.after ms).step m).2 = ns,
    hrs : returned ((start.after ms).step m).2 = rs at hreport
  rw [hns] at h
  cases hreport with
  | silent | done | left => cases h
  | @closed _ id entry notice value rest hturn hstages =>
    obtain rfl : notice = some n := Option.mem_toList.mp h
    have hmem : .closing id entry (some n) value ∈ (start.after ms).outline.stages :=
      hstages ▸ List.mem_cons_self ..
    obtain ⟨-, a, ha, hdue⟩ := ht.stages _ hmem
    exact ⟨id, a, value, rfl, rfl, ha, hdue, stored_of_closing hmem⟩

theorem mem_stale {ms : List (Move F V)} (h : id ∈ s.stale ms) :
    ∃ a m b, ms = a ++ m :: b ∧ (s.after a).stale? m = some id := by
  induction ms generalizing s with
  | nil => cases h
  | cons m ms ih =>
    rcases List.mem_append.mp h with h | h
    · exact ⟨[], m, ms, rfl, Option.mem_toList.mp h⟩
    · obtain ⟨a, m', b, rfl, hm⟩ := ih h
      exact ⟨m :: a, m', b, rfl, hm⟩

theorem asked_append (s : Session F V) (ms ms' : List (Move F V)) :
    s.asked (ms ++ ms') = s.asked ms ++ (s.after ms).asked ms' := by
  induction ms generalizing s with
  | nil => rfl
  | cons m ms ih => rw [List.cons_append, asked, asked, ih, List.append_assoc, after_cons]

theorem stale_append (s : Session F V) (ms ms' : List (Move F V)) :
    s.stale (ms ++ ms') = s.stale ms ++ (s.after ms).stale ms' := by
  induction ms generalizing s with
  | nil => rfl
  | cons m ms ih => rw [List.cons_append, stale, stale, ih, List.append_assoc, after_cons]

omit [DecidableEq V] in
theorem stale?_of_settle {c : F.Call} {payload : F.Payload} {entry : LogEntry} {value : F.Value}
    (hfree : s.isFree = true) (hcall : s.call? id = some c)
    (hsettle : F.settle c payload s.state = some (.stale entry value)) :
    s.stale? (.resolve id (.ok payload)) = some id := by
  rw [stale?, if_pos hfree, hcall, Option.bind_some, hsettle]

/-- **The answers that are dropped are those that come too late** for what was asked. -/
theorem mem_stale_iff {due : F.Ask → Option Notice} (hdue : F.Notifies due)
    {late : F.Ask → F.State → Bool}
    (hlate : ∀ {a x c payload y}, F.accept a x = .proceed c →
      (late a y = true ↔ ∃ entry value, F.settle c payload y = some (.stale entry value)))
    (initial : F.State) (ms : List (Move F V)) (id : CallId) :
    let start : Session F V := opening initial
    id ∈ start.stale ms ↔ ∃ a payload b c ask, ms = a ++ .resolve id (.ok payload) :: b ∧
      (start.after a).isFree = true ∧ (start.after a).call? id = some c ∧
      (start.asked ms).lookup id = some ask ∧ late ask (start.after a).state = true := by
  intro start
  -- every call in flight is known with what was asked for, at every moment of the run
  have htraced : ∀ a, Traced due (start.after a).outline (start.asked a) (start.stale a) :=
    fun a => Traced.after hdue (.opening initial) (lived (V := V) initial []) a
  constructor
  · intro h
    obtain ⟨a, m, b, rfl, hstale⟩ := mem_stale h
    obtain ⟨c, payload, entry, value, rfl, -, hcall, hsettle⟩ := turn_of_stale hstale
    obtain ⟨-, ask, x, hasked, haccept⟩ := (htraced a).call hcall
    refine ⟨a, payload, b, c, ask, rfl, isFree_of_stale hstale, hcall, ?_,
      (hlate haccept).mpr ⟨entry, value, hsettle⟩⟩
    rw [asked_append]
    exact lookup_append_of_some hasked _
  · rintro ⟨a, payload, b, c, ask, rfl, hfree, hcall, hasked, hask⟩
    obtain ⟨-, ask', x, hasked', haccept⟩ := (htraced a).call hcall
    rw [asked_append, lookup_append_of_some hasked'] at hasked
    obtain rfl := Option.some.inj hasked
    obtain ⟨entry, value, hsettle⟩ := (hlate haccept).mp hask
    rw [stale_append, stale, stale?_of_settle hfree hcall hsettle]
    exact List.mem_append_right _ (List.mem_cons_self ..)

end Runs

end Session

end LiveDesk
