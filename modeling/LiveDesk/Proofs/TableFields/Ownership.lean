import LiveDesk.Proofs.TableFields.Tables

/-!
# Whose columns are shown

While the answer to a call is awaited, another entity can be switched to. An answer to a load that
comes after that is dropped. An answer to a save is installed all the same, and then the columns of
one entity are shown as those of another.

- `installed`: the call whose answer was installed last.
- `Table.Belongs`: the columns at hand are an answer about the entity at hand.
- `Table.belongs_turn`, `belongs_after`: what a turn and a run preserve.
- **`ownership`**: the columns belong to the entity in every state of a run if and only if no save
  is answered with columns after its entity was left; what an answer does that comes too late.
- `ownership_late`: a load that is overtaken by another one that a subscriber asks for.
- `ownership_strangers`: the columns of one entity under another one.
-/

namespace LiveDesk.TableFields

open Observable Session

variable {V : Type}

/-- The call whose answer a turn installs. -/
def installs? : Turn feature → Option Call
  | .stored _ c _ _ => some c
  | .idle | .edited _ _ | .published _ | .declined | .begun _ _ _ | .opened _ _ | .raised _ _
  | .sent _ _ | .lowered _ _ | .ended _ | .failed => none

/-- The call whose answer was installed last. -/
def installed (ts : List (Turn feature)) : Option Call :=
  (ts.filterMap installs?).getLast?

theorem installed_concat (ts : List (Turn feature)) (t : Turn feature) :
    installed (ts ++ [t]) = (installs? t).or (installed ts) :=
  getLast?_filterMap_concat ..

/-! ## Columns that are an answer about the entity -/

/-- The answer to a save is always installed. -/
theorem installs?_save {s : Session feature V} (hfree : s.isFree = true) {id : CallId}
    {entity : String} {fields : List TableField} (hcall : s.call? id = some (.save entity fields))
    (payload : List TableField) :
    installs? (s.turn (.resolve id (.ok payload))) = some (.save entity fields) := by
  rw [turn_of_isFree hfree, freeTurn, hcall]
  rfl

/-- The columns at hand, if there are any, are the answer to the given call, and if it is one of
those that are `asked` about, its entity is the one at hand. -/
def Table.Belongs (t : Table) (last : Option Call) (asked : Call → Bool) : Prop :=
  t.fields ≠ [] → ∃ c, last = some c ∧ (asked c = true → t.entity = some c.entity)

theorem length_renumberFrom (place : Nat) (fields : List TableField) :
    (renumberFrom place fields).length = fields.length := by
  induction fields generalizing place with
  | nil => rfl
  | cons f rest ih => exact congrArg (· + 1) (ih (place + 1))

theorem arrange_eq_nil {fields : List TableField} : arrange fields = [] ↔ fields = [] := by
  rw [← List.length_eq_zero_iff, ← List.length_eq_zero_iff, arrange, renumber,
    length_renumberFrom, List.length_mergeSort]

/-- Columns stay an answer about the entity while only columns at hand are edited and only answers
about the entity are installed. -/
theorem Table.belongs_turn {t : Table} {last : Option Call} {asked : Call → Bool}
    (h : t.Belongs last asked) {turn : Turn feature}
    (hedited : ∀ {e p}, turn = .edited e p → t.fields ≠ [])
    (hstored : ∀ {id c payload f}, turn = .stored id c payload f → payload ≠ [] →
      asked c = true → t.entity = some c.entity) :
    (t.turn turn).Belongs ((installs? turn).or last) asked := by
  intro hfields
  cases turn with
  | edited e p =>
    have hentity : (t.edit e).entity = t.entity := by cases e <;> rfl
    obtain ⟨c, hlast, hc⟩ := h (hedited rfl)
    exact ⟨c, hlast, fun hasked => hentity.trans (hc hasked)⟩
  | begun => exact absurd rfl hfields
  | stored id c payload f =>
    exact ⟨c, rfl, hstored rfl fun hnil => hfields (arrange_eq_nil.mpr hnil)⟩
  | idle | published | declined | opened | raised | sent | lowered | ended | failed =>
    exact h hfields

section Runs

variable [DecidableEq V]

/-- **Columns stay an answer about the entity** while no save is answered with columns after its
entity was left. The answers to loads are looked at when they come. -/
theorem belongs_after {asked : Call → Bool} {ms : List (Move feature V)}
    (hown : ∀ m ∈ ms, ∀ p, m ≠ .publish p)
    (htimely : ∀ {a b id entity fields payload}, ms = a ++ .resolve id (.ok payload) :: b →
      ((opening .opening : Session feature V).after a).isFree = true →
      ((opening .opening : Session feature V).after a).call? id = some (.save entity fields) →
      payload ≠ [] → asked (.save entity fields) = true →
      ((opening .opening : Session feature V).after a).state.entity = some entity) :
    ((opening .opening : Session feature V).after ms).state.table.Belongs
      (installed ((opening .opening : Session feature V).turns ms)) asked := by
  induction ms using List.reverseRecOn with
  | nil => exact fun hfields => absurd rfl hfields
  | append_singleton ms m ih =>
    obtain ⟨hms, hm⟩ := List.forall_mem_append.mp hown
    have hih := ih hms fun hsplit => htimely (by rw [hsplit, List.append_assoc]; rfl)
    rw [turns_append, turns, turns, installed_concat, after_append, after_cons, after_nil,
      table_step (initial_after _ ms) (hm m (List.mem_singleton_self m))]
    refine Table.belongs_turn hih (fun hturn => ?_)
      fun {id c payload f} hturn hpayload hasked => ?_
    · exact fields_ne_nil_of_edit (edit_of_turn hturn).2.2
    · obtain ⟨rfl, hfree, hcall, label, entry, notice, value, hsettle⟩ := eq_resolve_of_turn hturn
      cases c with
      | load entity reload => exact (settle_eq_store (Option.some.inj hsettle)).2 rfl
      | save entity fields => exact htimely rfl hfree hcall hpayload hasked

/-- **Whose columns are shown.** In every run of the methods of the table fields and of the answers
of their backend:

- columns at hand are an answer that was installed, and the answer to a load is about the entity at
  hand;
- they are about the entity at hand in every state of the run if and only if every save that is
  answered with columns is answered while its entity is at hand;
- an answer to a load that comes too late changes nothing but the flag; an answer to a save that
  comes too late is installed. -/
theorem ownership {ms : List (Move feature V)} (hown : ∀ m ∈ ms, ∀ p, m ≠ .publish p) :
    let start : Session feature V := opening .opening
    let s := start.after ms
    s.state.table.Belongs (installed (start.turns ms)) Call.isLoad ∧
    ((∀ a, a <+: ms →
        (start.after a).state.table.Belongs (installed (start.turns a)) fun _ => true) ↔
      ∀ a b id entity fields payload, ms = a ++ .resolve id (.ok payload) :: b →
        (start.after a).isFree = true → (start.after a).call? id = some (.save entity fields) →
        payload ≠ [] → (start.after a).state.entity = some entity) ∧
    ∀ id c payload, s.isFree = true → s.call? id = some c → s.state.entity ≠ some c.entity →
      (s.step (.resolve id (.ok payload))).1.state.table =
        if c.isLoad then s.state.table else s.state.table.install c payload := by
  intro start s
  refine ⟨?_, ⟨fun hbelongs a b id entity fields payload hms hfree hcall hpayload => ?_,
    fun htimely a ha => ?_⟩, fun id c payload hfree hcall hentity => ?_⟩
  · exact belongs_after hown fun _ _ _ _ hasked => nomatch hasked
  · -- the state in which the answer has just been installed
    have hprefix : a ++ [.resolve id (.ok payload)] <+: ms :=
      ⟨b, by rw [hms, List.append_assoc]; rfl⟩
    have hafter := hbelongs _ hprefix
    have htable := table_resolve (initial_after start a) hfree hcall payload
    rw [if_neg fun h => nomatch h.1] at htable
    rw [after_append, after_cons, after_nil, htable] at hafter
    obtain ⟨c, hlast, hentity⟩ := hafter (arrange_eq_nil.not.mpr hpayload)
    rw [turns_append, turns, turns, installed_concat, installs?_save hfree hcall] at hlast
    cases hlast
    exact hentity rfl
  · obtain ⟨b, rfl⟩ := ha
    refine belongs_after (fun m hm => hown m (List.mem_append_left _ hm)) ?_
    intro a' b' id entity fields payload hsplit hfree hcall hpayload _
    exact htimely a' (b' ++ b) id entity fields payload (by rw [hsplit, List.append_assoc]; rfl)
      hfree hcall hpayload
  · refine (table_resolve (initial_after start ms) hfree hcall payload).trans ?_
    cases c with
    | load => exact if_pos ⟨rfl, hentity⟩
    | save => exact if_neg fun h => nomatch h.1

end Runs

section Examples

/-- The columns of articles are asked for, and a subscriber that is called when the switch is
published asks for those of comments. -/
def overtakenLoad : List (Session.Move feature Nat) :=
  [.observe .subscribe, .ask (Ask.load "articles" false), .tick, .tick,
    .ask (Ask.load "comments" false), .tick, .tick, .ret] ++ catchUp ++ [.ret] ++ catchUp ++
    [.ret] ++ catchUp ++ [.ret] ++ catchUp

theorem outline_overtakenLoad :
    ((opening .opening : Session feature Nat).after overtakenLoad).outline
      = ⟨.opening, { State.opening with entity := some "comments", isLoading := true }, [],
        [(1, .load "comments" false), (0, .load "articles" false)], 2⟩ := by cbv

theorem isFree_overtakenLoad :
    ((opening .opening : Session feature Nat).after overtakenLoad).isFree = true := by cbv

/-- The articles come too late. -/
theorem ownership_late :
    let s := (opening .opening : Session feature Nat).after overtakenLoad
    (∀ m ∈ overtakenLoad, ∀ p, m ≠ .publish p) ∧ s.isFree = true ∧
      s.call? 0 = some (.load "articles" false) ∧ s.state.entity = some "comments" ∧
      (s.step (.resolve 0 (.ok [title]))).1.state.table = s.state.table := by
  intro s
  have hown : ∀ m ∈ overtakenLoad, ∀ p, m ≠ .publish p := by simp [overtakenLoad, catchUp]
  have hfree : s.isFree = true := isFree_overtakenLoad
  have hcall : s.call? 0 = some (.load "articles" false) := by
    rw [call?, show s.calls = _ from congrArg Outline.calls outline_overtakenLoad]
    rfl
  have hentity : s.state.entity = some "comments" :=
    congrArg (fun o => State.entity o.state) outline_overtakenLoad
  obtain ⟨-, -, hlate⟩ := ownership (V := Nat) hown
  refine ⟨hown, hfree, hcall, hentity, hlate 0 (.load "articles" false) [title] hfree hcall ?_⟩
  rw [hentity]
  simp [Call.entity]

/-- The columns of articles are saved, and those of comments are asked for before the answer. -/
def overtakenSave : List (Session.Move feature Nat) :=
  loadArticles ++ [.ask Ask.save] ++ catchUp ++ [.ask (Ask.load "comments" false)] ++ catchUp ++
    [.resolve 1 (.ok [title])]

theorem state_overtakenSave :
    ((opening .opening : Session feature Nat).after overtakenSave).state
      = { State.opening with entity := some "comments", fields := [title], isLoading := true } := by
  cbv

theorem installed_overtakenSave :
    installed ((opening .opening : Session feature Nat).turns overtakenSave)
      = some (.save "articles" [title]) := by
  cbv

/-- The columns of articles are shown as those of comments. -/
theorem ownership_strangers :
    let start : Session feature Nat := opening .opening
    let s := start.after overtakenSave
    s.state.entity = some "comments" ∧ s.state.fields = [title] ∧
      ¬ s.state.table.Belongs (installed (start.turns overtakenSave)) fun _ => true := by
  intro start s
  have hstate : s.state = _ := state_overtakenSave
  have hentity : s.state.entity = some "comments" := congrArg State.entity hstate
  have hfields : s.state.fields = [title] := congrArg State.fields hstate
  refine ⟨hentity, hfields, fun hbelongs => ?_⟩
  have hsome : s.state.table.fields ≠ [] := fun hnil => nomatch hfields.symm.trans hnil
  obtain ⟨c, hlast, hc⟩ := hbelongs hsome
  rw [installed_overtakenSave] at hlast
  cases hlast
  exact nomatch (hc rfl).symm.trans hentity

end Examples

end LiveDesk.TableFields
