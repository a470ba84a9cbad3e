import LiveDesk.Proofs.SavedQueries.Responses
import LiveDesk.Proofs.Session.Accounts

/-!
# What the version of a feature store counts

Every feature store ignores some edits and rejects some calls, and then nothing is published. Every
other edit publishes one snapshot, and every other call two: one that raises its flag and one that
lowers it. Only a load of another entity's columns publishes one more. So the version of a feature
store is known from what was asked of it, whatever the backend answered.

- `Part.ignores`, `Part.rejects`, `Part.switches`: the edits that are ignored, the calls that are
  rejected, and those that publish something before they raise their flags.
- `Part.ignores_iff`, `accept_of_rejects`, `accept_of_not_rejects`: the feature stores do so.
- `Session.step_edit`, `step_rejected`: what comes of an edit, and of a call that is rejected.
- **`Session.version_accounts`**: who publishes what in a run, and what the version counts.
- `Session.version_accounts_nested`: calls that overlap, one of them asked for by a subscriber.
-/

namespace LiveDesk

open Observable Session

/-! ## What the feature stores ignore and reject -/

namespace Templates

/-- An identifier that no template has cannot be selected. -/
def ignores : Edit → State → Bool
  | .select id, x => x.items.all fun t => t.id ≠ id
  | .clearSelection, _ => false

/-- Without a selection there is nothing to refresh. -/
def rejects : Ask → State → Bool
  | .refresh, x => x.selected.isNone
  | .load _, _ => false

/-- An edit is ignored if it makes no publication. -/
theorem ignores_iff (e : Edit) (x : State) : ignores e x = true ↔ feature.edit e x = none := by
  cases e with
  | clearSelection => simp [ignores, feature, edit]
  | select id =>
    have hknows : x.knows id = !ignores (.select id) x := by
      simp [State.knows, ignores, List.not_all_eq_any_not]
    simp only [feature, edit, hknows]
    cases ignores (.select id) x <;> simp

/-- A call that is rejected ends at once. -/
theorem accept_of_rejects {a : Ask} {x : State} (h : rejects a x = true) :
    feature.accept a x = .done () := by
  cases a with
  | load reload => cases h
  | refresh =>
    have hselected : x.selected = none := Option.isNone_iff_eq_none.mp h
    simp only [feature, hselected]

/-- A call that is not rejected goes on. -/
theorem accept_of_not_rejects {a : Ask} {x : State} (h : rejects a x = false) :
    ∃ c, feature.accept a x = .proceed c := by
  cases a with
  | load reload => exact ⟨.load reload, rfl⟩
  | refresh =>
    cases hselected : x.selected with
    | none =>
      rw [rejects, hselected] at h
      cases h
    | some id => exact ⟨.refresh id, by simp only [feature, hselected]⟩

end Templates

namespace RuleSimulator

/-- A blank rule is not simulated. -/
def rejects : Ask → State → Bool
  | .simulate, x => Text.allBlank x.rule

end RuleSimulator

namespace TableFields

/-- A key that no column has cannot be toggled, and a column stays where it is moved out of range
or to its own place. -/
def ignores : Edit → State → Bool
  | .toggle key, x => x.fields.all fun f => f.key ≠ key
  | .move source target, x =>
    decide (x.fields.length ≤ source ∨ x.fields.length ≤ target ∨ source = target)

/-- Columns cannot be saved without an entity, nor with a key that is no key or comes twice. -/
def rejects : Ask → State → Bool
  | .save, x =>
    x.entity.isNone || x.fields.any (fun f => !TableField.isKey f.key) ||
      !decide (x.fields.map (·.key)).Nodup
  | .load _ _, _ => false

/-- The columns of another entity are asked for. -/
def switches : Ask → State → Bool
  | .load entity _, x => x.entity ≠ some (Text.trim entity)
  | .save, _ => false

/-- An edit is ignored if it makes no publication. -/
theorem ignores_iff (e : Edit) (x : State) : ignores e x = true ↔ feature.edit e x = none := by
  cases e with
  | toggle key =>
    simp only [ignores, feature, edit]
    rw [ite_eq_right_iff]
    simp
  | move source target =>
    simp only [ignores, feature, edit]
    rw [decide_eq_true_iff, ite_eq_right_iff]
    constructor
    · rintro (h | h | h) ⟨hs, ht, hne⟩ <;> omega
    · intro h
      by_contra hnot
      simp only [not_or, Nat.not_le] at hnot
      cases h hnot

/-- The columns can be saved if all keys are keys and no key comes twice. -/
theorem checkFrom_eq_none {seen : List String} {fields : List TableField} :
    checkFrom seen fields = none ↔ (∀ f ∈ fields, TableField.isKey f.key = true) ∧
      (fields.map (·.key)).Nodup ∧ ∀ f ∈ fields, f.key ∉ seen := by
  induction fields generalizing seen with
  | nil => simp [checkFrom]
  | cons f rest ih =>
    unfold checkFrom
    by_cases hkey : TableField.isKey f.key = true
    · by_cases hseen : f.key ∈ seen
      · simp [hkey, hseen]
      · rw [if_neg (by simp [hkey]), if_neg hseen, ih]
        simp only [List.forall_mem_cons, List.map_cons, List.nodup_cons]
        -- the check of the rest finds out whether the key at hand comes again
        constructor
        · rintro ⟨hkeys, hnodup, hnew⟩
          refine ⟨⟨hkey, hkeys⟩, ⟨fun hmem => ?_, hnodup⟩, hseen, fun g hg => ?_⟩
          · obtain ⟨g, hg, heq⟩ := List.mem_map.mp hmem
            exact hnew g hg (heq ▸ List.mem_cons_self ..)
          · exact fun hmem => hnew g hg (List.mem_cons_of_mem _ hmem)
        · rintro ⟨⟨-, hkeys⟩, ⟨hfresh, hnodup⟩, -, hold⟩
          refine ⟨hkeys, hnodup, fun g hg hmem => ?_⟩
          rcases List.mem_cons.mp hmem with heq | hmem
          · exact hfresh (heq ▸ List.mem_map_of_mem hg)
          · exact hold g hg hmem
    · simp [hkey]

/-- With an entity, saving is rejected exactly if the check finds something. -/
theorem check_eq_none {x : State} {entity : String} (hentity : x.entity = some entity) :
    check x.fields = none ↔ rejects .save x = false := by
  rw [check, checkFrom_eq_none, rejects, hentity]
  simp [and_comm]

/-- A call that is rejected ends at once. -/
theorem accept_of_rejects {a : Ask} {x : State} (h : rejects a x = true) :
    ∃ r, feature.accept a x = .refuse r := by
  cases a with
  | load entity reload => cases h
  | save =>
    cases hentity : x.entity with
    | none => exact ⟨.noEntity, by simp only [feature, accept, hentity]⟩
    | some entity =>
      cases hcheck : check x.fields with
      | none =>
        rw [(check_eq_none hentity).mp hcheck] at h
        cases h
      | some r => exact ⟨r, by simp only [feature, accept, hentity, hcheck]⟩

/-- A call that is not rejected goes on. -/
theorem accept_of_not_rejects {a : Ask} {x : State} (h : rejects a x = false) :
    ∃ c, feature.accept a x = .proceed c ∧ (feature.prelude c x).isSome = switches a x := by
  cases a with
  | load entity reload =>
    refine ⟨.load (Text.trim entity) reload, rfl, ?_⟩
    simp only [feature, switches]
    by_cases hentity : x.entity = some (Text.trim entity) <;> simp [hentity]
  | save =>
    cases hentity : x.entity with
    | none =>
      rw [rejects, hentity] at h
      cases h
    | some entity =>
      have hcheck := (check_eq_none hentity).mpr h
      exact ⟨.save entity x.fields, by simp only [feature, accept, hentity, hcheck], rfl⟩

end TableFields

namespace SavedQueries

/-- A query cannot be saved under a blank name. -/
def rejects : Ask → State → Bool
  | .save name _, _ => Text.allBlank name
  | .load _, _ | .delete _, _ => false

/-- A call that is rejected ends at once. -/
theorem accept_of_rejects {a : Ask} {x : State} (h : rejects a x = true) :
    ∃ r, feature.accept a x = .refuse r := by
  cases a with
  | load reload | delete id => cases h
  | save name spec =>
    have hname := normalizeName_eq_none.mpr h
    exact ⟨.invalidName name, by simp only [feature, hname]⟩

/-- A call that is not rejected goes on. -/
theorem accept_of_not_rejects {a : Ask} {x : State} (h : rejects a x = false) :
    ∃ c, feature.accept a x = .proceed c := by
  cases a with
  | load reload => exact ⟨.load reload, rfl⟩
  | delete id => exact ⟨.delete id, rfl⟩
  | save name spec =>
    cases hname : normalizeName name with
    | none =>
      rw [rejects, normalizeName_eq_none.mp hname] at h
      cases h
    | some normal => exact ⟨.save normal spec, by simp only [feature, hname]⟩

end SavedQueries

namespace Part

/-- The edits that a feature store ignores. -/
def ignores : (p : Part) → p.feature.Edit → p.feature.State → Bool
  | .templates => Templates.ignores
  | .tableFields => TableFields.ignores
  | .document | .jobs | .ruleSimulator | .savedQueries => fun _ _ => false

/-- The calls that a feature store rejects before it asks anybody. -/
def rejects : (p : Part) → p.feature.Ask → p.feature.State → Bool
  | .templates => Templates.rejects
  | .ruleSimulator => RuleSimulator.rejects
  | .tableFields => TableFields.rejects
  | .savedQueries => SavedQueries.rejects
  | .document | .jobs => fun _ _ => false

/-- The calls that publish something before they raise their flags. -/
def switches : (p : Part) → p.feature.Ask → p.feature.State → Bool
  | .tableFields => TableFields.switches
  | .document | .jobs | .templates | .ruleSimulator | .savedQueries => fun _ _ => false

/-- An edit is ignored if it makes no publication. -/
theorem ignores_iff (p : Part) (e : p.feature.Edit) (x : p.feature.State) :
    p.ignores e x = true ↔ p.feature.edit e x = none := by
  cases p with
  | templates => exact Templates.ignores_iff e x
  | tableFields => exact TableFields.ignores_iff e x
  | savedQueries => exact e.elim
  | document | jobs | ruleSimulator =>
    exact ⟨fun h => (nomatch h), fun h => (nomatch h)⟩

/-- What a feature store rejects it refuses, or there is nothing to ask. -/
theorem accept_of_rejects {p : Part} {a : p.feature.Ask} {x : p.feature.State}
    (h : p.rejects a x = true) :
    (∃ r, p.feature.accept a x = .refuse r) ∨ ∃ v, p.feature.accept a x = .done v := by
  cases p with
  | document | jobs => cases h
  | templates => exact .inr ⟨(), Templates.accept_of_rejects h⟩
  | ruleSimulator => exact .inl ⟨.emptyRule, if_pos h⟩
  | tableFields => exact .inl (TableFields.accept_of_rejects h)
  | savedQueries => exact .inl (SavedQueries.accept_of_rejects h)

/-- What it does not reject it admits. -/
theorem accept_of_not_rejects {p : Part} {a : p.feature.Ask} {x : p.feature.State}
    (h : p.rejects a x = false) :
    ∃ c, p.feature.accept a x = .proceed c ∧
      (p.feature.prelude c x).isSome = p.switches a x := by
  cases p with
  | document => exact ⟨a, rfl, rfl⟩
  | jobs => exact ⟨⟨a.1, x.filter⟩, rfl, rfl⟩
  | ruleSimulator => exact ⟨⟨x.rule, x.input⟩, if_neg (Bool.eq_false_iff.mp h), rfl⟩
  | tableFields => exact TableFields.accept_of_not_rejects h
  | templates =>
    obtain ⟨c, hc⟩ := Templates.accept_of_not_rejects h
    exact ⟨c, hc, rfl⟩
  | savedQueries =>
    obtain ⟨c, hc⟩ := SavedQueries.accept_of_not_rejects h
    exact ⟨c, hc, rfl⟩

/-- What raising and lowering the flag of a call does shows in one of the flags of a feature
store. -/
theorem exists_gauge {p : Part} (hp : p ≠ .document) {initial : p.feature.State}
    (hopen : p.Opens initial) (c : p.feature.Call) :
    ∃ g ∈ p.gauges, ∀ x, g.isUp ((p.feature.flag c).raise x) = true ∧
      g.isUp ((p.feature.flag c).lower x) = false := by
  -- every call has the flag that is raised for it among those of its part
  have hlifts : ∃ g ∈ p.gauges, g.lifts c = true := by
    cases p with
    | document => exact absurd rfl hp
    | jobs | templates | ruleSimulator => exact ⟨_, List.mem_singleton_self _, rfl⟩
    | tableFields =>
      cases c with
      | load => exact ⟨TableFields.loading, List.mem_pair.mpr (.inl rfl), rfl⟩
      | save => exact ⟨TableFields.saving, List.mem_pair.mpr (.inr rfl), rfl⟩
    | savedQueries =>
      cases c with
      | load => exact ⟨SavedQueries.loading, List.mem_pair.mpr (.inl rfl), rfl⟩
      | save | delete => exact ⟨SavedQueries.saving, List.mem_pair.mpr (.inr rfl), rfl⟩
  obtain ⟨g, hg, hc⟩ := hlifts
  have hs := sound_gauges hopen hg
  refine ⟨g, hg, fun x => ⟨?_, ?_⟩⟩
  · rw [hs.raise, hc, Bool.true_or]
  · rw [hs.lower, hc]
    rfl

end Part

namespace Session

variable {V : Type} [DecidableEq V] {p : Part}

/-- An edit that is ignored does nothing, and every other one publishes one snapshot. -/
theorem step_edit {s : Session p.feature V} (hfree : s.isFree = true) (e : p.feature.Edit) :
    (p.ignores e s.state = true → s.step (.edit e) = (s, [])) ∧
      (p.ignores e s.state = false → ∃ change, p.feature.edit e s.state = some change ∧
        published (s.step (.edit e)).2
          = [s.store.current.next (change.change.apply s.store.initial s.state)]) := by
  have hstep : s.step (.edit e) = s.edit e := if_pos hfree
  constructor
  · intro h
    rw [hstep, Session.edit, (p.ignores_iff e s.state).mp h]
  · intro h
    cases hedit : p.feature.edit e s.state with
    | none => exact nomatch h.symm.trans ((p.ignores_iff e s.state).mpr hedit)
    | some change =>
      have hturn : s.turn (.edit e) = .edited e change := by
        rw [turn_of_isFree hfree, freeTurn, hedit]
        rfl
      refine ⟨change, rfl, ?_⟩
      rw [published_step, posting_of_publishes (by rw [hturn]; rfl), hturn]
      rfl

/-- A call that is rejected leaves the store alone and never publishes anything. -/
theorem step_rejected {initial : p.feature.State} {ms : List (Move p.feature V)}
    (hfree : ((opening initial : Session p.feature V).after ms).isFree = true)
    {a : p.feature.Ask}
    (h : p.rejects a ((opening initial : Session p.feature V).after ms).state = true) :
    let start : Session p.feature V := opening initial
    let s := start.after ms
    (s.step (.ask a)).1.store = s.store ∧ published (s.step (.ask a)).2 = [] ∧
      ∀ later, start.postingsOf s.nextCall (ms ++ .ask a :: later) = [] := by
  intro start s
  have hdeclined : (s.step (.ask a)).1.store = s.store ∧ published (s.step (.ask a)).2 = [] ∧
      s.turn (.ask a) = .declined := by
    rcases Part.accept_of_rejects h with ⟨r, haccept⟩ | ⟨v, haccept⟩
    · rw [step_of_refuse hfree haccept]
      exact ⟨rfl, rfl, turn_of_refuse hfree haccept⟩
    · rw [step_of_done hfree haccept]
      exact ⟨rfl, rfl, turn_of_done hfree haccept⟩
  obtain ⟨hstore, hpublished, hturn⟩ := hdeclined
  refine ⟨hstore, hpublished, fun later => postingsOf_eq_nil ?_⟩
  have hl := lived (V := V) initial ms
  have hnew : actsOf s.nextCall (start.turns ms) = [] := hl.future (Nat.le_refl _)
  rw [turns_append, actsOf_append, hnew, actsOf_of_declined hl hturn]
  exact List.nil_prefix

/-- **What the versions of a feature store count.** In every run of its methods and of the answers
of its backend, in any order and from anywhere in the subscribers' code, without failures of that
code:

- an edit that is ignored does nothing at all, and every other edit publishes one snapshot, also if
  it changes nothing;
- a call that is rejected leaves the snapshot alone and never publishes anything;
- a call that is not rejected publishes one snapshot that raises its flag when it starts, and one
  that lowers the flag when it ends; a load of another entity's columns publishes one more before;
- in whatever way a call in flight ends, the lowered flag is in the snapshot in which its answer is
  stored, and that snapshot is the last one of the call;
- the version counts the edits that are not ignored and the snapshots of the calls, which are all
  that is published. -/
theorem version_accounts (p : Part) {initial : p.feature.State} (hopen : p.Opens initial)
    {ms : List (Move p.feature V)} (hown : ∀ m ∈ ms, m.isOwn = true) :
    let start : Session p.feature V := opening initial
    let s := start.after ms
    (s.isFree = true → ∀ e,
      (p.ignores e s.state = true → s.step (.edit e) = (s, [])) ∧
      (p.ignores e s.state = false → ∃ change, p.feature.edit e s.state = some change ∧
        published (s.step (.edit e)).2
          = [s.store.current.next (change.change.apply s.store.initial s.state)])) ∧
    (s.isFree = true → ∀ a, p.rejects a s.state = true →
      (s.step (.ask a)).1.store = s.store ∧ published (s.step (.ask a)).2 = [] ∧
        ∀ later, start.postingsOf s.nextCall (ms ++ .ask a :: later) = []) ∧
    (∀ a ask b, ms = a ++ .ask ask :: b → (start.after a).isFree = true →
      p.rejects ask (start.after a).state = false →
      ∃ c before own, p.feature.accept ask (start.after a).state = .proceed c ∧
        start.postingsOf (start.after a).nextCall ms = before ++ own ∧
        before.length = (if p.switches ask (start.after a).state then 1 else 0) ∧
        Account s (start.after a).nextCall c own) ∧
    (∀ a m b id c f, ms = a ++ m :: b → (start.after a).isFree = true →
      (start.after a).call? id = some c → Ending (start.after a) id c m f →
      start.postingsOf id ms = start.postingsOf id a
        ++ [⟨(start.after a).turn m, (start.after a).store.current,
          (start.after a).store.current.next
            ((p.feature.flag c).lower (f (start.after a).state))⟩]) ∧
    (p ≠ .document → ∀ c, ∃ g ∈ p.gauges, ∀ x, g.isUp ((p.feature.flag c).raise x) = true ∧
      g.isUp ((p.feature.flag c).lower x) = false) ∧
    published (start.events ms) = (start.postings ms).map (·.after) ∧
    s.store.current.version = (start.heeded p.ignores ms).length
      + ∑ id ∈ Finset.range s.nextCall, (start.postingsOf id ms).length := by
  intro start s
  have hcalm : .panic ∉ ms := fun hmem => nomatch hown .panic hmem
  refine ⟨fun hfree e => step_edit hfree e, fun hfree a h => step_rejected hfree h, ?_, ?_,
    fun hp c => Part.exists_gauge hp hopen c, published_events start ms,
    version_eq p.ignores_iff hown⟩
  · rintro a ask b rfl hfree h
    obtain ⟨c, haccept, hswitches⟩ := Part.accept_of_not_rejects h
    obtain ⟨before, own, hown, hbefore, haccount⟩ := account hcalm hfree haccept
    refine ⟨c, before, own, haccept, hown, ?_, haccount⟩
    rw [hbefore, ← hswitches]
    cases p.feature.prelude c (start.after a).state <;> rfl
  · rintro a m b id c f rfl hfree hcall hending
    exact postingsOf_ending hfree hcall hending

section Examples

/-- The columns of an entity are asked for, and a subscriber that is called with the new entity
saves the columns that there are. The load fails, and the save is answered. A column that is not
there and one that is are toggled. The columns are asked for again, and the load is given up. -/
def nestedSave : List (Move TableFields.feature Nat) :=
  paced
    [.observe .subscribe, .ask (.load "articles" true), .ask .save, .ret, .tick, .ret, .tick, .ret,
      .resolve 0 (.error ⟨.transport, "offline"⟩), .ret,
      .resolve 1 (.ok [.shown "title" "Title" 0]), .ret, .edit (.toggle "author"),
      .edit (.toggle "title"), .ret, .ask (.load " articles " false), .ret, .cancel 2, .ret]

theorem nextCall_nestedSave :
    ((opening .opening : Session TableFields.feature Nat).after nestedSave).nextCall = 3 := by cbv

theorem length_heeded_nestedSave :
    ((opening .opening : Session TableFields.feature Nat).heeded
      Part.tableFields.ignores nestedSave).length = 1 := by cbv

theorem length_postingsOf_nestedSave :
    (List.range 3).map
        (fun id => ((opening .opening : Session TableFields.feature Nat).postingsOf id
          nestedSave).length)
      = [3, 2, 2] := by cbv

/-- Eight snapshots: one of the edit that is not ignored, three of the load of new columns, and two
of each other call. -/
theorem version_accounts_nested :
    let s := (opening .opening : Session TableFields.feature Nat).after nestedSave
    Part.tableFields.Opens .opening ∧ (∀ m ∈ nestedSave, m.isOwn = true) ∧
      s.store.current.version = 8 := by
  intro s
  have hopen : Part.tableFields.Opens TableFields.State.opening := rfl
  have hown : ∀ m ∈ nestedSave, m.isOwn = true := by simp [nestedSave, paced, Move.isOwn]
  obtain ⟨-, -, -, -, -, -, hversion⟩ := version_accounts (V := Nat) .tableFields hopen hown
  have hcalls : ∑ id ∈ Finset.range 3, ((opening .opening :
      Session TableFields.feature Nat).postingsOf id nestedSave).length = 7 :=
    congrArg List.sum length_postingsOf_nestedSave
  refine ⟨hopen, hown, hversion.trans ?_⟩
  rw [length_heeded_nestedSave, nextCall_nestedSave]
  exact congrArg (1 + ·) hcalls

end Examples

end Session

end LiveDesk
