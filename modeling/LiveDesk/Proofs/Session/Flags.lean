import LiveDesk.Desk.Part
import LiveDesk.Proofs.TableFields.Tables

/-!
# Flags are held by calls

The flags of a feature store are plain marks in its state, shared by all calls that raise them: the
first call to end takes a flag down, and a reset takes it down too. So a flag can be down while
calls are under way. It is never up without one.

- `Gauge`: a flag as it is read from the state, and the calls that raise it.
- `Gauge.Sound`: only calls raise the flag, and what a call raises it lowers.
- `Gauge.Held`: a flag that is up is held by a call that has raised it and has not lowered it.
- `Part.gauges`, `Part.sound_gauges`: the flags of the feature stores.
- **`Session.flag_held`**: in every run without failures, a flag that is up belongs to a call that
  has begun and not ended.
- `Session.flag_held_nested`: a load that is asked for while the end of another one is delivered.
-/

namespace LiveDesk

open Observable

variable {F : Feature} {V : Type}

/-! ## Moves of a feature store's own -/

/-- A turn that is neither an update of the caller's own nor a failure. -/
def Turn.isOwn : Turn F → Bool
  | .published _ | .failed => false
  | .idle | .edited _ _ | .declined | .begun _ _ _ | .opened _ _ | .raised _ _ | .sent _ _
  | .stored _ _ _ _ | .lowered _ _ | .ended _ => true

/-- A move other than an update of the caller's own or a failure. -/
def Session.Move.isOwn : Session.Move F V → Bool
  | .publish _ | .panic => false
  | .tick | .edit _ | .ask _ | .resolve _ _ | .cancel _ | .observe _ | .ret => true

theorem Session.isOwn_turn (s : Session F V) {m : Move F V} (h : m.isOwn = true) :
    (s.turn m).isOwn = true := by
  have hcause := s.cause m
  generalize s.turn m = t at hcause
  cases hcause with
  | published | failed => cases h
  | idle | edited | declined | begun | opened | stored | lowered | raised | sent | ended => rfl

/-! ## Gauges -/

/-- A flag as it is read from the state, and the calls that raise it. -/
structure Gauge (F : Feature) where
  isUp : F.State → Bool
  lifts : F.Call → Bool

namespace Gauge

/-- Only calls raise the flag, and what a call raises it lowers. -/
structure Sound (g : Gauge F) (initial : F.State) : Prop where
  down : g.isUp initial = false
  raise : ∀ c x, g.isUp ((F.flag c).raise x) = (g.lifts c || g.isUp x)
  lower : ∀ c x, g.isUp ((F.flag c).lower x) = (!g.lifts c && g.isUp x)
  edit : ∀ {e x p}, F.edit e x = some p →
    g.isUp (p.change.apply initial x) = true → g.isUp x = true
  prelude : ∀ {c x p}, F.prelude c x = some p →
    g.isUp (p.change.apply initial x) = true → g.isUp x = true
  settle : ∀ {c payload x f label entry notice value},
    F.settle c payload x = some (.store f label entry notice value) → g.isUp (f x) = g.isUp x

/-- Whether a call that is there holds the flag. -/
def holds (g : Gauge F) : Spot F → Bool
  | .sending _ c | .inFlight _ c => g.lifts c
  | .raising _ _ | .closing _ => false

/-- A flag that is up is held by a call. -/
def Held (g : Gauge F) (o : Session.Outline F) : Prop :=
  g.isUp o.state = true → ∃ x ∈ o.spots, g.holds x = true

namespace Held

open Session

variable {g : Gauge F} {o o' : Outline F}

/-- A flag stays held while it does not go up and no call goes. -/
theorem mono (h : g.Held o) (hup : g.isUp o'.state = true → g.isUp o.state = true)
    (hspots : o.spots ⊆ o'.spots) : g.Held o' := by
  intro hflag
  obtain ⟨x, hx, hholds⟩ := h (hup hflag)
  exact ⟨x, hspots hx, hholds⟩

/-- A method that does not hold the flag is taken off the stack. -/
theorem drop (h : g.Held o) {stage : Stage F} {rest : List (Stage F)}
    (hstages : o.stages = stage :: rest) (hnot : g.holds stage.spot = false) :
    g.Held { o with stages := rest } := by
  intro hflag
  obtain ⟨x, hx, hholds⟩ := h hflag
  rw [Outline.spots, hstages, List.map_cons, List.cons_append] at hx
  rcases List.mem_cons.mp hx with rfl | hx
  · rw [hnot] at hholds
    cases hholds
  · exact ⟨x, hx, hholds⟩

/-- A flag that a call raises is held by this call. -/
theorem raise (h : g.Held o) (hs : g.Sound o.initial) (id : CallId) (c : F.Call) :
    g.Held (o.raise id c) := by
  intro hflag
  rw [show (o.raise id c).state = (F.flag c).raise o.state from rfl, hs.raise,
    Bool.or_eq_true] at hflag
  rcases hflag with hlifts | hflag
  · exact ⟨.sending id c, List.mem_cons_self .., hlifts⟩
  · obtain ⟨x, hx, hholds⟩ := h hflag
    exact ⟨x, List.mem_cons_of_mem _ hx, hholds⟩

/-- A call that is answered leaves a flag up only if it has not raised it, and then another call
holds it. -/
theorem settle (h : g.Held o) (hs : g.Sound o.initial) (hn : o.Named) {id : CallId} {c : F.Call}
    {f : F.State → F.State} {stage : Stage F} (hcall : o.calls.lookup id = some c)
    (hf : g.isUp (f o.state) = g.isUp o.state) : g.Held (o.settle id c f stage) := by
  intro hflag
  rw [show (o.settle id c f stage).state = (F.flag c).lower (f o.state) from rfl, hs.lower, hf,
    Bool.and_eq_true, Bool.not_eq_true'] at hflag
  obtain ⟨hnot, hflag⟩ := hflag
  obtain ⟨x, hx, hholds⟩ := h hflag
  rw [Outline.spots, List.mem_append] at hx
  rcases hx with hx | hx
  · exact ⟨x, List.mem_cons_of_mem _ (List.mem_append_left _ hx), hholds⟩
  · obtain ⟨call, hmem, rfl⟩ := List.mem_map.mp hx
    rcases List.mem_cons.mp ((calls_perm hn.calls_nodup hcall).subset hmem) with rfl | hmem
    · rw [show g.holds (.inFlight id c) = g.lifts c from rfl, hnot] at hholds
      cases hholds
    · exact ⟨_, List.mem_cons_of_mem _ (List.mem_append_right _ (List.mem_map_of_mem hmem)),
        hholds⟩

/-- **A flag stays held** in every turn but an update of the caller's own and a failure. -/
theorem step (h : g.Held o) (hs : g.Sound o.initial) (hn : o.Named) {t : Turn F}
    (hc : Course t o o') (hown : t.isOwn = true) : g.Held o' := by
  cases hc with
  | idle | declined => exact h
  | edited hedit => exact h.mono (hs.edit hedit) (List.Subset.refl _)
  | published | failed => cases hown
  | begun _ hprelude => exact h.mono (hs.prelude hprelude) (List.subset_cons_self _ _)
  | opened => exact h.raise hs _ _
  | raised hstages => exact (h.drop hstages rfl).raise hs _ _
  | @sent _ id c rest hstages =>
    intro hflag
    -- the call holds the flag in flight as it did on the stack
    by_cases hlifts : g.lifts c = true
    · exact ⟨.inFlight id c, by simp [Outline.spots], hlifts⟩
    · have hdrop := h.drop hstages (Bool.eq_false_iff.mpr hlifts)
      exact hdrop.mono (fun hup => hup) (by simp [Outline.spots]) hflag
  | stored hcall hsettle => exact h.settle hs hn hcall (hs.settle hsettle)
  | lowered hcall => exact h.settle hs hn hcall rfl
  | @ended _ stage rest hstages hlast =>
    refine h.drop hstages ?_
    cases stage with
    | raising | sending => cases hlast
    | closing | leaving => rfl

/-- A flag stays held in a run. -/
theorem after [DecidableEq V] {s : Session F V} (h : g.Held s.outline)
    (hs : g.Sound s.store.initial) {done : CallId → List (Act F)} (hl : Lived s.outline done)
    {ms : List (Move F V)} (hown : ∀ m ∈ ms, m.isOwn = true) : g.Held (s.after ms).outline := by
  induction ms generalizing s done with
  | nil => exact h
  | cons m ms ih =>
    obtain ⟨hm, hms⟩ := List.forall_mem_cons.mp hown
    have hc := s.course m
    have hs' : g.Sound (s.step m).1.store.initial :=
      (show (s.step m).1.store.initial = _ from hc.state.1) ▸ hs
    exact ih (h.step hs hl.toNamed hc (s.isOwn_turn hm)) hs' (hl.step hc) hms

end Held

end Gauge

/-! ## The flags of the feature stores -/

namespace Jobs

/-- Every call is a load. -/
def loading : Gauge feature where
  isUp := State.isLoading
  lifts _ := true

theorem sound_loading (pageSize : UInt32) : loading.Sound (State.opening pageSize) where
  down := rfl
  raise _ _ := rfl
  lower _ _ := rfl
  edit {e x p} hedit hup := by
    cases hedit
    cases e with
    | setFilter | setPage => exact hup
    | reset => cases hup
  prelude hprelude := nomatch hprelude
  settle hsettle := by
    cases hsettle
    rfl

end Jobs

namespace Templates

/-- Loading the list and refreshing a template raise the same flag. -/
def loading : Gauge feature where
  isUp := State.isLoading
  lifts _ := true

theorem sound_loading : loading.Sound State.opening where
  down := rfl
  raise c _ := by cases c <;> rfl
  lower c _ := by cases c <;> rfl
  edit {e x p} hedit hup := by
    cases e with
    | select id =>
      simp only [feature, edit] at hedit
      split at hedit
      · cases hedit
        exact hup
      · cases hedit
    | clearSelection =>
      cases hedit
      exact hup
  prelude hprelude := nomatch hprelude
  settle {c payload x f label entry notice value} hsettle := by
    cases c <;> cases payload <;> cases hsettle <;> rfl

end Templates

namespace RuleSimulator

/-- Every call is a simulation. -/
def loading : Gauge feature where
  isUp := State.isLoading
  lifts _ := true

theorem sound_loading : loading.Sound State.opening where
  down := rfl
  raise _ _ := rfl
  lower _ _ := rfl
  edit {e x p} hedit hup := by
    cases hedit
    cases e with
    | setRule | setInput | removeInput => exact hup
    | clear => cases hup
  prelude hprelude := nomatch hprelude
  settle hsettle := by
    cases hsettle
    rfl

end RuleSimulator

namespace TableFields

/-- The flag that loads raise. -/
def loading : Gauge feature where
  isUp := State.isLoading
  lifts
    | .load _ _ => true
    | .save _ _ => false

/-- The flag that saves raise. -/
def saving : Gauge feature where
  isUp := State.isSaving
  lifts
    | .load _ _ => false
    | .save _ _ => true

/-- A flag that is no part of the table is raised and lowered by calls only. -/
theorem sound_of_withTable {g : Gauge feature} (down : g.isUp .opening = false)
    (raise : ∀ c x, g.isUp ((feature.flag c).raise x) = (g.lifts c || g.isUp x))
    (lower : ∀ c x, g.isUp ((feature.flag c).lower x) = (!g.lifts c && g.isUp x))
    (table : ∀ (x : State) t, g.isUp (x.withTable t) = g.isUp x) : g.Sound State.opening where
  down := down
  raise := raise
  lower := lower
  edit hedit hup :=
    (table _ _).symm.trans ((congrArg g.isUp (edit_eq_some hedit _)).symm.trans hup)
  prelude hprelude hup := by
    have hdown := (congrArg g.isUp (prelude_eq_some hprelude)).trans (table _ _)
    exact nomatch (hdown.trans down).symm.trans hup
  settle hsettle :=
    (congrArg g.isUp (settle_eq_store (Option.some.inj hsettle)).1).trans (table _ _)

theorem sound_loading : loading.Sound State.opening :=
  sound_of_withTable rfl (fun c _ => by cases c <;> rfl) (fun c _ => by cases c <;> rfl)
    fun _ _ => rfl

theorem sound_saving : saving.Sound State.opening :=
  sound_of_withTable rfl (fun c _ => by cases c <;> rfl) (fun c _ => by cases c <;> rfl)
    fun _ _ => rfl

end TableFields

namespace SavedQueries

/-- The flag that loads raise. -/
def loading : Gauge feature where
  isUp := State.isLoading
  lifts
    | .load _ => true
    | .save _ _ | .delete _ => false

/-- The flag that saves and deletions raise. -/
def saving : Gauge feature where
  isUp := State.isSaving
  lifts
    | .load _ => false
    | .save _ _ | .delete _ => true

/-- No answer changes the flags before they are lowered. -/
theorem flags_settle {c : Call} {payload : Payload} {x : State} {f : State → State}
    {label : String} {entry : Option LogEntry} {notice : Option Notice} {value : Value}
    (h : settle c payload = some (.store f label entry notice value)) :
    (f x).isLoading = x.isLoading ∧ (f x).isSaving = x.isSaving := by
  cases c <;> cases payload <;> cases h <;> exact ⟨rfl, rfl⟩

theorem sound_loading : loading.Sound State.opening where
  down := rfl
  raise c _ := by cases c <;> rfl
  lower c _ := by cases c <;> rfl
  edit {e} := nomatch e
  prelude hprelude := nomatch hprelude
  settle hsettle := (flags_settle hsettle).1

theorem sound_saving : saving.Sound State.opening where
  down := rfl
  raise c _ := by cases c <;> rfl
  lower c _ := by cases c <;> rfl
  edit {e} := nomatch e
  prelude hprelude := nomatch hprelude
  settle hsettle := (flags_settle hsettle).2

end SavedQueries

namespace Part

/-- The states in which a desk sets up its parts. A document can have any contents. -/
def Opens : (p : Part) → p.feature.State → Prop
  | .document => fun _ => True
  | .jobs => fun x => ∃ pageSize, x = .opening pageSize
  | .templates => fun x => x = .opening
  | .ruleSimulator => fun x => x = .opening
  | .tableFields => fun x => x = .opening
  | .savedQueries => fun x => x = .opening

/-- The flags of a feature store. The marks of a document are edited like the rest of it. -/
def gauges : (p : Part) → List (Gauge p.feature)
  | .document => []
  | .jobs => [Jobs.loading]
  | .templates => [Templates.loading]
  | .ruleSimulator => [RuleSimulator.loading]
  | .tableFields => [TableFields.loading, TableFields.saving]
  | .savedQueries => [SavedQueries.loading, SavedQueries.saving]

/-- **Every gauge of every part is sound.** -/
theorem sound_gauges {p : Part} {initial : p.feature.State} (hopen : p.Opens initial)
    {g : Gauge p.feature} (hg : g ∈ p.gauges) : g.Sound initial := by
  cases p with
  | document => cases hg
  | jobs =>
    obtain ⟨pageSize, rfl⟩ := hopen
    rcases List.mem_singleton.mp hg with rfl
    exact Jobs.sound_loading pageSize
  | templates =>
    rcases hopen with rfl
    rcases List.mem_singleton.mp hg with rfl
    exact Templates.sound_loading
  | ruleSimulator =>
    rcases hopen with rfl
    rcases List.mem_singleton.mp hg with rfl
    exact RuleSimulator.sound_loading
  | tableFields =>
    rcases hopen with rfl
    rcases List.mem_pair.mp hg with rfl | rfl
    · exact TableFields.sound_loading
    · exact TableFields.sound_saving
  | savedQueries =>
    rcases hopen with rfl
    rcases List.mem_pair.mp hg with rfl | rfl
    · exact SavedQueries.sound_loading
    · exact SavedQueries.sound_saving

end Part

namespace Session

variable [DecidableEq V]

/-- A call that holds a flag has begun, and it has neither lowered the flag nor ended. -/
theorem begun_of_holds {g : Gauge F} {o : Outline F} {done : CallId → List (Act F)}
    (hl : Lived o done) {x : Spot F} (hx : x ∈ o.spots) (hholds : g.holds x = true) :
    ∃ id c, g.lifts c = true ∧ .begun c ∈ done id ∧ .lowered c ∉ done id ∧ .ended ∉ done id := by
  have hpast := hl.past hx
  cases x with
  | sending id c | inFlight id c =>
    refine ⟨id, c, hholds, ?_⟩
    rw [show done id = _ from hpast]
    simp
  | raising | closing => cases hholds

/-- **Flags are held by calls.** In every run of a feature store's methods and of the answers of its
backend, in any order and from anywhere in the subscribers' code, without failures of that code: a
flag that is up belongs to a call that raises it, has begun, and has neither lowered it nor ended.
So it is down when all calls that raise it have ended. -/
theorem flag_held (p : Part) {initial : p.feature.State} (hopen : p.Opens initial)
    {g : Gauge p.feature} (hg : g ∈ p.gauges) {ms : List (Move p.feature V)}
    (hown : ∀ m ∈ ms, m.isOwn = true) :
    let start : Session p.feature V := opening initial
    let acts := fun id => actsOf id (start.turns ms)
    (g.isUp (start.after ms).state = true →
      ∃ id c, g.lifts c = true ∧ .begun c ∈ acts id ∧ .lowered c ∉ acts id ∧ .ended ∉ acts id) ∧
    ((∀ id c, g.lifts c = true → .begun c ∈ acts id → .ended ∈ acts id) →
      g.isUp (start.after ms).state = false) := by
  intro start acts
  have hs := Part.sound_gauges hopen hg
  have hl : Lived (start.after ms).outline acts := lived initial ms
  have hdown : g.Held start.outline := fun hup => nomatch hs.down.symm.trans hup
  have hopening : Lived start.outline fun id => actsOf id (start.turns []) := lived initial []
  have hheld : g.Held (start.after ms).outline := hdown.after hs hopening hown
  have hup : g.isUp (start.after ms).state = true →
      ∃ id c, g.lifts c = true ∧ .begun c ∈ acts id ∧ .lowered c ∉ acts id ∧ .ended ∉ acts id := by
    intro hflag
    obtain ⟨x, hx, hholds⟩ := hheld hflag
    exact begun_of_holds hl hx hholds
  refine ⟨hup, fun hended => Bool.eq_false_iff.mpr fun hflag => ?_⟩
  obtain ⟨id, c, hlifts, hbegun, -, hnot⟩ := hup hflag
  exact hnot (hended id c hlifts hbegun)

/-- Jobs are loaded, and a subscriber that is called with the loaded page asks for the next load. -/
def nestedLoads : List (Move Jobs.feature Nat) :=
  [.observe .subscribe, .ask (.load false), .tick, .tick, .ret, .tick, .tick, .tick,
    .resolve 0 (.ok ⟨[], 0, .nothing⟩), .tick, .tick, .ask (.load false)]

/-- The first load has lowered the flag, and the second one holds it. -/
theorem flag_held_nested :
    let start : Session Jobs.feature Nat := opening (.opening 20)
    let acts := fun id => actsOf id (start.turns nestedLoads)
    Part.jobs.Opens (.opening 20) ∧ Jobs.loading ∈ Part.jobs.gauges ∧
      (∀ m ∈ nestedLoads, m.isOwn = true) ∧
      Jobs.loading.isUp (start.after nestedLoads).state = true ∧
      ∃ id c, Jobs.loading.lifts c = true ∧ .begun c ∈ acts id ∧ .lowered c ∉ acts id ∧
        .ended ∉ acts id := by
  have hopen : Part.jobs.Opens (.opening 20) := ⟨20, rfl⟩
  have hmem : Jobs.loading ∈ Part.jobs.gauges := List.mem_singleton_self _
  have hown : ∀ m ∈ nestedLoads, m.isOwn = true := by decide
  have hup : Jobs.loading.isUp
      ((opening (.opening 20) : Session Jobs.feature Nat).after nestedLoads).state = true := by cbv
  exact ⟨hopen, hmem, hown, hup, (flag_held .jobs hopen hmem hown).1 hup⟩

end Session

end LiveDesk
