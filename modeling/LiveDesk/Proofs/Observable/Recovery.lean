import LiveDesk.Proofs.Observable.Drains
import LiveDesk.Proofs.Observable.Fates

/-!
# Recovery from a failure

A subscriber that fails does not take the others along for longer than the signal at hand. What was
queued is delivered with the next update, in its order and to everybody who observes then.

- **`Steady.orderly_update`**: with what the next update begins.
- **`Orderly.delivered`**: what a delivery of the store comes to that ends without a failure.
- **`Store.recovery`**: what a failure leaves, what the next update delivers, and what is lost.
-/

namespace LiveDesk.Observable

namespace Store

variable {S V H : Type} [DecidableEq V]

/-- The first update, whatever comes before it, begins to deliver what was queued and then its own
snapshot. -/
theorem Steady.orderly_update {s : Store S V H} (hs : s.Steady) (hdel : s.deliveries = [])
    {ms : List (Move S V H)} {c : Change S} (hrun : s.Feasible (ms ++ [.change c]))
    (hnone : changes ms = []) :
    let updated := s.after (ms ++ [.change c])
    updated.Orderly ∧ updated.isWaiting = false ∧ updated.deliveries = [⟨.store, none⟩] ∧
      updated.queue .store = s.queue .store ++ [.snapshot updated.current] := by
  intro updated
  obtain ⟨hbefore, hwait, -⟩ := feasible_append.mp hrun
  obtain ⟨hidle, hqueue⟩ := hs.unchanged hbefore hdel hnone
  have hupdated : updated = ((s.after ms).step (.change c)).1 := after_append ..
  have horderly := (hs.after hbefore).orderly_change hwait hidle c
  rw [← hupdated, hqueue] at horderly
  exact horderly

/-- **A delivery of the store that ends without a failure has delivered everything that was queued
when it began, and what was taken meanwhile**, to every entry that stayed in its list. -/
theorem Orderly.delivered {s : Store S V H} (hs : s.Orderly) (h : s.Homed)
    (hdel : s.deliveries = [⟨.store, none⟩]) {ms : List (Move S V H)} (hcalm : s.Calm ms)
    (hend : (s.after ms).deliveries = []) :
    s.begun .store ms = s.queue .store ++ taken .store (s.events ms) ∧
      (s.begun .store ms).Pairwise (fun x y => x.version < y.version) ∧
      ∀ src e, e ∈ s.observersOf src → (∃ a ∈ (s.after ms).observersOf src, a.id = e.id) →
        received e (s.events ms) = s.begun src ms := by
  have hflow := hs.flow hcalm .store
  rw [(hs.after hcalm).queue_of_deliveries_nil hend, List.append_nil] at hflow
  have hsorted := hs.toSteady.sorted hcalm.feasible
  rw [outstanding, List.append_assoc, hflow] at hsorted
  refine ⟨hflow.symm, hsorted.sublist (List.sublist_append_right _ _), fun src e he hstays => ?_⟩
  have hfates := (hs.toSound.tracks h he).fates_after hs.toSteady hcalm.feasible ⟨e, he, rfl, rfl⟩
    hstays
  have howed : s.owed src e.id = [] := by
    rw [owed, hdel]
    rfl
  rw [fates_of_calm hcalm, Fate.map_signal_told, owed_of_deliveries_nil hend, howed,
    List.append_nil, List.nil_append] at hfates
  exact hfates

/-- **Recovery.** In every run from a new store on, failures of the caller's code included:

- the snapshots are taken with their versions in order, and every source begins to deliver what it
  took, each signal once and in that order, or has it queued;
- a failure leaves nothing on the stack, no channel marked, and every queue and the state as they
  were;
- the next update, however many subscriptions or failures later, queues its own snapshot behind
  those that waited and begins to deliver. That delivery ends if the code that it calls just
  returns. Whenever it has ended without another failure, what it delivered is what waited, then the
  snapshot of the update, then what was taken meanwhile, in the order of the versions, and every
  entry that was in a list at the update and still is has received everything that its source
  delivered;
- an entry receives at most what is owed to it and what begins, each signal once and in order, and
  every snapshot that it receives has a higher version than the one before;
- while an entry stays in its list, everything that is owed to it and everything that begins is
  received, is still owed, or was owed at a failure and is lost. -/
theorem recovery (initial : S) (ms : List (Move S V H))
    (hrun : (opening initial : Store S V H).Feasible ms) :
    let start : Store S V H := opening initial
    let s := start.after ms
    ((taken .store (start.events ms)).map Signal.version = List.range' 1 (changes ms).length ∧
      ∀ src, taken src (start.events ms) = start.begun src ms ++ s.queue src) ∧
    (s.isWaiting = true →
      let failed := (s.step .panic).1
      (failed.stack = [] ∧ (∀ src, failed.isPublishing src = false) ∧ failed.queue = s.queue ∧
        failed.initial = s.initial ∧ failed.current = s.current) ∧
      ∀ b c, failed.Feasible (b ++ [.change c]) → changes b = [] →
        let updated := failed.after (b ++ [.change c])
        updated.deliveries = [⟨.store, none⟩] ∧
        updated.queue .store = s.queue .store ++ [.snapshot updated.current] ∧
        (∃ t, updated.Settles t ∧ t.deliveries = []) ∧
        ∀ d, updated.Calm d → (updated.after d).deliveries = [] →
          updated.begun .store d
            = s.queue .store ++ [.snapshot updated.current]
              ++ taken .store (updated.events d) ∧
          (updated.begun .store d).Pairwise (fun x y => x.version < y.version) ∧
          ∀ src e, e ∈ updated.observersOf src →
            (∃ a ∈ (updated.after d).observersOf src, a.id = e.id) →
            received e (updated.events d) = updated.begun src d) ∧
    (∀ a b, ms = a ++ b → ∀ src e, e ∈ (start.after a).observersOf src →
      let here := start.after a
      (received e (here.events b)).Sublist (here.owed src e.id ++ here.begun src b) ∧
      (src = .store →
        (received e (here.events b)).Pairwise fun x y => x.version < y.version) ∧
      (here.fates src e b).filterMap Fate.told? = received e (here.events b) ∧
      ((∃ a ∈ s.observersOf src, a.id = e.id) →
        (here.fates src e b).map Fate.signal ++ s.owed src e.id
          = here.owed src e.id ++ here.begun src b)) := by
  intro start s
  have hstart : start.Steady := (Orderly.opening initial).toSteady
  have hhomed : start.Homed := .opening initial
  have hs : s.Steady := hstart.after hrun
  refine ⟨⟨hstart.versions hrun, fun src => ?_⟩, fun hwait => ?_, fun a b hms src e he => ?_⟩
  · have hnil : start.queue src = [] := by cases src <;> rfl
    have hflow := hstart.flow hrun src
    rwa [hnil] at hflow
  · intro failed
    have hfailed : failed = s.panic := congrArg Prod.fst (step_panic _)
    have hadmits : s.admits .panic = true := canFail_of_isWaiting hwait
    have hsteady : failed.Steady := hs.advance hadmits
    have hqueue : failed.queue = s.queue := by rw [hfailed, hs.queue_panic hadmits]
    have hidle : failed.deliveries = [] := by rw [hfailed, panic_deliveries]
    have hquiet := hs.quiet_panic.1
    rw [← hfailed] at hquiet
    refine ⟨⟨by rw [hfailed, panic_stack], fun src => ?_, hqueue, hquiet.initial, hquiet.current⟩,
      fun b c hb hnone => ?_⟩
    · rw [hfailed]
      exact hs.unmarked_panic src
    · intro updated
      obtain ⟨horderly, hgoes, hdel, hnext⟩ := hsteady.orderly_update hidle hb hnone
      rw [hqueue] at hnext
      have hnames : updated.Homed := ((hhomed.after hstart hrun).step hs hadmits).after hsteady hb
      refine ⟨hdel, hnext, horderly.toSteady.settles hgoes, fun d hcalm hend => ?_⟩
      rw [← hnext]
      exact horderly.delivered hnames hdel hcalm hend
  · subst hms
    obtain ⟨ha, hb⟩ := feasible_append.mp hrun
    intro here
    have hhere : here.Steady := hstart.after ha
    have htracks := hhere.toSound.tracks (hhomed.after hstart ha) he
    refine ⟨htracks.received_after hhere hb, fun hsrc => ?_, filterMap_fates here src e b,
      fun hstays => ?_⟩
    · subst hsrc
      exact htracks.received_sorted hhere hb
    · have hlast : s = here.after b := after_append ..
      rw [hlast] at hstays ⊢
      exact htracks.fates_after hhere hb ⟨e, he, rfl, rfl⟩ hstays

/-- A run in which a subscriber of the store (0) makes two more updates while it is called with the
first snapshot, a projection takes a value from that, and a subscriber of the projection (2) is
called with it, before the last subscriber of the store (3) has been told. -/
def interruptedRun : List (Move Nat Nat Unit) :=
  [.observe .subscribe, .observe (.project (· % 2)), .observe (.watch 0), .ret,
    .observe .subscribe, .change (.update (· + 1)), .tick, .tick, .change (.update (· + 1)),
    .change (.update (· + 1)), .ret, .tick, .tick, .tick]

/-- The innermost subscriber fails, and then the state is updated once more. -/
def interruption : List (Move Nat Nat Unit) :=
  [.panic, .change (.update (· + 1))]

/-- The delivery of one snapshot from which the projection takes a value. -/
def plainDelivery : List (Move Nat Nat Unit) :=
  [.tick, .tick, .ret, .tick, .tick, .tick, .ret, .tick, .tick, .tick, .ret, .tick]

/-- The deliveries of the two snapshots that waited and of the last one. -/
def resumedRun : List (Move Nat Nat Unit) :=
  plainDelivery ++ plainDelivery ++ plainDelivery ++ [.tick]

/-- After the failure the last subscriber receives the second snapshot, the third and the fourth.
The first one, which had not got to it, is lost. -/
theorem recovery_interrupted :
    let start : Store Nat Nat Unit := opening 0
    let updated := start.after (interruptedRun ++ interruption)
    let e : Observer := ⟨3, .subscriber, true⟩
    start.Feasible (interruptedRun ++ interruption ++ resumedRun) ∧
      (received e (updated.events resumedRun)).map Signal.version = [2, 3, 4] ∧
      ((start.after (interruptedRun.take 5)).fates .store e
          (interruptedRun.drop 5 ++ interruption ++ resumedRun)).map (·.signal.version)
        = [1, 2, 3, 4] := by
  intro start updated e
  have hrun : start.Feasible interruptedRun := by decide +kernel
  have hwhole : start.Feasible (interruptedRun ++ interruption ++ resumedRun) := by
    decide +kernel
  refine ⟨hwhole, ?_, ?_⟩
  · have hb : ((start.after interruptedRun).step .panic).1.Feasible
        ([] ++ [.change (.update (· + 1))]) := by decide +kernel
    have hupdated : ((start.after interruptedRun).step .panic).1.after
        ([] ++ [.change (.update (· + 1))]) = updated := by
      rw [List.nil_append, ← after_cons, ← after_append, ← interruption]
    obtain ⟨-, -, -, hdrain⟩ :=
      ((recovery 0 interruptedRun hrun).2.1 (by decide +kernel)).2 [] _ hb rfl
    rw [hupdated] at hdrain
    have hend : (updated.after resumedRun).deliveries.isEmpty = true := by decide +kernel
    obtain ⟨-, -, hreceived⟩ := hdrain resumedRun (by decide +kernel) (List.isEmpty_iff.mp hend)
    have hin : e ∈ updated.observersOf .store := by decide +kernel
    have hstays : e ∈ (updated.after resumedRun).observersOf .store := by decide +kernel
    rw [hreceived .store e hin ⟨e, hstays, rfl⟩]
    decide +kernel
  · let registered := start.after (interruptedRun.take 5)
    let s := start.after (interruptedRun ++ interruption ++ resumedRun)
    have hin : e ∈ registered.observersOf .store := by decide +kernel
    have hstays : e ∈ s.observersOf .store := by decide +kernel
    have howed : (s.owed .store e.id).isEmpty = true := by decide +kernel
    obtain ⟨-, -, -, hfates⟩ := (recovery 0 _ hwhole).2.2 (interruptedRun.take 5)
      (interruptedRun.drop 5 ++ interruption ++ resumedRun) rfl .store e hin
    have hall := hfates ⟨e, hstays, rfl⟩
    rw [List.isEmpty_iff.mp howed, List.append_nil] at hall
    have hversions := congrArg (List.map Signal.version) hall
    rw [List.map_map] at hversions
    refine hversions.trans ?_
    decide +kernel

end Store

end LiveDesk.Observable
