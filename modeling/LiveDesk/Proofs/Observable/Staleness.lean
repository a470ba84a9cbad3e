import LiveDesk.Proofs.Observable.Consistency
import LiveDesk.Proofs.Observable.Recovery

/-!
# What a failure leaves behind the state

A projection keeps a value before it delivers it, and drops an equal one later. If the code of a
subscriber fails in the middle of that delivery, the observers further on are left with the value
before, and the next update repairs this only for those whose source then takes another value.

- **`Steady.newest?_after`**: a source that lives through a run ends with what it took last.
- **`CaughtUp.after`**, **`Orderly.caughtUp_of_taken`**: what is up to date stays so, and what is
  not gets so when its source takes a value.
- **`Orderly.idle_chained`**: until then it stays as it is.
- **`Orderly.received_last`**: what an entry receives ends with what its source took last.
- **`Store.staleness`**: what is up to date when an update after a failure has been delivered.
-/

namespace LiveDesk.Observable

variable {S V H : Type}

namespace Store

section Moves

variable {s t : Store S V H} {m : Move S V H} {es : List (Event S V)} {p : ProjectionId}
  {origin : Origin S V} {o : ObserverId}

theorem UpToDate.caughtUp (h : s.UpToDate p origin) (hlink : s.link? p = some (origin, o)) :
    s.CaughtUp p := by
  intro origin' o' hlink' _ _
  rw [hlink] at hlink'
  cases hlink'
  exact h

theorem caughtUp_of_not_living (h : ¬ s.Living (.view p)) : s.CaughtUp p := by
  intro origin o hlink
  exact absurd (by rw [Living, hlink]; rfl) h

/-- A projection over another one that is up to date has what its selector makes of the value. -/
theorem UpToDate.value? {source : ProjectionId} {select : V → V} {v : V}
    (h : s.UpToDate p (.view source select)) (hv : s.value? source = some v) :
    s.value? p = some (select v) := by
  obtain ⟨signal, hnewest, himage⟩ := h
  rw [Origin.source, newest?, hv] at hnewest
  cases hnewest
  exact himage.symm

/-- A projection whose source has something queued is going to be told. -/
theorem caughtUp_of_queue
    (h : ∀ {origin o}, s.link? p = some (origin, o) → s.queue origin.source ≠ []) :
    s.CaughtUp p :=
  fun _ _ hlink hqueue => absurd hqueue (h hlink)

variable [DecidableEq V]

/-- What a source takes is queued. -/
theorem Outcome.queue_of_taken (ho : Outcome s m t es) {src : Source}
    (htaken : taken src es ≠ []) : t.queue src ≠ [] := by
  cases ho with
  | quiet | replayed | created | took | passed | called | kept | done | ended =>
    exact absurd rfl htaken
  | changed _ _ _ _ _ hqueue =>
    have hsrc : src = .store := by
      by_contra hne
      exact htaken (by simp [taken, Event.taken?, hne])
    rw [hqueue, hsrc, Function.update_self]
    simp
  | @accepted _ _ _ _ p _ v _ _ _ _ _ _ _ _ _ _ _ _ _ _ hqueue =>
    have hsrc : src = .view p := by
      by_contra hne
      exact htaken (by simp [taken, List.filterMap_cons, Event.taken?, hne])
    rw [hqueue, hsrc, Function.update_self]
    simp

end Moves

section Runs

variable [DecidableEq V] {s : Store S V H} {ms : List (Move S V H)} {p : ProjectionId}
  {origin : Origin S V} {o : ObserverId} {src : Source}

/-- A projection that was there before a run keeps its origin and its entry. -/
theorem Steady.link?_of_after (hs : s.Steady) (hrun : s.Feasible ms) (hp : p < s.nextProjection)
    {l : Origin S V × ObserverId} (hl : (s.after ms).link? p = some l) : s.link? p = some l := by
  induction ms generalizing s with
  | nil => exact hl
  | cons m ms ih =>
    obtain ⟨hm, hrun⟩ := hrun
    have hu := hs.upshot hm
    exact hu.link? (ih (hs.advance hm) hrun (lt_of_lt_of_le hp hu.nextProjection_le) hl) hp

/-- A source that lives after a run lived before, unless it was created in it. -/
theorem Steady.living_of_after (hs : s.Steady) (hrun : s.Feasible ms)
    (hnamed : ∀ {p}, src = .view p → p < s.nextProjection) (h : (s.after ms).Living src) :
    s.Living src := by
  cases src with
  | store => trivial
  | view p =>
    obtain ⟨l, hl⟩ := Option.isSome_iff_exists.mp h
    rw [Living, hs.link?_of_after hrun (hnamed rfl) hl]
    rfl

/-- **A source that lives through a run ends with what it took last.** -/
theorem Steady.newest?_after (hs : s.Steady) (hcalm : s.Calm ms) (hold : s.Living src)
    (h : (s.after ms).Living src) :
    (s.after ms).newest? src = (taken src (s.events ms)).getLast?.or (s.newest? src) := by
  induction ms generalizing s with
  | nil => rfl
  | cons m ms ih =>
    obtain ⟨hm, hcalm⟩ := hcalm
    have ho := hs.toSound.outcome hm
    have ht := hs.step hm
    have hnext : (s.step m).1.Living src := by
      refine ht.living_of_after hcalm.feasible (fun {p} hsrc => ?_) h
      subst hsrc
      obtain ⟨l, hl⟩ := Option.isSome_iff_exists.mp hold
      exact lt_of_lt_of_le (hs.wired.named hl) ho.projections.1
    rw [after_cons, ih ht hcalm hnext h, ho.newest? hs.toSound ht.toSound hnext hold, events_cons,
      taken_append, List.getLast?_append, Option.or_assoc]

/-- The value of a projection that takes none stays. -/
theorem Steady.value?_of_taken_nil (hs : s.Steady) (hcalm : s.Calm ms) (hold : s.Living (.view p))
    (h : (s.after ms).Living (.view p)) (htaken : taken (.view p) (s.events ms) = []) :
    (s.after ms).value? p = s.value? p := by
  have hnewest := hs.newest?_after hcalm hold h
  rw [htaken] at hnewest
  obtain ⟨v, hv⟩ := h.value?
  obtain ⟨w, hw⟩ := hold.value?
  rw [List.getLast?_nil, Option.none_or, newest?, newest?, hv, hw] at hnewest
  cases hnewest
  rw [hv, hw]

/-- **Whoever is up to date, or is going to be told, is so after every calm run.** -/
theorem CaughtUp.after (h : s.CaughtUp p) (hs : s.Orderly) (hcalm : s.Calm ms) :
    (s.after ms).CaughtUp p :=
  hs.induction CaughtUp.step hcalm h

/-- **A projection gets up to date when its source takes a value.** -/
theorem Orderly.caughtUp_of_taken (hs : s.Orderly) (hcalm : s.Calm ms)
    (hlink : s.link? p = some (origin, o)) (htaken : taken origin.source (s.events ms) ≠ []) :
    (s.after ms).CaughtUp p := by
  induction ms generalizing s with
  | nil => exact absurd rfl htaken
  | cons m ms ih =>
    obtain ⟨hm, hcalm⟩ := hcalm
    have ho := hs.toSound.outcome hm
    have hsame : ∀ {l}, (s.step m).1.link? p = some l → l = (origin, o) := by
      intro l hl
      have hold := ho.link? hl (hs.wired.named hlink)
      rw [hlink] at hold
      exact (Option.some.inj hold).symm
    by_cases hnow : taken origin.source (s.step m).2 = []
    · rw [events_cons, taken_append, hnow, List.nil_append] at htaken
      by_cases hliving : (s.step m).1.Living (.view p)
      · obtain ⟨l, hl⟩ := Option.isSome_iff_exists.mp hliving
        obtain rfl := hsame hl
        exact ih (hs.step hm) hcalm hl htaken
      · exact (caughtUp_of_not_living hliving).after (hs.step hm) hcalm
    · -- the value that the source takes is queued for the projection
      have hnext : (s.step m).1.CaughtUp p := by
        refine caughtUp_of_queue fun {origin' o'} hl => ?_
        cases hsame hl
        exact ho.queue_of_taken hnow
      exact hnext.after (hs.step hm) hcalm

/-- **A projection stays as it is while its source, of which nothing is outstanding, takes no
value.** -/
theorem Orderly.idle_chained (hs : s.Orderly) (hcalm : s.Calm ms)
    (hlink : s.link? p = some (origin, o)) (hsrc : origin.source ∉ s.sources)
    (htaken : taken origin.source (s.events ms) = []) (h : (s.after ms).Living (.view p)) :
    (s.after ms).value? p = s.value? p := by
  have hold : s.Living (.view p) := by
    rw [Living, hlink]
    rfl
  obtain ⟨v, hv⟩ := hold.value?
  refine hs.toSteady.value?_of_taken_nil hcalm hold h ?_
  have hnothing : evaluations p (s.events ms) = [] := by
    obtain ⟨-, life, rest, rfl, -, -, hlife⟩ := hs.evaluations_life hlink hcalm
    have hbegun := hs.flow hcalm origin.source
    rw [hs.idle hsrc, htaken, eq_comm, begun_append, List.nil_append] at hbegun
    have howed : s.owed origin.source o = [] := Delivery.flatMap_owed_of_not_mem hsrc
    rw [howed, (List.append_eq_nil_iff.mp (List.append_eq_nil_iff.mp hbegun).1).1] at hlife
    exact List.map_eq_nil_iff.mp (List.append_eq_nil_iff.mp hlife).1
  rw [hs.taken_evaluations hv hcalm, hnothing]
  rfl

/-- What an entry receives until nothing is being delivered any more is what is owed to it, what is
queued and what is taken. -/
theorem Orderly.received_idle (hs : s.Orderly) (h : s.Homed) (hcalm : s.Calm ms)
    (hend : (s.after ms).deliveries = []) {e : Observer} (he : e ∈ s.observersOf src)
    (hstays : ∃ a ∈ (s.after ms).observersOf src, a.id = e.id) :
    received e (s.events ms)
      = s.owed src e.id ++ s.queue src ++ taken src (s.events ms) := by
  have hfates := (hs.toSound.tracks h he).fates_after hs.toSteady hcalm.feasible ⟨e, he, rfl, rfl⟩
    hstays
  have hflow := hs.flow hcalm src
  rw [(hs.after hcalm).queue_of_deliveries_nil hend, List.append_nil] at hflow
  rw [fates_of_calm hcalm, Fate.map_signal_told, owed_of_deliveries_nil hend, List.append_nil,
    ← hflow, ← List.append_assoc] at hfates
  exact hfates

/-- **What an entry receives ends with what its source took last**; if it receives nothing, its
source took nothing. -/
theorem Orderly.received_last (hs : s.Orderly) (h : s.Homed) (hcalm : s.Calm ms)
    (hend : (s.after ms).deliveries = []) {e : Observer} (he : e ∈ s.observersOf src)
    (hstays : ∃ a ∈ (s.after ms).observersOf src, a.id = e.id) :
    (received e (s.events ms) ≠ [] →
      (received e (s.events ms)).getLast? = (s.after ms).newest? src) ∧
    (received e (s.events ms) = [] → (s.after ms).newest? src = s.newest? src) := by
  have hall := hs.received_idle h hcalm hend he hstays
  obtain ⟨a, ha, -⟩ := hstays
  have hnewest := hs.toSteady.newest?_after hcalm (Lists.living ⟨e, he, rfl, rfl⟩)
    (Lists.living ⟨a, ha, rfl, rfl⟩)
  · rw [hall, hnewest]
    refine ⟨fun hne => ?_, fun hnil => ?_⟩
    · rw [List.getLast?_append]
      cases htaken : (taken src (s.events ms)).getLast? with
      | some signal => rfl
      | none =>
        rw [List.getLast?_eq_none_iff] at htaken
        rw [htaken, List.append_nil] at hne
        -- what is owed or queued ends what is outstanding
        obtain ⟨signal, hlast⟩ := Option.ne_none_iff_exists'.mp fun hnone =>
          hne (List.getLast?_eq_none_iff.mp hnone)
        obtain ⟨earlier, heq⟩ := hs.toSound.owed_suffix_hand src e.id
        rw [Option.none_or, Option.none_or, hlast]
        refine (hs.latest ?_).symm
        rw [outstanding, ← heq, List.append_assoc, List.getLast?_append, hlast, Option.some_or]
    · rw [(List.append_eq_nil_iff.mp hnil).2]
      rfl

/-- After an update has been delivered, a projection over the store has the value of the current
state. -/
theorem Orderly.upToDate_direct (hs : s.Orderly) (hcalm : s.Calm ms)
    (hend : (s.after ms).deliveries = []) (hqueue : s.queue .store ≠ []) {select : S → V}
    (hl : (s.after ms).link? p = some (.store select, o)) :
    (s.after ms).UpToDate p (.store select) := by
  refine CaughtUp.upToDate (CaughtUp.after ?_ hs hcalm) (hs.after hcalm) hend hl
  by_cases hliving : s.Living (.view p)
  · -- what is queued waits for every projection over the store
    refine caughtUp_of_queue fun {origin o} hl' => ?_
    rw [hs.toSteady.link?_of_after hcalm.feasible (hs.wired.named hl') hl] at hl'
    cases hl'
    exact hqueue
  · exact caughtUp_of_not_living hliving

/-- **A projection over another one is up to date in the end if and only if it was so, was created
since, or its source has taken a value.** -/
theorem Orderly.upToDate_chained (hs : s.Orderly) (hcalm : s.Calm ms)
    (hend : (s.after ms).deliveries = []) {source : ProjectionId} {select : V → V}
    (hidle : .view source ∉ s.sources)
    (hl : (s.after ms).link? p = some (.view source select, o)) :
    (s.after ms).UpToDate p (.view source select) ↔
      s.UpToDate p (.view source select) ∨ ¬ s.Living (.view p) ∨
        taken (.view source) (s.events ms) ≠ [] := by
  have ht := hs.after hcalm
  by_cases hliving : s.Living (.view p)
  · obtain ⟨l, hl'⟩ := Option.isSome_iff_exists.mp hliving
    obtain rfl : l = (.view source select, o) := by
      rw [hs.toSteady.link?_of_after hcalm.feasible (hs.wired.named hl') hl] at hl'
      exact (Option.some.inj hl').symm
    refine ⟨fun h => ?_, fun h => ?_⟩
    · by_cases htaken : taken (.view source) (s.events ms) = []
      · -- without a value of its source, the projection is where it was
        have hvalue := hs.idle_chained hcalm hl' hidle htaken (by rw [Living, hl]; rfl)
        have hsource := hs.toSteady.value?_of_taken_nil hcalm (hs.toSound.living_source hl')
          (ht.toSound.living_source hl) htaken
        refine Or.inl (h.congr hvalue.symm ?_)
        rw [Origin.source, newest?, newest?, hsource]
      · exact Or.inr (Or.inr htaken)
    · refine CaughtUp.upToDate ?_ ht hend hl
      rcases h with h | hdead | htaken
      · exact (h.caughtUp hl').after hs hcalm
      · exact absurd hliving hdead
      · exact hs.caughtUp_of_taken hcalm hl' htaken
  · have h := ((caughtUp_of_not_living hliving).after hs hcalm).upToDate ht hend hl
    exact iff_of_true h (Or.inr (Or.inl hliving))

/-- **The last thing that a subscriber was told is what its source took last** if and only if it was
so before, or it has been told something since. -/
theorem Orderly.heard_last (hs : s.Orderly) (h : s.Homed) (hcalm : s.Calm ms)
    (hend : (s.after ms).deliveries = []) {e : Observer} (he : e ∈ s.observersOf src)
    (htarget : e.target = .subscriber) (hstays : ∃ a ∈ (s.after ms).observersOf src, a.id = e.id)
    (before : List (Event S V)) :
    (heard e.id (before ++ s.events ms)).getLast? = (s.after ms).newest? src ↔
      (heard e.id before).getLast? = s.newest? src ∨ heard e.id (s.events ms) ≠ [] := by
  obtain ⟨hsome, hnone⟩ := hs.received_last h hcalm hend he hstays
  rw [received_subscriber htarget] at hsome hnone
  rw [heard_append, List.getLast?_append]
  by_cases hheard : heard e.id (s.events ms) = []
  · rw [hheard, hnone hheard]
    simp
  · obtain ⟨signal, hlast⟩ := Option.ne_none_iff_exists'.mp fun hnone =>
      hheard (List.getLast?_eq_none_iff.mp hnone)
    rw [← hsome hheard, hlast, Option.some_or]
    exact iff_of_true rfl (Or.inr hheard)

end Runs

/-- The values of a projection can be derived from the states. -/
theorem Sound.composes {s : Store S V H} (hs : s.Sound) {p : ProjectionId}
    (h : s.Living (.view p)) : ∃ f, s.Composes p f := by
  -- a projection is younger than its source
  induction p using Nat.strongRecOn with
  | ind p ih =>
    obtain ⟨⟨origin, o⟩, hlink⟩ := Option.isSome_iff_exists.mp h
    cases origin with
    | store select => exact ⟨select, .store hlink⟩
    | view source select =>
      obtain ⟨f, hf⟩ := ih source (hs.wired.older hlink rfl) (hs.living_source hlink)
      exact ⟨select ∘ f, .view hlink hf⟩

/-- **What a failure leaves behind the state.** After any run, failures included, an update is made
while nothing is being delivered, and its delivery and whatever is done meanwhile and afterwards end
without another failure. Then:

- a projection over the store has the value of the current state;
- a projection over another one has what its selector makes of that one's value if and only if it
  had so at the update, was created since, or its source has taken a value since;
- all projections have the values of the current state if and only if that holds of every projection
  over another one;
- the last value that a subscriber of a projection received is the one that the projection has if
  and only if it was so at the update, or at any moment since, or the subscriber has received
  something from then on. -/
theorem staleness [DecidableEq V] (initial : S) (ms d : List (Move S V H)) (c : Change S)
    (hrun : (opening initial : Store S V H).Feasible (ms ++ [.change c]))
    (hidle : ((opening initial : Store S V H).after ms).deliveries = [])
    (hcalm : ((opening initial : Store S V H).after (ms ++ [.change c])).Calm d)
    (hend : (((opening initial : Store S V H).after (ms ++ [.change c])).after d).deliveries = []) :
    let start : Store S V H := opening initial
    let updated := start.after (ms ++ [.change c])
    let t := updated.after d
    (∀ p select o, t.link? p = some (.store select, o) →
      t.value? p = some (select t.current.state)) ∧
    (∀ p source select o, t.link? p = some (.view source select, o) →
      (t.UpToDate p (.view source select) ↔
        updated.UpToDate p (.view source select) ∨ ¬ updated.Living (.view p) ∨
          taken (.view source) (updated.events d) ≠ [])) ∧
    ((∀ p f, t.Composes p f → t.value? p = some (f t.current.state)) ↔
      ∀ p source select o, t.link? p = some (.view source select, o) →
        t.UpToDate p (.view source select)) ∧
    ∀ d₁ d₂, d = d₁ ++ d₂ →
      let s := updated.after d₁
      ∀ p e, e ∈ s.observersOf (.view p) → e.target = .subscriber →
        (∃ a ∈ t.observersOf (.view p), a.id = e.id) →
        ((heard e.id (start.events (ms ++ .change c :: d))).getLast? = t.newest? (.view p) ↔
          (heard e.id (start.events (ms ++ .change c :: d₁))).getLast? = s.newest? (.view p) ∨
            heard e.id (s.events d₂) ≠ []) := by
  intro start updated t
  have hstart : start.Steady := (Orderly.opening initial).toSteady
  obtain ⟨hms, hc⟩ := feasible_append.mp hrun
  have hupdated : updated = (start.after ms).after ([] ++ [.change c]) := after_append ..
  have hnil : (start.after ms).Feasible ([] ++ [.change c]) := hc
  -- with the update everything is in order again, as far as the queues are concerned
  obtain ⟨hs, -, hdel, hqueue⟩ := (hstart.after hms).orderly_update hidle hnil rfl
  rw [← hupdated] at hs hdel hqueue
  have ht : t.Orderly := hs.after hcalm
  have hdirect : ∀ {p select o}, t.link? p = some (.store select, o) →
      t.UpToDate p (.store select) :=
    hs.upToDate_direct hcalm hend (by rw [hqueue]; simp)
  refine ⟨fun p select o hl => ?_, fun p source select o hl => ?_,
    ⟨fun h p source select o hl => ?_, fun h p f hf => ?_⟩, ?_⟩
  · obtain ⟨signal, hnewest, himage⟩ := hdirect hl
    cases hnewest
    exact himage.symm
  · refine hs.upToDate_chained hcalm hend ?_ hl
    rw [sources, hdel]
    simp
  · obtain ⟨f, hf⟩ := ht.toSound.composes (ht.toSound.living_source hl)
    refine ⟨.view (f t.current.state), ?_, (h p _ (.view hl hf)).symm⟩
    rw [Origin.source, newest?, h source f hf]
    rfl
  · have hall : ∀ {p origin o}, t.link? p = some (origin, o) → t.UpToDate p origin := by
      intro p origin o hl
      cases origin with
      | store select => exact hdirect hl
      | view source select => exact h p source select o hl
    -- along the chain every projection has what its selector makes of its source
    obtain ⟨l, hl⟩ : ∃ l, t.link? p = some l := by
      cases hf with
      | store hl | view hl => exact ⟨_, hl⟩
    obtain ⟨g, hg, hvalue⟩ := value?_of_upToDate ht.toSound hall p hl
    rw [hf.unique hg]
    exact hvalue
  · rintro d₁ d₂ rfl s p e he htarget hstays
    obtain ⟨hd₁, hd₂⟩ := calm_append.mp hcalm
    have hlast : t = s.after d₂ := after_append ..
    have hhomed : s.Homed :=
      ((Homed.opening initial).after hstart hrun).after hs.toSteady hd₁.feasible
    -- the run is cut at the moment in question
    have hsplit : start.events (ms ++ .change c :: (d₁ ++ d₂))
        = start.events (ms ++ .change c :: d₁) ++ s.events d₂ := by
      have hcut : ms ++ .change c :: (d₁ ++ d₂) = (ms ++ [.change c]) ++ d₁ ++ d₂ := by simp
      have hcut' : ms ++ .change c :: d₁ = (ms ++ [.change c]) ++ d₁ := by simp
      rw [hcut, hcut', events_append, after_append]
    have hend' : (s.after d₂).deliveries = [] := hlast ▸ hend
    rw [hlast] at hstays ⊢
    rw [hsplit]
    exact (hs.after hd₁).heard_last hhomed hd₂ hend' he htarget hstays _

/-- A projection of the first half of the state, a subscriber of it (1), a projection over it, and
another subscriber (3). When the first half is changed, the first subscriber fails. -/
def failedDelivery : List (Move (Option Bool × Bool) (Option Bool) Unit) :=
  [.observe (.project Prod.fst), .observe (.watch 0), .ret, .observe (.chain 0 (Option.map not)),
    .observe (.watch 0), .ret, .change (.update fun x => (some true, x.2)), .tick, .tick, .tick,
    .tick, .panic]

/-- The next update changes the other half. -/
def otherChange : Change (Option Bool × Bool) :=
  .update fun x => (x.1, true)

/-- Its delivery tells the projection what that has. -/
def equalDelivery : List (Move (Option Bool × Bool) (Option Bool) Unit) :=
  [.tick, .tick, .tick, .tick]

/-- And then the first half is changed again. -/
def freshDelivery : List (Move (Option Bool × Bool) (Option Bool) Unit) :=
  equalDelivery ++ .change (.update fun x => (some false, x.2)) :: [.tick, .tick, .tick, .tick,
    .ret, .tick, .tick, .tick, .tick, .tick, .ret, .tick, .tick, .tick, .tick]

/-- With that the projection over the other one and the last subscriber get to its value. -/
theorem staleness_repaired :
    let start : Store (Option Bool × Bool) (Option Bool) Unit := opening (none, false)
    let updated := start.after (failedDelivery ++ [.change otherChange])
    let t := updated.after freshDelivery
    start.Feasible (failedDelivery ++ [.change otherChange]) ∧ updated.Calm freshDelivery ∧
      (start.after failedDelivery).deliveries.isEmpty = true ∧ t.deliveries.isEmpty = true ∧
      t.value? 0 = some (some false) ∧ t.value? 1 = some (some true) ∧
      (heard 3 (start.events (failedDelivery ++ .change otherChange :: freshDelivery))).getLast?
        = t.newest? (.view 0) := by
  intro start updated t
  have hrun : start.Feasible (failedDelivery ++ [.change otherChange]) := by decide +kernel
  have hcalm : updated.Calm freshDelivery := by decide +kernel
  have hidle : (start.after failedDelivery).deliveries.isEmpty = true := by decide +kernel
  have hend : t.deliveries.isEmpty = true := by decide +kernel
  obtain ⟨-, hchained, -, hheard⟩ := staleness (none, false) failedDelivery freshDelivery
    otherChange hrun (List.isEmpty_iff.mp hidle) hcalm (List.isEmpty_iff.mp hend)
  -- the projections are still those that were created first
  have hlinks : ∀ {p l}, (t.link? p).isSome = true → p < 2 →
      (start.after (failedDelivery.take 4)).link? p = some l → t.link? p = some l := by
    intro p l hsome hp hl
    obtain ⟨l', hl'⟩ := Option.isSome_iff_exists.mp hsome
    have hcut : failedDelivery ++ [.change otherChange] ++ freshDelivery
        = failedDelivery.take 4
          ++ (failedDelivery.drop 4 ++ [.change otherChange] ++ freshDelivery) := by
      rw [← List.append_assoc, ← List.append_assoc, List.take_append_drop]
    have hwhole := feasible_append.mpr ⟨hrun, hcalm.feasible⟩
    have ht : t = start.after (failedDelivery ++ [.change otherChange] ++ freshDelivery) :=
      (after_append ..).symm
    rw [hcut] at hwhole ht
    rw [after_append] at ht
    obtain ⟨hbefore, hafter⟩ := feasible_append.mp hwhole
    rw [ht] at hl'
    have hold := ((Orderly.opening _).toSteady.after hbefore).link?_of_after hafter hp hl'
    rw [hl, Option.some.injEq] at hold
    rw [ht, hl', hold]
  have hfirst : t.value? 0 = some (some false) := by decide +kernel
  refine ⟨hrun, hcalm, hidle, hend, hfirst, ?_, ?_⟩
  · have htaken : (taken (.view 0) (updated.events freshDelivery)).isEmpty = false := by
      decide +kernel
    have hover : t.UpToDate 1 (.view 0 (Option.map not)) := by
      refine (hchained 1 0 (Option.map not) 2 (hlinks (by decide +kernel) (by decide) rfl)).mpr
        (Or.inr (Or.inr fun hnil => ?_))
      rw [hnil] at htaken
      cases htaken
    exact hover.value? hfirst
  · have htold : (heard 3 ((updated.after []).events freshDelivery)).isEmpty = false := by
      decide +kernel
    refine (hheard [] freshDelivery rfl 0 ⟨3, .subscriber, true⟩ (by decide +kernel) rfl
      ⟨⟨3, .subscriber, true⟩, by decide +kernel, rfl⟩).mpr (Or.inr ?_)
    exact fun hnil => Bool.false_ne_true (htold.symm.trans (List.isEmpty_iff.mpr hnil))

/-- With the update before that, both are behind. -/
theorem staleness_lasting :
    let start : Store (Option Bool × Bool) (Option Bool) Unit := opening (none, false)
    let updated := start.after (failedDelivery ++ [.change otherChange])
    let t := updated.after equalDelivery
    start.Feasible (failedDelivery ++ [.change otherChange]) ∧ updated.Calm equalDelivery ∧
      t.stack = [] ∧ t.current.state = (some true, true) ∧ t.value? 0 = some (some true) ∧
      t.value? 1 = some none ∧
      heard 3 (start.events (failedDelivery ++ .change otherChange :: equalDelivery))
        = [.view none] :=
  ⟨by decide +kernel, by decide +kernel, rfl, by decide +kernel, by decide +kernel,
    by decide +kernel, rfl⟩

end Store

end LiveDesk.Observable
