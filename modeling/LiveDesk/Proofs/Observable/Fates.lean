import LiveDesk.Proofs.Observable.Failures

/-!
# What becomes of a signal

A signal whose delivery begins is for every entry that is in the list of its source at that moment.
While the entry stays there, it receives the signal, unless a failure comes first: then the signal
is lost to it, and it receives the next one as if nothing had happened.

- `Store.received`: what an entry received, read off the events, be it a subscriber's or a
  projection's.
- `Store.losses`: what a failure takes from an entry.
- `Store.fates`: what becomes of the signals for an entry in a run, in their order.
- `Store.Tracks`: what goes by the name of an entry belongs to its source, and leads where it does.
- **`Upshot.fates`**: in every move, what an entry is owed and what begins is received, lost or
  still owed.
- **`Tracks.fates_after`**, **`Tracks.received_sorted`**: the same for runs.
-/

namespace LiveDesk.Observable

variable {S V H : Type}

namespace Event

/-- The signal that an entry of an observer list receives in an event: its code is called with it,
or its selector is applied to it. -/
def received? (e : Observer) : Event S V → Option (Signal S V)
  | .called o signal => if e.target = .subscriber ∧ o = e.id then some signal else none
  | .evaluated p signal _ => if e.target = .projection p then some signal else none
  | .published _ | .emitted _ _ => none

end Event

/-- What becomes of a signal that an entry is to receive. -/
inductive Fate (S V : Type) where
  | told (signal : Signal S V)
  /-- A failure came first. -/
  | lost (signal : Signal S V)

namespace Fate

/-- The signal that it is about. -/
def signal : Fate S V → Signal S V
  | .told signal | .lost signal => signal

/-- The signal, if it was received. -/
def told? : Fate S V → Option (Signal S V)
  | .told signal => some signal
  | .lost _ => none

@[simp] theorem map_signal_told (l : List (Signal S V)) :
    (l.map Fate.told).map Fate.signal = l := by
  simp [Function.comp_def, signal]

@[simp] theorem map_signal_lost (l : List (Signal S V)) :
    (l.map Fate.lost).map Fate.signal = l := by
  simp [Function.comp_def, signal]

@[simp] theorem filterMap_told (l : List (Signal S V)) :
    (l.map Fate.told).filterMap told? = l := by
  simp [List.filterMap_map, Function.comp_def, told?]

@[simp] theorem filterMap_lost (l : List (Signal S V)) :
    (l.map Fate.lost).filterMap told? = [] := by
  simp [List.filterMap_map, Function.comp_def, told?]

end Fate

namespace Store

/-- What an entry received. -/
def received (e : Observer) (es : List (Event S V)) : List (Signal S V) :=
  es.filterMap (Event.received? e)

@[simp] theorem received_append (e : Observer) (es es' : List (Event S V)) :
    received e (es ++ es') = received e es ++ received e es' :=
  List.filterMap_append ..

/-- A subscriber receives what its code is called with. -/
theorem received_subscriber {e : Observer} (he : e.target = .subscriber)
    (es : List (Event S V)) : received e es = heard e.id es := by
  refine List.filterMap_congr fun event _ => ?_
  cases event <;> simp [Event.received?, Event.heard?, he]

/-- A projection receives what its selector is applied to. -/
theorem received_projection {e : Observer} {p : ProjectionId} (he : e.target = .projection p)
    (es : List (Event S V)) : received e es = (evaluations p es).map (·.1) := by
  rw [received, evaluations, List.map_filterMap]
  refine List.filterMap_congr fun event _ => ?_
  cases event with
  | evaluated q signal v =>
    by_cases hq : p = q
    · simp [Event.received?, Event.evaluated?, he, hq]
    · simp [Event.received?, Event.evaluated?, he, hq, Ne.symm hq]
  | published | called | emitted => simp [Event.received?, Event.evaluated?, he]

/-- What a failure takes from an observer of a source: the signal at hand, if it had not got to the
observer. -/
def losses (s : Store S V H) (src : Source) (o : ObserverId) : Move S V H → List (Signal S V)
  | .panic => s.owed src o
  | .tick | .change _ | .observe _ | .ret | .enter _ | .leave => []

theorem losses_of_allows {s : Store S V H} {m : Move S V H} (hm : s.allows m = true)
    (src : Source) (o : ObserverId) : s.losses src o m = [] := by
  cases m with
  | panic => cases hm
  | tick | change | observe | ret | enter | leave => rfl

/-- What becomes of the signals that a source delivers to an entry in a run. -/
def fates [DecidableEq V] (s : Store S V H) (src : Source) (e : Observer) :
    List (Move S V H) → List (Fate S V)
  | [] => []
  | m :: ms => (received e (s.step m).2).map .told ++ (s.losses src e.id m).map .lost
      ++ (s.step m).1.fates src e ms

/-- What is owed is at hand. -/
theorem owed_sublist_hand (s : Store S V H) (src : Source) (o : ObserverId) :
    (s.owed src o).Sublist (s.hand src) := by
  refine List.Sublist.flatMap_right _ fun d _ => ?_
  obtain ⟨src', _ | ⟨signal, rest⟩⟩ := d
  · exact List.nil_sublist _
  · by_cases hsrc : src' = src
    · by_cases hrest : rest.any (·.id == o) = true
      · simp [Delivery.owed, Delivery.hand, hsrc, hrest]
      · simp [Delivery.owed, hrest]
    · rw [Delivery.owed_of_ne hsrc]
      exact List.nil_sublist _

/-- The entry is in the list of the source, held or let go of. -/
def Lists (s : Store S V H) (src : Source) (e : Observer) : Prop :=
  ∃ a ∈ s.observersOf src, a.id = e.id ∧ a.target = e.target

/-- Whatever goes by the name of the entry belongs to the source and leads where the entry does, and
no code runs for the first value of its subscriber. -/
structure Tracks (s : Store S V H) (src : Source) (e : Observer) : Prop
    extends s.Belongs src e.id where
  born : ∀ {p}, .replay e.id p ∉ s.stack
  named : ∀ {p}, e.target = .projection p → p < s.nextProjection
  leads : ∀ {p l}, e.target = .projection p → s.link? p = some l →
    l.1.source = src ∧ l.2 = e.id
  same : ∀ {a}, a ∈ s.observersOf src → a.id = e.id → a.target = e.target

section Moves

variable {s t : Store S V H} {m : Move S V H} {es : List (Event S V)} {src : Source}
  {e : Observer}

/-- The entries that are in the lists are so. -/
theorem Sound.tracks (hs : s.Sound) (h : s.Homed) (he : e ∈ s.observersOf src) :
    s.Tracks src e := by
  obtain ⟨src', hb⟩ := h e.id (hs.wired.fresh he)
  obtain rfl := hb.listed he rfl
  refine ⟨hb, fun hr => ?_, fun hp => ?_, fun hp hl => ?_, fun ha hid => ?_⟩
  · exact hs.stacked.unbornAbsent (unborn_of_replay hr) he rfl
  · obtain ⟨origin, hl, -⟩ := hs.wired.targeted he hp
    exact hs.wired.named hl
  · obtain ⟨origin, hl', hsrc⟩ := hs.wired.targeted he hp
    rw [hl] at hl'
    cases hl'
    exact ⟨hsrc, rfl⟩
  · rw [hs.wired.eq_of_id ha he hid]

theorem Lists.living (h : s.Lists src e) : s.Living src := by
  obtain ⟨a, ha, -⟩ := h
  by_contra hdead
  rw [observersOf_eq_nil_of_not_living hdead] at ha
  cases ha

/-- A subscriber that is in the list follows the source. -/
theorem Tracks.follows (h : s.Tracks src e) (hs : s.Sound) {a : Observer}
    (ha : a ∈ s.observersOf src) (hid : a.id = e.id) (htarget : e.target = .subscriber) :
    s.Follows src a where
  toBelongs := hid ▸ h.toBelongs
  subscriber := (h.same ha hid).trans htarget
  entry _ := ha
  named {p} hsrc := by
    have hliving := Lists.living ⟨a, ha, rfl, rfl⟩
    rw [hsrc] at hliving
    obtain ⟨l, hl⟩ := Option.isSome_iff_exists.mp hliving
    exact hs.wired.named hl
  born := hid ▸ h.born

variable [DecidableEq V]

theorem Tracks.step (h : s.Tracks src e) (hs : s.Sound) (hu : Upshot s m t es) :
    t.Tracks src e := by
  have hentries := hu.entries hs
  refine ⟨h.toBelongs.advance hs hu, fun hr => ?_, fun hp => ?_, fun hp hl => ?_, fun ha hid => ?_⟩
  · rcases hentries.replays hr with hr | hnew
    · exact h.born hr
    · exact absurd h.given (Nat.not_lt.mpr hnew)
  · exact lt_of_lt_of_le (h.named hp) hu.nextProjection_le
  · exact h.leads hp (hu.link? hl (h.named hp))
  · rcases hentries.appeared ha with ⟨a', ha', -, rfl⟩ | ⟨p, -, hr⟩ | hnew
    · rw [m.retag_target]
      exact h.same ha' ((m.retag_id a').symm.trans hid)
    · exact absurd (hid ▸ hr) h.born
    · rw [hid] at hnew
      exact absurd h.given (Nat.not_lt.mpr hnew)

/-- **What an entry of the list receives and is still owed was owed before, or its delivery
begins.** -/
theorem Outcome.received (hs : s.Sound) (ho : Outcome s m t es) (h : s.Tracks src e)
    (hin : s.Lists src e) :
    received e es ++ t.owed src e.id = s.owed src e.id ++ s.begins src m := by
  obtain ⟨a, ha, hid, -⟩ := hin
  cases htarget : e.target with
  | subscriber =>
    rw [received_subscriber htarget, ← hid]
    exact (h.follows hs ha hid htarget).step hs ho
  | projection p =>
    obtain ⟨origin, hlink, rfl⟩ := hs.wired.targeted ha ((h.same ha hid).trans htarget)
    rw [received_projection htarget, ← hid]
    cases ho.applies hs hlink with
    | idle hnil _ _ howed =>
      rw [hnil, howed]
      rfl
    | applied hone _ _ _ _ _ hold hnew hbegins =>
      rw [hone, hold, hnew, hbegins]
      rfl

/-- Whether it is in the list or not, an entry receives no more than what is owed. -/
theorem Upshot.received_sublist (hs : s.Sound) (hu : Upshot s m t es) (h : s.Tracks src e) :
    (Store.received e es ++ t.owed src e.id).Sublist (s.owed src e.id ++ s.begins src m) := by
  cases hu with
  | failed _ _ hdt =>
    rw [owed, hdt]
    exact List.nil_sublist _
  | moved _ ho =>
    cases htarget : e.target with
    | subscriber =>
      rw [received_subscriber htarget]
      exact h.toBelongs.heard_step hs ho
    | projection p =>
      -- a projection that is gone is not evaluated, and what is owed to its entry only gets less
      by_cases hliving : s.Living (.view p)
      · obtain ⟨⟨origin, o⟩, hl⟩ := Option.isSome_iff_exists.mp hliving
        obtain ⟨hsrc, hid⟩ := h.leads htarget hl
        have hentered := hs.wired.entered hl
        rw [hsrc] at hentered
        rw [ho.received hs h ⟨_, hentered, hid, htarget.symm⟩]
      · rw [received_projection htarget,
          ho.evaluations_of_not_living hliving (Or.inl (h.named htarget))]
        exact ho.owed_step hs src e.id

/-- **Every signal that an entry of the list is owed, or whose delivery begins, is received, lost or
still owed.** -/
theorem Upshot.fates (hs : s.Sound) (hu : Upshot s m t es) (h : s.Tracks src e)
    (hin : s.Lists src e) :
    Store.received e es ++ s.losses src e.id m ++ t.owed src e.id
      = s.owed src e.id ++ s.begins src m := by
  cases hu with
  | moved hm ho =>
    rw [losses_of_allows hm, List.append_nil]
    exact ho.received hs h hin
  | failed _ _ hdt =>
    rw [owed, hdt]
    rfl

/-- An entry that is not in the list any more does not come back. -/
theorem Tracks.lists_or_gone (h : s.Tracks src e) (hs : s.Sound) (hu : Upshot s m t es) :
    t.Lists src e ∨ t.Gone e.id := by
  have ht := h.step hs hu
  by_cases hin : ∃ a ∈ t.observersOf src, a.id = e.id
  · obtain ⟨a, ha, hid⟩ := hin
    exact Or.inl ⟨a, ha, hid, ht.same ha hid⟩
  · refine Or.inr ⟨ht.given, fun {src' a} ha hid => ?_, ht.born⟩
    obtain rfl := ht.listed ha hid
    exact hin ⟨a, ha, hid⟩

end Moves

section Runs

variable [DecidableEq V] {s : Store S V H} {ms : List (Move S V H)} {src : Source}
  {e : Observer}

theorem Gone.after {o : ObserverId} (h : s.Gone o) (hs : s.Steady) (hrun : s.Feasible ms) :
    (s.after ms).Gone o := by
  induction ms generalizing s with
  | nil => exact h
  | cons m ms ih =>
    exact ih (h.keep ((hs.upshot hrun.1).entries hs.toSound)) (hs.advance hrun.1) hrun.2

theorem Tracks.after (h : s.Tracks src e) (hs : s.Steady) (hrun : s.Feasible ms) :
    (s.after ms).Tracks src e := by
  induction ms generalizing s with
  | nil => exact h
  | cons m ms ih =>
    obtain ⟨hm, hrun⟩ := hrun
    exact ih (h.step hs.toSound (hs.upshot hm)) (hs.advance hm) hrun

/-- What was received is what was told. -/
theorem filterMap_fates (s : Store S V H) (src : Source) (e : Observer) (ms : List (Move S V H)) :
    (s.fates src e ms).filterMap Fate.told? = received e (s.events ms) := by
  induction ms generalizing s with
  | nil => rfl
  | cons m ms ih =>
    rw [fates, List.filterMap_append, List.filterMap_append, Fate.filterMap_told,
      Fate.filterMap_lost, List.append_nil, ih, events_cons, received_append]

/-- **In every run, an entry receives some of what is owed to it and of what begins, each signal at
most once and in order.** -/
theorem Tracks.received_after (h : s.Tracks src e) (hs : s.Steady) (hrun : s.Feasible ms) :
    (received e (s.events ms)).Sublist (s.owed src e.id ++ s.begun src ms) := by
  induction ms generalizing s with
  | nil => exact List.nil_sublist _
  | cons m ms ih =>
    obtain ⟨hm, hrun⟩ := hrun
    have hu := hs.upshot hm
    have hrest := ih (h.step hs.toSound hu) (hs.advance hm) hrun
    rw [events_cons, received_append, begun, ← List.append_assoc]
    refine ((List.Sublist.refl _).append hrest).trans ?_
    rw [← List.append_assoc]
    exact (hu.received_sublist hs.toSound h).append (List.Sublist.refl _)

/-- **As long as an entry stays in the list, it receives everything that is owed to it and
everything that begins, but for what a failure takes from it.** -/
theorem Tracks.fates_after (h : s.Tracks src e) (hs : s.Steady) (hrun : s.Feasible ms)
    (hin : s.Lists src e) (hstays : ∃ a ∈ (s.after ms).observersOf src, a.id = e.id) :
    (s.fates src e ms).map Fate.signal ++ (s.after ms).owed src e.id
      = s.owed src e.id ++ s.begun src ms := by
  induction ms generalizing s with
  | nil => exact (List.append_nil _).symm
  | cons m ms ih =>
    obtain ⟨hm, hrun⟩ := hrun
    have hu := hs.upshot hm
    have hnext : (s.step m).1.Lists src e := by
      refine (h.lists_or_gone hs.toSound hu).resolve_right fun hgone => ?_
      obtain ⟨a, ha, hid⟩ := hstays
      exact (hgone.after (hs.advance hm) hrun).unlisted ha hid
    have hrest := ih (h.step hs.toSound hu) (hs.advance hm) hrun hnext hstays
    have hfirst := hu.fates hs.toSound h hin
    rw [fates, List.map_append, List.map_append, Fate.map_signal_told, Fate.map_signal_lost,
      List.append_assoc, after_cons, hrest, ← List.append_assoc, hfirst, begun,
      List.append_assoc]

/-- Without a failure nothing is lost. -/
theorem fates_of_calm (hcalm : s.Calm ms) (src : Source) (e : Observer) :
    s.fates src e ms = (received e (s.events ms)).map .told := by
  induction ms generalizing s with
  | nil => rfl
  | cons m ms ih =>
    obtain ⟨hm, hcalm⟩ := hcalm
    rw [fates, losses_of_allows hm, ih hcalm, events_cons, received_append, List.map_append,
      List.map_nil, List.append_nil]

/-- What an entry of a list of snapshots receives is in the order of the versions. -/
theorem Tracks.received_sorted {s : Store S V H} {e : Observer} (h : s.Tracks .store e)
    (hs : s.Steady) {ms : List (Move S V H)} (hrun : s.Feasible ms) :
    (received e (s.events ms)).Pairwise fun x y => x.version < y.version := by
  refine (hs.sorted hrun).sublist ((h.received_after hs hrun).trans ?_)
  -- what is owed is at hand, and what begins was queued or is taken
  rw [outstanding, List.append_assoc, hs.flow hrun .store]
  exact (s.owed_sublist_hand .store e.id).append (List.sublist_append_left _ _)

end Runs

end Store

end LiveDesk.Observable
