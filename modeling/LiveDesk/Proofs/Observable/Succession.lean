import LiveDesk.Proofs.Observable.History

/-!
# The order of the values of a projection

After its first value, a projection derives its values from newer and newer snapshots. The first
value stems from a snapshot that can be newer than those: while a delivery is under way, the current
snapshot is ahead of the queue that a new projection is then told. So its values go back to an older
snapshot at most once, right after the first one.

- `Store.Ascending`: what was derived after the first values is in order, and older than what is
  due.
- **`Ascending.step`**: every possible move keeps it.
- **`Recorded.stems_history`**: a projection over the store derives its values from the snapshots
  that are queued when it is created, and those published later.
- **`Store.succession`**: what a projection and its subscribers get, and when it goes back.
-/

namespace LiveDesk.Observable

namespace Store

variable {S V H : Type}

/-- What was derived after the first values stems from newer and newer snapshots, and what is due
stems from newer ones still. -/
structure Ascending (s : Store S V H) (past : History S V) : Prop where
  sorted : ∀ p, (past p).tail.Pairwise fun a b => a.stem.version < b.stem.version
  ofStore : ∀ {p select o}, s.link? p = some (.store select, o) → ∀ a ∈ (past p).tail,
    a.stem.version ≤ s.current.version ∧
      ∀ signal ∈ s.owed .store o ++ s.queue .store, a.stem.version < signal.version
  ofView : ∀ {p r select o}, s.link? p = some (.view r select, o) → ∀ a ∈ (past p).tail,
    (∃ b ∈ (past r).tail, a.stem.version ≤ b.stem.version) ∧
      (s.owed (.view r) o ++ s.queue (.view r) ≠ [] →
        ∀ b ∈ (past r).getLast?, a.stem.version < b.stem.version)
  /-- A projection delivers only what it took after its first value. -/
  emptied : ∀ {p}, .view p ∈ s.sources → (past p).tail ≠ []

theorem Ascending.opening (initial : S) :
    (opening initial : Store S V H).Ascending fun _ => [] where
  sorted _ := .nil
  ofStore _ a ha := by cases ha
  ofView _ a ha := by cases ha
  emptied h := by cases h

section Moves

variable {s t : Store S V H} {m : Move S V H} {es : List (Event S V)} {past : History S V}

/-- What a projection derives from the signal at hand stems from a newer snapshot than what it
derived after its first value. -/
theorem Ascending.newer (h : s.Ascending past) {p : ProjectionId} {origin : Origin S V}
    {o : ObserverId} {signal : Signal S V} {x : Snapshot S} {v : V}
    (hlink : s.link? p = some (origin, o)) (howed : s.owed origin.source o = [signal])
    (hstems : Stems past x origin v) (hsignal : origin.source = .store → signal = .snapshot x) :
    ∀ a ∈ (past p).tail, a.stem.version < x.version := by
  intro a ha
  cases hstems with
  | store =>
    refine (h.ofStore hlink a ha).2 (.snapshot x) (List.mem_append_left _ ?_)
    rw [Origin.source] at howed
    rw [howed, hsignal rfl]
    exact List.mem_singleton.mpr rfl
  | view hlast =>
    refine (h.ofView hlink a ha).2 ?_ _ hlast
    rw [Origin.source] at howed
    rw [howed]
    simp

/-- What is derived from snapshots stems from them. -/
theorem stems_foldl_note (t : Store S V H) {p : ProjectionId} {es : List (Event S V)}
    {past : History S V} (h : ∀ a ∈ evaluations p es, ∃ x, a.1 = .snapshot x) :
    stems (es.foldl t.note past p) = stems (past p) ++ (evaluations p es).map (·.1) := by
  induction es generalizing past with
  | nil => exact (List.append_nil _).symm
  | cons e es ih =>
    rw [List.foldl_cons]
    cases e with
    | evaluated q signal v =>
      by_cases hq : q = p
      · subst hq
        rw [evaluations_self] at h ⊢
        obtain ⟨x, rfl⟩ := h _ (List.mem_cons_self ..)
        rw [ih fun a ha => h a (List.mem_cons_of_mem _ ha), note, Function.update_self]
        simp [stems, stem?]
      · rw [evaluations_of_ne hq] at h ⊢
        rw [ih h, note, Function.update_of_ne (Ne.symm hq)]
    | published | called | emitted => exact ih h

/-- The snapshot at hand is not newer than the current one, and older than those that are queued. -/
theorem Orderly.older_than_queued (hs : s.Orderly) {x : Snapshot S} {rest : List Observer}
    {ds : List (Delivery S V)} (hdel : s.deliveries = ⟨.store, some (.snapshot x, rest)⟩ :: ds) :
    x.version ≤ s.current.version ∧ ∀ signal ∈ s.queue .store, x.version < signal.version := by
  have hhand : Signal.snapshot x ∈ s.hand .store := by
    rw [hand_cons hdel]
    exact List.mem_append_left _ (List.mem_singleton.mpr rfl)
  exact ⟨hs.current (List.mem_append_left _ hhand), fun signal hsignal =>
    (List.pairwise_append.mp hs.numbered).2.2 _ hhand signal hsignal⟩

/-- What a projection that delivers a value derived last is not its first value. -/
theorem Ascending.mem_tail (h : s.Ascending past) {r : ProjectionId} (hr : .view r ∈ s.sources)
    {a : Derived S V} (hlast : (past r).getLast? = some a) : a ∈ (past r).tail := by
  have hlast' := List.getLast?_tail (l := past r)
  rw [if_neg, hlast] at hlast'
  · exact List.mem_of_getLast? hlast'
  · intro hone
    exact h.emptied hr (List.eq_nil_of_length_eq_zero (by rw [List.length_tail, hone]))

/-- What is derived after the first values when one more value is. -/
theorem Recorded.tail_update (h : s.Recorded past) {p : ProjectionId} {w : V}
    (hvalue : s.value? p = some w) (a : Derived S V) (q : ProjectionId) :
    (Function.update past p (past p ++ [a]) q).tail
      = (past q).tail ++ if q = p then [a] else [] := by
  by_cases hq : q = p
  · subst hq
    obtain ⟨x, hlast⟩ := h.last hvalue
    rw [Function.update_self, if_pos rfl, List.tail_append_of_ne_nil]
    rintro hnil
    rw [hnil] at hlast
    cases hlast
  · rw [Function.update_of_ne hq, if_neg hq, List.append_nil]

/-- What is derived after a first value then was derived before, or is the new value. -/
theorem Recorded.mem_tail_update (h : s.Recorded past) {p : ProjectionId} {w : V}
    (hvalue : s.value? p = some w) {a b : Derived S V} {q : ProjectionId} :
    b ∈ (Function.update past p (past p ++ [a]) q).tail ↔ b ∈ (past q).tail ∨ q = p ∧ b = a := by
  rw [h.tail_update hvalue, List.mem_append]
  by_cases hq : q = p <;> simp [hq]

variable [DecidableEq V]

/-- A projection over the store has derived nothing from what is due to it after a move. -/
theorem Ascending.ofStore_step (h : s.Ascending past) (hs : s.Orderly) (ht : t.Sound)
    (ho : Outcome s m t es) {p : ProjectionId} {select : S → V} {o : ObserverId}
    (hlink : s.link? p = some (.store select, o)) {a : Derived S V} (ha : a ∈ (past p).tail) :
    a.stem.version ≤ t.current.version ∧
      ∀ signal ∈ t.owed .store o ++ t.queue .store, a.stem.version < signal.version := by
  obtain ⟨hcurrent, hdue⟩ := h.ofStore hlink a ha
  refine ⟨hcurrent.trans ho.current_le, fun signal hsignal => ?_⟩
  rcases List.mem_append.mp ((hs.due_step ht ho .store o).subset hsignal) with hold | htaken
  · exact hdue signal hold
  · rcases ho.current with ⟨hnil, -⟩ | ⟨hone, hc⟩
    · rw [hnil] at htaken
      cases htaken
    · rw [hone, List.mem_singleton] at htaken
      rw [htaken]
      show a.stem.version < t.current.version
      rw [hc]
      exact Nat.lt_succ_of_le hcurrent

/-- Nothing new is due from a projection that takes nothing. -/
theorem Orderly.due_of_taken_nil (hs : s.Orderly) (ht : t.Sound) (ho : Outcome s m t es)
    {src : Source} (hnil : taken src es = []) {o : ObserverId}
    (hdue : t.owed src o ++ t.queue src ≠ []) : s.owed src o ++ s.queue src ≠ [] := by
  intro hold
  have hsub := hs.due_step ht ho src o
  rw [hold, hnil, List.append_nil] at hsub
  exact hdue (List.sublist_nil.mp hsub)

/-- A move in which nothing is derived. -/
theorem Ascending.nothing (h : s.Ascending past) (hs : s.Orderly) (ht : t.Sound)
    (ho : Outcome s m t es) (htaken : ∀ p, taken (.view p) es = [])
    (hlink : ∀ {p l}, t.link? p = some l → s.link? p = some l)
    (hsources : ∀ {p}, .view p ∈ t.sources → .view p ∈ s.sources) : t.Ascending past where
  sorted := h.sorted
  ofStore hl _ ha := h.ofStore_step hs ht ho (hlink hl) ha
  ofView hl a ha := by
    obtain ⟨hchain, hdue⟩ := h.ofView (hlink hl) a ha
    exact ⟨hchain, fun hne => hdue (hs.due_of_taken_nil ht ho (htaken _) hne)⟩
  emptied hp := h.emptied (hsources hp)

/-- A projection is created, and derives its first value. -/
theorem Ascending.first (h : s.Ascending past) (hs : s.Orderly) (ht : t.Sound)
    (ho : Outcome s m t es) (htaken : ∀ p, taken (.view p) es = []) {origin : Origin S V} {v : V}
    (heq : t = s.addProjection origin v) (x : Snapshot S) :
    t.Ascending (Function.update past s.nextProjection [⟨x, v⟩]) := by
  -- a first value is no value after the first, so only what was derived before counts
  have hother : ∀ {q}, q ≠ s.nextProjection →
      Function.update past s.nextProjection [⟨x, v⟩] q = past q :=
    fun hq => Function.update_of_ne hq _ _
  have htail : ∀ {q a}, a ∈ (Function.update past s.nextProjection [⟨x, v⟩] q).tail →
      q ≠ s.nextProjection ∧ a ∈ (past q).tail := by
    intro q a ha
    by_cases hq : q = s.nextProjection
    · rw [hq, Function.update_self] at ha
      cases ha
    · exact ⟨hq, hother hq ▸ ha⟩
  have hlink : ∀ {q l}, t.link? q = some l → q ≠ s.nextProjection → s.link? q = some l := by
    intro q l hl hq
    rwa [heq, link?_addProjection, if_neg hq] at hl
  refine ⟨fun q => ?_, fun hl a ha => ?_, fun {q r _ _} hl a ha => ?_, fun {q} hq => ?_⟩
  · by_cases hq : q = s.nextProjection
    · rw [hq, Function.update_self]
      exact .nil
    · rw [hother hq]
      exact h.sorted q
  · obtain ⟨hq, ha⟩ := htail ha
    exact h.ofStore_step hs ht ho (hlink hl hq) ha
  · obtain ⟨hq, ha⟩ := htail ha
    have hold := hlink hl hq
    obtain ⟨hchain, hdue⟩ := h.ofView hold a ha
    have hr : r ≠ s.nextProjection := ((hs.wired.older hold rfl).trans (hs.wired.named hold)).ne
    rw [hother hr]
    exact ⟨hchain, fun hne => hdue (hs.due_of_taken_nil ht ho (htaken r) hne)⟩
  · rw [heq, sources, deliveries_addProjection] at hq
    obtain ⟨l, hl⟩ := Option.isSome_iff_exists.mp (hs.living hq)
    rw [hother (hs.wired.named hl).ne]
    exact h.emptied hq

/-- Nothing is due from a projection that takes nothing to an observer that has been told. -/
theorem Orderly.due_eq_nil (hs : s.Orderly) (ht : t.Sound) (ho : Outcome s m t es)
    {r : ProjectionId} {signal : Signal S V} {rest : List Observer} {ds : List (Delivery S V)}
    {o : ObserverId} (hdel : s.deliveries = ⟨.view r, some (signal, rest)⟩ :: ds)
    (htaken : taken (.view r) es = []) (howed : t.owed (.view r) o = []) :
    t.owed (.view r) o ++ t.queue (.view r) = [] := by
  have hflow := hs.flow_step ht ho (.view r)
  rw [hs.queue_view_of_ne hdel (by simp), htaken] at hflow
  rw [howed]
  exact (List.append_eq_nil_iff.mp hflow.symm).2

/-- A projection derives a value from the signal at hand. -/
theorem Ascending.next (h : s.Ascending past) (hrec : s.Recorded past) (hs : s.Orderly)
    (ht : t.Sound) (ho : Outcome s m t es) {p : ProjectionId} {origin : Origin S V}
    {o : Observer} {signal : Signal S V} {v w : V} {rest : List Observer}
    {ds : List (Delivery S V)} {x : Snapshot S}
    (hdel : s.deliveries = ⟨origin.source, some (signal, o :: rest)⟩ :: ds)
    (hlink : s.link? p = some (origin, o.id)) (hvalue : s.value? p = some w)
    (hlinks : t.link? = s.link?) (hcurrent : t.current = s.current)
    (hsources : ∀ {r}, .view r ∈ t.sources → r = p ∨ .view r ∈ s.sources)
    (howed : t.owed origin.source o.id = []) (hqueue : t.queue .store = s.queue .store)
    (htaken : ∀ r, r ≠ p → taken (.view r) es = []) (hstems : Stems past x origin v)
    (hsignal : origin.source = .store → signal = .snapshot x) :
    t.Ascending (Function.update past p (past p ++ [⟨x, v⟩])) := by
  -- what stems from the signal at hand is newer than all that was derived before
  have hnewer := h.newer hlink (hs.owed_told hdel).1 hstems hsignal
  have htail := hrec.tail_update hvalue ⟨x, v⟩
  refine ⟨fun q => ?_, fun {q select o'} hl a ha => ?_,
    fun {q r select o'} hl a ha => ⟨?_, fun hdue b hb => ?_⟩, fun {q} hq => ?_⟩
  · rw [htail]
    split
    · next hq =>
      subst hq
      refine List.pairwise_append.mpr ⟨h.sorted q, List.pairwise_singleton _ _, ?_⟩
      intro a ha b hb
      rw [List.mem_singleton.mp hb]
      exact hnewer a ha
    · rw [List.append_nil]
      exact h.sorted q
  · rw [hlinks] at hl
    rcases (hrec.mem_tail_update hvalue).mp ha with ha | ⟨rfl, rfl⟩
    · exact h.ofStore_step hs ht ho hl ha
    · rw [hlink] at hl
      cases hl
      obtain rfl := hsignal rfl
      have holder := hs.older_than_queued hdel
      have howed : t.owed .store o.id = [] := howed
      rw [hcurrent, howed, hqueue]
      exact holder
  · rw [hlinks] at hl
    rcases (hrec.mem_tail_update hvalue).mp ha with ha | ⟨rfl, rfl⟩
    · obtain ⟨⟨b, hb, hle⟩, -⟩ := h.ofView hl a ha
      exact ⟨b, (hrec.mem_tail_update hvalue).mpr (Or.inl hb), hle⟩
    · rw [hlink] at hl
      cases hl
      cases hstems with
      | view hlast =>
        have hold := h.mem_tail (mem_sources hdel) hlast
        exact ⟨_, (hrec.mem_tail_update hvalue).mpr (Or.inl hold), Nat.le_refl _⟩
  · rw [hlinks] at hl
    by_cases hr : r = p
    · -- the source of the projection went on
      subst hr
      rw [Function.update_self, List.getLast?_concat] at hb
      cases hb
      have hq : q ≠ r := (hs.wired.older hl rfl).ne'
      have hold := ((hrec.mem_tail_update hvalue).mp ha).resolve_right fun hnew => hq hnew.1
      obtain ⟨⟨c, hc, hle⟩, -⟩ := h.ofView hl a hold
      exact lt_of_le_of_lt hle (hnewer c hc)
    · rw [Function.update_of_ne hr] at hb
      rcases (hrec.mem_tail_update hvalue).mp ha with ha | ⟨rfl, rfl⟩
      · exact (h.ofView hl a ha).2 (hs.due_of_taken_nil ht ho (htaken r hr) hdue) b hb
      · rw [hlink] at hl
        cases hl
        exact absurd (hs.due_eq_nil ht ho hdel (htaken r hr) howed) hdue
  · by_cases hqp : q = p
    · rw [htail, if_pos hqp]
      simp
    · rw [htail, if_neg hqp, List.append_nil]
      exact h.emptied ((hsources hq).resolve_left hqp)

/-- **Every possible move keeps the order.** -/
theorem Ascending.step (h : s.Ascending past) (hrec : s.Recorded past) (hs : s.Orderly)
    (ht : t.Sound) (ho : Outcome s m t es) : t.Ascending (es.foldl t.note past) := by
  have hd := ho.derives hs
  cases hd with
  | nothing hnote htaken hlink _ _ hsources =>
    rw [hnote]
    exact h.nothing hs ht ho htaken hlink hsources
  | @first origin signal v heq hnewest himage =>
    obtain ⟨x, hnote, -, -⟩ := hrec.note_first heq hnewest himage
    rw [hnote]
    exact h.first hs ht ho (fun _ => rfl) heq x
  | @next p origin o signal v w _ _ hdel hlink himage hvalue hlinks _ _ hcurrent hsources howed
      hqueue =>
    obtain ⟨x, hnote, hstems, hsignal⟩ := hrec.note_next hs hdel (hlinks ▸ hlink) himage w
    rw [hnote]
    refine h.next hrec hs ht ho hdel hlink hvalue hlinks hcurrent hsources howed hqueue
      (fun r hr => ?_) hstems hsignal
    by_cases hwv : w = v <;> simp [hwv, hr, taken, List.filterMap_cons, Event.taken?]

/-- **What a projection over the store derives, and what is still owed to it, was owed before, or
its delivery begins.** -/
theorem Orderly.stems_step (hs : s.Orderly) (ho : Outcome s m t es) {p : ProjectionId}
    {select : S → V} {o : ObserverId} (hlink : s.link? p = some (.store select, o)) :
    stems (es.foldl t.note past p) ++ t.owed .store o
      = stems (past p) ++ (s.owed .store o ++ s.begins .store m) := by
  cases ho.applies hs.toSound hlink with
  | idle hnone _ _ howed =>
    have howed : t.owed .store o = s.owed .store o ++ s.begins .store m := howed
    rw [stems_foldl_note t (by simp [hnone]), hnone, howed, List.map_nil, List.append_nil]
  | @applied signal v _ hone himage _ _ _ _ hold hnew hbegins =>
    have hold : s.owed .store o = [signal] := hold
    have hnew : t.owed .store o = [] := hnew
    have hbegins : s.begins .store m = [] := hbegins
    -- a selector over the store is applied to snapshots
    have hsnapshot : ∃ x, signal = .snapshot x := by
      cases signal with
      | snapshot x => exact ⟨x, rfl⟩
      | view u => cases himage
    rw [stems_foldl_note t (by simpa [hone] using hsnapshot), hone, hnew, hold, hbegins,
      List.append_nil, List.append_nil]
    rfl

end Moves

/-! ## Runs -/

section Runs

variable {s : Store S V H} {past : History S V}

/-- The queue of the store ends with the current snapshot, and the others are older. -/
theorem Orderly.queue_store (hs : s.Orderly) : s.queue .store = [] ∨
    ∃ older, s.queue .store = older ++ [.snapshot s.current] ∧
      ∀ a ∈ older, a.version < s.current.version := by
  rcases List.eq_nil_or_concat (s.queue .store) with hnil | ⟨older, last, hqueue⟩
  · exact Or.inl hnil
  refine Or.inr ⟨older, ?_⟩
  have hlast : (s.outstanding .store).getLast? = some last := by
    rw [outstanding, hqueue, List.concat_eq_append, ← List.append_assoc, List.getLast?_concat]
  have hcurrent := hs.latest hlast
  cases hcurrent
  rw [List.concat_eq_append] at hqueue
  refine ⟨hqueue, fun a ha => ?_⟩
  have hnumbered := (List.pairwise_append.mp hs.numbered).2.1
  rw [hqueue] at hnumbered
  exact (List.pairwise_append.mp hnumbered).2.2 a ha _ (List.mem_singleton.mpr rfl)

/-- A snapshot that is queued is the current one or an older one. -/
theorem Orderly.current_or_older (hs : s.Orderly) {x : Snapshot S}
    (hx : .snapshot x ∈ s.queue .store) : x = s.current ∨ x.version < s.current.version := by
  rcases hs.queue_store with hnil | ⟨older, hqueue, holder⟩
  · rw [hnil] at hx
    cases hx
  · rw [hqueue] at hx
    rcases List.mem_append.mp hx with hx | hx
    · exact Or.inr (holder _ hx)
    · exact Or.inl (by simpa using hx)

/-- A snapshot that is queued alone is the current one. -/
theorem Orderly.eq_current (hs : s.Orderly) {x : Snapshot S} (hx : .snapshot x ∈ s.queue .store)
    (halone : s.channel.pending.length ≤ 1) : x = s.current := by
  have hcount : (s.queue .store).length ≤ 1 := by
    rw [queue, List.length_map]
    exact halone
  rcases hs.queue_store with hnil | ⟨older, hqueue, -⟩
  · rw [hnil] at hx
    cases hx
  · have hnone : older = [] := by
      rw [hqueue, List.length_append] at hcount
      exact List.eq_nil_of_length_eq_zero (by simpa using hcount)
    rw [hqueue, hnone, List.nil_append, List.mem_singleton] at hx
    simpa using hx

variable [DecidableEq V]

theorem Ascending.after (h : s.Ascending past) (hrec : s.Recorded past) (hs : s.Orderly)
    {ms : List (Move S V H)} (hcalm : s.Calm ms) :
    (s.after ms).Ascending (s.history past ms) := by
  induction ms generalizing s past with
  | nil => exact h
  | cons m ms ih =>
    obtain ⟨hm, hcalm⟩ := hcalm
    have ht := hs.toSound.step m
    have ho := hs.toSound.outcome hm
    exact ih (h.step hrec hs ht ho) (hrec.step hs ht (ho.derives hs)) (hs.step hm) hcalm

/-- A projection over the store derives its values from what is owed to it and what begins, in
order, for as long as it is there. -/
theorem Recorded.stems_history (h : s.Recorded past) (hs : s.Orderly) {p : ProjectionId}
    {select : S → V} {o : ObserverId} (hlink : s.link? p = some (.store select, o))
    {ms : List (Move S V H)} (hcalm : s.Calm ms) :
    ∃ rest, stems (s.history past ms p) ++ rest
        = stems (past p) ++ (s.owed .store o ++ s.begun .store ms) ∧
      ((s.after ms).Living (.view p) → rest = (s.after ms).owed .store o) := by
  induction ms generalizing s past with
  | nil => exact ⟨s.owed .store o, by rw [begun, List.append_nil]; rfl, fun _ => rfl⟩
  | cons m ms ih =>
    obtain ⟨hm, hcalm⟩ := hcalm
    have ht := hs.toSound.step m
    have ho := hs.toSound.outcome hm
    have hd := ho.derives hs
    have hrec := h.step hs ht hd
    have hp := hs.wired.named hlink
    by_cases hliving : (s.step m).1.Living (.view p)
    · obtain ⟨l, hl⟩ := Option.isSome_iff_exists.mp hliving
      have hsame := hd.link? hl hp
      rw [hlink] at hsame
      cases hsame
      obtain ⟨rest, hrest, hend⟩ := ih hrec (hs.step hm) hl hcalm
      refine ⟨rest, ?_, hend⟩
      rw [history, hrest, ← List.append_assoc, hs.stems_step ho hlink, begun, List.append_assoc,
        List.append_assoc]
    · -- nothing is derived any more
      have hp' := lt_of_lt_of_le hp hd.nextProjection_le
      refine ⟨s.owed .store o ++ s.begun .store (m :: ms), ?_, fun hend => ?_⟩
      · rw [history, hrec.history_gone (hs.step hm) hcalm hp' hliving, h.note_gone hs hd hliving]
      · exact absurd hend (ht.taken_gone hcalm hp' hliving).2

/-- What is published in a run is newer than the snapshot before it. -/
theorem Sound.taken_newer (hs : s.Sound) {ms : List (Move S V H)} (hcalm : s.Calm ms) :
    ∀ a ∈ taken .store (s.events ms), s.current.version < a.version := by
  intro a ha
  have hmem := List.mem_map_of_mem (f := Signal.version) ha
  rw [hs.versions hcalm] at hmem
  exact (List.mem_range'_1.mp hmem).1

/-- **What a projection over the store derives**: first from the current snapshot, and then from
those that are queued when it is created and those published later, in order. -/
theorem Recorded.history_project (h : s.Recorded past) (hs : s.Orderly) {select : S → V}
    {ms : List (Move S V H)} (hcalm : s.Calm (.observe (.project select) :: ms)) :
    let made := s.after [.observe (.project select)]
    let p := s.nextProjection
    ∃ l rest, s.history past (.observe (.project select) :: ms) p
        = ⟨s.current, select s.current.state⟩ :: l ∧
      (∀ a ∈ l, a.value = select a.stem.state) ∧
      stems l ++ rest = s.queue .store ++ taken .store (made.events ms) ∧
      ((made.after ms).Living (.view p) → (made.after ms).deliveries = [] → rest = []) := by
  obtain ⟨hm, hcalm⟩ := hcalm
  intro made p
  have hmade : made = s.addProjection (.store select) (select s.current.state) := by
    show (s.step (.observe (.project select))).1 = _
    rw [show s.step (.observe (.project select)) = s.project select from if_pos hm]
    rfl
  have hms : made.Orderly := hs.step hm
  have hrec : made.Recorded ((s.step (.observe (.project select))).2.foldl made.note past) :=
    h.step hs hms.toSound ((hs.toSound.outcome hm).derives hs)
  have hnote : (s.step (.observe (.project select))).2.foldl made.note past p
      = [⟨s.current, select s.current.state⟩] := by
    rw [show s.step (.observe (.project select)) = s.project select from if_pos hm]
    show made.note past (.evaluated p (.snapshot s.current) (select s.current.state)) p = _
    rw [note, Function.update_self, h.unborn (Nat.le_refl _)]
    rfl
  have hlink : made.link? p = some (.store select, s.nextObserver) := by
    rw [hmade, link?_addProjection, if_pos rfl]
  -- the new entry is not among those that are still to be told of the snapshot at hand
  have howed : made.owed .store s.nextObserver = [] := by
    rw [hmade, owed_eq (deliveries_addProjection ..)]
    exact owed_eq_nil (hs.stacked.stranger_of_le (Nat.le_refl _)).2
  have hqueue : made.queue .store = s.queue .store := by
    rw [hmade, queue_addProjection, if_neg (by simp)]
  obtain ⟨rest, hrest, hend⟩ := hrec.stems_history hms hlink hcalm
  have hprefix := prefix_history made p ms
    ((s.step (.observe (.project select))).2.foldl made.note past)
  rw [hnote] at hprefix
  obtain ⟨l, hl⟩ := hprefix
  have hflow := hms.flow hcalm .store
  refine ⟨l, rest ++ (made.after ms).queue .store, hl.symm, fun a ha => ?_, ?_, ?_⟩
  · refine hrec.images hms (.store hlink) hcalm a ?_
    rw [← hl]
    exact List.mem_append_right _ ha
  · rw [howed, List.nil_append, hnote, ← hl] at hrest
    have hbegun : stems l ++ rest = made.begun .store ms := (List.cons.inj hrest).2
    rw [← hqueue, hflow, ← hbegun, List.append_assoc]
  · intro hliving hidle
    rw [hend hliving, owed_of_deliveries_nil hidle,
      (hms.after hcalm).queue_of_deliveries_nil hidle, List.append_nil]

/-- A snapshot older than the current one that is delivered after a projection is created was queued
by then. -/
theorem Orderly.queued_of_older (hs : s.Orderly) {select : S → V} {ms : List (Move S V H)}
    (hcalm : s.Calm (.observe (.project select) :: ms)) {x : Snapshot S}
    (hx : .snapshot x
      ∈ s.queue .store ++ taken .store ((s.after [.observe (.project select)]).events ms))
    (hlt : x.version < s.current.version) : .snapshot x ∈ s.queue .store := by
  refine (List.mem_append.mp hx).resolve_right fun htaken => ?_
  have hnewer := (hs.step hcalm.1).toSound.taken_newer hcalm.2 _ htaken
  rw [show s.step (.observe (.project select)) = s.project select from if_pos hcalm.1] at hnewer
  exact absurd hnewer (Nat.not_lt.mpr hlt.le)

/-- **When a projection over the store goes back**: it does so if and only if, when it is created, a
snapshot is queued from which it derives another value than from the current one. -/
theorem Recorded.ascends_project (h : s.Recorded past) (hasc : s.Ascending past) (hs : s.Orderly)
    {select : S → V} {ms : List (Move S V H)}
    (hcalm : s.Calm (.observe (.project select) :: ms)) :
    let derived := s.history past (.observe (.project select) :: ms) s.nextProjection
    let t := s.after (.observe (.project select) :: ms)
    (s.channel.pending.length ≤ 1 → Ascends derived) ∧
      (t.Living (.view s.nextProjection) → t.deliveries = [] →
        (Ascends derived ↔ ∀ x ∈ s.channel.pending, select x.state = select s.current.state)) := by
  intro derived t
  obtain ⟨l, rest, hl, hvalues, hstems, hidle⟩ := h.history_project hs hcalm
  have hsorted : l.Pairwise fun b c => b.stem.version < c.stem.version := by
    have := (hasc.after h hs hcalm).sorted s.nextProjection
    rwa [hl] at this
  have hascends : Ascends derived ↔
      ∀ b ∈ l, b.stem.version < s.current.version → b.value = select s.current.state := by
    show Ascends (s.history past _ s.nextProjection) ↔ _
    rw [hl]
    exact ascends_cons _ hsorted
  -- what stems from an older snapshot than the first value was queued
  have hqueued : ∀ b ∈ l, b.stem.version < s.current.version →
      Signal.snapshot b.stem ∈ s.queue .store := by
    intro b hb hlt
    have hmem : Signal.snapshot b.stem ∈ stems l ++ rest :=
      List.mem_append_left _ (List.mem_map.mpr ⟨b, hb, rfl⟩)
    rw [hstems] at hmem
    exact hs.queued_of_older hcalm hmem hlt
  refine ⟨fun hlength => hascends.mpr fun b hb hlt => ?_, fun hliving hnone => ?_⟩
  · rw [hs.eq_current (hqueued b hb hlt) hlength] at hlt
    exact absurd hlt (lt_irrefl _)
  · rw [hascends]
    have hrest : rest = [] := hidle hliving hnone
    rw [hrest, List.append_nil] at hstems
    constructor
    · -- everything that was queued has been derived from
      intro hall x hx
      have hmem : Signal.snapshot x ∈ s.queue .store := List.mem_map.mpr ⟨x, hx, rfl⟩
      have hstem : Signal.snapshot x ∈ stems l := by
        rw [hstems]
        exact List.mem_append_left _ hmem
      obtain ⟨b, hb, heq⟩ := List.mem_map.mp hstem
      cases heq
      rcases hs.current_or_older hmem with hsame | holder
      · rw [hsame]
      · rw [← hvalues b hb]
        exact hall b hb holder
    · intro hall b hb hlt
      obtain ⟨x, hx, heq⟩ := List.mem_map.mp (hqueued b hb hlt)
      cases heq
      rw [hvalues b hb]
      exact hall _ hx

/-- A subscriber of a projection is told values that the projection holds, in their order. -/
theorem Recorded.heard_held (h : s.Recorded past) (hs : s.Orderly) {p : ProjectionId}
    {q : Projection S V} (hq : s.handled? p = some q) {ms : List (Move S V H)}
    (hcalm : s.Calm (.observe (.watch p) :: ms)) :
    ∃ l : List (Derived S V), l.Sublist (held (s.history past (.observe (.watch p) :: ms) p)) ∧
      heard s.nextObserver (s.events (.observe (.watch p) :: ms)) = views l := by
  obtain ⟨hm, hcalm⟩ := hcalm
  have hu := hs.step hm
  have hstep : s.step (.observe (.watch p)) = s.watch p := if_pos hm
  obtain ⟨hreplaying, hevents, hstack⟩ := hs.toSound.replaying_watch hq
  have hrec := h.step hs hu.toSound ((hs.toSound.outcome hm).derives hs)
  rw [hstep] at hu hcalm hrec
  rw [hevents] at hrec
  have hrest := hreplaying.toBelongs.heard_after hu.toSound hcalm
  have howed : (s.watch p).1.owed (.view p) s.nextObserver = [] := by
    refine owed_eq_nil fun d hd => (hs.stacked.stranger_of_le (Nat.le_refl _)).2 d ?_
    rw [deliveries, hstack] at hd
    exact hd
  have hqueue : (s.watch p).1.queue (.view p) = [] := by
    refine hu.queue_view ?_ p
    rw [isWaiting, hstack]
  have hflow := hu.flow hcalm (.view p)
  rw [hqueue, List.nil_append] at hflow
  rw [howed, List.nil_append] at hrest
  -- the first value is the last one that the projection derived
  obtain ⟨x, hlast⟩ := h.last (p := p) (v := q.value) (by
    rw [value?, Sound.handled?_eq_some hq]
    rfl)
  have hmem := List.mem_of_getLast? hlast
  obtain ⟨b, hb, hvalue⟩ := exists_mem_held hmem
  have hheld := hrec.held_history hu (List.ne_nil_of_mem hmem) hcalm
  have hsub : (heard s.nextObserver (s.events (.observe (.watch p) :: ms))).Sublist
      (views (held (s.history past (.observe (.watch p) :: ms) p))) := by
    rw [history, hstep, hevents, hheld, events_cons, heard_append, hstep, hevents, heard_called,
      if_pos rfl, hflow]
    refine List.Sublist.append ?_ (hrest.trans (List.sublist_append_left ..))
    refine List.singleton_sublist.mpr (List.mem_map.mpr ⟨b, hb, ?_⟩)
    rw [hvalue]
  obtain ⟨l, hl, heq⟩ := List.sublist_map_iff.mp hsub
  exact ⟨l, hl, heq⟩

end Runs

/-! ## Succession -/

section Succession

variable [DecidableEq V]

/-- **Succession.** In every run without failures, from a new store on, for every projection and
what it derived:

- every value stems from the first snapshot or a published one, and is its image under the selectors
  of the projection;
- the projection holds its first value, and then what it takes; what it has is what it derived last;
- after the first value, the values stem from newer and newer snapshots;
- so the values that it holds go back to an older snapshot if and only if one is derived from an
  older snapshot than the first one and differs from it;
- a projection taken from the store derives its values from the snapshot that is current then, from
  those that are queued then, and from those published later, in order. It never goes back if at
  most one is queued, and if it lives until nothing is being delivered, it goes back if and only if
  one of the queued snapshots has another image than the current one;
- a subscriber is told values that the projection holds, in their order. -/
theorem succession (initial : S) (ms : List (Move S V H))
    (hcalm : (opening initial : Store S V H).Calm ms) (p : ProjectionId) :
    let start : Store S V H := opening initial
    let derived := start.history (fun _ => []) ms p
    ((∀ signal ∈ stems derived,
        signal ∈ .snapshot ⟨0, initial⟩ :: taken .store (start.events ms)) ∧
      ∀ a b f, ms = a ++ b → (start.after a).Composes p f →
        ∀ d ∈ derived, d.value = f d.stem.state) ∧
    (views (held derived) = views (derived.take 1) ++ taken (.view p) (start.events ms) ∧
      ∀ q, (start.after ms).get? p = some q → ∃ x, derived.getLast? = some ⟨x, q.value⟩) ∧
    derived.tail.Pairwise (fun a b => a.stem.version < b.stem.version) ∧
    (Ascends derived ↔ ∀ a ∈ derived.head?, ∀ b ∈ derived.tail,
      b.stem.version < a.stem.version → b.value = a.value) ∧
    (∀ a b select, ms = a ++ .observe (.project select) :: b →
      (start.after a).nextProjection = p →
      let s := start.after a
      let made := start.after (a ++ [.observe (.project select)])
      (∃ l rest, derived = ⟨s.current, select s.current.state⟩ :: l ∧
        stems l ++ rest = s.queue .store ++ taken .store (made.events b)) ∧
      (s.channel.pending.length ≤ 1 → Ascends derived) ∧
      (((start.after ms).get? p).isSome = true →
        (∀ now, .publishing now ∉ (start.after ms).stack) →
        (Ascends derived ↔
          ∀ x ∈ s.channel.pending, select x.state = select s.current.state))) ∧
    ∀ a b q, ms = a ++ .observe (.watch p) :: b → (start.after a).handled? p = some q →
      ∃ l : List (Derived S V), l.Sublist (held derived) ∧
        heard (start.after a).nextObserver (start.events ms) = views l := by
  intro start derived
  have hstart : start.Orderly := .opening initial
  have hrec : start.Recorded fun _ => [] := .opening initial
  have hasc : start.Ascending fun _ => [] := .opening initial
  have hknown : start.Known (fun _ => []) [.snapshot ⟨0, initial⟩] := by
    refine ⟨List.mem_singleton.mpr rfl, fun hmem => ?_, fun ha => ?_⟩
    · cases hmem
    · cases ha
  have hsorted := (hasc.after hrec hstart hcalm).sorted p
  refine ⟨⟨fun signal hsignal => ?_, fun a b f hms hf => ?_⟩, ⟨?_, fun q hq => ?_⟩, hsorted, ?_,
    fun a b select hms hp => ?_, fun a b q hms hq => ?_⟩
  · obtain ⟨a, ha, rfl⟩ := List.mem_map.mp hsignal
    exact (hknown.after hrec hstart hcalm).stems ha
  · subst hms
    obtain ⟨ha, hb⟩ := calm_append.mp hcalm
    have hd := (hrec.after hstart ha).images (hstart.after ha) hf hb
    rwa [← history_append] at hd
  · exact hrec.held_born hstart rfl hcalm
  · refine (hrec.after hstart hcalm).last ?_
    rw [value?, hq]
    rfl
  · show Ascends (start.history (fun _ => []) ms p) ↔ _
    cases hderived : start.history (fun _ => []) ms p with
    | nil =>
      refine ⟨fun _ a ha => ?_, fun _ => .nil⟩
      rw [show derived = [] from hderived] at ha
      cases ha
    | cons a l =>
      rw [hderived] at hsorted
      rw [show derived = a :: l from hderived]
      exact (ascends_cons a hsorted).trans ⟨fun h _ ha => by cases ha; exact h, fun h => h a rfl⟩
  · subst hms hp
    obtain ⟨ha, hb⟩ := calm_append.mp hcalm
    have hs := hstart.after ha
    have hderived : derived = (start.after a).history (start.history (fun _ => []) a)
        (.observe (.project select) :: b) (start.after a).nextProjection :=
      congrFun (history_append ..) _
    obtain ⟨l, rest, hl, -, hstems, -⟩ := (hrec.after hstart ha).history_project hs hb
    obtain ⟨hfew, hexact⟩ :=
      (hrec.after hstart ha).ascends_project (hasc.after hrec hstart ha) hs hb
    rw [← hderived] at hl hfew hexact
    refine ⟨⟨l, rest, hl, ?_⟩, hfew, fun hget hnone => ?_⟩
    · rw [after_append]
      exact hstems
    · rw [after_append] at hget hnone
      refine hexact ?_ ((hs.after hb).deliveries_eq_nil hnone)
      rwa [Living, link?, Option.isSome_map]
  · subst hms
    obtain ⟨ha, hb⟩ := calm_append.mp hcalm
    obtain ⟨l, hl, hheard⟩ := (hrec.after hstart ha).heard_held (hstart.after ha) hq hb
    refine ⟨l, ?_, ?_⟩
    · show l.Sublist (held (start.history (fun _ => []) (a ++ .observe (.watch p) :: b) p))
      rw [history_append]
      exact hl
    · rw [events_append, heard_append, hstart.toSound.unheard ha (Nat.le_refl _)]
      exact hheard

/-- While a subscriber is called with the first of three snapshots, a projection is created, ahead
of what is queued, and is watched. -/
def aheadRun : List (Move Nat Nat Unit) :=
  [.observe .subscribe, .change (.update (· + 1)), .tick, .tick, .change (.update (· + 1)),
    .change (.update (· + 1)), .observe (.project id), .observe (.watch 0), .ret, .ret, .tick,
    .tick, .tick, .ret, .tick, .tick, .tick, .ret, .tick, .tick, .tick, .tick, .tick, .ret, .tick,
    .tick, .tick, .ret, .tick, .tick, .tick, .tick]

/-- The values of the projection go back. -/
theorem succession_ahead :
    (opening 0 : Store Nat Nat Unit).Calm aheadRun ∧
      ¬ Ascends ((opening 0 : Store Nat Nat Unit).history (fun _ => []) aheadRun 0) := by
  have hcalm : (opening 0 : Store Nat Nat Unit).Calm aheadRun := by decide +kernel
  have hproject := (succession 0 aheadRun hcalm 0).2.2.2.2.1
  have hexact := (hproject (aheadRun.take 6) (aheadRun.drop 7) id rfl rfl).2.2 (by decide +kernel)
    fun now => List.not_mem_nil
  refine ⟨hcalm, fun hascends => ?_⟩
  -- the second of the queued snapshots is the current one, and the first is not
  have hsame := hexact.mp hascends ⟨2, 2⟩ (List.mem_cons_self ..)
  cases hsame

/-- The subscriber is told the value of the third snapshot, then that of the second one, and then
that of the third one again; no way to assign published snapshots to the values keeps the versions
from going down. -/
theorem succession_backwards :
    (opening 0 : Store Nat Nat Unit).Calm aheadRun ∧
      heard 2 ((opening 0 : Store Nat Nat Unit).events aheadRun)
        = [.view 3, .view 2, .view 3] ∧
      ¬ ∃ l : List (Snapshot Nat),
        (∀ x ∈ l, .snapshot x ∈ .snapshot ⟨0, 0⟩ ::
          taken .store ((opening 0 : Store Nat Nat Unit).events aheadRun)) ∧
        heard 2 ((opening 0 : Store Nat Nat Unit).events aheadRun)
          = l.map (fun x => .view x.state) ∧
        l.Pairwise fun x y => x.version ≤ y.version := by
  have hheard : heard 2 ((opening 0 : Store Nat Nat Unit).events aheadRun)
      = [.view 3, .view 2, .view 3] := by rfl
  have htaken : taken .store ((opening 0 : Store Nat Nat Unit).events aheadRun)
      = [.snapshot ⟨1, 1⟩, .snapshot ⟨2, 2⟩, .snapshot ⟨3, 3⟩] := by rfl
  refine ⟨by decide +kernel, hheard, ?_⟩
  rintro ⟨l, hknown, htold, hsorted⟩
  rw [htaken] at hknown
  rw [hheard] at htold
  -- every snapshot is numbered by its state
  have hnumber : ∀ x ∈ l, x.version = x.state := by
    intro x hx
    obtain ⟨n, k⟩ := x
    have := hknown _ hx
    simp only [List.mem_cons, Signal.snapshot.injEq, Snapshot.mk.injEq, List.not_mem_nil,
      or_false] at this
    show n = k
    omega
  have hstates : l.map (·.state) = [3, 2, 3] := by
    have := congrArg (List.filterMap fun a : Signal Nat Nat =>
      match a with
      | .view v => some v
      | .snapshot _ => none) htold
    simpa using this.symm
  have hversions : l.map (·.version) = [3, 2, 3] := by
    rw [← hstates]
    exact List.map_congr_left hnumber
  have hpairs := List.pairwise_map.mpr hsorted
  rw [hversions] at hpairs
  simp at hpairs

end Succession

end Store

end LiveDesk.Observable
