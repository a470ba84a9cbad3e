import LiveDesk.Proofs.Observable.Failures

/-!
# Deliveries come to an end

A delivery calls the caller's code, and how long that goes on is the caller's business. If the code
that is called just returns, the delivery ends: every signal reaches finitely many observers, and a
projection that takes a value delivers it to projections younger than itself.

- `Store.Settles`: steps of the deliveries, and code that just returns.
- `Store.Drained`: the deliveries above the given ones come to an end.
- `Source.rank`: a bound for how deep the deliveries of a source can lie in one another.
- **`Steady.drained`**: the innermost delivery comes to an end.
- **`Steady.settles`**: all of them do.
-/

namespace LiveDesk.Observable

variable {S V H : Type}

namespace Move

/-- A step of a delivery, or that the code that is called returns. -/
def isPlain : Move S V H → Bool
  | .tick | .ret => true
  | .change _ | .observe _ | .panic | .enter _ | .leave => false

end Move

namespace Source

/-- How many projections there can be over the source, and their projections, if there are `n`
names. -/
def rank (n : Nat) : Source → Nat
  | .store => n + 1
  | .view p => n - p

end Source

namespace Store

theorem Delivers.isWaiting {s : Store S V H} {d : Delivery S V} {below : List (Frame S V H)}
    (h : s.Delivers d below) : s.isWaiting = false := by
  obtain ⟨f, hf, hst⟩ := h
  rw [Store.isWaiting, hst]
  cases f with
  | publishing | emitting => rfl
  | callback | replay | code => cases hf

/-- What lies under a delivery goes on when that ends, if it is a delivery. -/
theorem isWaiting_of_driven {s : Store S V H} {f : Frame S V H} (h : Driven (f :: s.stack))
    (hne : s.deliveries ≠ []) : s.isWaiting = false := by
  cases h with
  | outer _ hown =>
    refine absurd (List.filterMap_eq_nil_iff.mpr fun g hg => ?_) hne
    exact Frame.delivery?_eq_none_of_isOwn (hown g hg)
  | inner _ hbelow =>
    cases hst : s.stack with
    | nil =>
      rw [deliveries, hst] at hne
      exact absurd rfl hne
    | cons g below =>
      rw [hst] at hbelow
      obtain ⟨d, hd⟩ := Option.isSome_iff_exists.mp hbelow.head
      exact Delivers.isWaiting ⟨g, hd, hst⟩

/-- The delivery that goes on next. -/
theorem delivers_of_deliveries {s : Store S V H} (hwait : s.isWaiting = false)
    {d : Delivery S V} {ds : List (Delivery S V)} (hdel : s.deliveries = d :: ds) :
    ∃ below, s.Delivers d below ∧ below.filterMap Frame.delivery? = ds := by
  obtain ⟨d', below, htop⟩ := delivers_of_not_isWaiting (by rw [hwait]; simp)
  have hdel' := Sound.deliveries_of_delivers htop
  rw [hdel] at hdel'
  cases hdel'
  exact ⟨below, htop, rfl⟩

/-- A projection that takes a value is of a lower rank than its source. -/
theorem Wired.rank_lt {s : Store S V H} (h : s.Wired) {p : ProjectionId}
    {l : Origin S V × ObserverId} (hlink : s.link? p = some l) :
    (Source.view p).rank s.nextProjection < l.1.source.rank s.nextProjection := by
  have hnamed := h.named hlink
  cases hsrc : l.1.source with
  | store => exact Nat.lt_succ_of_le (Nat.sub_le ..)
  | view r =>
    have holder := h.older hlink hsrc
    exact Nat.sub_lt_sub_left (holder.trans hnamed) holder

variable [DecidableEq V]

/-- The second store is what the first one comes to if the code that is called just returns. -/
def Settles (s t : Store S V H) : Prop :=
  ∃ ms : List (Move S V H), (∀ m ∈ ms, m.isPlain = true) ∧ s.Calm ms ∧ s.after ms = t

/-- The deliveries above the given ones come to an end, and these go on from where they are. -/
def Drained (s : Store S V H) (ds : List (Delivery S V)) : Prop :=
  ∃ t, s.Settles t ∧ t.deliveries = ds ∧
    (∀ src ∈ ds.map (·.source), t.queue src = s.queue src) ∧
    t.nextProjection = s.nextProjection ∧ (ds ≠ [] → t.isWaiting = false)

variable (S V H) in
/-- Whatever the projections over a source deliver comes to an end, while there are `n` names. -/
def DrainedAbove (n : Nat) (src : Source) : Prop :=
  ∀ {s : Store S V H} {p : ProjectionId} {ds : List (Delivery S V)}, s.Steady →
    s.nextProjection = n → s.isWaiting = false → s.deliveries = ⟨.view p, none⟩ :: ds →
    (Source.view p).rank n < src.rank n → s.Drained ds

namespace Settles

variable {s t u : Store S V H}

theorem refl (s : Store S V H) : s.Settles s :=
  ⟨[], fun _ hm => (by cases hm), trivial, rfl⟩

theorem trans (h : s.Settles t) (h' : t.Settles u) : s.Settles u := by
  obtain ⟨ms, hplain, hcalm, rfl⟩ := h
  obtain ⟨ms', hplain', hcalm', rfl⟩ := h'
  refine ⟨ms ++ ms', fun m hm => ?_, calm_append.mpr ⟨hcalm, hcalm'⟩, after_append ..⟩
  exact (List.mem_append.mp hm).elim (hplain m) (hplain' m)

theorem tick (hwait : s.isWaiting = false) : s.Settles s.tick.1 := by
  refine ⟨[.tick], fun m hm => ?_, ⟨?_, trivial⟩, ?_⟩
  · rw [List.mem_singleton.mp hm]
    rfl
  · rw [allows, hwait]
    rfl
  · rw [after_cons, step_tick (by simp [hwait]), after_nil]

theorem ret (hwait : s.isWaiting = true) : s.Settles s.ret := by
  refine ⟨[.ret], fun m hm => ?_, ⟨hwait, trivial⟩, ?_⟩
  · rw [List.mem_singleton.mp hm]
    rfl
  · exact congrArg Prod.fst (step_eq_perform (Or.inr hwait))

theorem steady (h : s.Settles t) (hs : s.Steady) : t.Steady := by
  obtain ⟨ms, -, hcalm, rfl⟩ := h
  exact hs.after hcalm.feasible

end Settles

section Steps

variable {s t : Store S V H} {src : Source} {signal : Signal S V} {ds : List (Delivery S V)}

/-- What comes to an end later does so. -/
theorem Drained.of_settles (h : t.Drained ds) (hst : s.Settles t)
    (hqueue : ∀ src ∈ ds.map (·.source), t.queue src = s.queue src)
    (hnext : t.nextProjection = s.nextProjection) : s.Drained ds := by
  obtain ⟨u, htu, hdel, hqueue', hnext', hwait⟩ := h
  exact ⟨u, hst.trans htu, hdel, fun src hsrc => (hqueue' src hsrc).trans (hqueue src hsrc),
    hnext'.trans hnext, hwait⟩

/-- **One observer is told**: it is passed or its code returns, or it is a projection that takes a
value and begins to deliver it. -/
theorem Sound.round (hs : s.Sound) (hwait : s.isWaiting = false) {o : Observer}
    {rest : List Observer} (hdel : s.deliveries = ⟨src, some (signal, o :: rest)⟩ :: ds) :
    ∃ t, s.Settles t ∧ t.isWaiting = false ∧ t.nextProjection = s.nextProjection ∧
      (t.deliveries = ⟨src, some (signal, rest)⟩ :: ds ∧ t.queue = s.queue ∨
        ∃ p origin, s.link? p = some (origin, o.id) ∧ origin.source = src ∧
          t.deliveries = ⟨.view p, none⟩ :: ⟨src, some (signal, rest)⟩ :: ds ∧
          ∀ src', src' ≠ .view p → t.queue src' = s.queue src') := by
  obtain ⟨below, htop, rfl⟩ := delivers_of_deliveries hwait hdel
  have hcases := tick_cases htop (hs.alive_of_delivers htop)
  have hticks := Settles.tick hwait
  generalize s.tick.1 = u, s.tick.2 = es at hcases hticks
  cases hcases with
  | passed _ hsame _ hqueue ht =>
    exact ⟨_, hticks, ht.isWaiting, hsame.nextProjection,
      Or.inl ⟨Sound.deliveries_of_delivers ht, hqueue⟩⟩
  | @told _ _ _ _ t hin hsame hb hqueue ht =>
    obtain ⟨-, -, -, -, htold⟩ := hs.told_cases htop hin hsame hb ht
    have hdt := Sound.deliveries_of_delivers ht
    generalize (t.tell o signal).1 = u, (t.tell o signal).2 = es at htold hticks
    cases htold with
    | called _ hsame' _ hqueue' hst =>
      -- the code that is called returns at once
      have hret : u.ret = { u with stack := t.stack } := by rw [Store.ret, hst]
      have hwait' : u.isWaiting = true := by rw [Store.isWaiting, hst]
      refine ⟨u.ret, hticks.trans (.ret hwait'), ?_, ?_, Or.inl ⟨?_, ?_⟩⟩
      · rw [hret]
        exact ht.isWaiting
      · rw [hret]
        exact hsame'.nextProjection.trans hsame.nextProjection
      · rw [hret]
        exact hdt
      · rw [hret]
        exact hqueue'.trans hqueue
    | kept =>
      exact ⟨t, hticks, ht.isWaiting, hsame.nextProjection, Or.inl ⟨hdt, hqueue⟩⟩
    | @took p origin _ _ _ _ hlink hsource _ _ _ hlists _ _ _ _ hqueue' hst =>
      rw [hsame.link?] at hlink
      refine ⟨u, hticks, ?_, hlists.nextProjection.trans hsame.nextProjection,
        Or.inr ⟨p, origin, hlink, hsource, ?_, fun src' hne => ?_⟩⟩
      · rw [Store.isWaiting, hst]
      · rw [deliveries, hst, ← hdt]
        rfl
      · rw [hqueue', Function.update_of_ne hne, hqueue]

/-- **The signal at hand reaches every observer**, if what the projections among them deliver comes
to an end. -/
theorem Steady.drained_signal {n : Nat} (hinner : DrainedAbove S V H n src)
    {rest : List Observer} (hs : s.Steady) (hn : s.nextProjection = n)
    (hwait : s.isWaiting = false) (hdel : s.deliveries = ⟨src, some (signal, rest)⟩ :: ds) :
    s.Drained (⟨src, none⟩ :: ds) := by
  induction rest generalizing s with
  | nil =>
    obtain ⟨below, htop, rfl⟩ := delivers_of_deliveries hwait hdel
    have hcases := tick_cases htop (hs.toSound.alive_of_delivers htop)
    have hticks := Settles.tick hwait
    generalize s.tick.1 = u, s.tick.2 = es at hcases hticks
    cases hcases with
    | done hsame _ hqueue ht =>
      exact ⟨u, hticks, Sound.deliveries_of_delivers ht, fun src _ => congrFun hqueue src,
        hsame.nextProjection, fun _ => ht.isWaiting⟩
  | cons o rest ih =>
    obtain ⟨t, hst, hwt, hnext, ⟨hdt, hqueue⟩ | ⟨p, origin, hlink, rfl, hdt, hqueue⟩⟩ :=
      hs.toSound.round hwait hdel
    · have ht := hst.steady hs
      exact (ih ht (hnext.trans hn) hwt hdt).of_settles hst (fun src _ => congrFun hqueue src)
        hnext
    · have ht := hst.steady hs
      have hrank := hs.wired.rank_lt hlink
      rw [hn] at hrank
      obtain ⟨u, htu, hdu, hqueue', hnext', hwu⟩ := hinner ht (hnext.trans hn) hwt hdt hrank
      -- the projection is none of those whose deliveries lie below
      have hother : ∀ src' ∈ (⟨origin.source, none⟩ :: ds : List (Delivery S V)).map (·.source),
          src' ≠ .view p := by
        rintro src' hsrc rfl
        exact ht.toSound.not_mem_tail hdt hsrc
      have hnames := hnext'.trans hnext
      refine (ih (htu.steady ht) (hnames.trans hn) (hwu (by simp)) hdu).of_settles
        (hst.trans htu) (fun src' hsrc => ?_) hnames
      rw [hqueue' src' hsrc, hqueue src' (hother src' hsrc)]

/-- The queue of a source is emptied, if what lies deeper comes to an end. -/
theorem Steady.drained_queue {n : Nat} (hinner : DrainedAbove S V H n src)
    (hs : s.Steady) (hn : s.nextProjection = n) (hwait : s.isWaiting = false)
    (hdel : s.deliveries = ⟨src, none⟩ :: ds) : s.Drained ds := by
  generalize hl : s.queue src = l
  induction l generalizing s with
  | nil =>
    obtain ⟨below, htop, rfl⟩ := delivers_of_deliveries hwait hdel
    have hdriven := hs.toSound.driven htop
    have ho := hs.toSound.outcome_tick htop
    have ht : s.tick.1.Sound := hs.toSound.tick htop
    have hticks := Settles.tick hwait
    have hcases := tick_cases htop (hs.toSound.alive_of_delivers htop)
    generalize s.tick.1 = u, s.tick.2 = es at ho ht hticks hcases
    cases hcases with
    | took hq =>
      rw [hl] at hq
      cases hq
    | @ended _ t _ _ hsame _ _ hst hu =>
      have hstack : u.stack = below := by
        rcases hu with rfl | rfl
        · exact hst
        · rw [sweep_stack, hst]
      have hdu : u.deliveries = below.filterMap Frame.delivery? := by rw [deliveries, hstack]
      cases ho with
      | quiet hm => exact absurd rfl hm
      | took hdel' hq =>
        rw [hdel] at hdel'
        cases hdel'
        rw [hl] at hq
        cases hq
      | passed hdel' | done hdel' =>
        rw [hdel] at hdel'
        cases hdel'
      | ended _ _ hquiet hqueues =>
        have hsame := hs.ended_queues ht hqueues hdel hl hdu
        refine ⟨u, hticks, hdu, fun src _ => congrFun hsame src, hquiet.nextProjection,
          fun hne => ?_⟩
        obtain ⟨f, -, hf⟩ := htop
        rw [hf, ← hstack] at hdriven
        rw [← hdu] at hne
        exact isWaiting_of_driven hdriven hne
  | cons signal later ih =>
    obtain ⟨below, htop, rfl⟩ := delivers_of_deliveries hwait hdel
    have hticks := Settles.tick hwait
    have hcases := tick_cases htop (hs.toSound.alive_of_delivers htop)
    generalize s.tick.1 = u, s.tick.2 = es at hticks hcases
    cases hcases with
    | ended hq =>
      rw [hl] at hq
      cases hq
    | took hq hsame _ hqueue ht =>
      rw [hl] at hq
      cases hq
      have hdu := Sound.deliveries_of_delivers ht
      -- the signal reaches its observers, and then fewer are queued
      obtain ⟨t, hut, hdt, hqueue', hnext, hwt⟩ :=
        (hticks.steady hs).drained_signal hinner (hsame.nextProjection.trans hn) ht.isWaiting hdu
      have hnames := hnext.trans hsame.nextProjection
      have hother : ∀ src' ∈ (below.filterMap Frame.delivery?).map (·.source), src' ≠ src := by
        rintro src' hsrc rfl
        exact hs.toSound.not_mem_tail hdel hsrc
      have hlater : t.queue src = later := by
        rw [hqueue' src (List.mem_cons_self ..), hqueue, Function.update_self]
      refine (ih ((hticks.trans hut).steady hs) (hnames.trans hn) (hwt (by simp)) hdt
        hlater).of_settles (hticks.trans hut) (fun src' hsrc => ?_) hnames
      rw [hqueue' src' (List.mem_cons_of_mem _ hsrc), hqueue,
        Function.update_of_ne (hother src' hsrc)]

/-- A source whose projections come to an end comes to an end. -/
theorem Steady.drained_of_above {n : Nat} (hinner : DrainedAbove S V H n src)
    {now : Option (Signal S V × List Observer)} (hs : s.Steady) (hn : s.nextProjection = n)
    (hwait : s.isWaiting = false) (hdel : s.deliveries = ⟨src, now⟩ :: ds) : s.Drained ds := by
  cases now with
  | none => exact hs.drained_queue hinner hn hwait hdel
  | some now =>
    obtain ⟨signal, rest⟩ := now
    obtain ⟨t, hst, hdt, hqueue, hnext, hwt⟩ := hs.drained_signal hinner hn hwait hdel
    exact ((hst.steady hs).drained_queue hinner (hnext.trans hn) (hwt (by simp)) hdt).of_settles
      hst (fun src hsrc => hqueue src (List.mem_cons_of_mem _ hsrc)) hnext

variable (S V H) in
/-- Whatever projections deliver comes to an end, since they deliver to younger ones. -/
theorem drainedAbove (n : Nat) (src : Source) : DrainedAbove S V H n src := by
  induction hrank : src.rank n using Nat.strong_induction_on generalizing src with
  | _ r ih =>
    subst hrank
    intro s p ds hs hn hwait hdel hlt
    exact hs.drained_of_above (ih _ hlt (.view p) rfl) hn hwait hdel

/-- **The innermost delivery comes to an end**, and those below go on from where they are. -/
theorem Steady.drained {now : Option (Signal S V × List Observer)} (hs : s.Steady)
    (hwait : s.isWaiting = false) (hdel : s.deliveries = ⟨src, now⟩ :: ds) : s.Drained ds :=
  hs.drained_of_above (drainedAbove S V H _ src) rfl hwait hdel

/-- **All deliveries come to an end** if the code that they call just returns. -/
theorem Steady.settles (hs : s.Steady) (hwait : s.isWaiting = false) :
    ∃ t, s.Settles t ∧ t.deliveries = [] := by
  generalize hdel : s.deliveries = l
  induction l generalizing s with
  | nil => exact ⟨s, .refl s, hdel⟩
  | cons d ds ih =>
    obtain ⟨t, hst, hdt, -, -, hwt⟩ := hs.drained hwait hdel
    cases ds with
    | nil => exact ⟨t, hst, hdt⟩
    | cons d' ds =>
      obtain ⟨u, htu, hdu⟩ := ih (hst.steady hs) (hwt (by simp)) hdt
      exact ⟨u, hst.trans htu, hdu⟩

end Steps

end Store

end LiveDesk.Observable
