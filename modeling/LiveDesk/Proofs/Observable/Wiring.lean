import LiveDesk.Proofs.Observable.Sources

/-!
# Who observes what

The entries of the observer lists and the living projections belong together: every projection that
lives has its entry with its source, and every entry that leads to a projection is the entry of one
that lives. A projection is younger than its source, so chains end at the store.

- `Store.Wired`: this, and that entries of one list have different names.
- `Wired.remove`, `Wired.addProjection`, `Wired.insert`, `Wired.filter`, `Wired.retag`: the changes
  of the lists that happen keep it.
-/

namespace LiveDesk.Observable

namespace Store

variable {S V H : Type}

/-- The observer lists and the living projections fit together. -/
structure Wired (s : Store S V H) : Prop where
  named : ∀ {p l}, s.link? p = some l → p < s.nextProjection
  fresh : ∀ {src o}, o ∈ s.observersOf src → o.id < s.nextObserver
  distinct : ∀ src, (s.observersOf src).Pairwise fun a b => a.id ≠ b.id
  /-- The store's observers stand in the order in which they were added. -/
  ordered : (s.observersOf .store).Pairwise fun a b => a.id < b.id
  /-- A living projection has an entry with its source. -/
  entered : ∀ {p l}, s.link? p = some l →
    ⟨l.2, .projection p, true⟩ ∈ s.observersOf l.1.source
  /-- An entry that leads to a projection is the entry of a living one. -/
  targeted : ∀ {src o p}, o ∈ s.observersOf src → o.target = .projection p →
    ∃ origin, s.link? p = some (origin, o.id) ∧ origin.source = src
  older : ∀ {p l r}, s.link? p = some l → l.1.source = .view r → r < p

/-! ## How removing and adding a projection shows -/

theorem link?_remove (s : Store S V H) (q : Projection S V) (r : ProjectionId) :
    (s.remove q).link? r = if r = q.id then none else s.link? r :=
  read_remove s q r _ fun _ _ => rfl

theorem value?_remove (s : Store S V H) (q : Projection S V) (r : ProjectionId) :
    (s.remove q).value? r = if r = q.id then none else s.value? r :=
  read_remove s q r _ fun _ _ => rfl

theorem queue_remove (s : Store S V H) (q : Projection S V) (src : Source) :
    (s.remove q).queue src = if src = .view q.id then [] else s.queue src := by
  cases src with
  | store =>
    unfold remove
    cases q.origin <;> rfl
  | view r =>
    rw [queue, read_remove s q r _ fun _ _ => rfl, queue]
    by_cases h : r = q.id <;> simp [h]

theorem isPublishing_remove (s : Store S V H) (q : Projection S V) (src : Source) :
    (s.remove q).isPublishing src = if src = .view q.id then false else s.isPublishing src := by
  cases src with
  | store =>
    unfold remove
    cases q.origin <;> rfl
  | view r =>
    rw [isPublishing, read_remove s q r _ fun _ _ => rfl, isPublishing]
    by_cases h : r = q.id <;> simp [h]

/-- The projection's own list goes with it, and its entry goes from its source's list. -/
theorem observersOf_remove (s : Store S V H) (q : Projection S V) (src : Source) :
    (s.remove q).observersOf src
      = if src = .view q.id then []
        else if src = q.origin.source then (s.observersOf src).filter fun o => o.id != q.entry
        else s.observersOf src := by
  cases src with
  | store =>
    unfold remove
    cases q.origin <;> simp [observersOf, Origin.source, Channel.remove]
  | view r =>
    rw [observersOf, get?_remove, observersOf]
    by_cases h : r = q.id
    · simp [h]
    · cases q.origin with
      | store => simp [h, Origin.source]
      | view source =>
        dsimp only
        by_cases hr : r = source
        · subst hr
          cases s.get? r <;> simp [h, Origin.source, Channel.remove]
        · simp [h, hr, Origin.source]

/-- A projection that is left after another one has gone is another one and was there before. -/
theorem link?_of_remove {s : Store S V H} {q : Projection S V} {r : ProjectionId}
    {l : Origin S V × ObserverId} (h : (s.remove q).link? r = some l) :
    r ≠ q.id ∧ s.link? r = some l := by
  rw [link?_remove] at h
  split at h
  · cases h
  · next hr => exact ⟨hr, h⟩

/-- What is left in a list was there before, and is not the entry of the projection that goes. -/
theorem mem_observersOf_remove {s : Store S V H} {q : Projection S V} {src : Source}
    {o : Observer} : o ∈ (s.remove q).observersOf src ↔
      src ≠ .view q.id ∧ o ∈ s.observersOf src ∧ (src = q.origin.source → o.id ≠ q.entry) := by
  rw [observersOf_remove]
  split
  · next hview => exact iff_of_false List.not_mem_nil fun h => h.1 hview
  · next hview =>
    rw [and_iff_right hview]
    split
    · next hsrc => simp [← hsrc]
    · next hsrc => simp [hsrc]

/-- What is left in a list keeps its order. -/
theorem sublist_observersOf_remove (s : Store S V H) (q : Projection S V) (src : Source) :
    ((s.remove q).observersOf src).Sublist (s.observersOf src) := by
  rw [observersOf_remove]
  split
  · exact List.nil_sublist _
  · split
    · exact List.filter_sublist
    · exact List.Sublist.refl _

theorem link?_addProjection (s : Store S V H) (origin : Origin S V) (v : V) (r : ProjectionId) :
    (s.addProjection origin v).link? r
      = if r = s.nextProjection then some (origin, s.nextObserver) else s.link? r :=
  read_addProjection s origin v r _ fun _ _ => rfl

theorem value?_addProjection (s : Store S V H) (origin : Origin S V) (v : V) (r : ProjectionId) :
    (s.addProjection origin v).value? r
      = if r = s.nextProjection then some v else s.value? r :=
  read_addProjection s origin v r _ fun _ _ => rfl

theorem queue_addProjection (s : Store S V H) (origin : Origin S V) (v : V) (src : Source) :
    (s.addProjection origin v).queue src
      = if src = .view s.nextProjection then [] else s.queue src := by
  cases src with
  | store => cases origin <;> rfl
  | view r =>
    rw [queue, read_addProjection s origin v r _ fun _ _ => rfl, queue]
    by_cases h : r = s.nextProjection <;> simp [h, newborn, Channel.empty]

theorem isPublishing_addProjection (s : Store S V H) (origin : Origin S V) (v : V)
    (src : Source) :
    (s.addProjection origin v).isPublishing src
      = if src = .view s.nextProjection then false else s.isPublishing src := by
  cases src with
  | store => cases origin <;> rfl
  | view r =>
    rw [isPublishing, read_addProjection s origin v r _ fun _ _ => rfl, isPublishing]
    by_cases h : r = s.nextProjection <;> simp [h, newborn, Channel.empty]

/-- The new projection's entry stands behind the others of its source. -/
theorem observersOf_addProjection (s : Store S V H) (origin : Origin S V) (v : V) (src : Source)
    (hsource : ∀ p, origin.source = .view p → (s.link? p).isSome) :
    (s.addProjection origin v).observersOf src
      = if src = .view s.nextProjection then []
        else if src = origin.source then
          s.observersOf src ++ [⟨s.nextObserver, .projection s.nextProjection, true⟩]
        else s.observersOf src := by
  cases src with
  | store => cases origin <;> rfl
  | view r =>
    rw [observersOf, get?_addProjection, observersOf]
    by_cases h : r = s.nextProjection
    · simp [h, Channel.empty]
    · cases origin with
      | store => simp [h, Origin.source]
      | view source =>
        dsimp only
        rw [get?_modifyChannel]
        by_cases hr : r = source
        · obtain ⟨l, hl⟩ := Option.isSome_iff_exists.mp (hsource source rfl)
          obtain ⟨q, hq, -, -⟩ := get?_of_link? hl
          subst hr
          simp [h, hq, Origin.source, Channel.add]
        · simp [h, hr, Origin.source]

/-- Nothing refers to a projection that is not pinned. -/
theorem isPinned_eq_false {s : Store S V H} {q : Projection S V} (h : s.isPinned q = false) :
    (∀ o ∈ q.channel.observers, o.held = false) ∧ ∀ f ∈ s.stack, f.keeps q.id = false := by
  simp only [isPinned, Bool.or_eq_false_iff, List.any_eq_false] at h
  exact ⟨fun o ho => by simpa using h.1.2 o ho, fun f hf => by simpa using h.2 f hf⟩

namespace Wired

variable {s t : Store S V H}

theorem opening (initial : S) : (opening initial : Store S V H).Wired where
  named h := by simp [link?, get?, Store.opening] at h
  fresh {src o} h := by cases src <;> simp [observersOf, get?, Store.opening, Channel.empty] at h
  distinct src := by cases src <;> simp [observersOf, get?, Store.opening, Channel.empty]
  ordered := by simp [observersOf, Store.opening, Channel.empty]
  entered h := by simp [link?, get?, Store.opening] at h
  targeted {src o p} h := by
    cases src <;> simp [observersOf, get?, Store.opening, Channel.empty] at h
  older h := by simp [link?, get?, Store.opening] at h

/-- Entries of one list with the same name are the same. -/
theorem eq_of_id (h : s.Wired) {src : Source} {a b : Observer} (ha : a ∈ s.observersOf src)
    (hb : b ∈ s.observersOf src) (hid : a.id = b.id) : a = b := by
  have hnodup : ((s.observersOf src).map (·.id)).Nodup := List.pairwise_map.mpr (h.distinct src)
  exact List.inj_on_of_nodup_map hnodup ha hb hid

/-- The wiring does not depend on the queues, the values, the handles and the stack. -/
theorem congr (h : s.Wired) (hl : t.link? = s.link?) (ho : t.observersOf = s.observersOf)
    (hp : t.nextProjection = s.nextProjection) (hn : s.nextObserver ≤ t.nextObserver) :
    t.Wired where
  named hlp := by rw [hp]; exact h.named (hl ▸ hlp)
  fresh hmem := lt_of_lt_of_le (h.fresh (ho ▸ hmem)) hn
  distinct := by rw [ho]; exact h.distinct
  ordered := by rw [ho]; exact h.ordered
  entered hlp := by rw [ho]; exact h.entered (hl ▸ hlp)
  targeted hmem := by rw [hl]; exact h.targeted (ho ▸ hmem)
  older hlp := h.older (hl ▸ hlp)

/-- The entry of a projection, known by its name, leads to the projection. -/
theorem eq_entry (h : s.Wired) {p : ProjectionId} {l : Origin S V × ObserverId}
    (hl : s.link? p = some l) {e : Observer} (he : e ∈ s.observersOf l.1.source)
    (hid : e.id = l.2) : e = ⟨l.2, .projection p, true⟩ :=
  h.eq_of_id he (h.entered hl) hid

/-- An entry in another list that does not lead to the projection that goes stays. -/
theorem stays (h : s.Wired) {p : ProjectionId} {q : Projection S V} (hq : s.get? p = some q)
    {src : Source} {e : Observer} (he : e ∈ s.observersOf src) (hsrc : src ≠ .view q.id)
    (htarget : e.target ≠ .projection p) : e ∈ (s.remove q).observersOf src := by
  refine mem_observersOf_remove.mpr ⟨hsrc, he, ?_⟩
  rintro rfl hid
  rw [h.eq_entry (link?_of_get? hq) he hid] at htarget
  exact htarget rfl

/-- A projection that nothing refers to can go: no entry of another one is in its list. -/
theorem remove (h : s.Wired) {p : ProjectionId} {q : Projection S V} (hq : s.get? p = some q)
    (hpin : s.isPinned q = false) : (s.remove q).Wired := by
  have hid : q.id = p := get?_id hq
  obtain ⟨hheld, -⟩ := isPinned_eq_false hpin
  refine ⟨fun hl => ?_, fun ho => ?_, fun src => ?_, ?_, fun {r l} hl => ?_,
    fun {src o r} ho htarget => ?_, fun hl => h.older (link?_of_remove hl).2⟩
  · rw [remove_nextProjection]
    exact h.named (link?_of_remove hl).2
  · rw [remove_nextObserver]
    exact h.fresh (mem_observersOf_remove.mp ho).2.1
  · exact (h.distinct src).sublist (sublist_observersOf_remove s q src)
  · exact h.ordered.sublist (sublist_observersOf_remove s q .store)
  · obtain ⟨hr, hl⟩ := link?_of_remove hl
    have hentry := h.entered hl
    refine h.stays hq hentry (fun hsrc => ?_) (by simpa [hid] using hr)
    -- the entry would be held by the list of the projection that goes
    rw [hsrc, observersOf, hid, hq] at hentry
    exact absurd (hheld _ hentry) (by simp)
  · obtain ⟨-, hos, hentry⟩ := mem_observersOf_remove.mp ho
    obtain ⟨origin, hl, horigin⟩ := h.targeted hos htarget
    refine ⟨origin, ?_, horigin⟩
    rw [link?_remove, if_neg, hl]
    -- the entry of the projection that goes has gone from the list
    rintro rfl
    rw [hid, link?_of_get? hq] at hl
    simp only [Option.some.injEq, Prod.mk.injEq] at hl
    exact hentry (by rw [← horigin, ← hl.1]) hl.2.symm

section Insertion

variable {src₀ : Source} {e : Observer}
  (ho : ∀ src, t.observersOf src
    = if src = src₀ then s.observersOf src ++ [e] else s.observersOf src)

include ho

theorem mem_inserted {src : Source} {a : Observer} :
    a ∈ t.observersOf src ↔ a ∈ s.observersOf src ∨ src = src₀ ∧ a = e := by
  rw [ho]
  split
  · next hsrc => simp [hsrc]
  · next hsrc => simp [hsrc]

/-- An entry that stands in the given relation to the others is added behind them. -/
theorem pairwise_inserted {r : Observer → Observer → Prop} {src : Source}
    (h : (s.observersOf src).Pairwise r) (hlast : src = src₀ → ∀ a ∈ s.observersOf src, r a e) :
    (t.observersOf src).Pairwise r := by
  rw [ho]
  split
  · next hsrc =>
    refine List.pairwise_append.mpr ⟨h, List.pairwise_singleton _ _, fun a ha b hb => ?_⟩
    rw [List.mem_singleton.mp hb]
    exact hlast hsrc a ha
  · exact h

end Insertion

/-- The next name is free. -/
theorem link?_next (h : s.Wired) : s.link? s.nextProjection = none := by
  cases hl : s.link? s.nextProjection with
  | none => rfl
  | some l => exact absurd (h.named hl) (lt_irrefl _)

/-- The new projection's entry is all that changes in the lists. -/
theorem observersOf_addProjection (h : s.Wired) (origin : Origin S V) (v : V)
    (hsource : ∀ p, origin.source = .view p → (s.link? p).isSome) (src : Source) :
    (s.addProjection origin v).observersOf src
      = if src = origin.source then
          s.observersOf src ++ [⟨s.nextObserver, .projection s.nextProjection, true⟩]
        else s.observersOf src := by
  rw [Store.observersOf_addProjection s origin v src hsource]
  split
  · next hsrc =>
    -- the list of the new projection is empty, and it is not its own source
    have hnone : s.get? s.nextProjection = none := by simpa [link?] using h.link?_next
    have hnew : src ≠ origin.source := by
      intro hself
      have hsome := hsource _ (hself ▸ hsrc)
      rw [h.link?_next] at hsome
      cases hsome
    rw [if_neg hnew, hsrc, observersOf, hnone]
    rfl
  · rfl

/-- A projection can be added over the store and over a projection that lives. -/
theorem addProjection (h : s.Wired) (origin : Origin S V) (v : V)
    (hsource : ∀ p, origin.source = .view p → (s.link? p).isSome) :
    (s.addProjection origin v).Wired := by
  have hlink := link?_addProjection s origin v
  have hobs := h.observersOf_addProjection origin v hsource
  -- a link is the one of the new projection, or was there before
  have hcases : ∀ {p l}, (s.addProjection origin v).link? p = some l →
      p = s.nextProjection ∧ l = (origin, s.nextObserver) ∨ s.link? p = some l := by
    intro p l hl
    rw [hlink] at hl
    split at hl
    · next hp => exact Or.inl ⟨hp, (Option.some.inj hl).symm⟩
    · exact Or.inr hl
  refine ⟨?_, ?_, ?_, ?_, ?_, ?_, ?_⟩
  · intro p l hl
    show p < s.nextProjection + 1
    rcases hcases hl with ⟨rfl, -⟩ | hl
    · exact Nat.lt_succ_self _
    · exact Nat.lt_succ_of_lt (h.named hl)
  · intro src o ho
    show o.id < s.nextObserver + 1
    rcases (mem_inserted hobs).mp ho with ho | ⟨-, rfl⟩
    · exact Nat.lt_succ_of_lt (h.fresh ho)
    · exact Nat.lt_succ_self _
  · exact fun src => pairwise_inserted hobs (h.distinct src) fun _ a ha => (h.fresh ha).ne
  · exact pairwise_inserted hobs h.ordered fun _ a ha => h.fresh ha
  · intro p l hl
    rcases hcases hl with ⟨rfl, rfl⟩ | hl
    · exact (mem_inserted hobs).mpr (Or.inr ⟨rfl, rfl⟩)
    · exact (mem_inserted hobs).mpr (Or.inl (h.entered hl))
  · intro src o p ho htarget
    rw [hlink]
    rcases (mem_inserted hobs).mp ho with ho | ⟨rfl, rfl⟩
    · obtain ⟨origin', hl, hsrc⟩ := h.targeted ho htarget
      refine ⟨origin', ?_, hsrc⟩
      rw [if_neg (h.named hl).ne, hl]
    · cases htarget
      exact ⟨origin, if_pos rfl, rfl⟩
  · intro p l r hl hsrc
    rcases hcases hl with ⟨rfl, rfl⟩ | hl
    · obtain ⟨l', hl'⟩ := Option.isSome_iff_exists.mp (hsource r hsrc)
      exact h.named hl'
    · exact h.older hl hsrc

/-- A subscriber's entry can be added to a list that has none of its name. -/
theorem insert (h : s.Wired) {src₀ : Source} {e : Observer} (hl : t.link? = s.link?)
    (ho : ∀ src, t.observersOf src
      = if src = src₀ then s.observersOf src ++ [e] else s.observersOf src)
    (hp : t.nextProjection = s.nextProjection) (hn : s.nextObserver ≤ t.nextObserver)
    (htarget : e.target = .subscriber) (hid : e.id < t.nextObserver)
    (hnew : ∀ a ∈ s.observersOf src₀, a.id ≠ e.id)
    (hlast : src₀ = .store → ∀ a ∈ s.observersOf .store, a.id < e.id) : t.Wired where
  named hlp := by
    rw [hp]
    exact h.named (hl ▸ hlp)
  fresh hmem := by
    rcases (mem_inserted ho).mp hmem with hmem | ⟨-, rfl⟩
    · exact lt_of_lt_of_le (h.fresh hmem) hn
    · exact hid
  distinct src := pairwise_inserted ho (h.distinct src) fun hsrc => hsrc ▸ hnew
  ordered := pairwise_inserted ho h.ordered fun hsrc => hlast hsrc.symm
  entered hlp := (mem_inserted ho).mpr (Or.inl (h.entered (hl ▸ hlp)))
  targeted hmem hproj := by
    rw [hl]
    rcases (mem_inserted ho).mp hmem with hmem | ⟨-, rfl⟩
    · exact h.targeted hmem hproj
    · rw [htarget] at hproj
      cases hproj
  older hlp := h.older (hl ▸ hlp)

/-- Entries of subscribers can go. -/
theorem filter (h : s.Wired) (keep : Observer → Bool) (hl : t.link? = s.link?)
    (ho : ∀ src, t.observersOf src = (s.observersOf src).filter keep)
    (hp : t.nextProjection = s.nextProjection) (hn : t.nextObserver = s.nextObserver)
    (hkeep : ∀ o p, o.target = .projection p → keep o = true) : t.Wired where
  named hlp := by rw [hp]; exact h.named (hl ▸ hlp)
  fresh {src o} hmem := by
    rw [ho] at hmem
    rw [hn]
    exact h.fresh (List.mem_of_mem_filter hmem)
  distinct src := by rw [ho]; exact (h.distinct src).filter _
  ordered := by rw [ho]; exact h.ordered.filter _
  entered hlp := by
    rw [ho]
    exact List.mem_filter.mpr ⟨h.entered (hl ▸ hlp), hkeep _ _ rfl⟩
  targeted {src o p} hmem := by
    rw [ho] at hmem
    rw [hl]
    exact h.targeted (List.mem_of_mem_filter hmem)
  older hlp := h.older (hl ▸ hlp)

/-- Entries of subscribers can be let go of. -/
theorem retag (h : s.Wired) (g : Observer → Observer) (hl : t.link? = s.link?)
    (ho : ∀ src, t.observersOf src = (s.observersOf src).map g)
    (hp : t.nextProjection = s.nextProjection) (hn : t.nextObserver = s.nextObserver)
    (hid : ∀ o, (g o).id = o.id) (htarget : ∀ o, (g o).target = o.target)
    (hkeep : ∀ o p, o.target = .projection p → g o = o) : t.Wired where
  named hlp := by rw [hp]; exact h.named (hl ▸ hlp)
  fresh {src o} hmem := by
    rw [ho] at hmem
    obtain ⟨a, ha, rfl⟩ := List.mem_map.mp hmem
    rw [hn, hid]
    exact h.fresh ha
  distinct src := by
    rw [ho, List.pairwise_map]
    simpa only [hid] using h.distinct src
  ordered := by
    rw [ho, List.pairwise_map]
    simpa only [hid] using h.ordered
  entered hlp := by
    rw [ho]
    exact List.mem_map.mpr ⟨_, h.entered (hl ▸ hlp), hkeep _ _ rfl⟩
  targeted {src o p} hmem hproj := by
    rw [ho] at hmem
    obtain ⟨a, ha, rfl⟩ := List.mem_map.mp hmem
    rw [hl, hid]
    exact h.targeted ha (by rw [← htarget a, hproj])
  older hlp := h.older (hl ▸ hlp)

end Wired

end Store

end LiveDesk.Observable
