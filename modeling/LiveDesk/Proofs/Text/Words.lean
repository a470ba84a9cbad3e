import Mathlib.Data.List.Chain
import Mathlib.Data.List.TakeWhile
import LiveDesk.Text.Blank

/-!
# Words

The white space of a text divides it into words. Dropping it at both ends and writing one space for
every run inside leaves the words as they are, with one space between them.

- `words`, `Words`: the words of a text in their order, computed, and told apart by the gaps between
  them; both are the same (`words_eq_iff`).
- `spaced`: words with one space between them.
- **The trimmed and collapsed text is the words with spaces between them** (`collapse_trimChars`).
- `Neat`: a text without superfluous white space; these are the words with spaces between them
  (`neat_spaced`), and trimming and collapsing leaves them alone (`spaced_words`).
-/

namespace LiveDesk.Text

/-- A word: some characters, none of them white space. -/
def IsWord (w : List Char) : Prop :=
  w ≠ [] ∧ ∀ c ∈ w, isBlank c = false

/-- A gap between words. -/
def IsGap (g : List Char) : Prop :=
  ∀ c ∈ g, isBlank c = true

/-- The words of a text: what stands between its white space, less what is empty. -/
def words (cs : List Char) : List (List Char) :=
  (cs.splitOnP isBlank).filter fun w => !w.isEmpty

/-- Words with one space between them. -/
def spaced (ws : List (List Char)) : List Char :=
  [' '].intercalate ws

/-- The text consists of the given words in their order, with gaps between them and at its ends. A
word goes as far as it can: it is followed by white space, or by nothing. -/
inductive Words : List Char → List (List Char) → Prop
  | gap {g : List Char} (hgap : IsGap g) : Words g []
  | word {g w rest : List Char} {ws : List (List Char)} (hgap : IsGap g) (hword : IsWord w)
      (hend : ∀ c ∈ rest.head?, isBlank c = true) (h : Words rest ws) :
      Words (g ++ (w ++ rest)) (w :: ws)

/-! ## The words of a text -/

theorem isGap_cons {c : Char} {g : List Char} :
    IsGap (c :: g) ↔ isBlank c = true ∧ IsGap g :=
  List.forall_mem_cons

/-- A text is not blank if it has a character that is not. -/
theorem not_allBlank_iff {s : String} :
    ¬ allBlank s = true ↔ ∃ c ∈ s.toList, isBlank c = false := by
  simp [allBlank]

theorem words_nil : words [] = [] := rfl

/-- A blank separates the words before it from those behind it. -/
theorem words_append_blank {c : Char} (hc : isBlank c = true) (xs ys : List Char) :
    words (xs ++ c :: ys) = words xs ++ words ys := by
  rw [words, List.splitOnP_append_cons _ _ hc, List.filter_append]
  rfl

/-- Blanks at the start make no word. -/
theorem words_gap_append {g : List Char} (hg : IsGap g) (cs : List Char) :
    words (g ++ cs) = words cs := by
  induction g with
  | nil => rfl
  | cons c g ih =>
    obtain ⟨hc, hg⟩ := isGap_cons.mp hg
    exact (words_append_blank hc [] (g ++ cs)).trans (ih hg)

/-- Blanks alone make no word. -/
theorem words_gap {g : List Char} (hg : IsGap g) : words g = [] := by
  simpa [words_nil] using words_gap_append hg []

/-- Blanks at the end make no word. -/
theorem words_append_gap {g : List Char} (hg : IsGap g) (cs : List Char) :
    words (cs ++ g) = words cs := by
  cases g with
  | nil => rw [List.append_nil]
  | cons c g =>
    obtain ⟨hc, hg⟩ := isGap_cons.mp hg
    rw [words_append_blank hc, words_gap hg, List.append_nil]

/-- A word is its only word. -/
theorem words_word {w : List Char} (hw : IsWord w) : words w = [w] := by
  rw [words, List.splitOnP_eq_singleton hw.2]
  simp [hw.1]

/-- A word in front of a blank, or at the end, comes first. -/
theorem words_word_append {w rest : List Char} (hw : IsWord w)
    (hend : ∀ c ∈ rest.head?, isBlank c = true) : words (w ++ rest) = w :: words rest := by
  cases rest with
  | nil => rw [List.append_nil, words_word hw, words_nil]
  | cons c rest =>
    have hc : isBlank c = true := hend c rfl
    rw [words_append_blank hc, words_word hw]
    exact congrArg (w :: ·) (words_append_blank hc [] rest).symm

/-- **There is one way to take a text apart into words.** -/
theorem Words.eq {cs : List Char} {ws : List (List Char)} (h : Words cs ws) : words cs = ws := by
  induction h with
  | gap hgap => exact words_gap hgap
  | word hgap hword hend _ ih => rw [words_gap_append hgap, words_word_append hword hend, ih]

/-- White space in front makes the first gap longer. -/
theorem Words.cons_blank {c : Char} {cs : List Char} {ws : List (List Char)}
    (hc : isBlank c = true) (h : Words cs ws) : Words (c :: cs) ws := by
  cases h with
  | gap hgap => exact .gap (isGap_cons.mpr ⟨hc, hgap⟩)
  | word hgap hword hend h => exact .word (isGap_cons.mpr ⟨hc, hgap⟩) hword hend h

theorem isWord_cons {c : Char} {w : List Char} (hc : isBlank c = false)
    (hw : ∀ d ∈ w, isBlank d = false) : IsWord (c :: w) :=
  ⟨List.cons_ne_nil _ _, List.forall_mem_cons.mpr ⟨hc, hw⟩⟩

/-- Another character in front belongs to the first word if that begins the text, and is a word of
its own if not. -/
theorem Words.cons_word {c : Char} {cs : List Char} {ws : List (List Char)}
    (hc : isBlank c = false) (h : Words cs ws) : ∃ ws, Words (c :: cs) ws := by
  have halone : IsWord [c] := isWord_cons hc nofun
  have hempty : IsGap [] := nofun
  cases h with
  | @gap g hgap =>
    refine ⟨[[c]], .word (g := []) (w := [c]) hempty halone ?_ (.gap hgap)⟩
    exact fun d hd => hgap d (List.mem_of_mem_head? hd)
  | @word g w rest ws hgap hword hend h =>
    cases g with
    | nil => exact ⟨(c :: w) :: ws, .word (g := []) hempty (isWord_cons hc hword.2) hend h⟩
    | cons d g =>
      refine ⟨[c] :: w :: ws, .word (g := []) (w := [c]) hempty halone ?_
        (.word hgap hword hend h)⟩
      rintro e ⟨⟩
      exact (isGap_cons.mp hgap).1

/-- Every text can be taken apart into words. -/
theorem exists_words (cs : List Char) : ∃ ws, Words cs ws := by
  induction cs with
  | nil => exact ⟨[], .gap nofun⟩
  | cons c cs ih =>
    obtain ⟨ws, h⟩ := ih
    cases hc : isBlank c with
    | true => exact ⟨ws, h.cons_blank hc⟩
    | false => exact h.cons_word hc

/-- The words that are computed are those between the gaps. -/
theorem words_eq_iff {cs : List Char} {ws : List (List Char)} : words cs = ws ↔ Words cs ws := by
  refine ⟨fun h => ?_, Words.eq⟩
  obtain ⟨ws', h'⟩ := exists_words cs
  rwa [← h, h'.eq]

/-- Only blanks make no word. -/
theorem words_eq_nil {cs : List Char} : words cs = [] ↔ IsGap cs := by
  refine ⟨fun h => ?_, words_gap⟩
  cases words_eq_iff.mp h with
  | gap hgap => exact hgap

/-- What a text is taken apart into are words. -/
theorem isWord_of_mem {cs w : List Char} (h : w ∈ words cs) : IsWord w := by
  have hwords : ∀ {cs ws}, Words cs ws → w ∈ ws → IsWord w := by
    intro cs ws h hmem
    induction h with
    | gap => cases hmem
    | word _ hword _ _ ih =>
      rcases List.mem_cons.mp hmem with rfl | hmem
      · exact hword
      · exact ih hmem
  exact hwords (words_eq_iff.mp rfl) h

/-! ## Words with spaces between them -/

theorem isBlank_space : isBlank ' ' = true := by decide

theorem spaced_nil : spaced [] = [] := rfl

theorem spaced_singleton (w : List Char) : spaced [w] = w :=
  List.intercalate_singleton

/-- A word, a space and the others. -/
theorem spaced_cons {w : List Char} {ws : List (List Char)} (h : ws ≠ []) :
    spaced (w :: ws) = w ++ ' ' :: spaced ws := by
  cases ws with
  | nil => exact absurd rfl h
  | cons w' ws => rw [spaced, List.intercalate_cons_cons, List.append_assoc]; rfl

/-- Words are told apart again by the spaces between them. -/
theorem words_spaced {ws : List (List Char)} (h : ∀ w ∈ ws, IsWord w) :
    words (spaced ws) = ws := by
  induction ws with
  | nil => exact words_nil
  | cons w ws ih =>
    obtain ⟨hw, hws⟩ := List.forall_mem_cons.mp h
    by_cases hnil : ws = []
    · rw [hnil, spaced_singleton, words_word hw]
    · rw [spaced_cons hnil, words_append_blank isBlank_space, words_word hw, ih hws]
      rfl

/-- Words with spaces between them are nothing only if there are none. -/
theorem spaced_eq_nil {ws : List (List Char)} (h : ∀ w ∈ ws, IsWord w) :
    spaced ws = [] ↔ ws = [] := by
  refine ⟨fun hnil => ?_, fun hnil => hnil ▸ spaced_nil⟩
  rw [← words_spaced h, hnil, words_nil]

/-! ## Trimming and collapsing -/

/-- The text does not end with white space. -/
def EndsInWord (cs : List Char) : Prop :=
  ∀ c ∈ cs.getLast?, isBlank c = false

theorem EndsInWord.of_cons {c : Char} {cs : List Char} (h : EndsInWord (c :: cs)) :
    EndsInWord cs := by
  cases cs with
  | nil => exact nofun
  | cons d cs => rwa [EndsInWord, List.getLast?_cons_cons] at h

/-- Behind white space there is another word. -/
theorem EndsInWord.words_ne_nil {c : Char} {cs : List Char} (hc : isBlank c = true)
    (h : EndsInWord (c :: cs)) : words cs ≠ [] := by
  intro hnil
  have hgap : IsGap (c :: cs) := isGap_cons.mpr ⟨hc, words_eq_nil.mp hnil⟩
  have hlast := List.getLast?_eq_some_getLast (List.cons_ne_nil c cs)
  have hblank := hgap _ (List.getLast_mem (List.cons_ne_nil c cs))
  rw [h _ hlast] at hblank
  cases hblank

/-- What collapsing makes of the text behind a gap, and behind the beginning `w` of a word. Both go
by one induction, because a word leads to a gap and a gap to a word. -/
theorem collapse_eq {cs : List Char} (h : EndsInWord cs) :
    collapse true cs = spaced (words cs) ∧
      ∀ w, IsWord w → w ++ collapse false cs = spaced (words (w ++ cs)) := by
  induction cs with
  | nil =>
    refine ⟨rfl, fun w hw => ?_⟩
    rw [List.append_nil, words_word hw, spaced_singleton]
    exact List.append_nil w
  | cons c cs ih =>
    obtain ⟨hgap, hword⟩ := ih h.of_cons
    cases hc : isBlank c with
    | true =>
      refine ⟨?_, fun w hw => ?_⟩
      · rw [collapse, if_pos hc, if_pos rfl, hgap]
        exact congrArg spaced (words_append_blank hc [] cs).symm
      · rw [collapse, if_pos hc, if_neg Bool.false_ne_true, hgap, words_append_blank hc,
          words_word hw]
        exact (spaced_cons (h.words_ne_nil hc)).symm
    | false =>
      have hc' : ¬ isBlank c = true := by simp [hc]
      refine ⟨?_, fun w hw => ?_⟩
      · rw [collapse, if_neg hc']
        exact hword [c] (isWord_cons hc nofun)
      · have hlonger : IsWord (w ++ [c]) :=
          ⟨by simp, List.forall_mem_append.mpr ⟨hw.2, List.forall_mem_singleton.mpr hc⟩⟩
        rw [collapse, if_neg hc']
        simpa using hword (w ++ [c]) hlonger

/-- Trimming drops a gap at both ends, and no more. -/
theorem trimChars_split (cs : List Char) :
    ∃ g g', IsGap g ∧ IsGap g' ∧ cs = g ++ (trimChars cs ++ g') ∧
      (∀ c ∈ (trimChars cs).head?, isBlank c = false) ∧ EndsInWord (trimChars cs) := by
  -- the text behind the first gap, the other way round, and what is left of it
  let back := (cs.dropWhile isBlank).reverse
  let kept := back.dropWhile isBlank
  have hback : back = back.takeWhile isBlank ++ kept := List.takeWhile_append_dropWhile.symm
  have hcut : cs.dropWhile isBlank = trimChars cs ++ (back.takeWhile isBlank).reverse := by
    have hreverse := congrArg List.reverse hback
    rwa [List.reverse_reverse, List.reverse_append] at hreverse
  refine ⟨cs.takeWhile isBlank, (back.takeWhile isBlank).reverse, fun c => List.mem_takeWhile_imp,
    fun c hc => List.mem_takeWhile_imp (List.mem_reverse.mp hc), ?_, ?_, ?_⟩
  · rw [← hcut, List.takeWhile_append_dropWhile]
  · intro c hc
    have hhead : c ∈ (cs.dropWhile isBlank).head? := by
      rw [hcut]
      exact List.mem_head?_append_of_mem_head? hc
    have hnot := List.head?_dropWhile_not isBlank cs
    rw [Option.mem_def.mp hhead] at hnot
    exact hnot
  · intro c hc
    have hhead : c ∈ kept.head? := by rwa [trimChars, List.getLast?_reverse] at hc
    have hnot := List.head?_dropWhile_not isBlank back
    rw [Option.mem_def.mp hhead] at hnot
    exact hnot

/-- **The trimmed and collapsed text is the words with spaces between them.** -/
theorem collapse_trimChars (cs : List Char) :
    collapse false (trimChars cs) = spaced (words cs) := by
  obtain ⟨g, g', hg, hg', hsplit, hhead, hlast⟩ := trimChars_split cs
  have hwords : words cs = words (trimChars cs) := by
    conv_lhs => rw [hsplit]
    rw [words_gap_append hg, words_append_gap hg']
  rw [hwords]
  generalize trimChars cs = kept at hhead hlast
  cases kept with
  | nil => rfl
  | cons c kept =>
    have hc : isBlank c = false := hhead c rfl
    rw [collapse, if_neg (by simp [hc])]
    exact (collapse_eq hlast.of_cons).2 [c] (isWord_cons hc nofun)

/-! ## Neat texts -/

/-- A text without superfluous white space: none at its ends, nowhere twice in a row, and none but
the space. -/
structure Neat (cs : List Char) : Prop where
  head : ∀ c ∈ cs.head?, isBlank c = false
  last : ∀ c ∈ cs.getLast?, isBlank c = false
  single : cs.IsChain fun a b => ¬ (isBlank a = true ∧ isBlank b = true)
  space : ∀ c ∈ cs, isBlank c = true → c = ' '

theorem neat_nil : Neat [] := ⟨nofun, nofun, .nil, nofun⟩

theorem neat_word {w : List Char} (hw : ∀ c ∈ w, isBlank c = false) : Neat w where
  head c hc := hw c (List.mem_of_mem_head? hc)
  last c hc := hw c (List.mem_of_mem_getLast? hc)
  single := by
    refine List.Pairwise.isChain (List.pairwise_of_forall_mem_list fun a ha b _ hab => ?_)
    rw [hw a ha] at hab
    cases hab.1
  space c hc hblank := by
    rw [hw c hc] at hblank
    cases hblank

/-- A space between a word and a neat text. -/
theorem Neat.cons_word {w cs : List Char} (hw : IsWord w) (hcs : cs ≠ []) (h : Neat cs) :
    Neat (w ++ ' ' :: cs) := by
  obtain ⟨d, cs, rfl⟩ := List.exists_cons_of_ne_nil hcs
  have hneat := neat_word hw.2
  refine ⟨fun c hc => ?_, fun c hc => ?_, ?_, fun c hc hblank => ?_⟩
  · obtain ⟨e, w, rfl⟩ := List.exists_cons_of_ne_nil hw.1
    exact hneat.head c hc
  · rw [List.getLast?_append_of_ne_nil _ (by simp), List.getLast?_cons_cons] at hc
    exact h.last c hc
  · refine List.isChain_append.mpr ⟨hneat.single, List.isChain_cons_cons.mpr ⟨fun hd => ?_,
      h.single⟩, fun a ha b _ hab => ?_⟩
    · rw [h.head d rfl] at hd
      cases hd.2
    · rw [hneat.last a ha] at hab
      cases hab.1
  · rcases List.mem_append.mp hc with hc | hc
    · exact hneat.space c hc hblank
    · rcases List.mem_cons.mp hc with rfl | hc
      · rfl
      · exact h.space c hc hblank

/-- Words with one space between them are neat. -/
theorem neat_spaced {ws : List (List Char)} (h : ∀ w ∈ ws, IsWord w) : Neat (spaced ws) := by
  induction ws with
  | nil => exact neat_nil
  | cons w ws ih =>
    obtain ⟨hw, hws⟩ := List.forall_mem_cons.mp h
    by_cases hnil : ws = []
    · rw [hnil, spaced_singleton]
      exact neat_word hw.2
    · rw [spaced_cons hnil]
      exact (ih hws).cons_word hw fun hempty => hnil ((spaced_eq_nil hws).mp hempty)

/-- Trimming leaves a neat text as it is. -/
theorem trimChars_neat {cs : List Char} (h : Neat cs) : trimChars cs = cs := by
  have hfront : cs.dropWhile isBlank = cs := by
    rw [List.dropWhile_eq_self_iff]
    intro hl hblank
    rw [h.head _ (List.head?_eq_getElem? ▸ List.getElem?_eq_getElem hl)] at hblank
    cases hblank
  have hback : cs.reverse.dropWhile isBlank = cs.reverse := by
    rw [List.dropWhile_eq_self_iff]
    intro hl hblank
    have hlast : cs.reverse[0] ∈ cs.getLast? := by
      rw [← List.head?_reverse, List.head?_eq_getElem?]
      exact List.getElem?_eq_getElem hl
    rw [h.last _ hlast] at hblank
    cases hblank
  rw [trimChars, hfront, hback, List.reverse_reverse]

/-- Collapsing leaves single spaces alone; behind a space that is written no other one follows. -/
theorem collapse_neat {cs : List Char} (inRun : Bool)
    (hsingle : cs.IsChain fun a b => ¬ (isBlank a = true ∧ isBlank b = true))
    (hspace : ∀ c ∈ cs, isBlank c = true → c = ' ')
    (hhead : inRun = true → ∀ c ∈ cs.head?, isBlank c = false) : collapse inRun cs = cs := by
  induction cs generalizing inRun with
  | nil => rfl
  | cons c cs ih =>
    obtain ⟨hc, hspace⟩ := List.forall_mem_cons.mp hspace
    cases hblank : isBlank c with
    | true =>
      -- behind a space no other blank follows, so this one begins a run
      have hnot : ¬ inRun = true := fun hrun => by
        rw [hhead hrun c rfl] at hblank
        cases hblank
      rw [collapse, if_pos hblank, if_neg hnot, ih true hsingle.tail hspace, hc hblank]
      intro _ d hd
      cases cs with
      | nil => cases hd
      | cons e cs =>
        cases hd
        have hapart := (List.isChain_cons_cons.mp hsingle).1
        simpa [hblank] using hapart
    | false =>
      rw [collapse, if_neg (by simp [hblank]), ih false hsingle.tail hspace nofun]

/-- A neat text is its words with spaces between them. -/
theorem spaced_words {cs : List Char} (h : Neat cs) : spaced (words cs) = cs := by
  rw [← collapse_trimChars, trimChars_neat h, collapse_neat false h.single h.space nofun]

end LiveDesk.Text
