import LiveDesk.Proofs.Json.Grammar
import LiveDesk.Proofs.Json.Records

/-!
# Objects as they may be written

An object gives the values of a record type under the names of its fields, in any order, among
members with other keys, and with blanks wherever they may stand.

- `Object`: the text of an object with the given members, each a key and the text of its value.
- `Takes`: a reader takes a text for a value, with any blanks in front of it.
- `Under`: what the members give under one key: nothing, or one value.
- `Yields`: the values of a record type with what the members give in its place.
- **An object is taken for what it gives** (`takes_record`): each given value goes into its slot
  (`Given.step`), and a member with an unknown key is passed over (`reads_unknown`).
-/

namespace LiveDesk.Json

open Reader

variable {α β σ : Type}

/-! ## The text of an object -/

/-- The members of an object in their order: the key of each, and the text of its value. -/
abbrev Members := List (String × List Char)

/-- The text of one member or more, with commas between them. -/
inductive Listed : Members → List Char → Prop
  | last {name : String} {front key left right cs back : List Char} (hfront : Gap front)
      (hkey : Spells key name.toList) (hleft : Gap left) (hright : Gap right)
      (hvalue : Written .value cs) (hback : Gap back) :
      Listed [(name, cs)] (memberText front key left right cs back)
  | next {name : String} {front key left right cs back members : List Char} {ms : Members}
      (hfront : Gap front) (hkey : Spells key name.toList) (hleft : Gap left) (hright : Gap right)
      (hvalue : Written .value cs) (hback : Gap back) (hmembers : Listed ms members) :
      Listed ((name, cs) :: ms) (memberText front key left right cs back ++ ',' :: members)

/-- The text of an object with the given members. -/
inductive Object : Members → List Char → Prop
  | empty {g : List Char} (hg : Gap g) : Object [] ('{' :: (g ++ ['}']))
  | members {ms : Members} {cs : List Char} (hmembers : Listed ms cs) :
      Object ms ('{' :: (cs ++ ['}']))

/-- A list of members is written as the grammar has it. -/
theorem Listed.written {ms : Members} {cs : List Char} (h : Listed ms cs) :
    Written .members cs := by
  induction h with
  | last hfront hkey hleft hright hvalue hback =>
    exact .lastMember hfront hkey.loose hleft hright hvalue hback
  | next hfront hkey hleft hright hvalue hback _ ih =>
    exact .member hfront hkey.loose hleft hright hvalue hback ih

/-- An object is a value, so it may stand under a key of another object. -/
theorem Object.written {ms : Members} {cs : List Char} (h : Object ms cs) :
    Written .value cs := by
  cases h with
  | empty hg => exact .emptyObject hg
  | members hmembers => exact .object hmembers.written

theorem Listed.values {ms : Members} {cs : List Char} (h : Listed ms cs) :
    ∀ m ∈ ms, Written .value m.2 := by
  induction h with
  | last _ _ _ _ hvalue _ => simpa using hvalue
  | next _ _ _ _ hvalue _ _ ih => exact List.forall_mem_cons.mpr ⟨hvalue, ih⟩

/-- The members of an object have values. -/
theorem Object.values {ms : Members} {cs : List Char} (h : Object ms cs) :
    ∀ m ∈ ms, Written .value m.2 := by
  cases h with
  | empty _ => simp
  | members hmembers => exact hmembers.values

/-- A list of members has no fewer characters than members. -/
theorem Listed.length_le {ms : Members} {cs : List Char} (h : Listed ms cs) :
    ms.length ≤ cs.length := by
  induction h with
  | last => simp only [memberText, List.length_append, List.length_cons, List.length_nil]; omega
  | next =>
    simp only [memberText, List.length_append, List.length_cons]
    omega

/-! ## Blanks between the parts -/

/-- The reader takes the text for the value, with any blanks in front of it, and leaves what
follows. -/
def Takes (r : Reader α) (cs : List Char) (a : α) : Prop :=
  ∀ g rest, Gap g → Closes rest → r (g ++ (cs ++ rest)) = .ok (a, rest)

/-- What is done with a value when it has been read. -/
theorem Takes.bind {r : Reader α} {cs : List Char} {a : α} {b : β} {f : α → Reader β}
    (h : Takes r cs a) (hf : f a = pure b) : Takes (r >>= f) cs b := by
  intro g rest hg hrest
  rw [bind_ok (h g rest hg hrest), hf]
  rfl

/-- A reader that looks at the character ahead passes over the blanks in front of it. -/
theorem ahead_gap {g : List Char} (hg : Gap g) (f : Option Char → Reader α) (cs : List Char) :
    (ahead >>= f) (g ++ cs) = (ahead >>= f) cs := by
  simp [bind, StateT.bind, ahead, hg.dropWhile_append]

/-- What is read from the compact text of a value is taken if blanks in front do not matter. -/
theorem Reads.takes {r : Reader α} {v : Json} {a : α} (h : Reads r v a)
    (hr : ∀ g cs, Gap g → r (g ++ cs) = r cs) : Takes r v.chars a := by
  intro g rest hg hrest
  rw [hr g _ hg, h rest hrest]

/-- A quoted text is read as what it spells. -/
theorem takes_text {body : List Char} {s : String} (h : Spells body s.toList) :
    Takes Reader.text ('"' :: (body ++ ['"'])) s := by
  intro g rest hg _
  have htext : '"' :: (body ++ ['"']) ++ rest = '"' :: (body ++ '"' :: rest) := by simp
  rw [htext, Reader.text, ahead_gap hg, bind_ok (ahead_cons _ (by decide))]
  show (take >>= fun _ => textTail) _ = _
  rw [bind_ok (take_cons _ _), textTail_spells h]

theorem takes_toUInt32 (n : UInt32) :
    Takes (integer toUInt32?) (Json.ofNat n.toNat).chars n :=
  (reads_toUInt32 n).takes fun _ cs hg => ahead_gap hg _ cs

/-- A gap in front of the next field is passed over. -/
theorem moreFields_gap {g : List Char} (hg : Gap g) (first : Bool) (cs : List Char) :
    moreFields first (g ++ cs) = moreFields first cs :=
  ahead_gap hg _ cs

/-- The quote behind a comma and a gap goes on with the next key. -/
theorem moreFields_front {g : List Char} (hg : Gap g) (first : Bool) (cs : List Char) :
    moreFields first ((if first then [] else [',']) ++ (g ++ '"' :: cs)) =
      .ok (true, '"' :: cs) := by
  cases first with
  | true =>
    show moreFields true (g ++ '"' :: cs) = _
    rw [moreFields_gap hg]
    rfl
  | false =>
    show moreFields false (',' :: (g ++ '"' :: cs)) = _
    rw [moreFields, bind_ok (ahead_cons _ (by decide))]
    dsimp only
    rw [if_neg (by decide), if_neg (by decide), if_pos rfl, bind_ok (take_cons _ _), ahead_gap hg]
    rfl

theorem colon_gap {g : List Char} (hg : Gap g) (cs : List Char) :
    colon (g ++ ':' :: cs) = .ok ((), cs) :=
  ahead_gap hg _ _

/-! ## The members of an object -/

/-- What stands behind the key of a member, up to what follows the member. -/
def Around (cs text rest : List Char) : Prop :=
  Closes rest ∧ ∃ left right, Gap left ∧ Gap right ∧
    text = left ++ ':' :: (right ++ (cs ++ rest))

/-- A value is read with gaps around it. -/
theorem Takes.around {r : Reader α} {cs : List Char} {a : α} (h : Takes r cs a)
    {text rest : List Char} (haround : Around cs text rest) :
    ∃ value, colon text = .ok ((), value) ∧ r value = .ok (a, rest) := by
  obtain ⟨hrest, left, right, hleft, hright, rfl⟩ := haround
  exact ⟨_, colon_gap hleft _, h right rest hright hrest⟩

theorem fieldsFrom_gap {g : List Char} (hg : Gap g) (field : String → σ → Reader σ) (fuel : Nat)
    (first : Bool) (s : σ) (cs : List Char) :
    fieldsFrom field fuel first s (g ++ cs) = fieldsFrom field fuel first s cs := by
  cases fuel with
  | zero => rfl
  | succ fuel =>
    rw [fieldsFrom]
    show (moreFields first >>= _) (g ++ cs) = (moreFields first >>= _) cs
    simp only [bind, StateT.bind, moreFields_gap hg]

/-- One member, from the brace or the comma in front of it to what follows its value. -/
theorem fieldsFrom_member {field : String → σ → Reader σ} {s t : σ} {name : String}
    {front key left right cs back after : List Char} (hfront : Gap front)
    (hkey : Spells key name.toList) (hleft : Gap left) (hright : Gap right) (hback : Gap back)
    (hafter : Closes after) (h : ReadsField Around field name cs s t) (fuel : Nat) (first : Bool) :
    fieldsFrom field (fuel + 1) first s
      ((if first then [] else [',']) ++ (memberText front key left right cs back ++ after)) =
        fieldsFrom field fuel false t after := by
  have hvalue := h _ _ ⟨hback.closes hafter, left, right, hleft, hright, rfl⟩
  have htext : memberText front key left right cs back ++ after = front ++
      '"' :: (key ++ '"' :: (left ++ ':' :: (right ++ (cs ++ (back ++ after))))) := by
    simp [memberText]
  rw [htext, fieldsFrom, bind_ok (moreFields_front hfront first _)]
  show (take >>= fun _ => textTail >>= fun k => field k s >>= fun s =>
    fieldsFrom field fuel false s) _ = _
  rw [bind_ok (take_cons _ _), bind_ok (textTail_spells hkey _), bind_ok hvalue,
    fieldsFrom_gap hback]

/-- The members up to the closing brace. -/
theorem fieldsFrom_listed {field : String → σ → Reader σ} {s t : σ} {ms : Members}
    {cs : List Char} (hcs : Listed ms cs) (h : Folds (ReadsField Around field) s ms t) {fuel : Nat}
    (hfuel : ms.length < fuel) (first : Bool) (rest : List Char) :
    fieldsFrom field fuel first s ((if first then [] else [',']) ++ (cs ++ '}' :: rest)) =
      .ok (t, '}' :: rest) := by
  induction hcs generalizing s fuel first with
  | last hfront hkey hleft hright _ hback =>
    -- one step for the member, and one for the brace behind it
    obtain ⟨fuel, rfl⟩ := Nat.exists_eq_add_of_le' (show 2 ≤ fuel from hfuel)
    cases h with
    | cons head tail =>
      cases tail
      rw [fieldsFrom_member hfront hkey hleft hright hback (closes_brace rest) head]
      rfl
  | @next name front key left right cs back members ms hfront hkey hleft hright _ hback _ ih =>
    obtain ⟨fuel, rfl⟩ := Nat.exists_eq_add_of_lt hfuel
    cases h with
    | cons head tail =>
      have hafter := closes_comma (members ++ '}' :: rest)
      rw [List.append_assoc, List.cons_append,
        fieldsFrom_member hfront hkey hleft hright hback hafter head]
      exact ih tail (by simp only [List.length_cons] at *; omega) false

/-- The fields of a whole object, from behind its opening brace, with the fuel that its readers
take. -/
theorem Object.folded {field : String → σ → Reader σ} {s t : σ} {ms : Members} {cs : List Char}
    (hcs : Object ms cs) (h : Folds (ReadsField Around field) s ms t) (rest : List Char) :
    ∃ body, cs ++ rest = '{' :: body ∧
      fieldsFrom field (body.length + 1) true s body = .ok (t, '}' :: rest) := by
  cases hcs with
  | @empty g hg =>
    cases h
    refine ⟨g ++ '}' :: rest, by simp, ?_⟩
    rw [fieldsFrom_gap hg]
    rfl
  | @members ms cs hmembers =>
    have hlength := hmembers.length_le
    refine ⟨cs ++ '}' :: rest, by simp, ?_⟩
    have hfuel : ms.length < (cs ++ '}' :: rest).length + 1 := by
      simp only [List.length_append]
      omega
    exact fieldsFrom_listed hmembers h hfuel true rest

/-! ## What an object gives for the fields of a record type -/

/-- The texts of the values under a key. -/
def under (key : String) (ms : Members) : List (List Char) :=
  (ms.filter fun m => m.1 = key).map (·.2)

/-- A member with the key comes first among those under it. -/
theorem under_cons_self (key : String) (cs : List Char) (ms : Members) :
    under key ((key, cs) :: ms) = cs :: under key ms := by
  simp [under]

/-- A member with another key is not among them. -/
theorem under_cons_of_ne {key name : String} (h : key ≠ name) (cs : List Char) (ms : Members) :
    under key ((name, cs) :: ms) = under key ms := by
  simp [under, h.symm]

/-- What the members add to the slot of a field: nothing, or the one value under its name. -/
inductive Filled (field : Field α) (ms : Members) : Option α → Option α → Prop
  | kept {slot : Option α} (hnone : under field.name ms = []) : Filled field ms slot slot
  | filled {cs : List Char} {a : α} (hone : under field.name ms = [cs])
      (hvalue : Takes field.value cs a) : Filled field ms none (some a)

/-- What the members add to the slots of a record type. -/
inductive Given (ms : Members) : (types : List Type) → Fields types → Slots types → Slots types →
    Prop
  | nil : Given ms [] () () ()
  | cons {α : Type} {types : List Type} {field : Field α} {fields : Fields types}
      {slot slot' : Option α} {s t : Slots types} (head : Filled field ms slot slot')
      (tail : Given ms types fields s t) :
      Given ms (α :: types) (field, fields) (slot, s) (slot', t)

variable {types : List Type} {fields : Fields types} {ms : Members} {s t : Slots types}

theorem Given.eq_of_nil (h : Given [] types fields s t) : s = t := by
  induction h with
  | nil => rfl
  | cons head _ ih =>
    cases head with
    | kept => rw [ih]
    | filled hone => cases hone

/-- A member with another key adds nothing. -/
theorem Filled.of_ne {field : Field α} {slot slot' : Option α} {key : String} {cs : List Char}
    (h : Filled field ((key, cs) :: ms) slot slot') (hkey : field.name ≠ key) :
    Filled field ms slot slot' := by
  cases h with
  | kept hnone => exact .kept (under_cons_of_ne hkey cs ms ▸ hnone)
  | filled hone hvalue => exact .filled (under_cons_of_ne hkey cs ms ▸ hone) hvalue

/-- A member with a key that no field has leaves what is read. -/
theorem Given.of_not_mem {key : String} {cs : List Char}
    (h : Given ((key, cs) :: ms) types fields s t) (hkey : key ∉ fields.names types) :
    Given ms types fields s t := by
  induction h with
  | nil => exact .nil
  | @cons α types field fields slot slot' s t head _ ih =>
    obtain ⟨hne, hkey⟩ := not_or.mp (fun h => hkey (List.mem_cons.mpr h))
    exact .cons (head.of_ne (Ne.symm hne)) (ih hkey)

/-- The first member adds its own value, if its key is known, and the others add theirs. -/
theorem Given.step {key : String} {cs : List Char}
    (h : Given ((key, cs) :: ms) types fields s t) (hnames : (fields.names types).Nodup) :
    ∃ u, Given ms types fields u t ∧
      (Fills Around types fields key cs s u ∨ fields.fill? key types s = none ∧ u = s) := by
  induction h with
  | nil => exact ⟨(), .nil, .inr ⟨rfl, rfl⟩⟩
  | @cons α types field fields slot slot' s t head tail ih =>
    obtain ⟨hfresh, hnames⟩ := List.nodup_cons.1 hnames
    -- the slot of the field is filled from here, or the member belongs to one of the later fields
    by_cases hkey : field.name = key
    · subst hkey
      have hrest := tail.of_not_mem hfresh
      cases head with
      | kept hnone => simp [under_cons_self] at hnone
      | @filled cs' a hone hvalue =>
        rw [under_cons_self] at hone
        obtain ⟨rfl, hnone⟩ := List.cons.inj hone
        exact ⟨(some a, s), .cons (.kept hnone) hrest,
          .inl (fills_head fields (fun _ _ => hvalue.around) s)⟩
    · obtain ⟨u, hgiven, hstep⟩ := ih hnames
      refine ⟨(slot, u), .cons (head.of_ne hkey) hgiven, ?_⟩
      rcases hstep with hfills | ⟨hunknown, rfl⟩
      · exact .inl (hfills.tail slot hkey)
      · refine .inr ⟨?_, rfl⟩
        simp only [Fields.fill?, if_neg hkey, hunknown]
        rfl

/-- A member with an unknown key is passed over. -/
theorem reads_unknown {key : String} {cs : List Char} (h : fields.fill? key types s = none)
    (hcs : Written .value cs) : ReadsField Around fields.fill key cs s s := by
  rintro text rest ⟨hrest, left, right, hleft, hright, rfl⟩
  rw [Fields.fill, h]
  show (colon >>= fun _ => skipValue >>= fun _ => pure s) _ = _
  rw [bind_ok (colon_gap hleft _), bind_ok (skipValue_written hcs hright hrest)]
  rfl

/-- **The members of an object fill the fields in any order.** -/
theorem Given.folds (h : Given ms types fields s t) (hnames : (fields.names types).Nodup)
    (hvalues : ∀ m ∈ ms, Written .value m.2) :
    Folds (ReadsField Around fields.fill) s ms t := by
  induction ms generalizing s with
  | nil =>
    rw [h.eq_of_nil]
    exact .nil t
  | cons m ms ih =>
    obtain ⟨key, cs⟩ := m
    obtain ⟨hvalue, hvalues⟩ := List.forall_mem_cons.mp hvalues
    obtain ⟨u, hgiven, hstep⟩ := h.step hnames
    refine .cons ?_ (ih hgiven hvalues)
    rcases hstep with hfills | ⟨hunknown, rfl⟩
    · exact hfills.reads
    · exact reads_unknown hunknown hvalue

/-- At most one member has the key, and the text of its value spells what the members give. -/
def Under (spells : List Char → α → Prop) (key : String) (ms : Members) (a? : Option α) : Prop :=
  List.Forall₂ spells (under key ms) a?.toList

/-- What is spelled in one way is spelled in a weaker one. -/
theorem Under.imp {spells spells' : List Char → α → Prop} {key : String} {a? : Option α}
    (h : Under spells key ms a?) (himp : ∀ cs a, spells cs a → spells' cs a) :
    Under spells' key ms a? :=
  List.Forall₂.imp himp h

theorem Under.map {spells : List Char → β → Prop} {spells' : List Char → α → Prop} {key : String}
    {b? : Option β} (h : Under spells key ms b?) (f : β → α)
    (hf : ∀ cs b, spells cs b → spells' cs (f b)) : Under spells' key ms (b?.map f) := by
  have htexts : (b?.map f).toList = b?.toList.map f := by cases b? <;> rfl
  rw [Under, htexts, List.forall₂_map_right_iff]
  exact List.Forall₂.imp hf h

/-- The order of the members does not matter. -/
theorem Under.of_perm {spells : List Char → α → Prop} {key : String} {ms' : Members}
    {a? : Option α} (h : Under spells key ms a?) (hperm : (under key ms').Perm (under key ms)) :
    Under spells key ms' a? := by
  unfold Under at h
  cases a? with
  | none =>
    rw [List.forall₂_nil_right_iff.mp h] at hperm
    rw [Under, hperm.eq_nil]
    exact .nil
  | some a =>
    obtain ⟨cs, rest, hvalue, hrest, hunder⟩ := List.forall₂_cons_right_iff.mp h
    rw [hunder, List.forall₂_nil_right_iff.mp hrest] at hperm
    rw [Under, List.perm_singleton.mp hperm]
    exact .cons hvalue .nil

/-- What the members give goes into the slot of the field. -/
theorem Under.filled {field : Field α} {slot : Option α}
    (h : Under (Takes field.value) field.name ms slot) : Filled field ms none slot := by
  unfold Under at h
  cases slot with
  | none => exact .kept (List.forall₂_nil_right_iff.mp h)
  | some a =>
    obtain ⟨cs, rest, hvalue, hrest, hunder⟩ := List.forall₂_cons_right_iff.mp h
    rw [List.forall₂_nil_right_iff.mp hrest] at hunder
    exact .filled hunder hvalue

/-- The values of a record type with what the members give in its place. -/
def Yields (ms : Members) (types : List Type) (fields : Fields types) (values : Values types) :
    Prop :=
  ∃ slots, Given ms types fields (.none types) slots ∧ fields.close types slots = some values

theorem Yields.nil (ms : Members) : Yields ms [] () () :=
  ⟨(), .nil, rfl⟩

/-- A field with a default yields its value or the default. -/
theorem Yields.defaulted {name : String} {value : Reader α} {a? : Option α}
    {values : Values types} (h : Under (Takes value) name ms a?) (a : α)
    (tail : Yields ms types fields values) :
    Yields ms (α :: types) (Json.defaulted name value a, fields) (a?.getD a, values) := by
  obtain ⟨slots, hgiven, hclose⟩ := tail
  have hfilled : Filled (Json.defaulted name value a) ms none a? := Under.filled h
  refine ⟨(a?, slots), .cons hfilled hgiven, ?_⟩
  simp only [Fields.close, hclose, Json.defaulted, Option.or_some]
  rfl

/-- **An object is taken for what it gives**, with the stand-ins for what it does not give. -/
theorem takes_record {cs : List Char} {values : Values types} (hcs : Object ms cs)
    (h : Yields ms types fields values) (hnames : (fields.names types).Nodup) :
    Takes (Reader.record fields) cs values := by
  obtain ⟨slots, hgiven, hclose⟩ := h
  intro g rest hg _
  obtain ⟨body, htext, hfold⟩ := hcs.folded (hgiven.folds hnames hcs.values) rest
  rw [htext, Reader.record, ahead_gap hg, bind_ok (ahead_cons _ (by decide))]
  dsimp only
  rw [if_pos rfl, bind_ok (take_cons _ _), bind_ok (get_ok _), bind_ok hfold, hclose]
  dsimp only
  rw [bind_ok (endRecord_brace rest)]
  rfl

end LiveDesk.Json
