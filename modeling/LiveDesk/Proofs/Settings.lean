import LiveDesk.Desk
import LiveDesk.Proofs.Json.Objects
import LiveDesk.Proofs.Text.Words

/-!
# Settings read from documents

A document gives values for some of the settings, in any order and among keys that nobody knows.
All other settings keep their defaults, and only what results is checked.

- `Messages.Patch`, `Settings.Patch`: values for some of the texts and of the settings; `Among`
  says that the members of an object give exactly these, each at most once, and `Patch.In` that a
  document does.
- `Settings.Usable`: settings that pass their check, and with which a desk can be opened.
- **`parse_patched`**: a document is read as the defaults with the given values in their places, and
  whatever is read opens a desk.
- `parse_patched_spread`: a document with blanks, escapes and unknown keys.
-/

namespace LiveDesk

open Json

/-! ## What a document gives -/

/-- A text in quotes. -/
inductive Quoted : List Char → String → Prop
  | mk {body : List Char} {s : String} (hbody : Spells body s.toList) :
      Quoted ('"' :: (body ++ ['"'])) s

/-- A number in its digits. -/
def InDigits (cs : List Char) (n : UInt32) : Prop :=
  cs = decimal n.toNat

namespace Messages

/-- New texts for some of the notices. -/
structure Patch where
  jobsReloaded : Option String
  templatesReloaded : Option String
  tableFieldsReloaded : Option String
  tableFieldsSaved : Option String
  savedQueriesReloaded : Option String
  savedQuerySaved : Option String
  savedQueryDeleted : Option String

namespace Patch

/-- The texts with the given ones in their places. -/
def apply (p : Patch) (m : Messages) : Messages where
  jobsReloaded := p.jobsReloaded.getD m.jobsReloaded
  templatesReloaded := p.templatesReloaded.getD m.templatesReloaded
  tableFieldsReloaded := p.tableFieldsReloaded.getD m.tableFieldsReloaded
  tableFieldsSaved := p.tableFieldsSaved.getD m.tableFieldsSaved
  savedQueriesReloaded := p.savedQueriesReloaded.getD m.savedQueriesReloaded
  savedQuerySaved := p.savedQuerySaved.getD m.savedQuerySaved
  savedQueryDeleted := p.savedQueryDeleted.getD m.savedQueryDeleted

/-- The members give exactly these texts. -/
structure Among (p : Patch) (ms : Members) : Prop where
  jobsReloaded : Under Quoted "jobs_reloaded" ms p.jobsReloaded
  templatesReloaded : Under Quoted "templates_reloaded" ms p.templatesReloaded
  tableFieldsReloaded : Under Quoted "table_fields_reloaded" ms p.tableFieldsReloaded
  tableFieldsSaved : Under Quoted "table_fields_saved" ms p.tableFieldsSaved
  savedQueriesReloaded : Under Quoted "saved_queries_reloaded" ms p.savedQueriesReloaded
  savedQuerySaved : Under Quoted "saved_query_saved" ms p.savedQuerySaved
  savedQueryDeleted : Under Quoted "saved_query_deleted" ms p.savedQueryDeleted

end Patch

end Messages

namespace Settings

/-- New values for some of the settings. -/
structure Patch where
  pageSize : Option UInt32
  messages : Option Messages.Patch
  logLevel : Option String

namespace Patch

/-- The settings with the given values in their places. -/
def apply (p : Patch) (s : Settings) : Settings where
  pageSize := p.pageSize.getD s.pageSize
  messages := p.messages.elim s.messages fun q => q.apply s.messages
  logLevel := p.logLevel.getD s.logLevel

/-- The members give exactly these values. -/
structure Among (p : Patch) (ms : Members) : Prop where
  pageSize : Under InDigits "default_page_size" ms p.pageSize
  messages : Under (fun cs q => ∃ ms, Object ms cs ∧ q.Among ms) "messages" ms p.messages
  logLevel : Under Quoted "log_level" ms p.logLevel

end Patch

/-- The document is an object with the given members. -/
def IsObject (document : String) (ms : Members) : Prop :=
  ∃ front cs back, Gap front ∧ Object ms cs ∧ Gap back ∧ document.toList = front ++ (cs ++ back)

/-- The document gives exactly these values. -/
def Patch.In (p : Patch) (document : String) : Prop :=
  ∃ ms, IsObject document ms ∧ p.Among ms

/-- Settings with which a desk can be opened. -/
structure Usable (s : Settings) : Prop where
  pageSize : s.pageSize ≠ 0
  logLevel : ∃ c ∈ s.logLevel.toList, Text.isBlank c = false

end Settings

/-! ## How it is read -/

/-- A text in quotes is read as the text that it spells. -/
theorem Quoted.takes {cs : List Char} {s : String} (h : Quoted cs s) : Takes Reader.text cs s := by
  obtain ⟨hbody⟩ := h
  exact takes_text hbody

/-- A text in quotes is a value as documents write it. -/
theorem Quoted.written {cs : List Char} {s : String} (h : Quoted cs s) : Written .value cs := by
  obtain ⟨hbody⟩ := h
  exact .text hbody.loose

/-- A number in its digits is read as this number. -/
theorem InDigits.takes {cs : List Char} {n : UInt32} (h : InDigits cs n) :
    Takes (Reader.integer toUInt32?) cs n := by
  rw [h]
  exact takes_toUInt32 n

/-- An object that gives some texts is read as the defaults with these in their places. -/
theorem Messages.Patch.Among.takes {p : Messages.Patch} {ms : Members} {cs : List Char}
    (h : p.Among ms) (hcs : Object ms cs) : Takes Messages.read cs (p.apply .default) := by
  have htext : ∀ {key s?}, Under Quoted key ms s? → Under (Takes Reader.text) key ms s? :=
    fun hkey => hkey.imp fun _ _ => Quoted.takes
  have hyields := Yields.nil ms
    |>.defaulted (htext h.savedQueryDeleted) default.savedQueryDeleted
    |>.defaulted (htext h.savedQuerySaved) default.savedQuerySaved
    |>.defaulted (htext h.savedQueriesReloaded) default.savedQueriesReloaded
    |>.defaulted (htext h.tableFieldsSaved) default.tableFieldsSaved
    |>.defaulted (htext h.tableFieldsReloaded) default.tableFieldsReloaded
    |>.defaulted (htext h.templatesReloaded) default.templatesReloaded
    |>.defaulted (htext h.jobsReloaded) default.jobsReloaded
  exact (takes_record hcs hyields (by decide)).bind rfl

/-- An object that gives some values is read as the defaults with these in their places. -/
theorem Settings.Patch.Among.takes (b : Build) {p : Settings.Patch} {ms : Members}
    {cs : List Char} (h : p.Among ms) (hcs : Object ms cs) :
    Takes (Settings.read b) cs (p.apply (.default b)) := by
  have hmessages : Under (Takes Messages.read) "messages" ms (p.messages.map (·.apply .default)) :=
    h.messages.map _ fun cs q ⟨_, hobject, hamong⟩ => hamong.takes hobject
  have hyields := Yields.nil ms
    |>.defaulted (h.logLevel.imp fun _ _ => Quoted.takes) (default b).logLevel
    |>.defaulted hmessages (default b).messages
    |>.defaulted (h.pageSize.imp fun _ _ => InDigits.takes) (default b).pageSize
  refine (takes_record hcs hyields (by cases b <;> decide)).bind ?_
  obtain ⟨pageSize, messages, logLevel⟩ := p
  cases messages <;> rfl

namespace Settings

/-- A document that gives some values is read as the defaults with these in their places. -/
theorem Patch.In.read (b : Build) {p : Patch} {document : String} (h : p.In document) :
    Json.document (Settings.read b) document = .ok (p.apply (default b)) := by
  obtain ⟨ms, ⟨front, cs, back, hfront, hcs, hback, hdocument⟩, hamong⟩ := h
  have hread := hamong.takes b hcs front back hfront (by simpa using hback.closes closes_nil)
  have hend : back.all Reader.isGap = true := List.all_eq_true.mpr hback
  rw [Json.document, hdocument, hread]
  dsimp only
  rw [if_pos hend]

/-- The keys that are known. -/
def keys : List String :=
  ["default_page_size", "messages", "log_level"]

example (b : Build) : (fields b).names _ = keys := rfl

/-- Only the known keys matter, and not their order. -/
theorem Patch.Among.of_perm {p : Patch} {ms ms' : Members} (h : p.Among ms)
    (hperm : (ms'.filter (·.1 ∈ keys)).Perm (ms.filter (·.1 ∈ keys))) : p.Among ms' := by
  have hunder : ∀ key ∈ keys, (under key ms').Perm (under key ms) := by
    intro key hkey
    have hfilter : ∀ ms : Members,
        (ms.filter (·.1 ∈ keys)).filter (·.1 = key) = ms.filter (·.1 = key) := by
      intro ms
      rw [List.filter_filter]
      refine List.filter_congr fun m _ => ?_
      by_cases hm : m.1 = key
      · simp [hm, hkey]
      · simp [hm]
    have hboth := (hperm.filter (·.1 = key)).map (·.2)
    rwa [hfilter, hfilter] at hboth
  exact ⟨h.pageSize.of_perm (hunder _ (by decide)), h.messages.of_perm (hunder _ (by decide)),
    h.logLevel.of_perm (hunder _ (by decide))⟩

/-! ## What passes the check -/

/-- Settings pass their check exactly if the page size is not zero and the log level not blank. -/
theorem check_eq_none_iff {s : Settings} : s.check = none ↔ s.Usable := by
  unfold check
  constructor
  · intro h
    split at h
    · cases h
    next hsize =>
      split at h
      · cases h
      next hlevel => exact ⟨hsize, Text.not_allBlank_iff.mp hlevel⟩
  · rintro ⟨hsize, hlevel⟩
    rw [if_neg hsize, if_neg (Text.not_allBlank_iff.mpr hlevel)]

/-- What can be used is given back as it is, and nothing else. -/
theorem validate_eq_ok_iff {s c : Settings} : s.validate = .ok c ↔ c = s ∧ s.Usable := by
  rw [← check_eq_none_iff]
  unfold validate
  split
  next p hcheck => simp [hcheck]
  next hcheck => simp [hcheck, eq_comm]

/-- Whatever is read from a document can be used. -/
theorem parse_eq_ok {b : Build} {document : String} {c : Settings}
    (h : parse b document = .ok c) : c.Usable := by
  unfold parse at h
  split at h
  · cases h
  next s _ =>
    obtain ⟨rfl, husable⟩ := validate_eq_ok_iff.mp h
    exact husable

/-- Settings that pass their check open a desk, whose jobs begin with the page size of the
settings. -/
theorem Usable.opening {s : Settings} (h : s.Usable) :
    ∃ desk log jobs, Desk.opening s = .ok (desk, log) ∧ desk.jobs = some jobs ∧
      jobs.state = .opening s.pageSize := by
  have hvalid := validate_eq_ok_iff.mpr ⟨rfl, h⟩
  have hopening : ∃ r, Desk.opening s = .ok r ∧
      r.1.jobs = some (.opening (.opening s.pageSize)) := by
    rw [Desk.opening, hvalid]
    exact ⟨_, rfl, rfl⟩
  obtain ⟨⟨desk, log⟩, hopening, hjobs⟩ := hopening
  exact ⟨desk, log, _, hopening, hjobs, rfl⟩

/-- **A document is read as the defaults with the given values in their places**, whatever the order
of its keys, the blanks between its parts and the values of unknown keys. It can be used exactly if
the settings that result pass their check. Whatever is read from a text, a document or not, passes
it and opens a desk, whose jobs begin with the page size that was read. -/
theorem parse_patched (b : Build) :
    (∀ (p : Patch) (document : String) (ms : Members), IsObject document ms → p.Among ms →
      Json.document (read b) document = .ok (p.apply (default b)) ∧
      (∀ c, parse b document = .ok c ↔ c = p.apply (default b) ∧ c.Usable) ∧
      (¬ (p.apply (default b)).Usable →
        ∃ problem, parse b document = .error (.invalid problem)) ∧
      (∀ document', p.In document' → parse b document' = parse b document) ∧
      ∀ document' ms', IsObject document' ms' →
        (ms'.filter (·.1 ∈ keys)).Perm (ms.filter (·.1 ∈ keys)) →
        parse b document' = parse b document) ∧
    ∀ (text : String) (c : Settings), parse b text = .ok c →
      c.Usable ∧ ∃ desk log jobs, Desk.opening c = .ok (desk, log) ∧ desk.jobs = some jobs ∧
        jobs.state = .opening c.pageSize ∧ jobs.state.filter.pageSize = c.pageSize := by
  have hparse : ∀ {p : Patch} {document : String}, p.In document →
      parse b document = (p.apply (default b)).validate := by
    intro p document h
    rw [parse, h.read b]
  constructor
  · intro p document ms hobject hamong
    have h : p.In document := ⟨ms, hobject, hamong⟩
    refine ⟨h.read b, ?_, ?_, ?_, ?_⟩
    · intro c
      rw [hparse h, validate_eq_ok_iff]
      constructor
      · rintro ⟨rfl, husable⟩
        exact ⟨rfl, husable⟩
      · rintro ⟨rfl, husable⟩
        exact ⟨rfl, husable⟩
    · intro hnot
      rw [hparse h, validate]
      split
      next problem _ => exact ⟨problem, rfl⟩
      next hcheck => exact absurd (check_eq_none_iff.mp hcheck) hnot
    · intro document' h'
      rw [hparse h, hparse h']
    -- only the values under known keys count, and they are the same up to their order
    · intro document' ms' hobject' hperm
      rw [hparse h, hparse ⟨ms', hobject', hamong.of_perm hperm⟩]
  · intro text c h
    obtain ⟨desk, log, jobs, hopening, hjobs, hstate⟩ := (parse_eq_ok h).opening
    exact ⟨parse_eq_ok h, desk, log, jobs, hopening, hjobs, hstate, hstate ▸ rfl⟩

/-- A document with blanks, escapes and unknown keys. -/
def spreadDocument : String :=
  "\t\x7b\"new\\u002dkey\" : [null, 1.5e3, \"\\ud800\"],\"log_level\":\"warn\\n\" , " ++
    "\"messages\":\x7b\"query\":\x7b\x7d ,\"jobs_reloaded\": \"Done\"\x7d," ++
    "\"default_page_size\":40\x7d\n"

/-- The text of its messages. -/
def spreadMessages : List Char :=
  "\x7b\"query\":\x7b\x7d ,\"jobs_reloaded\": \"Done\"\x7d".toList

/-- Its members. -/
def spreadMembers : Members :=
  [("new-key", "[null, 1.5e3, \"\\ud800\"]".toList), ("log_level", "\"warn\\n\"".toList),
    ("messages", spreadMessages), ("default_page_size", "40".toList)]

/-- The values that it gives. -/
def spreadPatch : Patch where
  pageSize := some 40
  messages := some ⟨some "Done", none, none, none, none, none, none⟩
  logLevel := some "warn\n"

/-- What it is read as. -/
def spreadSettings : Settings where
  pageSize := 40
  messages := { Messages.default with jobsReloaded := "Done" }
  logLevel := "warn\n"

/-- A word without escapes spells itself. -/
theorem spells_word (s : String) (h : s.toList.all isPlain = true) : Spells s.toList s.toList := by
  simpa using Spells.plains h .nil

theorem quoted_done : Quoted "\"Done\"".toList "Done" :=
  .mk (spells_word "Done" rfl)

theorem quoted_warn : Quoted "\"warn\\n\"".toList "warn\n" :=
  .mk (s := "warn\n")
    (Spells.plains (show "warn".toList.all isPlain = true from rfl) (.letter (l := 'n') rfl .nil) :)

/-- The text of the messages is an object with an unknown key and a known one. -/
theorem object_spreadMessages :
    Object [("query", "\x7b\x7d".toList), ("jobs_reloaded", "\"Done\"".toList)] spreadMessages :=
  (Object.members (.next .nil (spells_word "query" rfl) .nil .nil (.emptyObject .nil)
    (show Gap [' '] by decide) (.last .nil (spells_word "jobs_reloaded" rfl) .nil
    (show Gap [' '] by decide) quoted_done.written .nil)) :)

/-- The whole document is an object with four members. -/
theorem isObject_spreadDocument : IsObject spreadDocument spreadMembers := by
  have hgap : Gap [' '] := by decide
  have hname : Spells "new\\u002dkey".toList "new-key".toList :=
    (Spells.plains (show "new".toList.all isPlain = true from rfl)
      (.code (.mk (a := '0') (b := '0') (c := '2') (d := 'd') rfl rfl rfl rfl) rfl rfl
        (spells_word "key" rfl)) :)
  have hnumber := Written.number (.mk (show Digits ['1'] by decide) (by decide)
    (.some (show Digits ['5'] by decide))
    (.some (.inl rfl) (.inl rfl) (show Digits ['3'] by decide)))
  -- half a pair is no text, but it may stand where nothing reads it
  have hhalf : Written .value "\"\\ud800\"".toList :=
    .text (.code (.mk (a := 'd') (b := '8') (c := '0') (d := '0') rfl rfl rfl rfl) .nil)
  have hlist : Written .value "[null, 1.5e3, \"\\ud800\"]".toList :=
    (Written.list (.item .nil .null .nil (.item hgap hnumber .nil (.lastItem hgap hhalf .nil))) :)
  have hforty := Written.number (.mk (show Digits ['4', '0'] by decide) (by decide) .none .none)
  have hmembers := Object.members (.next .nil hname hgap hgap hlist .nil
    (.next .nil (spells_word "log_level" rfl) .nil .nil quoted_warn.written hgap
    (.next hgap (spells_word "messages" rfl) .nil .nil object_spreadMessages.written .nil
    (.last .nil (spells_word "default_page_size" rfl) .nil .nil hforty .nil))))
  exact ⟨['\t'], _, ['\n'], by decide, hmembers, by decide, by decide +kernel⟩

theorem among_spreadPatch : spreadPatch.Among spreadMembers where
  pageSize := .cons rfl .nil
  messages := .cons
    ⟨_, object_spreadMessages, .cons quoted_done .nil, .nil, .nil, .nil, .nil, .nil, .nil⟩ .nil
  logLevel := .cons quoted_warn .nil

/-- The document gives a log level, so that it is read alike in every build. -/
theorem parse_patched_spread :
    IsObject spreadDocument spreadMembers ∧ spreadPatch.Among spreadMembers ∧
      (∀ b, parse b spreadDocument = .ok spreadSettings) ∧
      ∃ desk log jobs, Desk.opening spreadSettings = .ok (desk, log) ∧ desk.jobs = some jobs ∧
        jobs.state.filter.pageSize = 40 := by
  have hparse : ∀ b, parse b spreadDocument = .ok spreadSettings := fun b =>
    (((parse_patched b).1 _ _ _ isObject_spreadDocument among_spreadPatch).2.1 _).mpr
      ⟨rfl, check_eq_none_iff.mp (by decide)⟩
  obtain ⟨-, desk, log, jobs, hopening, hjobs, -, hsize⟩ :=
    (parse_patched .release).2 _ _ (hparse .release)
  exact ⟨isObject_spreadDocument, among_spreadPatch, hparse, desk, log, jobs, hopening, hjobs,
    hsize⟩

end Settings

end LiveDesk
