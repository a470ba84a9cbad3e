import LiveDesk.Journal

/-!
# One log a process

A log is started over and over, with any texts, on files that may have changed in between. **The
first start that succeeds decides for all others** (`started_once`): until then a start that fails
leaves no trace in the configuration, and from then on every start is only compared with it.

- `Path.parts_slash`, `Path.parts_name`: what the parts of a path are, whatever slashes it has.
- `Names`, `Call.Asks`, `Call.Refused`: the level and the directory that the texts of a start stand
  for, and what is wrong with them otherwise.
- `Call.Establishes`, `First`: the start that decides.
- `Judged`: the answer to a start of a log that is kept already, by the first thing that is wrong.
- `meet_of_judged`, `meet_of_none`: one start.
- `after_of_some`, `after_of_none`: any number of them.
-/

namespace LiveDesk

/-! ## Parts of paths -/

namespace Path

/-- There is always a first part, which may be empty. -/
theorem split_ne_nil (cs : List Char) : split cs ≠ [] := by
  cases cs with
  | nil => simp [split]
  | cons c cs =>
    rw [split]
    split
    · simp
    · split <;> simp

/-- A path is split at each of its slashes. -/
theorem split_append_slash (cs ds : List Char) :
    split (cs ++ '/' :: ds) = split cs ++ split ds := by
  induction cs with
  | nil => simp [split]
  | cons c cs ih =>
    by_cases hc : c = '/'
    · simp [split, hc, ih]
    · obtain ⟨part, rest, h⟩ := List.exists_cons_of_ne_nil (split_ne_nil cs)
      simp [split, hc, ih, h]

/-- A path without a slash is one part. -/
theorem split_of_notMem {cs : List Char} (h : '/' ∉ cs) : split cs = [cs] := by
  induction cs with
  | nil => rfl
  | cons c cs ih =>
    obtain ⟨hc, hcs⟩ := not_or.mp (mt List.mem_cons.mpr h)
    simp [split, Ne.symm hc, ih hcs]

/-- The parts on both sides of a slash stand for themselves. -/
theorem parts_slash (path rest : String) :
    parts (path ++ "/" ++ rest) = parts path ++ parts rest := by
  have h : (path ++ "/" ++ rest).toList = path.toList ++ '/' :: rest.toList := by simp
  simp only [parts, steps, h, split_append_slash, List.filter_append, List.map_append]

/-- Without a slash, a text is one part, except for the empty text and the dot. -/
theorem parts_name {name : String} (h : '/' ∉ name.toList) :
    parts name = if name = "" ∨ name = "." then [] else [name] := by
  by_cases hempty : name = ""
  · subst hempty
    rfl
  · have hne : name.toList ≠ [] := fun h => hempty (String.toList_injective (h.trans rfl))
    have hsteps : steps name = [name] := by simp [steps, split_of_notMem h, hne]
    rw [parts, hsteps]
    by_cases hdot : name = "." <;> simp [hempty, hdot]

end Path

namespace Journal

/-! ## What a start asks for -/

/-- A start that is asked for, and the files as they are then. -/
structure Call where
  files : FileTree
  level : String
  path : String

/-- A text names a level: in letters of either case and with white space around it. The level for
warnings has a longer name, too. -/
inductive Names (text : String) : LogLevel → Prop where
  | name {level : LogLevel} : Text.lowerAscii (Text.trim text) = level.name → Names text level
  | synonym : Text.lowerAscii (Text.trim text) = "warning" → Names text .warn

/-- A start asks for a site: its level is named, and its directory is given by a path from the root
with white space around it. -/
structure Call.Asks (c : Call) (site : JournalSite) : Prop where
  level : Names c.level site.level
  directory : site.directory = Text.trim c.path
  absolute : Path.isAbsolute site.directory = true

/-- A start establishes a site that it asks for if the directory can be made. -/
def Call.Establishes (c : Call) (site : JournalSite) : Prop :=
  c.Asks site ∧ (c.files.makeAll site.directory).2 = .ok ()

/-- The first of the starts that establishes any site establishes this one. -/
def First (calls : List Call) (site : JournalSite) : Prop :=
  ∃ before c behind, calls = before ++ c :: behind ∧
    (∀ earlier ∈ before, ∀ other, ¬ earlier.Establishes other) ∧ c.Establishes site

/-- A start is refused for its texts: first for an unknown level, then for a directory that is blank
or not given from the root. -/
inductive Call.Refused (c : Call) : JournalError → Prop where
  | unsupported : (∀ level, ¬ Names c.level level) →
    c.Refused (.unsupportedLevel (Text.lowerAscii (Text.trim c.level)))
  | blank {level : LogLevel} : Names c.level level → Text.trim c.path = "" →
    c.Refused (.invalidDirectory .blank)
  | relative {level : LogLevel} : Names c.level level → Text.trim c.path ≠ "" →
    Path.isAbsolute (Text.trim c.path) = false →
    c.Refused (.invalidDirectory (.relative (Text.trim c.path)))

/-- The answer to a start when the log is kept at a site: what is wrong with its texts comes before
another directory, and another directory before another level. -/
inductive Judged (active : JournalSite) (c : Call) : Except JournalError Unit → Prop where
  | refused {e : JournalError} : c.Refused e → Judged active c (.error e)
  | otherDirectory {site : JournalSite} : c.Asks site →
    Path.parts active.directory ≠ Path.parts site.directory →
    Judged active c (.error (.conflict (.directory active.directory site.directory)))
  | otherLevel {site : JournalSite} : c.Asks site →
    Path.parts active.directory = Path.parts site.directory → active.level ≠ site.level →
    Judged active c (.error (.conflict (.level active.level site.level)))
  | same {site : JournalSite} : c.Asks site →
    Path.parts active.directory = Path.parts site.directory → active.level = site.level →
    Judged active c (.ok ())

/-- The log after a start on the files as they are then. -/
def meet (j : Journal) (c : Call) : Journal × Except JournalError Unit :=
  ({ j with files := c.files } : Journal).start c.level c.path

/-- The log after starts, one after the other. -/
def after (j : Journal) (calls : List Call) : Journal :=
  calls.foldl (fun j c => (j.meet c).1) j

/-- The log of a process in which it is started in these ways. -/
def ofCalls (files : FileTree) (calls : List Call) : Journal :=
  (silent files).after calls

/-- Levels have different names. -/
theorem name_injective {level other : LogLevel} (h : level.name = other.name) : level = other := by
  cases level <;> cases other <;> first | rfl | exact absurd h (by decide)

theorem name_ne_warning (level : LogLevel) : level.name ≠ "warning" := by
  cases level <;> decide

theorem mem_all (level : LogLevel) : level ∈ LogLevel.all := by
  cases level <;> decide

/-- A text names one level at most. -/
theorem Names.unique {text : String} {level other : LogLevel} (h : Names text level)
    (h' : Names text other) : level = other := by
  cases h with
  | name h =>
    cases h' with
    | name h' => exact name_injective (h.symm.trans h')
    | synonym h' => exact absurd (h.symm.trans h') (name_ne_warning level)
  | synonym h =>
    cases h' with
    | name h' => exact absurd (h'.symm.trans h) (name_ne_warning other)
    | synonym => rfl

/-- A text that names a level is read as this level. -/
theorem levelOf_of_names {text : String} {level : LogLevel} (h : Names text level) :
    levelOf text = .ok level := by
  simp only [levelOf]
  split
  next found hfound =>
    have hname := List.find?_some hfound
    simp only [decide_eq_true_eq] at hname
    exact congrArg _ (Names.unique (.name hname.symm) h)
  next hnone =>
    cases h with
    | name h =>
      have hother := List.find?_eq_none.mp hnone level (mem_all level)
      exact absurd h.symm (by simpa using hother)
    | synonym h => rw [if_pos h]

/-- A text that names no level is refused, trimmed and in small letters. -/
theorem levelOf_of_forall_not {text : String} (h : ∀ level, ¬ Names text level) :
    levelOf text = .error (.unsupportedLevel (Text.lowerAscii (Text.trim text))) := by
  simp only [levelOf]
  split
  next found hfound =>
    have hname := List.find?_some hfound
    simp only [decide_eq_true_eq] at hname
    exact absurd (.name hname.symm) (h found)
  next => rw [if_neg fun hw => h .warn (.synonym hw)]

/-! ## One start -/

variable {j : Journal} {c : Call} {site active : JournalSite}

/-- A call asks for a site, or it is refused. -/
theorem Call.asks_or_refused (c : Call) : (∃ site, c.Asks site) ∨ ∃ e, c.Refused e := by
  by_cases hlevel : ∃ level, Names c.level level
  · obtain ⟨level, hlevel⟩ := hlevel
    by_cases hblank : Text.trim c.path = ""
    · exact .inr ⟨_, .blank hlevel hblank⟩
    · cases habs : Path.isAbsolute (Text.trim c.path) with
      | true => exact .inl ⟨⟨level, Text.trim c.path⟩, hlevel, rfl, habs⟩
      | false => exact .inr ⟨_, .relative hlevel hblank habs⟩
  · exact .inr ⟨_, .unsupported (not_exists.mp hlevel)⟩

/-- A call asks for one site. -/
theorem Call.Asks.unique {other : JournalSite} (h : c.Asks site) (h' : c.Asks other) :
    site = other := by
  obtain ⟨level, directory⟩ := site
  obtain ⟨level', directory'⟩ := other
  obtain rfl : level = level' := h.level.unique h'.level
  obtain rfl : directory = directory' := h.directory.trans h'.directory.symm
  rfl

/-- A call that is refused asks for no site. -/
theorem Call.Refused.not_asks {e : JournalError} (h : c.Refused e) : ¬ c.Asks site := by
  intro hasks
  have habs := hasks.absolute
  rw [hasks.directory] at habs
  cases h with
  | unsupported h => exact h _ hasks.level
  | blank _ h => simp [h, Path.isAbsolute] at habs
  | relative _ _ h => simp [h] at habs

/-- A call that asks for a site starts the journal there, unless it is started. -/
theorem meet_of_asks (j : Journal) (h : c.Asks site) :
    j.meet c = ({ j with files := c.files } : Journal).startAt site := by
  obtain ⟨level, directory⟩ := site
  obtain ⟨hlevel, hdirectory, habs⟩ := h
  obtain rfl : directory = Text.trim c.path := hdirectory
  have hne : Text.trim c.path ≠ "" := fun h => by simp [h, Path.isAbsolute] at habs
  simp only at habs
  simp [meet, start, levelOf_of_names hlevel, pathOf, hne, habs]

/-- A call that is refused leaves the journal as it is. -/
theorem meet_of_refused (j : Journal) {e : JournalError} (h : c.Refused e) :
    j.meet c = ({ j with files := c.files }, .error e) := by
  cases h with
  | unsupported h => simp [meet, start, levelOf_of_forall_not h]
  | blank hlevel h => simp [meet, start, levelOf_of_names hlevel, pathOf, h]
  | relative hlevel h habs => simp [meet, start, levelOf_of_names hlevel, pathOf, h, habs]

/-- Every call to a started journal is judged. -/
theorem exists_judged (active : JournalSite) (c : Call) : ∃ r, Judged active c r := by
  rcases c.asks_or_refused with ⟨site, hasks⟩ | ⟨e, hrefused⟩
  · by_cases hparts : Path.parts active.directory = Path.parts site.directory
    · by_cases hlevel : active.level = site.level
      · exact ⟨_, .same hasks hparts hlevel⟩
      · exact ⟨_, .otherLevel hasks hparts hlevel⟩
    · exact ⟨_, .otherDirectory hasks hparts⟩
  · exact ⟨_, .refused hrefused⟩

/-- A log that is kept already stays as it is, whatever it is asked for. -/
theorem meet_of_judged {r : Except JournalError Unit} (h : j.site = some active)
    (hr : Judged active c r) : j.meet c = ({ j with files := c.files }, r) := by
  cases hr with
  | refused hrefused => exact meet_of_refused j hrefused
  | otherDirectory hasks hparts => simp [meet_of_asks j hasks, startAt, h, conflict?, hparts]
  | otherLevel hasks hparts hlevel =>
    simp [meet_of_asks j hasks, startAt, h, conflict?, hparts, hlevel]
  | same hasks hparts hlevel =>
    simp [meet_of_asks j hasks, startAt, h, conflict?, hparts, hlevel]

/-- The answer is the one for what is wrong first. -/
theorem meet_eq_iff (h : j.site = some active) (r : Except JournalError Unit) :
    (j.meet c).2 = r ↔ Judged active c r := by
  obtain ⟨r', hr'⟩ := exists_judged active c
  constructor
  · rintro rfl
    simpa only [meet_of_judged h hr'] using hr'
  · intro hr
    rw [meet_of_judged h hr]

/-- A call to a started journal agrees with it if it asks for its level and its directory. -/
theorem Judged.ok_iff : Judged active c (.ok ()) ↔ ∃ site, c.Asks site ∧
    site.level = active.level ∧ Path.parts site.directory = Path.parts active.directory := by
  constructor
  · intro h
    cases h with
    | same hasks hparts hlevel => exact ⟨_, hasks, hlevel.symm, hparts.symm⟩
  · rintro ⟨site, hasks, hlevel, hparts⟩
    exact .same hasks hparts.symm hlevel.symm

/-- What is recorded does not move the journal. -/
@[simp] theorem record_site (j : Journal) (e : LogEntry) : (j.record e).site = j.site := by
  simp only [record, write]
  split <;> rfl

/-- A log that is not kept yet is kept after a start that establishes a site, and the start says so;
after every other start it is still not kept. -/
theorem meet_of_none (h : j.site = none) :
    (∀ site, (j.meet c).1.site = some site ↔ c.Establishes site) ∧
      ((j.meet c).2 = .ok () ↔ ∃ site, c.Establishes site) := by
  rcases c.asks_or_refused with ⟨site, hasks⟩ | ⟨e, hrefused⟩
  · have hsite : ∀ other, c.Establishes other ↔
        site = other ∧ (c.files.makeAll site.directory).2 = .ok () := fun other =>
      ⟨fun ⟨hother, hmade⟩ => ⟨hasks.unique hother, hasks.unique hother ▸ hmade⟩,
        fun ⟨hother, hmade⟩ => hother ▸ ⟨hasks, hmade⟩⟩
    rw [meet_of_asks j hasks]
    rcases hmade : c.files.makeAll site.directory with ⟨files, _ | _⟩ <;>
      simp [startAt, h, hmade, hsite]
  · have hnone : ∀ site, ¬ c.Establishes site := fun site hsite => hrefused.not_asks hsite.1
    simp [meet_of_refused j hrefused, h, hnone]

/-! ## All starts of a process -/

@[simp] theorem after_nil (j : Journal) : j.after [] = j := rfl

@[simp] theorem after_cons (j : Journal) (c : Call) (calls : List Call) :
    j.after (c :: calls) = (j.meet c).1.after calls := by
  simp only [after, List.foldl_cons]

theorem after_append (j : Journal) (calls more : List Call) :
    j.after (calls ++ more) = (j.after calls).after more := by
  simp [after]

/-- The configuration of a log that is kept never changes. -/
theorem after_of_some (h : j.site = some active) (calls : List Call) :
    (j.after calls).site = some active := by
  induction calls generalizing j with
  | nil => exact h
  | cons c calls ih =>
    obtain ⟨r, hr⟩ := exists_judged active c
    rw [after_cons, meet_of_judged h hr]
    exact ih h

/-- A log that was not kept at first is kept at the site of the first start that establishes one. -/
theorem after_of_none (h : j.site = none) (calls : List Call) :
    (j.after calls).site = some site ↔ First calls site := by
  induction calls generalizing j with
  | nil => simp [First, h]
  | cons c calls ih =>
    rw [after_cons]
    by_cases hc : ∃ first, c.Establishes first
    · obtain ⟨first, hfirst⟩ := hc
      have hsite := ((meet_of_none h).1 first).mpr hfirst
      -- once there is a site it stays, so the first start of the list decides
      rw [after_of_some hsite]
      constructor
      · rintro ⟨⟩
        exact ⟨[], c, calls, rfl, by simp, hfirst⟩
      · rintro ⟨before, d, behind, heq, hbefore, hd⟩
        cases before with
        | nil =>
          obtain ⟨rfl, -⟩ := List.cons.inj heq
          rw [hfirst.1.unique hd.1]
        | cons d' before =>
          obtain ⟨rfl, -⟩ := List.cons.inj heq
          exact absurd hfirst (hbefore c (by simp) first)
    · have hnone : (j.meet c).1.site = none := by
        cases hsite : (j.meet c).1.site with
        | none => rfl
        | some first => exact absurd ⟨first, ((meet_of_none h).1 first).mp hsite⟩ hc
      rw [ih hnone]
      constructor
      · rintro ⟨before, d, behind, rfl, hbefore, hd⟩
        refine ⟨c :: before, d, behind, rfl, ?_, hd⟩
        exact List.forall_mem_cons.mpr ⟨fun other ho => hc ⟨other, ho⟩, hbefore⟩
      · rintro ⟨before, d, behind, heq, hbefore, hd⟩
        cases before with
        | nil =>
          obtain ⟨rfl, -⟩ := List.cons.inj heq
          exact absurd ⟨site, hd⟩ hc
        | cons d' before =>
          obtain ⟨rfl, rfl⟩ := List.cons.inj heq
          exact ⟨before, d, behind, rfl, (List.forall_mem_cons.mp hbefore).2, hd⟩

/-- **A process keeps one log.** Whatever is asked for, and whatever the files are at each start:
the log is kept at the site of the first start whose level is known, whose directory is given from
the root, and whose directory can be made. From then on nothing changes the configuration, no file
is touched and no line written; a start is judged by the first thing that is wrong with it, and it
succeeds exactly if it asks for the same level and the same directory, part by part. Before that, a
start that fails leaves the log as unstarted as it was. -/
theorem started_once (files : FileTree) (calls : List Call) :
    (∀ site, (ofCalls files calls).site = some site ↔ First calls site) ∧
    (∀ active, (ofCalls files calls).site = some active →
      (∀ more, ((ofCalls files calls).after more).site = some active) ∧
      ∀ c, ((ofCalls files calls).meet c).1 = { ofCalls files calls with files := c.files } ∧
        (∀ r, ((ofCalls files calls).meet c).2 = r ↔ Judged active c r) ∧
        (((ofCalls files calls).meet c).2 = .ok () ↔ ∃ site, c.Asks site ∧
          site.level = active.level ∧
          Path.parts site.directory = Path.parts active.directory)) ∧
    ((ofCalls files calls).site = none → ∀ c,
      (∀ site, ((ofCalls files calls).meet c).1.site = some site ↔ c.Establishes site) ∧
      (((ofCalls files calls).meet c).2 = .ok () ↔ ∃ site, c.Establishes site)) ∧
    (∀ path rest, Path.parts (path ++ "/" ++ rest) = Path.parts path ++ Path.parts rest) ∧
    ∀ name : String, '/' ∉ name.toList →
      Path.parts name = if name = "" ∨ name = "." then [] else [name] := by
  refine ⟨fun site => after_of_none rfl calls, fun active h => ⟨after_of_some h, fun c => ?_⟩,
    fun h c => meet_of_none h, Path.parts_slash, fun name => Path.parts_name⟩
  obtain ⟨r, hr⟩ := exists_judged active c
  refine ⟨?_, meet_eq_iff h, ?_⟩
  · rw [meet_of_judged h hr]
  · rw [meet_eq_iff h, Judged.ok_iff]

/-- A file is in the way of the first directory, and the last start asks for another level. -/
example :
    (ofCalls .empty [⟨⟨[], [["log"]]⟩, "info", "/log"⟩, ⟨.empty, " Warning ", "/log/desk/"⟩,
      ⟨.empty, "info", "/log//desk"⟩]).site = some ⟨.warn, "/log/desk/"⟩ := by
  decide +kernel

end Journal

end LiveDesk
