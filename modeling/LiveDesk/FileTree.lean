/-!
# File trees

As much of a file system as is needed to say where a log can be kept: directories, and files that
are in the way.

- `FileTree`: the directories and the files below a root.
- `FileTree.walk`: where a path leads.
- `FileTree.makeDirectory`, `FileTree.makeAll`: new directories.

A path is a text; `Path.steps` are its parts between slashes. Empty parts and dots lead nowhere, and
two dots lead one level up.
-/

namespace LiveDesk

/-- A path from the root, step by step. -/
abbrev Location := List String

/-- The directories and the files below a root, which is a directory, too. -/
structure FileTree where
  directories : List Location
  files : List Location
  deriving DecidableEq, Repr, Inhabited

/-- Why the file system refuses something. -/
inductive FileFault where
  | missing
  | taken
  | notDirectory
  | nameTooLong
  | nulCharacter
  deriving DecidableEq, Repr

namespace FileFault

/-- The text that describes a fault. -/
def description : FileFault → String
  | .missing => "No such file or directory (os error 2)"
  | .taken => "File exists (os error 17)"
  | .notDirectory => "Not a directory (os error 20)"
  | .nameTooLong => "File name too long (os error 36)"
  | .nulCharacter => "file name contained an unexpected NUL byte"

end FileFault

namespace Path

/-- A path that starts at the root. -/
def isAbsolute (path : String) : Bool :=
  path.toList.head? == some '/'

/-- The characters between slashes. -/
def split : List Char → List (List Char)
  | [] => [[]]
  | c :: cs =>
    if c = '/' then [] :: split cs
    else
      match split cs with
      | [] => [[c]]
      | part :: rest => (c :: part) :: rest

/-- The parts of a path between slashes, without the empty ones. -/
def steps (path : String) : List String :=
  ((split path.toList).filter fun part => part ≠ []).map String.ofList

/-- The parts of a path that lead somewhere. Paths from the root with the same parts are equal. -/
def parts (path : String) : List String :=
  (steps path).filter fun part => part != "."

/-- The path from the root with the given parts. -/
def ofParts (parts : List String) : String :=
  "/" ++ "/".intercalate parts

end Path

namespace FileTree

/-- A root with nothing in it. -/
def empty : FileTree := ⟨[], []⟩

/-- Whether a location is a directory. -/
def hasDirectory (t : FileTree) (l : Location) : Bool :=
  l.isEmpty || t.directories.contains l

/-- The longest name of a file, in bytes. -/
def nameLimit : Nat := 255

/-- The longest path, in bytes. -/
def pathLimit : Nat := 4095

/-- What is wrong with a path as a text, if anything. -/
def pathFault? (path : String) : Option FileFault :=
  if path.toList.contains '\x00' then some .nulCharacter
  else if pathLimit < path.utf8ByteSize then some .nameTooLong
  else none

/-- The directory to which steps lead from a directory. -/
def walk (t : FileTree) (l : Location) : List String → Except FileFault Location
  | [] => .ok l
  | "." :: rest => t.walk l rest
  | ".." :: rest => t.walk l.dropLast rest
  | name :: rest =>
    if nameLimit < name.utf8ByteSize then .error .nameTooLong
    else if t.hasDirectory (l ++ [name]) then t.walk (l ++ [name]) rest
    else if t.files.contains (l ++ [name]) then .error .notDirectory
    else .error .missing

/-- The directory at a path. -/
def directory? (t : FileTree) (path : String) : Option Location :=
  match pathFault? path with
  | some _ => none
  | none => (t.walk [] (Path.steps path)).toOption

/-- Where a new directory would be. -/
def freeLocation (t : FileTree) (steps : List String) : Except FileFault Location := do
  let parent ← t.walk [] steps.dropLast
  match steps.getLast? with
  | none | some "." | some ".." => .error .taken
  | some name =>
    let l := parent ++ [name]
    if nameLimit < name.utf8ByteSize then .error .nameTooLong
    else if t.hasDirectory l || t.files.contains l then .error .taken
    else .ok l

/-- The tree with a new directory in a directory that exists. -/
def makeDirectory (t : FileTree) (path : String) : Except FileFault FileTree :=
  match pathFault? path with
  | some f => .error f
  | none =>
    (t.freeLocation (Path.steps path)).map fun l => { t with directories := l :: t.directories }

/-- The fault, unless there is a directory at the path nevertheless. -/
def unlessDirectory (t : FileTree) (path : String) (f : FileFault) : Except FileFault Unit :=
  if (t.directory? path).isSome then .ok () else .error f

/-- Makes the directory at a path with all directories above it, given the parts of the path from
the last one on. What was made stays when a later step fails. -/
def makeAllFrom (t : FileTree) (path : String) : List String → FileTree × Except FileFault Unit
  | [] =>
    match t.makeDirectory path with
    | .ok t => (t, .ok ())
    | .error f => (t, t.unlessDirectory path f)
  | _ :: above =>
    match t.makeDirectory path with
    | .ok t => (t, .ok ())
    | .error .missing =>
      match t.makeAllFrom (Path.ofParts above.reverse) above with
      | (t, .error f) => (t, .error f)
      | (t, .ok _) =>
        match t.makeDirectory path with
        | .ok t => (t, .ok ())
        | .error f => (t, t.unlessDirectory path f)
    | .error f => (t, t.unlessDirectory path f)

/-- Makes the directory at a path from the root with all directories above it. -/
def makeAll (t : FileTree) (path : String) : FileTree × Except FileFault Unit :=
  t.makeAllFrom path (Path.parts path).reverse

end FileTree

end LiveDesk
