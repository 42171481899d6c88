import StateFlow.Files.Location

/-!
# Files

Files are texts under paths that start at one directory.  The directories are those that some file
lies in.  A path is walked segment by segment, so that a path through something that is not there,
or through a file, fails even if it leads back.
-/

namespace StateFlow

/-- Why a path cannot be used. -/
inductive FileFault where
  | absent
  /-- The path goes through a file. -/
  | notDirectory
  /-- The path leads to a directory where a file is needed. -/
  | isDirectory
  /-- The path leads to something that cannot be run. -/
  | denied
  /-- The path holds a zero character. -/
  | zeroInPath
  /-- A program is given a zero character. -/
  | zeroInCommand
  /-- What went wrong is known from outside. -/
  | other (message : String)
deriving DecidableEq, Repr, Inhabited

namespace FileFault

/-- The text of a fault. -/
def message : FileFault → String
  | absent => "No such file or directory (os error 2)"
  | notDirectory => "Not a directory (os error 20)"
  | isDirectory => "Is a directory (os error 21)"
  | denied => "Permission denied (os error 13)"
  | zeroInPath => "file name contained an unexpected NUL byte"
  | zeroInCommand => "nul byte found in provided data"
  | other message => message

end FileFault

/-- A directory: its path from the root, or from where the files start. -/
structure Directory where
  absolute : Bool
  names : List String
deriving DecidableEq, Repr, Inhabited

/-- What a path leads to. -/
inductive Place where
  | file (text : String)
  | directory (directory : Directory)
deriving Repr, Inhabited

/-- Texts under relative paths. -/
structure Files where
  texts : List (List String × String)
deriving Repr, Inhabited

namespace Files

/-- No files. -/
def none : Files := ⟨[]⟩

/-- Files under paths as they are written. -/
def ofPaths (files : List (String × String)) : Files :=
  ⟨files.map fun (path, text) =>
    (((Location.segments path.toList).map String.ofList).filter fun s => s ≠ "" ∧ s ≠ ".", text)⟩

/-- Where the files start. -/
def top : Directory := ⟨false, []⟩

/-- Directories that every system has. -/
def systemDirectories : List (List String) :=
  [[], ["bin"], ["dev"], ["etc"], ["home"], ["proc"], ["root"], ["sys"], ["tmp"], ["usr"],
    ["usr", "bin"], ["usr", "lib"], ["usr", "local"], ["var"]]

/-- The entry of a directory of the system. -/
def systemEntry (names : List String) : Except FileFault Place :=
  if names = ["dev", "null"] then .ok (.file "")
  else if names ∈ systemDirectories then .ok (.directory ⟨true, names⟩)
  else .error .absent

/-- The entry of a directory where the files are. -/
def entry (files : Files) (names : List String) : Except FileFault Place :=
  match files.texts.find? (·.1 = names) with
  | some (_, text) => .ok (.file text)
  | _ =>
    if files.texts.any fun f => names.isPrefixOf f.1 then .ok (.directory ⟨false, names⟩)
    else .error .absent

/-- One segment further. -/
def step (files : Files) : Place → String → Except FileFault Place
  | .file _, _ => .error .notDirectory
  | .directory d, segment =>
    if segment = "" ∨ segment = "." then .ok (.directory d)
    else if segment = ".." then .ok (.directory { d with names := d.names.dropLast })
    else if d.absolute then systemEntry (d.names ++ [segment])
    else entry files (d.names ++ [segment])

/-- What a path leads to from a directory. -/
def locate (files : Files) (start : Directory) (path : String) : Except FileFault Place :=
  if path.toList.contains '\x00' then .error .zeroInPath
  else if path = "" then .error .absent
  else
    let start := if Location.isAbsolute path then ⟨true, []⟩ else start
    ((Location.segments path.toList).map String.ofList).foldlM (step files) (.directory start)

/-- The text of a file. -/
def read (files : Files) (start : Directory) (path : String) : Except FileFault String :=
  match files.locate start path with
  | .ok (.file text) => .ok text
  | .ok (.directory _) => .error .isDirectory
  | .error fault => .error fault

/-- A directory. -/
def enter (files : Files) (start : Directory) (path : String) : Except FileFault Directory :=
  match files.locate start path with
  | .ok (.directory d) => .ok d
  | .ok (.file _) => .error .notDirectory
  | .error fault => .error fault

end Files

end StateFlow
