import LyricScore.Files.Path
import LyricScore.Text.Quoted

/-
  This file defines the folder that a program works in: its
  files, what a path leads to, and what it is after a file was
  written.  Nothing is known of what lies outside of it.

  Key definitions include:
    * `FileProblem`
    * `FileError`
    * `FileError.message`
    * `Entry`
    * `Folder`
    * `Folder.look`
    * `Folder.write`
-/

namespace LyricScore

------------------------------------------------------------
-- Errors
------------------------------------------------------------

/-
  What is wrong with a path: nothing is there,
  something is there already, a file stands in its way,
  or it leads to a folder.
-/
inductive FileProblem where
  | missing
  | exists
  | blocked
  | isFolder
deriving DecidableEq, Repr

namespace FileProblem

/- The number of a problem. -/
def code : FileProblem → Nat
  | missing => 2
  | .exists => 17
  | blocked => 20
  | isFolder => 21

/- The wording of a problem. -/
def description : FileProblem → String
  | missing => "No such file or directory"
  | .exists => "File exists"
  | blocked => "Not a directory"
  | isFolder => "Is a directory"

end FileProblem

/- A path, and what is wrong with it. -/
structure FileError where
  problem : FileProblem
  path : Path
deriving DecidableEq, Repr

namespace FileError

/- The wording of an error. -/
def message
    (e : FileError) : String :=
  "[Errno " ++ toString e.problem.code ++ "] " ++
    e.problem.description ++ ": " ++
    Quoted.quote e.path.text

end FileError

------------------------------------------------------------
-- Entries
------------------------------------------------------------

/-
  What a path leads to: a file, a folder, nothing, or nothing
  because a file stands in its way.
-/
inductive Entry where
  | file (bytes : List UInt8)
  | folder
  | missing
  | blocked
deriving DecidableEq, Repr

namespace Entry

/- Something is there. -/
def IsPresent : Entry → Prop
  | file _ | folder => True
  | missing | blocked => False

instance
    (e : Entry) :
    Decidable e.IsPresent := by
  cases e <;> unfold IsPresent <;> infer_instance

/- The bytes of what a path leads to. -/
def read
    (path : Path) : Entry → Except FileError (List UInt8)
  | file bytes => .ok bytes
  | folder => .error ⟨.isFolder, path⟩
  | missing => .error ⟨.missing, path⟩
  | blocked => .error ⟨.blocked, path⟩

end Entry

------------------------------------------------------------
-- Folders
------------------------------------------------------------

/-
  The files of a folder and of the folders in it, by the names
  that lead to them.
-/
structure Folder where
  files : List (List String × List UInt8)
deriving DecidableEq, Repr

/-
  Where names lead: to names from the folder, or out of it,
  with the names that are left then.
-/
inductive Place where
  | inside (names : List String)
  | outside (names : List String)
deriving DecidableEq, Repr

namespace Folder

/- The file that names lead to. -/
def file?
    (f : Folder)
    (names : List String) : Option (List UInt8) :=
  f.files.lookup names

/- A folder that names lead to. -/
def HasFolder
    (f : Folder)
    (names : List String) : Prop :=
  names = [] ∨
    ∃ file ∈ f.files, names <+: file.1 ∧ names ≠ file.1

instance
    (f : Folder)
    (names : List String) :
    Decidable (f.HasFolder names) := by
  unfold HasFolder
  infer_instance

/-
  Follow names from names in the folder.  A folder on the way
  that is missing counts as there if it is to be made.
-/
def walk
    (f : Folder)
    (making : Bool)
    (here : List String) :
      List String → Except FileProblem Place
  | [] => .ok (.inside here)
  | name :: rest =>
    if name = ".." then
      if here = [] then .ok (.outside rest)
      else f.walk making here.dropLast rest
    else
      let there := here ++ [name]
      if rest = [] ∨ f.HasFolder there then
        f.walk making there rest
      else if (f.file? there).isSome then .error .blocked
      else if making then f.walk making there rest
      else .error .missing

/- Where a path leads. -/
def place
    (f : Folder)
    (making : Bool)
    (p : Path) : Except FileProblem Place :=
  if p.IsAbsolute then .ok (.outside p.names)
  else f.walk making [] p.names

/- What names from the folder lead to. -/
def entry
    (f : Folder)
    (names : List String) : Entry :=
  match f.file? names with
  | some bytes => .file bytes
  | none => if f.HasFolder names then .folder else .missing

/- What a path leads to. -/
def look
    (f : Folder)
    (p : Path) : Entry :=
  match f.place false p with
  | .ok (.inside names) => f.entry names
  | .ok (.outside names) =>
      if names.all (· == "..") then .folder else .missing
  | .error .blocked => .blocked
  | .error _ => .missing

/-
  The folder with a file, which takes the place of one of
  the same names.
-/
def put
    (f : Folder)
    (names : List String)
    (bytes : List UInt8) : Folder :=
  ⟨(names, bytes) :: f.files.filter (·.1 ≠ names)⟩

/- The folders that a path leads through can be made. -/
def makeParent
    (f : Folder)
    (p : Path) : Except FileError Unit :=
  match f.place true p.parent with
  | .ok (.inside names) =>
    if (f.file? names).isSome then
      .error ⟨.exists, p.parent⟩
    else .ok ()
  | .ok (.outside _) => .ok ()
  | .error problem => .error ⟨problem, p.parent⟩

/-
  The folder after a file was written.  The folders that its
  path leads through are made.  Outside of the folder anything
  can be written.
-/
def write
    (f : Folder)
    (p : Path)
    (bytes : List UInt8) : Except FileError Folder := do
  f.makeParent p
  if p.name?.all (· == "..") then throw ⟨.isFolder, p⟩
  else
    match f.place true p with
    | .ok (.inside names) =>
      if f.HasFolder names then throw ⟨.isFolder, p⟩ else
        return f.put names bytes
    | .ok (.outside _) => return f
    | .error problem => throw ⟨problem, p⟩

end Folder

end LyricScore
