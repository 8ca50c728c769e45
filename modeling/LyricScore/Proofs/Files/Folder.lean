import LyricScore.Files.Folder
import LyricScore.Proofs.Outcome

/-
  This file tells what a folder is after a file was written.
  One file has changed, the one that the path leads to; and if
  the path does not climb out of folders, looking along it
  finds the bytes that were written.

  Key definitions include:
    * `Folder.Wrote`

  Key theorems include:
    * `Folder.file?_put_of_ne`
    * `Folder.wrote_of_write`
    * `Folder.look_of_write`
-/

namespace LyricScore

namespace Folder

------------------------------------------------------------
-- Files that are put
------------------------------------------------------------

theorem file?_put
    (f : Folder)
    (names : List String)
    (bytes : List UInt8) :
    (f.put names bytes).file? names = some bytes := by
  simp [file?, put]

/- A file that is put leaves the others as they are. -/
theorem file?_put_of_ne
    (f : Folder)
    {names other : List String}
    (bytes : List UInt8)
    (hOther : other ≠ names) :
    (f.put names bytes).file? other = f.file? other := by
  have hKept (files : List (List String × List UInt8)) :
      (files.filter (·.1 ≠ names)).lookup other =
        files.lookup other := by
    induction files with
    | nil =>
        rfl
    | cons file files ih =>
        by_cases hSame : file.1 = names
        · have hApart : (other == file.1) = false := by
            simp [hSame, hOther]
          rw [List.filter_cons_of_neg (by simp [hSame]), ih,
            List.lookup_cons, hApart]
        · rw [List.filter_cons_of_pos (by simp [hSame]),
            List.lookup_cons, List.lookup_cons, ih]
  have hApart : (other == names) = false := by
    simp [hOther]
  simp only [file?, put, List.lookup_cons, hApart]
  exact hKept f.files

------------------------------------------------------------
-- Files that are written
------------------------------------------------------------

/-
  The folder `g` is the folder `f` after bytes were written
  along a path.  They are the file that the path leads to, and
  every other file is as it was.  Outside of the folder nothing
  is known of them, and the folder is as it was.
-/
inductive Wrote
    (f : Folder)
    (p : Path)
    (bytes : List UInt8)
    (g : Folder) : Prop where
  | inside {names}
      (hPlace : f.place true p = .ok (.inside names))
      (hFile : g.file? names = some bytes)
      (hOthers :
        ∀ other,
          other ≠ names → g.file? other = f.file? other)
  | outside {names}
      (hPlace : f.place true p = .ok (.outside names))
      (hSame : g = f)

variable {f g : Folder}
variable {p : Path}
variable {bytes : List UInt8}

/-
  A path along which was written leads into
  the folder or out of it.
-/
theorem write_eq_ok
    (hWrite : f.write p bytes = .ok g) :
    (∃ names,
        f.place true p = .ok (.inside names) ∧
          ¬ f.HasFolder names ∧
          g = f.put names bytes) ∨
      ∃ names,
        f.place true p = .ok (.outside names) ∧ g = f := by
  simp only [write, Outcome.bind_eq_ok] at hWrite
  rcases hWrite with ⟨_, -, hWrite⟩
  split at hWrite
  · cases hWrite
  · cases hPlace : f.place true p with
    | error problem =>
        rw [hPlace] at hWrite
        cases hWrite
    | ok place =>
        cases place with
        | inside names =>
            simp only [hPlace] at hWrite
            by_cases hFolder : f.HasFolder names
            · rw [if_pos hFolder] at hWrite
              cases hWrite
            · rw [if_neg hFolder] at hWrite
              cases hWrite
              exact .inl ⟨names, rfl, hFolder, rfl⟩
        | outside names =>
            simp only [hPlace] at hWrite
            cases hWrite
            exact .inr ⟨names, rfl, rfl⟩

/-
  A folder that was written to has the file, and all others
  as they were.
-/
theorem wrote_of_write
    (hWrite : f.write p bytes = .ok g) :
    f.Wrote p bytes g := by
  rcases write_eq_ok hWrite with
    ⟨names, hPlace, -, rfl⟩ | ⟨names, hPlace, rfl⟩
  · exact .inside hPlace (f.file?_put names bytes)
      fun other => f.file?_put_of_ne bytes
  · exact .outside hPlace rfl

------------------------------------------------------------
-- Files that are found
------------------------------------------------------------

/-
  Names that do not climb lead to themselves
  if they lead anywhere.
-/
theorem walk_straight
    {making : Bool}
    {here names : List String}
    {place : Place}
    (hStraight : ".." ∉ names)
    (hWalk : f.walk making here names = .ok place) :
    place = .inside (here ++ names) := by
  induction names generalizing here with
  | nil =>
      simp only [walk, Except.ok.injEq] at hWalk
      rw [List.append_nil, hWalk]
  | cons name names ih =>
      rw [List.mem_cons, not_or] at hStraight
      have hRest
          (hThere :
            f.walk making (here ++ [name]) names =
              .ok place) :
          place = .inside (here ++ name :: names) := by
        rw [ih hStraight.2 hThere, List.append_assoc,
          List.singleton_append]
      rw [walk, if_neg (Ne.symm hStraight.1)] at hWalk
      simp only at hWalk
      split at hWalk
      · exact hRest hWalk
      · split at hWalk
        · cases hWalk
        · split at hWalk
          · exact hRest hWalk
          · cases hWalk

/-
  All folders on the way to a file are there, as the file
  itself shows.
-/
theorem walk_of_mem_files
    {here names : List String}
    (hStraight : ".." ∉ names)
    (hFile : (here ++ names, bytes) ∈ f.files) :
    f.walk false here names =
      .ok (.inside (here ++ names)) := by
  induction names generalizing here with
  | nil =>
      rw [walk, List.append_nil]
  | cons name names ih =>
      rw [List.mem_cons, not_or] at hStraight
      have hSplit :
          here ++ name :: names =
            here ++ [name] ++ names := by
        rw [List.append_assoc, List.singleton_append]
      have hThere :
          names = [] ∨ f.HasFolder (here ++ [name]) := by
        by_cases hLast : names = []
        · exact .inl hLast
        · refine .inr (.inr ⟨_, hFile, ?_, ?_⟩)
          · rw [hSplit]
            exact List.prefix_append _ names
          · rw [hSplit]
            exact fun hSame =>
              hLast (List.self_eq_append_right.mp hSame)
      rw [walk, if_neg (Ne.symm hStraight.1)]
      simp only
      rw [if_pos hThere, hSplit]
      rw [hSplit] at hFile
      exact ih hStraight.2 hFile

/-
  What was written along a path that does not
  climb is found along it.
-/
theorem look_of_write
    (hRelative : ¬ p.IsAbsolute)
    (hStraight : ".." ∉ p.names)
    (hWrite : f.write p bytes = .ok g) :
    g.look p = .file bytes := by
  have hPlace (making : Bool) (h : Folder) :
      h.place making p = h.walk making [] p.names := by
    rw [place, if_neg hRelative]
  rcases write_eq_ok hWrite with
    ⟨names, hInside, -, rfl⟩ | ⟨names, hOutside, -⟩
  · rw [hPlace] at hInside
    have hNames := walk_straight hStraight hInside
    rw [List.nil_append, Place.inside.injEq] at hNames
    subst hNames
    have hFile :
        ([] ++ p.names, bytes) ∈
          (f.put p.names bytes).files :=
      List.mem_cons_self
    rw [look, hPlace, walk_of_mem_files hStraight hFile]
    simp only [List.nil_append, entry, file?_put]
  · rw [hPlace] at hOutside
    cases walk_straight hStraight hOutside

end Folder

end LyricScore
