import Mathlib.Data.List.Nodup
import ContractAbi.Files.System
import ContractAbi.Proofs.Files.Path

/-!
# What writing does to a file system

Putting something at a place changes that place only. A file that is written takes no directory
away, so that every path leads where it led (`Keeps`). Writing a file into a directory is putting it
at one more name behind the place of the directory (`write_join_eq_ok_iff`), where it is read back
(`read_join`). Making directories puts directories where nothing was (`Grows`).
-/

namespace ContractAbi.FileSystem

variable {fs before after : FileSystem} {place other : List String} {node : FileNode}

/-! ### Putting something at a place -/

/-- An entry is found where it was put, and all others are where they were. -/
theorem find?_putEntry (place other : List String) (node : FileNode)
    (entries : List (List String × FileNode)) :
    (putEntry place node entries).find? (·.1 == other) =
      if place = other then some (place, node) else entries.find? (·.1 == other) := by
  induction entries with
  | nil => by_cases same : place = other <;> simp [putEntry, same]
  | cons e es ih =>
    rw [putEntry]
    by_cases here : e.1 = place
    · rw [if_pos here]
      by_cases same : place = other
      · simp [same]
      · simp [same, here]
    · rw [if_neg here]
      by_cases found : e.1 = other
      · have different : place ≠ other := fun same => here (found.trans same.symm)
        simp [found, different]
      · simp [found, ih]

theorem node?_put_self (named : place ≠ []) : (fs.put place node).node? place = some node := by
  simp [node?, put, named, find?_putEntry]

theorem node?_put_of_ne (different : other ≠ place) :
    (fs.put place node).node? other = fs.node? other := by
  simp [node?, put, find?_putEntry, Ne.symm different]

/-! ### Paths that stay -/

theorem bind_eq_ok_iff {α β : Type} {first : Except FileError α} {rest : α → Except FileError β}
    {b : β} : first >>= rest = .ok b ↔ ∃ a, first = .ok a ∧ rest a = .ok b := by
  cases first with
  | error e => simp [bind, Except.bind]
  | ok a => simp [bind, Except.bind]

theorem walk_cons_eq_ok {name : String} {names : List String} :
    fs.walk place (name :: names) = .ok other ↔ ∃ next, fs.step place name = .ok next ∧
      (fs.node? next).isSome = true ∧ fs.walk next names = .ok other := by
  rw [walk, bind_eq_ok_iff]
  refine exists_congr fun next => and_congr_right fun _ => ?_
  cases fs.node? next with
  | none => exact ⟨nofun, fun there => nomatch there.1⟩
  | some node => exact ⟨fun walk => ⟨rfl, walk⟩, And.right⟩

theorem walk_append {names more : List String} {between : List String}
    (walk : fs.walk place names = .ok between) (further : fs.walk between more = .ok other) :
    fs.walk place (names ++ more) = .ok other := by
  induction names generalizing place with
  | nil =>
    cases walk
    exact further
  | cons name names ih =>
    obtain ⟨next, step, there, rest⟩ := walk_cons_eq_ok.mp walk
    exact walk_cons_eq_ok.mpr ⟨next, step, there, ih rest⟩

/-- Nothing is taken away, and the directories are the same. -/
structure Keeps (before after : FileSystem) : Prop where
  workingDirectory : after.workingDirectory = before.workingDirectory
  isDirectoryAt : ∀ place, after.isDirectoryAt place = before.isDirectoryAt place
  isSome : ∀ place, (before.node? place).isSome = true → (after.node? place).isSome = true

namespace Keeps

theorem refl (fs : FileSystem) : Keeps fs fs := ⟨rfl, fun _ => rfl, fun _ => id⟩

theorem trans {between : FileSystem} (first : Keeps before between) (second : Keeps between after) :
    Keeps before after where
  workingDirectory := second.workingDirectory.trans first.workingDirectory
  isDirectoryAt place := (second.isDirectoryAt place).trans (first.isDirectoryAt place)
  isSome place there := second.isSome place (first.isSome place there)

theorem startOf_eq (keeps : Keeps before after) (path : String) :
    after.startOf path = before.startOf path := by
  rw [startOf, startOf, keeps.workingDirectory]

theorem step_eq (keeps : Keeps before after) (place : List String) (name : String) :
    after.step place name = before.step place name := by
  rw [step, step, keeps.isDirectoryAt]

theorem walk_eq_ok (keeps : Keeps before after) {names : List String}
    (walk : before.walk place names = .ok other) : after.walk place names = .ok other := by
  induction names generalizing place with
  | nil => exact walk
  | cons name names ih =>
    obtain ⟨next, step, there, rest⟩ := walk_cons_eq_ok.mp walk
    rw [← keeps.step_eq] at step
    exact walk_cons_eq_ok.mpr ⟨next, step, keeps.isSome next there, ih rest⟩

/-- A file is no directory, before it is written and after. -/
theorem put (named : place ≠ []) (noDirectory : fs.isDirectoryAt place = false) (text : String) :
    Keeps fs (fs.put place (.file text)) where
  workingDirectory := rfl
  isDirectoryAt other := by
    by_cases same : other = place
    · rw [same, noDirectory, FileSystem.isDirectoryAt, node?_put_self named]
      rfl
    · rw [FileSystem.isDirectoryAt, FileSystem.isDirectoryAt, node?_put_of_ne same]
  isSome other there := by
    by_cases same : other = place
    · rw [same, node?_put_self named]
      rfl
    · rwa [node?_put_of_ne same]

end Keeps

/-! ### Files in a directory -/

/-- A name that a file can have. -/
structure IsFileName (name : String) : Prop extends Path.IsPiece name where
  notHere : name ≠ "."
  notAbove : name ≠ ".."

variable {directory name text : String}

/-- A step leads into a directory, to a name that is not too long. -/
theorem step_eq_ok_iff (file : IsFileName name) : fs.step place name = .ok other ↔
    fs.isDirectoryAt place = true ∧ name.utf8ByteSize ≤ maxName ∧ other = place ++ [name] := by
  rw [step]
  cases fs.isDirectoryAt place with
  | false => simp
  | true =>
    by_cases short : name.utf8ByteSize ≤ maxName
    · simp [file.notHere, file.notAbove, short, Nat.not_lt.mpr short, eq_comm]
    · simp [file.notHere, file.notAbove, short, Nat.not_le.mp short]

/-- What it takes to write a file into a directory that a path leads to, whatever the text. -/
structure Admits (fs : FileSystem) (directory name : String) (place : List String) : Prop where
  path : checkPath (Path.join directory name) = .ok ()
  walk : fs.walk (fs.startOf directory) (Path.names directory) = .ok place
  isDirectory : fs.isDirectoryAt place = true
  short : name.utf8ByteSize ≤ maxName
  noDirectory : fs.isDirectoryAt (place ++ [name]) = false

theorem startOf_join (file : IsFileName name) :
    fs.startOf (Path.join directory name) = fs.startOf directory := by
  rw [startOf, startOf, Path.isAbsolute_join file.toIsPiece]

theorem locateNew_join_eq_ok_iff (file : IsFileName name) {last : Option String} :
    fs.locateNew (Path.join directory name) = .ok (last, other) ↔
      checkPath (Path.join directory name) = .ok () ∧ ∃ place,
        fs.walk (fs.startOf directory) (Path.names directory) = .ok place ∧
        fs.isDirectoryAt place = true ∧ name.utf8ByteSize ≤ maxName ∧
        last = some name ∧ other = place ++ [name] := by
  simp only [locateNew, Path.names_join file.toIsPiece, startOf_join file, List.reverse_append,
    List.reverse_singleton, List.singleton_append, List.reverse_reverse, bind_eq_ok_iff,
    step_eq_ok_iff file, file.notHere, file.notAbove, or_self, if_false]
  constructor
  · rintro ⟨⟨⟩, path, place, walk, next, ⟨isDirectory, short, rfl⟩, found⟩
    cases found
    exact ⟨path, place, walk, isDirectory, short, rfl, rfl⟩
  · rintro ⟨path, place, walk, isDirectory, short, rfl, rfl⟩
    exact ⟨(), path, place, walk, _, ⟨isDirectory, short, rfl⟩, rfl⟩

/-- A file is written where the directory admits its name, and nothing else changes. -/
theorem write_join_eq_ok_iff (file : IsFileName name) :
    fs.write (Path.join directory name) text = .ok after ↔ ∃ place,
      fs.Admits directory name place ∧ after = fs.put (place ++ [name]) (.file text) := by
  rw [write, bind_eq_ok_iff]
  constructor
  · rintro ⟨⟨last, other⟩, found, put⟩
    obtain ⟨path, place, walk, isDirectory, short, rfl, rfl⟩ :=
      (locateNew_join_eq_ok_iff file).mp found
    by_cases inTheWay : fs.isDirectoryAt (place ++ [name]) = true
    · simp only [inTheWay, or_true, if_true] at put
      cases put
    · simp only [inTheWay, Path.endsInSlash_join file.toIsPiece, Option.isNone_some,
        Bool.false_eq_true, or_false, if_false] at put
      cases put
      exact ⟨place, ⟨path, walk, isDirectory, short, by simpa using inTheWay⟩, rfl⟩
  · rintro ⟨place, admits, rfl⟩
    refine ⟨(some name, place ++ [name]), (locateNew_join_eq_ok_iff file).mpr
      ⟨admits.path, place, admits.walk, admits.isDirectory, admits.short, rfl, rfl⟩, ?_⟩
    simp [admits.noDirectory, Path.endsInSlash_join file.toIsPiece]
    rfl

theorem Keeps.admits (keeps : Keeps before after) (admits : before.Admits directory name place) :
    after.Admits directory name place where
  path := admits.path
  walk := by
    rw [keeps.startOf_eq]
    exact keeps.walk_eq_ok admits.walk
  isDirectory := by rw [keeps.isDirectoryAt, admits.isDirectory]
  short := admits.short
  noDirectory := by rw [keeps.isDirectoryAt, admits.noDirectory]

/-- What is written is read again. -/
theorem read_join (file : IsFileName name) (admits : fs.Admits directory name place)
    (written : fs.node? (place ++ [name]) = some (.file text)) :
    fs.read (Path.join directory name) = .ok text := by
  have there : (fs.node? (place ++ [name])).isSome = true := by rw [written]; rfl
  have walk : fs.walk (fs.startOf directory) (Path.names directory ++ [name]) =
      .ok (place ++ [name]) := by
    have last : fs.walk place [name] = .ok (place ++ [name]) :=
      walk_cons_eq_ok.mpr ⟨_, (step_eq_ok_iff file).mpr ⟨admits.isDirectory, admits.short, rfl⟩,
        there, rfl⟩
    exact walk_append admits.walk last
  have found : fs.locate (Path.join directory name) = .ok (place ++ [name]) := by
    rw [locate, Path.names_join file.toIsPiece, startOf_join file,
      Path.endsInSlash_join file.toIsPiece]
    exact bind_eq_ok_iff.mpr ⟨(), admits.path, by simpa using walk⟩
  rw [read, bind_eq_ok_iff]
  refine ⟨_, found, ?_⟩
  rw [written]
  rfl

/-! ### Operations on the state -/

section

variable {path : String}

theorem run_write_of_ok (written : fs.write path text = .ok after) :
    (access.write path text).run fs = (.ok (), after) := by
  simp only [access, StateT.run, written]

theorem run_make_of_ok (made : fs.makeOne path = .ok after) :
    (access.make path).run fs = (.ok (), after) := by
  simp only [access, StateT.run, made]

theorem run_make_of_error {e : FileError} (failed : fs.makeOne path = .error e) :
    (access.make path).run fs = (.error e, fs) := by
  simp only [access, StateT.run, failed]

end

/-! ### Making directories -/

/-- Directories are made where nothing was. -/
structure Grows (before after : FileSystem) : Prop where
  workingDirectory : after.workingDirectory = before.workingDirectory
  node? : ∀ place, after.node? place = before.node? place ∨
    before.node? place = none ∧ after.node? place = some .directory

namespace Grows

theorem refl (fs : FileSystem) : Grows fs fs := ⟨rfl, fun _ => .inl rfl⟩

theorem trans {between : FileSystem} (first : Grows before between) (second : Grows between after) :
    Grows before after where
  workingDirectory := second.workingDirectory.trans first.workingDirectory
  node? place := by
    rcases first.node? place with same | ⟨nothing, directory⟩
    · rw [← same]
      exact second.node? place
    · right
      rcases second.node? place with same | ⟨unmade, -⟩
      · exact ⟨nothing, same.trans directory⟩
      · rw [directory] at unmade
        cases unmade

theorem makeOne (path : String) (made : fs.makeOne path = .ok after) : Grows fs after := by
  rw [FileSystem.makeOne, bind_eq_ok_iff] at made
  obtain ⟨⟨last, place⟩, -, put⟩ := made
  by_cases taken : last.isNone = true ∨ (fs.node? place).isSome = true
  · simp only [taken, if_true] at put
    cases put
  · simp only [taken, if_false] at put
    cases put
    simp only [not_or, Option.isSome_iff_ne_none, ne_eq, not_not] at taken
    refine ⟨rfl, fun other => ?_⟩
    by_cases same : other = place
    · right
      have named : place ≠ [] := by
        rintro rfl
        cases taken.2
      rw [same]
      exact ⟨taken.2, node?_put_self named⟩
    · left
      exact node?_put_of_ne same

theorem make (path : String) (fs : FileSystem) : Grows fs ((access.make path).run fs).2 := by
  cases made : fs.makeOne path with
  | ok after =>
    rw [run_make_of_ok made]
    exact makeOne path made
  | error e =>
    rw [run_make_of_error made]
    exact refl fs

theorem makeIfNew (path : String) (fs : FileSystem) :
    Grows fs ((access.makeIfNew path).run fs).2 := by
  have made := make path fs
  unfold FileAccess.makeIfNew
  rw [StateT.run_bind]
  cases run : (access.make path).run fs with
  | mk result after =>
    rw [run] at made
    cases result with
    | ok => exact made
    | error e => exact made

theorem makeBelow (path : String) (ancestors : List String) (fs : FileSystem) :
    Grows fs ((access.makeBelow path ancestors).run fs).2 := by
  -- By induction on the ancestors, which are tried from the lowest one up.
  induction ancestors generalizing path fs with
  | nil =>
    unfold FileAccess.makeBelow
    split
    · exact refl fs
    · exact makeIfNew path fs
  | cons parent ancestors ih =>
    have first := makeIfNew path fs
    unfold FileAccess.makeBelow
    rw [StateT.run_bind]
    cases run : (access.makeIfNew path).run fs with
    | mk result between =>
      rw [run] at first
      cases result with
      | ok => exact first
      | error e =>
        cases e with
        -- The directory above is missing. It is made first, and then this one is tried again.
        | notFound =>
          have above := first.trans (ih parent between)
          change Grows fs ((access.makeBelow parent ancestors >>= _ : StateM FileSystem _).run
            between).2
          rw [StateT.run_bind]
          cases rest : (access.makeBelow parent ancestors).run between with
          | mk result after =>
            rw [rest] at above
            cases result with
            | ok => exact above.trans (makeIfNew path after)
            | error e => exact above
        | _ => exact first

/-- Making directories adds to the file system and takes nothing away. -/
theorem makeDirectory (path : String) (fs : FileSystem) :
    Grows fs ((access.makeDirectory path).run fs).2 :=
  makeBelow path (Path.ancestors path) fs

end Grows

end ContractAbi.FileSystem
