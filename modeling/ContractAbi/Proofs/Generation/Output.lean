import ContractAbi.Generation.Output
import ContractAbi.Proofs.Binding.Names
import ContractAbi.Proofs.Files.System
import ContractAbi.Proofs.Naming.ModuleName

/-!
# Generated files do not meet

The files of a description have names that differ in more than case, and each is one name with one
extension, whatever its interfaces are called (`nodup_stems`, `isArtifactName_outputs`). Writing one
of them therefore never stands in the way of another: if each can be written alone into a directory
then all are, each holds its text in the end, and nothing else has changed but for the directories
that were made.
-/

namespace ContractAbi

namespace FileSystem

open Code (File)

/-- The file system with files put into the directory at a place. -/
def putFiles (fs : FileSystem) (place : List String) (files : List File) : FileSystem :=
  files.foldl (fun fs f => fs.put (place ++ [f.name]) (.file f.source)) fs

variable {fs start : FileSystem} {place other : List String} {directory : String}
  {files : List File}

theorem node?_putFiles_of_ne (fs : FileSystem)
    (elsewhere : ∀ f ∈ files, other ≠ place ++ [f.name]) :
    (fs.putFiles place files).node? other = fs.node? other := by
  induction files generalizing fs with
  | nil => rfl
  | cons f files ih =>
    have rest := ih (fs.put (place ++ [f.name]) (.file f.source)) fun g member =>
      elsewhere g (List.mem_cons_of_mem _ member)
    exact rest.trans (node?_put_of_ne (elsewhere f List.mem_cons_self))

/-- Each file has its own content at its own name. -/
theorem node?_putFiles_of_mem (distinct : (files.map (·.name)).Nodup) {f : File}
    (member : f ∈ files) :
    (fs.putFiles place files).node? (place ++ [f.name]) = some (.file f.source) := by
  induction files generalizing fs with
  | nil => cases member
  | cons g files ih =>
    obtain ⟨unused, distinct⟩ := List.nodup_cons.mp distinct
    rcases List.mem_cons.mp member with rfl | later
    · -- None of the files behind has the name.
      have elsewhere : ∀ g ∈ files, place ++ [f.name] ≠ place ++ [g.name] := by
        intro g listed same
        have name : f.name = g.name := by simpa using same
        exact unused (List.mem_map.mpr ⟨g, listed, name.symm⟩)
      exact (node?_putFiles_of_ne _ elsewhere).trans (node?_put_self (by simp))
    · exact ih distinct later

theorem Keeps.putFiles (keeps : Keeps start fs)
    (noDirectory : ∀ f ∈ files, start.isDirectoryAt (place ++ [f.name]) = false) :
    Keeps start (fs.putFiles place files) := by
  induction files generalizing fs with
  | nil => exact keeps
  | cons f files ih =>
    refine ih (keeps.trans (.put (by simp) ?_ f.source)) fun g member =>
      noDirectory g (List.mem_cons_of_mem _ member)
    rw [keeps.isDirectoryAt]
    exact noDirectory f List.mem_cons_self

end FileSystem

namespace Binding.Model

open Naming (IsModuleName)

/-- The classes have the module names that the model gave, in order. -/
theorem gives_modules (doc : Document) : ∃ after, Namer.Gives IsModuleName
    (.reserving reservedModules) ((ofDocument doc).classes.map (·.moduleName)) after := by
  let declared := (Graph.ofDocument doc).order.filterMap doc.interface?
  have given := Namer.Gives.mapM
    (classOf doc (Graph.ofDocument doc) (MessageTable.ofMessages doc.messages)) ClassNames.modules
    (fun c => [c.moduleName])
    (fun i (_ : i ∈ declared) names =>
      Namer.Gives.one (Naming.isModuleName_moduleName i.name) names.modules)
    .empty
  rw [← List.map_eq_flatMap] at given
  exact ⟨_, given⟩

theorem isModuleName_of_mem {doc : Document} {ident : String}
    (member : ident ∈ (ofDocument doc).classes.map (·.moduleName)) : IsModuleName ident := by
  obtain ⟨_, given⟩ := gives_modules doc
  exact given.kinds (fun _ n module => module.numbered n) ident member

end Binding.Model

namespace Generation

open Naming (IsModuleName isStemChar plain)
open Code (File)

/-- A name of lower-case letters, digits and underscores with one extension. -/
def IsArtifactName (name : String) : Prop :=
  ∃ stem extension, name.toList = stem ++ '.' :: extension ∧
    stem ≠ [] ∧ (∀ c ∈ stem, isStemChar c = true) ∧
    extension ≠ [] ∧ ∀ c ∈ extension, c.isLower = true

namespace IsArtifactName

variable {name : String}

theorem of_stem {stem : String} (nonempty : stem.toList ≠ [])
    (letters : ∀ c ∈ stem.toList, isStemChar c = true) : IsArtifactName (stem ++ ".rs") :=
  ⟨stem.toList, ['r', 's'], by simp, nonempty, letters, by simp, List.all_eq_true.mp (by decide)⟩

theorem isFileName (artifact : IsArtifactName name) : FileSystem.IsFileName name := by
  obtain ⟨stem, extension, text, nonempty, letters, -, lower⟩ := artifact
  have first : ∃ c cs, name.toList = c :: cs ∧ isStemChar c = true := by
    cases stem with
    | nil => exact absurd rfl nonempty
    | cons c cs => exact ⟨c, cs ++ '.' :: extension, text, letters c List.mem_cons_self⟩
  obtain ⟨c, cs, start, stemChar⟩ := first
  refine ⟨⟨?_, by simp [start]⟩, ?_, ?_⟩
  · intro slash
    rw [text] at slash
    rcases List.mem_append.mp slash with inStem | behind
    · exact absurd (letters '/' inStem) (by decide)
    · rcases List.mem_cons.mp behind with dot | inExtension
      · cases dot
      · exact absurd (lower '/' inExtension) (by decide)
  · rintro rfl
    cases start
    exact absurd stemChar (by decide)
  · rintro rfl
    cases start
    exact absurd stemChar (by decide)

theorem lowerCase_eq (artifact : IsArtifactName name) : Text.lowerCase name = name := by
  obtain ⟨stem, extension, text, -, letters, -, lower⟩ := artifact
  have same : ∀ c ∈ name.toList, c.toLower = c := by
    intro c member
    rw [text] at member
    rcases List.mem_append.mp member with inStem | behind
    · exact Naming.toLower_of_isStemChar (letters c inStem)
    · rcases List.mem_cons.mp behind with rfl | inExtension
      · decide
      · exact Naming.toLower_of_isStemChar (by simp [isStemChar, lower c inExtension])
  rw [Text.lowerCase, Text.lower, List.map_congr_left same, List.map_id', String.ofList_toList]

end IsArtifactName

variable (doc : Document) (warnings : List Warning)

/-- The names of the generated files without their extension. -/
def stems : List String :=
  (((Binding.Model.ofDocument doc).classes.map (·.moduleName)).map plain) ++ Naming.fixedModules

theorem nodup_stems : (stems doc).Nodup := by
  obtain ⟨_, given⟩ := Binding.Model.gives_modules doc
  refine List.nodup_append.mpr ⟨?_, by decide, ?_⟩
  · refine List.Nodup.map_on ?_ given.nodup
    intro a memberA b memberB same
    have escapedA := (Binding.Model.isModuleName_of_mem memberA).escaped
    exact (escapedA.plain_inj (Binding.Model.isModuleName_of_mem memberB).escaped).mp same
  · rintro _ member _ fixed rfl
    obtain ⟨ident, listed, rfl⟩ := List.mem_map.mp member
    exact (Binding.Model.isModuleName_of_mem listed).notFixed fixed

theorem isArtifactName_of_mem_stems {stem : String} (member : stem ∈ stems doc) :
    IsArtifactName (stem ++ ".rs") := by
  rcases List.mem_append.mp member with own | fixed
  · obtain ⟨ident, listed, rfl⟩ := List.mem_map.mp own
    have module := Binding.Model.isModuleName_of_mem listed
    apply IsArtifactName.of_stem _ module.stem
    intro empty
    have name := module.escaped.isName_plain
    rw [empty] at name
    cases name
  · have fixedStems : ∀ stem ∈ Naming.fixedModules, stem.toList ≠ [] ∧
        stem.toList.all isStemChar = true := by decide
    obtain ⟨nonempty, letters⟩ := fixedStems stem fixed
    exact .of_stem nonempty (List.all_eq_true.mp letters)

theorem names_outputs (dump : Bool) :
    ((ofParts doc warnings).outputs dump).map (·.name) =
      (stems doc).map (· ++ ".rs") ++ if dump then [dumpName] else [] := by
  have package : (ofParts doc warnings).package =
      Code.Package.ofModel (Binding.Model.ofDocument doc) := rfl
  have fixed : Naming.fixedModules.map (· ++ ".rs") = ["messages.rs", "registry.rs", "mod.rs"] := by
    decide
  rw [outputs, List.map_append, package, stems, List.map_append, fixed]
  congr 1
  · simp [Code.Package.files, Code.Package.ofModel, Code.Package.classFile, Naming.fileName]
  · cases dump <;> rfl

/-- No two files have the same name. -/
theorem nodup_names_outputs (dump : Bool) :
    (((ofParts doc warnings).outputs dump).map (·.name)).Nodup := by
  rw [names_outputs]
  refine List.nodup_append.mpr ⟨?_, by cases dump <;> simp, ?_⟩
  · apply (nodup_stems doc).map
    intro a b same
    simpa using same
  · rintro _ member name listed rfl
    obtain ⟨stem, -, same⟩ := List.mem_map.mp member
    cases dump with
    | false => cases listed
    | true =>
      -- The extensions differ.
      rw [if_pos rfl, List.mem_singleton] at listed
      have last := congrArg (fun text : String => text.toList.getLast?) (same.trans listed)
      simp [dumpName] at last

/-- The names of files are made of lower case letters, digits and underscores, with one ending. -/
theorem isArtifactName_outputs {dump : Bool} {f : File}
    (member : f ∈ (ofParts doc warnings).outputs dump) : IsArtifactName f.name := by
  have name : f.name ∈ ((ofParts doc warnings).outputs dump).map (·.name) :=
    List.mem_map_of_mem member
  rw [names_outputs] at name
  rcases List.mem_append.mp name with source | dumped
  · obtain ⟨stem, listed, same⟩ := List.mem_map.mp source
    rw [← same]
    exact isArtifactName_of_mem_stems doc listed
  · cases dump with
    | false => cases dumped
    | true =>
      rw [if_pos rfl, List.mem_singleton] at dumped
      rw [dumped]
      exact ⟨"abi".toList, "json".toList, rfl, by decide, List.all_eq_true.mp (by decide),
        by decide, List.all_eq_true.mp (by decide)⟩

/-! ### Writing -/

section

open FileSystem

variable {start fs made : FileSystem} {directory : String} {place : List String} {files : List File}

/-- Files that a directory admits are written one after another: none of those before stands in the
way of the next. -/
theorem run_writeFiles (keeps : Keeps start fs)
    (admits : ∀ f ∈ files, IsFileName f.name ∧ start.Admits directory f.name place) :
    (writeFiles access directory files).run.run fs =
      (.ok (files.map fun f => Path.join directory f.name), fs.putFiles place files) := by
  induction files generalizing fs with
  | nil => rfl
  | cons f files ih =>
    obtain ⟨name, admitted⟩ := admits f List.mem_cons_self
    have now := keeps.admits admitted
    have written : fs.write (Path.join directory f.name) f.source =
        .ok (fs.put (place ++ [f.name]) (.file f.source)) :=
      (write_join_eq_ok_iff name).mpr ⟨place, now, rfl⟩
    have rest := ih (keeps.trans (.put (by simp) now.noDirectory f.source)) fun g member =>
      admits g (List.mem_cons_of_mem _ member)
    rw [writeFiles, ExceptT.run_bind, ExceptT.run_mk, StateT.run_bind, StateT.run_map,
      run_write_of_ok written]
    change ((writeFiles access directory files >>= fun paths =>
      pure (Path.join directory f.name :: paths) : ExceptT Failure (StateM FileSystem) _).run.run
        (fs.put (place ++ [f.name]) (.file f.source))) = _
    rw [ExceptT.run_bind, StateT.run_bind, rest]
    rfl

/-- Files that can each be written alone are admitted where the path of the directory leads. -/
theorem exists_place (named : ∀ f ∈ files, IsFileName f.name) (nonempty : files ≠ [])
    (each : ∀ f ∈ files, ∃ alone, made.write (Path.join directory f.name) f.source = .ok alone) :
    ∃ place, ∀ f ∈ files, IsFileName f.name ∧ made.Admits directory f.name place := by
  obtain ⟨first, member⟩ := List.exists_mem_of_ne_nil files nonempty
  obtain ⟨_, alone⟩ := each first member
  obtain ⟨place, admits, -⟩ := (write_join_eq_ok_iff (named first member)).mp alone
  refine ⟨place, fun f listed => ⟨named f listed, ?_⟩⟩
  obtain ⟨_, alone⟩ := each f listed
  obtain ⟨other, admitted, -⟩ := (write_join_eq_ok_iff (named f listed)).mp alone
  -- The path of the directory leads to one place.
  have same := admits.walk.symm.trans admitted.walk
  cases same
  exact admitted

/-- Writing to a directory that admits all names puts all files there. -/
theorem run_write (g : Generation) (dump : Bool)
    (directories : (access.makeDirectory directory).run fs = (.ok (), made))
    (admits : ∀ f ∈ g.outputs dump, IsFileName f.name ∧ made.Admits directory f.name place) :
    (g.write access directory dump).run.run fs =
      (.ok ((g.outputs dump).map fun f => Path.join directory f.name),
        made.putFiles place (g.outputs dump)) := by
  rw [write, ExceptT.run_bind, ExceptT.run_mk, StateT.run_bind, StateT.run_map, directories]
  exact run_writeFiles (.refl made) admits

end

/-- The files of a description have names that differ in more than case, each of them a name with an
extension. Where a directory can be made and each file could be written into it alone, all are
written; each then holds its text, and no place has changed but those of the files in the directory
and those of directories that were made. -/
theorem write_ofParts :
    (((ofParts doc warnings).outputs true).map fun f => Text.lowerCase f.name).Nodup ∧
    (∀ f ∈ (ofParts doc warnings).outputs true, IsArtifactName f.name) ∧
    ∀ (directory : String) (dump : Bool) (fs made : FileSystem),
      (FileSystem.access.makeDirectory directory).run fs = (.ok (), made) →
      (∀ f ∈ (ofParts doc warnings).outputs dump, ∃ alone,
        made.write (Path.join directory f.name) f.source = .ok alone) →
      ∃ place after,
        made.walk (made.startOf directory) (Path.names directory) = .ok place ∧
        ((ofParts doc warnings).write FileSystem.access directory dump).run.run fs =
          (.ok (((ofParts doc warnings).outputs dump).map fun f => Path.join directory f.name),
            after) ∧
        (∀ f ∈ (ofParts doc warnings).outputs dump,
          after.read (Path.join directory f.name) = .ok f.source) ∧
        ∀ other, (∃ f ∈ (ofParts doc warnings).outputs dump, other = place ++ [f.name]) ∨
          after.node? other = fs.node? other ∨
          fs.node? other = none ∧ after.node? other = some .directory := by
  refine ⟨?_, fun f => isArtifactName_outputs doc warnings, ?_⟩
  · -- The names are in lower case already, so that folding it keeps them apart.
    have folded : ((ofParts doc warnings).outputs true).map (fun f => Text.lowerCase f.name) =
        ((ofParts doc warnings).outputs true).map (·.name) :=
      List.map_congr_left fun f member => (isArtifactName_outputs doc warnings member).lowerCase_eq
    rw [folded]
    exact nodup_names_outputs doc warnings true
  intro directory dump fs made directories each
  have distinct := nodup_names_outputs doc warnings dump
  have nonempty : (ofParts doc warnings).outputs dump ≠ [] := by
    simp [outputs, Code.Package.files]
  obtain ⟨place, admits⟩ := exists_place
    (fun f member => (isArtifactName_outputs doc warnings member).isFileName) nonempty each
  obtain ⟨first, member⟩ := List.exists_mem_of_ne_nil _ nonempty
  refine ⟨place, _, (admits first member).2.walk, run_write _ dump directories admits, ?_, ?_⟩
  · intro f listed
    have keeps := (FileSystem.Keeps.refl made).putFiles fun f member =>
      (admits f member).2.noDirectory
    exact FileSystem.read_join (admits f listed).1 (keeps.admits (admits f listed).2)
      (FileSystem.node?_putFiles_of_mem distinct listed)
  · intro other
    -- A place that is none of the files' has changed only while directories were made.
    by_cases artifact : ∃ f ∈ (ofParts doc warnings).outputs dump, other = place ++ [f.name]
    · exact .inl artifact
    · right
      rw [FileSystem.node?_putFiles_of_ne _ fun f listed same => artifact ⟨f, listed, same⟩]
      have grows := FileSystem.Grows.makeDirectory directory fs
      rw [directories] at grows
      exact grows.node? other

/-- Interfaces that are called like paths, fixed modules and keywords, and alike up to case and
punctuation. -/
def hostile : Document where
  interfaces := ["../etc", "mod", "Messages", "A-b", "a_B", "type", "Type", "é"].map fun name =>
    ⟨name, none, none, [], [], []⟩
  getMethods := []
  messages := []

/-- Beside the directory that is to be made stands an old file. -/
def home : FileSystem where
  workingDirectory := ["home"]
  entries := [(["home"], .directory), (["home", "out"], .directory),
    (["home", "out", "mod.rs"], .file "old")]

theorem makeDirectory_home : (FileSystem.access.makeDirectory "out/gen").run home =
    (.ok (), home.put ["home", "out", "gen"] .directory) := by
  -- What leads to the directory is there, so the paths above it are not looked at.
  unfold FileAccess.makeDirectory
  cases Path.ancestors "out/gen" with
  | nil => rfl
  | cons parent ancestors => rfl

theorem names_hostile : ((ofParts hostile []).outputs true).map (·.name) =
    ["___etc.rs", "mod_binding.rs", "messages_binding.rs", "a_b.rs", "a_b_2.rs", "type.rs",
      "type_2.rs", "__.rs", "messages.rs", "registry.rs", "mod.rs", "abi.json"] := by
  decide +kernel

theorem exists_write_hostile {f : File} (member : f ∈ (ofParts hostile []).outputs true) :
    ∃ alone, (home.put ["home", "out", "gen"] .directory).write (Path.join "out/gen" f.name)
      f.source = .ok alone := by
  have named : f.name ∈ ((ofParts hostile []).outputs true).map (·.name) :=
    List.mem_map_of_mem member
  rw [names_hostile] at named
  have admitted : ∀ name ∈ ["___etc.rs", "mod_binding.rs", "messages_binding.rs", "a_b.rs",
      "a_b_2.rs", "type.rs", "type_2.rs", "__.rs", "messages.rs", "registry.rs", "mod.rs",
      "abi.json"],
      FileSystem.checkPath (Path.join "out/gen" name) = .ok () ∧
      name.utf8ByteSize ≤ FileSystem.maxName ∧
      (home.put ["home", "out", "gen"] .directory).isDirectoryAt
        (["home", "out", "gen"] ++ [name]) = false := by
    decide +kernel
  obtain ⟨path, short, noDirectory⟩ := admitted f.name named
  have file := (isArtifactName_outputs hostile [] member).isFileName
  exact ⟨_, (FileSystem.write_join_eq_ok_iff file).mpr
    ⟨["home", "out", "gen"], ⟨path, rfl, rfl, short, noDirectory⟩, rfl⟩⟩

/-- Of twelve files whose interfaces are called in a hostile way each is there in the end, and the
old file beside their directory is as it was. -/
theorem write_ofParts_hostile :
    (FileSystem.access.makeDirectory "out/gen").run home =
      (.ok (), home.put ["home", "out", "gen"] .directory) ∧
    (∀ f ∈ (ofParts hostile []).outputs true, ∃ alone,
      (home.put ["home", "out", "gen"] .directory).write (Path.join "out/gen" f.name) f.source =
        .ok alone) ∧
    ∃ after, ((ofParts hostile []).write FileSystem.access "out/gen" true).run.run home =
        (.ok (((ofParts hostile []).outputs true).map fun f => Path.join "out/gen" f.name), after) ∧
      (∀ f ∈ (ofParts hostile []).outputs true,
        after.read (Path.join "out/gen" f.name) = .ok f.source) ∧
      after.node? ["home", "out", "mod.rs"] = some (.file "old") := by
  obtain ⟨-, -, writes⟩ := write_ofParts hostile []
  refine ⟨makeDirectory_home, fun f => exists_write_hostile, ?_⟩
  obtain ⟨place, after, walk, run, held, others⟩ := writes "out/gen" true home
    (home.put ["home", "out", "gen"] .directory) makeDirectory_home fun f => exists_write_hostile
  refine ⟨after, run, held, ?_⟩
  rcases others ["home", "out", "mod.rs"] with ⟨f, -, same⟩ | same | ⟨nothing, -⟩
  · have there : place = ["home", "out", "gen"] := (Except.ok.inj walk).symm
    rw [there] at same
    simp at same
  · exact same
  · cases nothing

end Generation

end ContractAbi
