import ContractAbi.Files.System
import ContractAbi.Generation.Output

/-!
# Sources of a list do not disturb each other

The sources of a list take their turns one after another on the same files, so that one of them may
read what another has written. A source is understood before anything is written for it: where it
cannot be read, or is no description, its turn leaves all files and directories as they are
(`run_intoDirectory_of_error`). So it makes no difference whether such a source is in the list
(`runBatch_of_files`).
-/

namespace ContractAbi

/-- Whether a failure is one of a source itself: it could not be read, or is no description. -/
def Failure.isOfSource : Failure → Bool
  | .readSource _ _ | .fetch _ _ | .parse _ | .inSource _ _ | .loadDump _ => true
  | _ => false

namespace Generation

/-- What there is to generate from a file: its text is the dump of a document, where the name says
so, or else a description in XML. -/
inductive Describes (fs : FileSystem) (path : String) : Generation → Prop
  | dump {text : String} {doc : Document} (named : (Source.file path).isDump = true)
      (read : fs.read path = .ok text) (parsed : Document.ofDump? text = some doc) :
      Describes fs path (ofDocument doc)
  | markup {text : String} {g : Generation} (named : (Source.file path).isDump = false)
      (read : fs.read path = .ok text) (parsed : ofMarkup text = .ok g) : Describes fs path g

/-- A source of a list in its turn. -/
structure Turn where
  entry : SourceEntry
  before : FileSystem
  outcome : Except Failure Summary
  after : FileSystem

namespace Turn

/-- What was generated. -/
def summary? (t : Turn) : Option Summary := t.outcome.toOption

/-- Why nothing, or not everything, was generated. -/
def failure? (t : Turn) : Option Failure :=
  match t.outcome with
  | .ok _ => none
  | .error f => some f

/-- Whether the source could be read and is a description. -/
def isUnderstood (t : Turn) : Bool := t.failure?.all fun f => !f.isOfSource

/-- What is recorded of a failure. -/
def record? (base : String) (t : Turn) : Option (String × Failure) :=
  t.failure?.map ((t.entry.source base).text, ·)

/-- What comes of a turn and of those after it. -/
def addTo (base : String) (t : Turn) (rest : BatchSummary) : BatchSummary :=
  ⟨t.summary?.toList ++ rest.generated, (t.record? base).toList ++ rest.failed⟩

/-- What comes of turns, in their order. -/
def results (base : String) (ts : List Turn) : BatchSummary :=
  ⟨ts.filterMap summary?, ts.filterMap (record? base)⟩

/-- What turns on `fs` leave in the end. -/
def last (fs : FileSystem) (ts : List Turn) : FileSystem := ts.foldl (fun _ t => t.after) fs

theorem results_cons (base : String) (t : Turn) (ts : List Turn) :
    results base (t :: ts) = t.addTo base (results base ts) := by
  unfold results addTo
  rw [List.filterMap_cons, List.filterMap_cons]
  cases t.summary? <;> cases t.record? base <;> rfl

/-- A turn that fails for its source leaves nothing but its failure. -/
theorem results_filter_isUnderstood (base : String) (ts : List Turn) :
    results base (ts.filter isUnderstood) =
      ⟨(results base ts).generated, (results base ts).failed.filter fun r => !r.2.isOfSource⟩ := by
  induction ts with
  | nil => rfl
  | cons t ts ih =>
    obtain ⟨entry, before, outcome, after⟩ := t
    rw [List.filter_cons, results_cons]
    cases outcome with
    | ok summary =>
      change results base (_ :: ts.filter isUnderstood) = _
      rw [results_cons, ih]
      rfl
    | error f =>
      cases ofSource : f.isOfSource with
      | true =>
        simp [isUnderstood, failure?, summary?, record?, addTo, Except.toOption, ofSource, ih]
      | false =>
        simp [isUnderstood, failure?, summary?, record?, addTo, Except.toOption, ofSource, ih,
          results_cons]

end Turn

section

variable (fetch : String → StateM FileSystem (Except String String)) (env : Environment)
  (config : Config) (base : String) (dump : Bool)

/-- The files of a file system, and a web of any kind. -/
def filesAnd : Library (StateM FileSystem) := ⟨FileSystem.access, fetch⟩

/-- The turn of a source. -/
def turn (fs : FileSystem) (e : SourceEntry) : Turn :=
  let run :=
    (intoDirectory (filesAnd fetch) (e.source base) (config.directoryOf env e) dump).run.run fs
  ⟨e, fs, run.1, run.2⟩

/-- The turns of sources one after another. -/
def turns (fs : FileSystem) : List SourceEntry → List Turn
  | [] => []
  | e :: es =>
    let t := turn fetch env config base dump fs e
    t :: turns t.after es

end

/-! ### Understanding a source -/

/-- Reading the description in a file. -/
def describe (fs : FileSystem) (path : String) : Except Failure Generation :=
  match fs.read path with
  | .ok text => ofText (.file path) text
  | .error e => .error (.readSource path e)

variable {fs after : FileSystem} {path directory : String} {g : Generation} {f : Failure}
  {dump : Bool} {fetch : String → StateM FileSystem (Except String String)}

/-- What a source describes, each way in which it does. -/
theorem describe_eq_ok_iff : describe fs path = .ok g ↔ Describes fs path g := by
  constructor
  · intro described
    -- A file that is read is a dump or a text, by its name.
    unfold describe at described
    split at described
    · next text read =>
      unfold ofText at described
      split at described
      · next named =>
        split at described
        · next doc parsed =>
          cases described
          exact .dump named read parsed
        · cases described
      · next named =>
        cases parsed : ofMarkup text with
        | ok h =>
          rw [parsed] at described
          cases described
          exact .markup (Bool.eq_false_iff.mpr named) read parsed
        | error e =>
          rw [parsed] at described
          cases described
    · cases described
  · intro describes
    cases describes with
    | dump named read parsed => simp [describe, read, ofText, named, parsed]
    | markup named read parsed =>
      simp only [describe, read, ofText, named, parsed]
      rfl

/-- What keeps a source from being understood is a failure of the source. -/
theorem isOfSource_of_describe (failed : describe fs path = .error f) : f.isOfSource = true := by
  unfold describe at failed
  split at failed
  · unfold ofText at failed
    split at failed
    · split at failed
      · cases failed
      · cases failed
        rfl
    · next text _ _ =>
      cases parsed : ofMarkup text with
      | ok h =>
        rw [parsed] at failed
        cases failed
      | error e =>
        rw [parsed] at failed
        cases failed
        rfl
  · cases failed
    rfl

/-- Understanding a source changes nothing. -/
theorem run_ofSource (fs : FileSystem) (path : String) :
    (ofSource (filesAnd fetch) (.file path)).run.run fs = (describe fs path, fs) := by
  have read : (readSource (filesAnd fetch) (.file path)).run.run fs =
      ((fs.read path).mapError (.readSource path), fs) := rfl
  rw [ofSource, ExceptT.run_bind, StateT.run_bind, read, describe]
  cases fs.read path with
  | ok text => rfl
  | error e => rfl

/-- What comes of a source that is understood is what comes of writing. -/
theorem run_intoDirectory_of_ok (described : describe fs path = .ok g) :
    (intoDirectory (filesAnd fetch) (.file path) directory dump).run.run fs =
      ((((g.write FileSystem.access directory dump).run.run fs).1).map fun files =>
          ⟨path, directory, g.package.classes.map (·.1), files, g.warnings.length⟩,
        ((g.write FileSystem.access directory dump).run.run fs).2) := by
  rw [intoDirectory, ExceptT.run_bind, StateT.run_bind, run_ofSource, described]
  change ((g.write FileSystem.access directory dump >>= fun files => pure _ :
    ExceptT Failure (StateM FileSystem) Summary).run.run fs) = _
  rw [ExceptT.run_bind, StateT.run_bind]
  cases (g.write FileSystem.access directory dump).run.run fs with
  | mk result after =>
    cases result with
    | ok files => rfl
    | error f => rfl

/-- A source that is not understood leaves everything as it is. -/
theorem run_intoDirectory_of_error (failed : describe fs path = .error f) :
    (intoDirectory (filesAnd fetch) (.file path) directory dump).run.run fs = (.error f, fs) := by
  rw [intoDirectory, ExceptT.run_bind, StateT.run_bind, run_ofSource, failed]
  rfl

/-! ### Writing -/

theorem isOfSource_of_writeFiles {files : List Code.File} (failed :
    ((writeFiles FileSystem.access directory files).run.run fs).1 = .error f) :
    f.isOfSource = false := by
  induction files generalizing fs with
  | nil => cases failed
  | cons file files ih =>
    rw [writeFiles, ExceptT.run_bind, ExceptT.run_mk, StateT.run_bind, StateT.run_map] at failed
    cases written :
      (FileSystem.access.write (Path.join directory file.name) file.source).run fs with
    | mk result next =>
      rw [written] at failed
      cases result with
      | error e =>
        cases failed
        rfl
      | ok u =>
        change (((writeFiles FileSystem.access directory files >>= fun paths => pure _ :
          ExceptT Failure (StateM FileSystem) (List String)).run.run next).1) = _ at failed
        rw [ExceptT.run_bind, StateT.run_bind] at failed
        cases rest : (writeFiles FileSystem.access directory files).run.run next with
        | mk paths last =>
          rw [rest] at failed
          cases paths with
          | ok paths => cases failed
          | error e =>
            cases failed
            exact ih (congrArg Prod.fst rest)

/-- Failures to write are not failures of the source. -/
theorem isOfSource_of_write
    (failed : ((g.write FileSystem.access directory dump).run.run fs).1 = .error f) :
    f.isOfSource = false := by
  rw [write, ExceptT.run_bind, ExceptT.run_mk, StateT.run_bind, StateT.run_map] at failed
  cases made : (FileSystem.access.makeDirectory directory).run fs with
  | mk result next =>
    rw [made] at failed
    cases result with
    | ok u => exact isOfSource_of_writeFiles failed
    | error e =>
      cases failed
      rfl

/-! ### Turns -/

section

variable {env : Environment} {config : Config} {base : String} {e : SourceEntry}
  {entries : List SourceEntry} {t : Turn}

theorem source_of_file (file : e.kind = .file) :
    e.source base = .file (Path.join base e.path) := by
  rw [SourceEntry.source, file]

/-- A source from a file is understood in its turn just if there is something to generate from the
file. If it is not, the turn changes nothing. -/
theorem isUnderstood_turn (file : e.kind = .file) :
    ((turn fetch env config base dump fs e).isUnderstood = true ↔
      ∃ g, Describes fs (Path.join base e.path) g) ∧
    ((turn fetch env config base dump fs e).isUnderstood = false →
      (turn fetch env config base dump fs e).after = fs) := by
  unfold turn
  rw [source_of_file file]
  cases described : describe fs (Path.join base e.path) with
  | error f =>
    have nothing : ¬ ∃ g, Describes fs (Path.join base e.path) g := by
      rintro ⟨g, describes⟩
      rw [describe_eq_ok_iff.mpr describes] at described
      cases described
    rw [run_intoDirectory_of_error described]
    simp [Turn.isUnderstood, Turn.failure?, isOfSource_of_describe described, nothing]
  | ok g =>
    have understood : ∃ g, Describes fs (Path.join base e.path) g :=
      ⟨g, describe_eq_ok_iff.mp described⟩
    rw [run_intoDirectory_of_ok described]
    cases written : ((g.write FileSystem.access (config.directoryOf env e) dump).run.run fs).1 with
    | ok files => simp [Turn.isUnderstood, Turn.failure?, Except.map, understood]
    | error f =>
      simp [Turn.isUnderstood, Turn.failure?, Except.map, isOfSource_of_write written, understood]

/-- What is generated in a turn is generated from its source, into the directory for it. -/
theorem of_summary_turn (file : e.kind = .file) {s : Summary}
    (generated : (turn fetch env config base dump fs e).summary? = some s) :
    s.source = (e.source base).text ∧ s.directory = config.directoryOf env e := by
  unfold turn at generated
  rw [source_of_file file] at generated ⊢
  cases described : describe fs (Path.join base e.path) with
  | error f =>
    rw [run_intoDirectory_of_error described] at generated
    cases generated
  | ok g =>
    rw [run_intoDirectory_of_ok described] at generated
    cases written : ((g.write FileSystem.access (config.directoryOf env e) dump).run.run fs).1 with
    | ok files =>
      rw [written] at generated
      cases generated
      exact ⟨rfl, rfl⟩
    | error f =>
      rw [written] at generated
      cases generated

/-- A turn gives a summary or a failure, which the other sources do not see. -/
theorem run_runEntries_cons :
    (runEntries (filesAnd fetch) env config base dump (e :: entries)).run fs =
      (((runEntries (filesAnd fetch) env config base dump entries).run
        (turn fetch env config base dump fs e).after).map
          ((turn fetch env config base dump fs e).addTo base) id) := by
  rw [runEntries, StateT.run_bind]
  unfold turn
  cases (intoDirectory (filesAnd fetch) (e.source base) (config.directoryOf env e) dump).run.run fs
    with
  | mk result next =>
    cases result with
    | ok summary => rfl
    | error f => rfl

/-- What comes of sources is what comes of their turns. -/
theorem run_runEntries (fs : FileSystem) (entries : List SourceEntry) :
    (runEntries (filesAnd fetch) env config base dump entries).run fs =
      (Turn.results base (turns fetch env config base dump fs entries),
        Turn.last fs (turns fetch env config base dump fs entries)) := by
  induction entries generalizing fs with
  | nil => rfl
  | cons e entries ih =>
    rw [run_runEntries_cons, ih, turns, Turn.results_cons]
    rfl

theorem map_entry_turns (fs : FileSystem) (entries : List SourceEntry) :
    (turns fetch env config base dump fs entries).map (·.entry) = entries := by
  induction entries generalizing fs with
  | nil => rfl
  | cons e entries ih =>
    rw [turns, List.map_cons, ih]
    rfl

/-- In a turn the rest of the list does not count. -/
theorem turns_sources (others : List SourceEntry) (fs : FileSystem) (entries : List SourceEntry) :
    turns fetch env { config with sources := others } base dump fs entries =
      turns fetch env config base dump fs entries := by
  induction entries generalizing fs with
  | nil => rfl
  | cons e entries ih => exact congrArg _ (ih (turn fetch env config base dump fs e).after)

/-- A turn of a list is the turn of its source on the files that it finds. -/
theorem eq_turn_of_mem (member : t ∈ turns fetch env config base dump fs entries) :
    t.entry ∈ entries ∧ t = turn fetch env config base dump t.before t.entry := by
  induction entries generalizing fs with
  | nil => cases member
  | cons e entries ih =>
    rcases List.mem_cons.mp member with rfl | later
    · exact ⟨List.mem_cons_self, rfl⟩
    · obtain ⟨listed, same⟩ := ih later
      exact ⟨List.mem_cons_of_mem e listed, same⟩

/-- Without the sources that are not understood in their turn, the others have the same turns. -/
theorem turns_understood (files : ∀ e ∈ entries, e.kind = .file) (fs : FileSystem) :
    turns fetch env config base dump fs
        (((turns fetch env config base dump fs entries).filter (·.isUnderstood)).map (·.entry)) =
      (turns fetch env config base dump fs entries).filter (·.isUnderstood) := by
  induction entries generalizing fs with
  | nil => rfl
  | cons e entries ih =>
    obtain ⟨file, files⟩ := List.forall_mem_cons.mp files
    rw [turns, List.filter_cons]
    split
    · rw [List.map_cons, turns]
      exact congrArg _ (ih files _)
    · next failed =>
      rw [(isUnderstood_turn file).2 (by simpa using failed)]
      exact ih files fs

/-- Nor do they matter for what is there in the end. -/
theorem last_turns_understood (files : ∀ e ∈ entries, e.kind = .file) (fs : FileSystem) :
    Turn.last fs ((turns fetch env config base dump fs entries).filter (·.isUnderstood)) =
      Turn.last fs (turns fetch env config base dump fs entries) := by
  induction entries generalizing fs with
  | nil => rfl
  | cons e entries ih =>
    obtain ⟨file, files⟩ := List.forall_mem_cons.mp files
    rw [turns, List.filter_cons]
    split
    · exact ih files _
    · next failed =>
      rw [Turn.last, Turn.last, List.foldl_cons, (isUnderstood_turn file).2 (by simpa using failed)]
      exact ih files fs

/-- Files of a list that cannot be understood can be left out of it. Every source has its turn, in
order; what comes of it is generated, or else recorded as failed. The turn of a source that cannot
be read, or whose text is no description, changes nothing. The list without these sources generates
the same and leaves the same files and directories. Of the failures it has those at writing. -/
theorem runBatch_of_files (fetch : String → StateM FileSystem (Except String String))
    (env : Environment) (config : Config) (base : String) (dump : Bool) (fs : FileSystem)
    (files : ∀ e ∈ config.sources, e.kind = .file) :
    let ts := turns fetch env config base dump fs config.sources
    let run := (runBatch (filesAnd fetch) env config base dump).run fs
    let understood := (ts.filter Turn.isUnderstood).map Turn.entry
    (ts.map Turn.entry = config.sources ∧
      run.1.generated = ts.filterMap Turn.summary? ∧
      run.1.failed = ts.filterMap (Turn.record? base) ∧
      run.2 = Turn.last fs ts) ∧
    (∀ t ∈ ts,
      (∀ s, t.summary? = some s →
        s.source = (t.entry.source base).text ∧ s.directory = config.directoryOf env t.entry) ∧
      (t.isUnderstood = true ↔ ∃ g, Describes t.before (Path.join base t.entry.path) g) ∧
      (t.isUnderstood = false → t.after = t.before)) ∧
    (runBatch (filesAnd fetch) env { config with sources := understood } base dump).run fs =
      (⟨run.1.generated, run.1.failed.filter fun r => !r.2.isOfSource⟩, run.2) := by
  intro ts run understood
  have whole : run = (Turn.results base ts, Turn.last fs ts) := run_runEntries fs config.sources
  refine ⟨⟨map_entry_turns fs config.sources, ?_, ?_, ?_⟩, ?_, ?_⟩
  · rw [whole]
    rfl
  · rw [whole]
    rfl
  · rw [whole]
  · intro t member
    obtain ⟨listed, own⟩ := eq_turn_of_mem member
    rw [own]
    have file := files t.entry listed
    exact ⟨fun s => of_summary_turn file, isUnderstood_turn file⟩
  · -- The sources that are left have the turns they had, since the others left no trace in the
    -- files.
    have rest : (runBatch (filesAnd fetch) env { config with sources := understood } base dump).run
        fs = _ := run_runEntries fs understood
    rw [rest, turns_sources, turns_understood files, Turn.results_filter_isUnderstood,
      last_turns_understood files, whole]

end

/-- The files of a list whose second and third source are broken and good. -/
def shelf : FileSystem where
  workingDirectory := ["home"]
  entries := [(["home"], .directory), (["home", "broken.json"], .file "\x7b"),
    (["home", "empty.json"], .file Document.empty.dump)]

/-- A list whose last two sources are there only once the third has been generated from. -/
def shelfList : Config where
  sources := [⟨.file, "missing.xml", none⟩, ⟨.file, "broken.json", some "never"⟩,
    ⟨.file, "empty.json", none⟩, ⟨.file, "out/gen/mod.rs", some "never"⟩,
    ⟨.file, "out/gen/abi.json", none⟩]
  outputDirectory := some "out/gen"

def noWeb : String → StateM FileSystem (Except String String) := fun _ => return .error "no network"

/-- Of five sources two are understood, the second of which the first has written. Without the
others they give the same. -/
theorem runBatch_shelf :
    (∀ e ∈ shelfList.sources, e.kind = .file) ∧
    ((runBatch (filesAnd noWeb) .empty shelfList "" true).run shelf).1.generated.map (·.source) =
      ["empty.json", "out/gen/abi.json"] ∧
    ((runBatch (filesAnd noWeb) .empty shelfList "" true).run shelf).1.failed.map (·.1) =
      ["missing.xml", "broken.json", "out/gen/mod.rs"] ∧
    (runBatch (filesAnd noWeb) .empty { shelfList with
        sources := [⟨.file, "empty.json", none⟩, ⟨.file, "out/gen/abi.json", none⟩] } "" true).run
      shelf =
      (⟨((runBatch (filesAnd noWeb) .empty shelfList "" true).run shelf).1.generated, []⟩,
        ((runBatch (filesAnd noWeb) .empty shelfList "" true).run shelf).2) := by
  have files : ∀ e ∈ shelfList.sources, e.kind = .file := by decide
  -- The turns are evaluated once, for everything that is asked of them.
  have found : (fun ts : List Turn =>
      ((ts.filter Turn.isUnderstood).map Turn.entry, (ts.filterMap Turn.summary?).map (·.source),
        (ts.filterMap (Turn.record? "")).map (·.1),
        (ts.filterMap (Turn.record? "")).filter fun r => !r.2.isOfSource))
        (turns noWeb .empty shelfList "" true shelf shelfList.sources) =
      ([⟨.file, "empty.json", none⟩, ⟨.file, "out/gen/abi.json", none⟩],
        ["empty.json", "out/gen/abi.json"], ["missing.xml", "broken.json", "out/gen/mod.rs"],
        []) := by decide +kernel
  simp only [Prod.mk.injEq] at found
  obtain ⟨others, texts, paths, ofWriting⟩ := found
  obtain ⟨⟨-, generated, failed, -⟩, -, rest⟩ :=
    runBatch_of_files noWeb .empty shelfList "" true shelf files
  rw [others] at rest
  rw [← generated] at texts
  rw [← failed] at paths ofWriting
  rw [ofWriting] at rest
  exact ⟨files, texts, paths, rest⟩

end Generation

end ContractAbi
