import ContractAbi.Proofs.Code.Returns

/-!
# The bundle and the files

The bundle holds the generated files as modules. Read from its lines alone (`outline`), these are
the files beside the index, each once and letter by letter, and what stands outside them is what the
index exports (`outline_bundle`).
-/

namespace ContractAbi.Code

open Binding (Model)

/-! ### Reading a bundle -/

/-- What stands at the margin of a text: modules, each with the text inside it, and other lines. -/
structure Outline where
  modules : List (String × String)
  others : List String
  deriving DecidableEq

/-- What stands between the front and the back of a line. -/
def between? (front back line : String) : Option String := do
  let rest ← line.toList.dropPrefix? front.toList
  (rest.dropSuffix? back.toList).map String.ofList

/-- The name of the module that begins in a line. -/
def openedModule? (line : String) : Option String := between? "pub mod " " \x7b" line

/-- The name of the module that a line declares to be in a file of its own. -/
def declaredModule? (line : String) : Option String := between? "pub mod " ";" line

/-- Whether a line exports what a module holds. -/
def isExport (line : String) : Bool := "pub use ".toList.isPrefixOf line.toList

/-- A line without one level of indentation. -/
def unindented (line : String) : String := (between? "    " "" line).getD line

/-- Reads lines. If a module is open, `inside` is its name and what has been read of it. -/
def Outline.read (inside : Option (String × List String)) : List String → Outline
  | [] => ⟨[], []⟩
  | line :: lines =>
    match inside with
    | some (name, body) =>
      if line = "\x7d" then
        let rest := read none lines
        { rest with modules := (name, ofLines body) :: rest.modules }
      else read (some (name, body ++ [unindented line])) lines
    | none =>
      match openedModule? line with
      | some name => read (some (name, [])) lines
      | none =>
        let rest := read none lines
        { rest with others := line :: rest.others }

/-- The outline of a text. -/
def outline (text : String) : Outline := .read none (linesOf text)

variable {front back line x : String} {lines : List String}

/-- What stands between two texts in a line is read back, and nothing else is. -/
theorem between?_eq_some_iff : between? front back line = some x ↔ line = front ++ x ++ back := by
  simp only [between?, Option.bind_eq_bind, Option.bind_eq_some_iff, Option.map_eq_some_iff,
    List.dropPrefix?_eq_some_iff, List.dropSuffix?_eq_some_iff, beq_iff_eq]
  constructor
  · rintro ⟨rest, ⟨_, whole, rfl⟩, inside, ⟨_, rfl, rfl⟩, rfl⟩
    rw [← String.toList_inj, whole]
    simp
  · rintro rfl
    exact ⟨x.toList ++ back.toList, ⟨_, by simp, rfl⟩, x.toList, ⟨_, rfl, rfl⟩, by simp⟩

/-- The indentation of the lines of a module is taken off again. -/
theorem unindented_indented (line : String) : unindented (indented 1 line) = line := by
  unfold indented
  split
  · next empty =>
    rw [empty]
    rfl
  · have inside : between? "    " "" (String.ofList (List.replicate (4 * 1) ' ') ++ line) =
        some line := between?_eq_some_iff.mpr (String.append_empty).symm
    rw [unindented, inside]
    rfl

theorem indented_ne_closing (line : String) : indented 1 line ≠ "\x7d" := by
  unfold indented
  split
  · simp
  · intro same
    have letters := congrArg String.toList same
    simp at letters

namespace Outline

/-- The lines of a module. -/
def moduleLines (name source : String) : List String :=
  ("pub mod " ++ name ++ " \x7b") :: ((linesOf source).map (indented 1) ++ ["\x7d"])

/-- Indented lines are read as lines of the module that is open, up to its closing line. -/
theorem read_body (name : String) (body more : List String) :
    read (some (name, body)) (lines.map (indented 1) ++ "\x7d" :: more) =
      ⟨(name, ofLines (body ++ lines)) :: (read none more).modules, (read none more).others⟩ := by
  induction lines generalizing body with
  | nil => simp [read]
  | cons line lines ih =>
    rw [List.map_cons, List.cons_append, read]
    dsimp only
    rw [if_neg (indented_ne_closing line), unindented_indented, ih, List.append_assoc]
    rfl

/-- A module is read with the text inside it. -/
theorem read_moduleLines (name source : String) (more : List String) :
    read none (moduleLines name source ++ more) =
      ⟨(name, ofLines (linesOf source)) :: (read none more).modules, (read none more).others⟩ := by
  have opened : openedModule? ("pub mod " ++ name ++ " \x7b") = some name :=
    between?_eq_some_iff.mpr rfl
  rw [moduleLines, List.cons_append, read, opened]
  dsimp only
  rw [List.append_assoc, List.singleton_append, read_body, List.nil_append]

/-- A line that opens no module is one of the others. -/
theorem read_other (other : openedModule? line = none) (more : List String) :
    read none (line :: more) = ⟨(read none more).modules, line :: (read none more).others⟩ := by
  rw [read, other]

theorem read_others (others : ∀ line ∈ lines, openedModule? line = none) (more : List String) :
    read none (lines ++ more) = ⟨(read none more).modules, lines ++ (read none more).others⟩ := by
  induction lines with
  | nil => rfl
  | cons line lines ih =>
    obtain ⟨first, others⟩ := List.forall_mem_cons.mp others
    rw [List.cons_append, read_other first, ih others]
    rfl

/-- Modules are read in order, each behind an empty line. -/
theorem read_modules (modules : List (String × File)) (more : List String) :
    read none (modules.flatMap (fun m => "" :: moduleLines m.1 m.2.source) ++ more) =
      ⟨modules.map (fun m => (m.1, ofLines (linesOf m.2.source))) ++ (read none more).modules,
        modules.map (fun _ => "") ++ (read none more).others⟩ := by
  have blank : openedModule? "" = none := rfl
  induction modules with
  | nil => rfl
  | cons m modules ih =>
    rw [List.flatMap_cons, List.cons_append, List.cons_append, List.append_assoc, read_other blank,
      read_moduleLines, ih]
    rfl

end Outline

/-! ### The lines of the bundle and of the index -/

theorem indented_zero (content : String) : indented 0 content = content := by
  unfold indented
  split
  · next empty => exact empty.symm
  · exact String.empty_append

theorem layout_texts (xs : List String) (ls : List Line) :
    layout 0 (texts xs ++ ls) = xs ++ layout 0 ls := by
  induction xs with
  | nil => rfl
  | cons x xs ih =>
    change indented 0 x :: layout 0 (texts xs ++ ls) = _
    rw [indented_zero, ih, List.cons_append]

/-- The lines inside a module are indented once, and its closing line is not. -/
theorem layout_body (xs : List String) (ls : List Line) :
    layout 1 (texts xs ++ .closing "" :: ls) = xs.map (indented 1) ++ "\x7d" :: layout 0 ls := by
  induction xs with
  | nil =>
    change indented 0 ("\x7d" ++ "") :: layout 0 ls = _
    rw [indented_zero]
    rfl
  | cons x xs ih =>
    change indented 1 x :: layout 1 (texts xs ++ .closing "" :: ls) = _
    rw [ih, List.map_cons, List.cons_append]

/-- A module that is written inline has the lines that the outline knows for its source. -/
theorem layout_inlineModule (name : String) (f : File) (ls : List Line) :
    layout 0 (inlineModule name f ++ ls) = Outline.moduleLines name f.source ++ layout 0 ls := by
  have shape : inlineModule name f ++ ls = .opening ("pub mod " ++ name) ::
      (texts (linesOf f.source) ++ .closing "" :: ls) := by
    simp [inlineModule, block]
  rw [shape]
  change indented 0 ("pub mod " ++ name ++ " \x7b") ::
    layout 1 (texts (linesOf f.source) ++ .closing "" :: ls) = _
  rw [indented_zero, layout_body]
  simp [Outline.moduleLines]

theorem layout_modules (modules : List (String × File)) (ls : List Line) :
    layout 0 (spaced (modules.map fun m => inlineModule m.1 m.2) ++ ls) =
      (modules.flatMap fun m => "" :: Outline.moduleLines m.1 m.2.source) ++ layout 0 ls := by
  induction modules with
  | nil => rfl
  | cons m modules ih =>
    have shape : spaced ((m :: modules).map fun m => inlineModule m.1 m.2) ++ ls = texts [""] ++
        (inlineModule m.1 m.2 ++ (spaced (modules.map fun m => inlineModule m.1 m.2) ++ ls)) := by
      simp [spaced, texts, blank]
    rw [shape, layout_texts, layout_inlineModule, ih]
    simp

/-- The modules of a bundle, each with the file in it: those beside the classes come first. -/
def bundled (m : Model) : List (String × File) :=
  [("messages", (Package.ofModel m).messages), ("registry", (Package.ofModel m).registry)] ++
    m.classes.map fun c => (c.moduleName, Package.classFile c)

theorem map_bundled (m : Model) : (bundled m).map (·.2) =
    [(Package.ofModel m).messages, (Package.ofModel m).registry] ++
      (Package.ofModel m).classes.map (·.2) := by
  simp [bundled, Package.ofModel]

theorem mem_files_of_mem_bundled {m : Model} {e : String × File} (member : e ∈ bundled m) :
    e.2 ∈ (Package.ofModel m).files := by
  have listed : e.2 ∈ (bundled m).map (·.2) := List.mem_map_of_mem member
  rw [map_bundled] at listed
  rcases List.mem_append.mp listed with fixed | own
  · exact List.mem_append_right _ (List.mem_append_left [(Package.ofModel m).index] fixed)
  · exact List.mem_append_left _ own

/-- The comment at the start of a bundle. -/
def bundleComment : List String :=
  ["// Generated contract bindings, one inline module per file.",
    "// Generated by " ++ generator ++ ". Do not edit manually."]

/-- The lines of a bundle, before they are one text. -/
theorem layout_bundleCode (m : Model) : layout 0 (bundleCode m) = bundleComment ++
    ((bundled m).flatMap (fun m => "" :: Outline.moduleLines m.1 m.2.source) ++
      "" :: exportLines m) := by
  have shape : bundleCode m = texts bundleComment ++
      (spaced ((bundled m).map fun m => inlineModule m.1 m.2) ++
        (texts ("" :: exportLines m) ++ [])) := by
    simp [bundleCode, bundled, bundleComment, Function.comp_def]
  rw [shape, layout_texts, layout_modules, layout_texts, layout, List.append_nil]

/-- The comment at the start of the index. -/
def indexComment : List String :=
  ["//! Generated contract bindings.", "//!",
    "//! Generated by " ++ generator ++ ". Do not edit manually."]

/-- The lines of an index, before they are one text. -/
theorem layout_indexCode (m : Model) : layout 0 (indexCode m) = indexComment ++
    ("" :: (bundled m).map (fun m => "pub mod " ++ m.1 ++ ";") ++ "" :: exportLines m) := by
  have shape : indexCode m = texts (indexComment ++ ("" ::
      (bundled m).map (fun m => "pub mod " ++ m.1 ++ ";") ++ "" :: exportLines m)) ++ [] := by
    simp [indexCode, fileHeader, indexComment, bundled, texts]
  rw [shape, layout_texts, layout, List.append_nil]

/-! ### Where the lines end -/

theorem isSingle_of_isIdentifier {ident : String} (identifier : Naming.isIdentifier ident = true) :
    IsSingle ident :=
  ⟨(isPlain_of_isIdentifier identifier).oneLine, noReturn_of_isIdentifier identifier⟩

theorem isSingle_indented (depth : Nat) (single : IsSingle line) :
    IsSingle (indented depth line) := by
  refine ⟨?_, noReturn_indented depth single.2⟩
  unfold indented
  split
  · exact .ofList rfl
  · exact oneLine_append.mpr ⟨(isPlain_blanks _).oneLine, single.1⟩

/-- Each line of an inline module is a single line, also where a line of its source is empty. -/
theorem isSingle_moduleLines {name source : String} (identifier : Naming.isIdentifier name = true)
    (noReturn : NoReturn source) : ∀ line ∈ Outline.moduleLines name source, IsSingle line := by
  have header : IsSingle ("pub mod " ++ name ++ " \x7b") :=
    .append (.append (.ofList rfl) (isSingle_of_isIdentifier identifier)) (.ofList rfl)
  simp only [Outline.moduleLines, List.forall_mem_cons, List.forall_mem_append, List.forall_mem_map]
  exact ⟨header, fun line listed => isSingle_indented 1 (isSingle_linesOf noReturn line listed),
    .ofList rfl, List.forall_mem_nil _⟩

section

variable {doc : Document}

theorem isIdentifier_moduleName {c : Binding.Class} (member : c ∈ (Model.ofDocument doc).classes) :
    Naming.isIdentifier c.moduleName = true :=
  (Model.isModuleName_of_mem (List.mem_map_of_mem member)).escaped.isIdentifier

/-- Every module of a bundle is named by an identifier. -/
theorem isIdentifier_of_mem_bundled :
    ∀ m ∈ bundled (Model.ofDocument doc), Naming.isIdentifier m.1 = true := by
  simp only [bundled, List.forall_mem_append, List.forall_mem_map, List.forall_mem_cons]
  exact ⟨⟨by decide, by decide, List.forall_mem_nil _⟩, fun c => isIdentifier_moduleName⟩

theorem isSingle_generatorLine {front back : String} (before : IsSingle front)
    (behind : IsSingle back) : IsSingle (front ++ generator ++ back) :=
  (before.append (.ofList rfl)).append behind

theorem isSingle_exportLines : ∀ line ∈ exportLines (Model.ofDocument doc), IsSingle line := by
  have classes := (Model.wellNamed_ofDocument doc).classes.legal
  simp only [exportLines, List.forall_mem_append, List.forall_mem_map, List.forall_mem_cons]
  refine ⟨?_, .ofList rfl, List.forall_mem_nil _⟩
  intro c member
  have module := isSingle_of_isIdentifier (isIdentifier_moduleName member)
  have type := isSingle_of_isIdentifier (classes c.typeName (List.mem_map_of_mem member))
  exact .append (.append (.append (.append (.ofList rfl) module) (.ofList rfl)) type) (.ofList rfl)

/-- Read by lines, a bundle has the lines that were laid out for it. -/
theorem linesOf_bundle (clean : ∀ text ∈ doc.strings, NoReturn text) :
    linesOf (bundle (Model.ofDocument doc)) = bundleComment ++
      ((bundled (Model.ofDocument doc)).flatMap
        (fun m => "" :: Outline.moduleLines m.1 m.2.source) ++
        "" :: exportLines (Model.ofDocument doc)) := by
  have summary : IsSingle "// Generated contract bindings, one inline module per file." :=
    .ofList rfl
  rw [bundle, render_eq_ofLines, layout_bundleCode]
  refine linesOf_ofLines ?_
  simp only [bundleComment, List.forall_mem_append, List.forall_mem_cons, List.forall_mem_flatMap]
  refine ⟨⟨summary, isSingle_generatorLine (.ofList rfl) (.ofList rfl), List.forall_mem_nil _⟩,
    fun m member => ⟨.ofList rfl, ?_⟩, .ofList rfl, isSingle_exportLines⟩
  exact isSingle_moduleLines (isIdentifier_of_mem_bundled m member)
    (noReturn_files clean m.2 (mem_files_of_mem_bundled member))

/-- Read by lines, an index has the lines that were laid out for it. -/
theorem linesOf_index (doc : Document) : linesOf (Package.ofDocument doc).index.source =
    indexComment ++ ("" ::
      (bundled (Model.ofDocument doc)).map (fun m => "pub mod " ++ m.1 ++ ";") ++
        "" :: exportLines (Model.ofDocument doc)) := by
  have source : (Package.ofDocument doc).index.source =
      render (indexCode (Model.ofDocument doc)) := by
    simp only [Package.ofDocument, Package.ofModel]
  rw [source, render_eq_ofLines, layout_indexCode]
  refine linesOf_ofLines ?_
  simp only [indexComment, List.forall_mem_append, List.forall_mem_cons, List.forall_mem_map]
  refine ⟨⟨.ofList rfl, .ofList rfl, isSingle_generatorLine (.ofList rfl) (.ofList rfl),
    List.forall_mem_nil _⟩, ⟨.ofList rfl, fun m member => ?_⟩, .ofList rfl, isSingle_exportLines⟩
  exact .append (.append (.ofList rfl)
    (isSingle_of_isIdentifier (isIdentifier_of_mem_bundled m member))) (.ofList rfl)

end

/-! ### The bundle holds the files -/

/-- A line that begins otherwise than modules do begins none. -/
theorem between?_eq_none (other : ¬ front.toList <+: line.toList) :
    between? front back line = none := by
  refine Option.eq_none_iff_forall_ne_some.mpr ?_
  intro x inside
  refine other ⟨x.toList ++ back.toList, ?_⟩
  rw [between?_eq_some_iff.mp inside]
  simp

theorem isExport_iff : isExport line = true ↔ "pub use ".toList <+: line.toList :=
  List.isPrefixOf_iff_prefix

theorem exists_of_mem_exportLines {m : Model} (listed : line ∈ exportLines m) :
    ∃ rest, line = "pub use " ++ rest := by
  rcases List.mem_append.mp listed with own | last
  · obtain ⟨c, -, rfl⟩ := List.mem_map.mp own
    exact ⟨c.moduleName ++ ("::" ++ (c.typeName ++ ";")), by simp [String.append_assoc]⟩
  · rw [List.mem_singleton.mp last]
    exact ⟨"registry::register_all;", rfl⟩

/-- A line that exports a module's items opens no module and declares none. -/
theorem export_spec {m : Model} (listed : line ∈ exportLines m) :
    isExport line = true ∧ openedModule? line = none ∧ declaredModule? line = none := by
  obtain ⟨rest, rfl⟩ := exists_of_mem_exportLines listed
  have other : ¬ "pub mod ".toList <+: ("pub use " ++ rest).toList := by
    rw [String.toList_append]
    simp
  refine ⟨?_, between?_eq_none other, between?_eq_none other⟩
  rw [isExport_iff, String.toList_append]
  exact List.prefix_append ..

/-- Every export line is recognized as one. -/
theorem filter_exportLines (m : Model) : (exportLines m).filter isExport = exportLines m :=
  List.filter_eq_self.mpr fun _ listed => (export_spec listed).1

/-- A comment is neither a module nor an export. -/
theorem comment_spec (comment : "//".toList <+: line.toList) :
    isExport line = false ∧ openedModule? line = none ∧ declaredModule? line = none := by
  obtain ⟨rest, letters⟩ := comment
  have other : ¬ "pub mod ".toList <+: line.toList := by simp [← letters]
  have noExport : ¬ "pub use ".toList <+: line.toList := by simp [← letters]
  exact ⟨Bool.eq_false_iff.mpr (mt isExport_iff.mp noExport), between?_eq_none other,
    between?_eq_none other⟩

theorem filter_comment (comment : ∀ line ∈ lines, "//".toList <+: line.toList) :
    lines.filter isExport = [] := by
  refine List.filter_eq_nil_iff.mpr fun line listed => ?_
  simp [(comment_spec (comment line listed)).1]

theorem comment_bundleComment : ∀ line ∈ bundleComment, "//".toList <+: line.toList := by
  simp [bundleComment]

theorem comment_indexComment : ∀ line ∈ indexComment, "//".toList <+: line.toList := by
  simp [indexComment]

/-- The sources of the files of a bundle are their own lines again. -/
theorem source_bundled {doc : Document} (clean : ∀ text ∈ doc.strings, NoReturn text) :
    ∀ e ∈ bundled (Model.ofDocument doc), ofLines (linesOf e.2.source) = e.2.source := by
  have rendered : ∀ e ∈ bundled (Model.ofDocument doc), ∃ ls, e.2.source = render ls := by
    simp [bundled, Package.ofModel, Package.classFile]
  intro e member
  obtain ⟨ls, source⟩ := rendered e member
  have noReturn := noReturn_files clean e.2 (mem_files_of_mem_bundled member)
  rw [source] at noReturn ⊢
  exact ofLines_linesOf noReturn

/-- What is read off a bundle: each module with the source of its file, and all lines that are
outside. -/
theorem outline_bundle_eq {doc : Document} (clean : ∀ text ∈ doc.strings, NoReturn text) :
    outline (bundle (Model.ofDocument doc)) =
      ⟨(bundled (Model.ofDocument doc)).map (fun e => (e.1, e.2.source)),
        bundleComment ++ ((bundled (Model.ofDocument doc)).map (fun _ => "") ++
          "" :: exportLines (Model.ofDocument doc))⟩ := by
  have exports : Outline.read none (exportLines (Model.ofDocument doc)) =
      ⟨[], exportLines (Model.ofDocument doc)⟩ := by
    have closed : ∀ line ∈ exportLines (Model.ofDocument doc), openedModule? line = none :=
      fun line listed => (export_spec listed).2.1
    have read := Outline.read_others closed []
    simpa [Outline.read] using read
  have sources :
      (bundled (Model.ofDocument doc)).map (fun e => (e.1, ofLines (linesOf e.2.source))) =
        (bundled (Model.ofDocument doc)).map fun e => (e.1, e.2.source) := by
    refine List.map_congr_left fun e member => ?_
    rw [source_bundled clean e member]
  have comment : ∀ line ∈ bundleComment, openedModule? line = none := fun line listed =>
    (comment_spec (comment_bundleComment line listed)).2.1
  rw [outline, linesOf_bundle clean, Outline.read_others comment, Outline.read_modules,
    Outline.read_other (rfl : openedModule? "" = none), exports, sources, List.append_nil]

theorem fileName_bundled (m : Model) : ∀ e ∈ bundled m, Naming.fileName e.1 = e.2.name := by
  simp only [bundled, List.forall_mem_append, List.forall_mem_map, List.forall_mem_cons]
  have messages : Naming.fileName "messages" = "messages.rs" := by decide
  have registry : Naming.fileName "registry" = "registry.rs" := by decide
  exact ⟨⟨messages, registry, List.forall_mem_nil _⟩, fun c _ => rfl⟩

/-- No two modules of a bundle have the same name. -/
theorem nodup_bundled (doc : Document) : ((bundled (Model.ofDocument doc)).map (·.1)).Nodup := by
  obtain ⟨_, given⟩ := Model.gives_modules doc
  have names : (bundled (Model.ofDocument doc)).map (·.1) =
      Binding.reservedModules ++ (Model.ofDocument doc).classes.map (·.moduleName) := by
    simp [bundled, Binding.reservedModules]
  rw [names]
  refine List.nodup_append.mpr ⟨by decide, given.nodup, ?_⟩
  rintro _ taken _ own rfl
  exact given.notMem_taken own taken

/-- The modules that the index declares are those of the bundle, in the same order. -/
theorem declaredModules_index (doc : Document) :
    (linesOf (Package.ofDocument doc).index.source).filterMap declaredModule? =
      (bundled (Model.ofDocument doc)).map (·.1) := by
  have comment : indexComment.filterMap declaredModule? = [] :=
    List.filterMap_eq_nil_iff.mpr fun line listed =>
      (comment_spec (comment_indexComment line listed)).2.2
  have exports : (exportLines (Model.ofDocument doc)).filterMap declaredModule? = [] :=
    List.filterMap_eq_nil_iff.mpr fun line listed => (export_spec listed).2.2
  have modules : ((bundled (Model.ofDocument doc)).map fun m => "pub mod " ++ m.1 ++ ";").filterMap
      declaredModule? = (bundled (Model.ofDocument doc)).map (·.1) := by
    have names : (declaredModule? ∘ fun m : String × File => "pub mod " ++ m.1 ++ ";") =
        some ∘ (·.1) := funext fun m => between?_eq_some_iff.mpr rfl
    rw [List.filterMap_map, names, List.filterMap_eq_map]
  have blank : declaredModule? "" = none := rfl
  rw [linesOf_index, List.filterMap_append, List.cons_append, List.filterMap_cons_none blank,
    List.filterMap_append, List.filterMap_cons_none blank, comment, exports, modules]
  simp

/-- The exports of the index are those of the bundle. -/
theorem exports_index (doc : Document) :
    (linesOf (Package.ofDocument doc).index.source).filter isExport =
      exportLines (Model.ofDocument doc) := by
  have modules : ((bundled (Model.ofDocument doc)).map fun m => "pub mod " ++ m.1 ++ ";").filter
      isExport = [] := by
    refine List.filter_eq_nil_iff.mpr (List.forall_mem_map.mpr fun m _ => ?_)
    rw [isExport_iff, String.append_assoc, String.toList_append]
    simp
  have blank : isExport "" = false := rfl
  rw [linesOf_index, List.filter_append, List.cons_append, List.filter_cons, List.filter_append,
    List.filter_cons, filter_comment comment_indexComment, filter_exportLines, modules, blank]
  rfl

/-- For a description without carriage returns, the bundle holds the same as the files. Its modules
have distinct names, those that the index declares, in order; the text inside each, without the
indentation, is the source of the file of that name, and every file beside the index is among them.
Outside the modules are a comment, empty lines, and the exports of the index, in order. -/
theorem outline_bundle (doc : Document) (clean : ∀ text ∈ doc.strings, NoReturn text) :
    let p := Package.ofDocument doc
    let o := outline (bundle (Model.ofDocument doc))
    o.modules.map (fun m => (⟨Naming.fileName m.1, m.2⟩ : File)) =
        [p.messages, p.registry] ++ p.classes.map (·.2) ∧
      (o.modules.map (·.1)).Nodup ∧
      o.modules.map (·.1) = (linesOf p.index.source).filterMap declaredModule? ∧
      o.others.filter isExport = (linesOf p.index.source).filter isExport ∧
      ∀ line ∈ o.others, line = "" ∨ "//".toList <+: line.toList ∨ isExport line = true := by
  intro p o
  have read : o = _ := outline_bundle_eq clean
  -- Both sides are known by now: what the bundle reads as, and what the index declares and exports.
  rw [read, declaredModules_index, exports_index]
  refine ⟨?files, ?names, ?declared, ?exports, ?others⟩
  case files =>
    have package : p = Package.ofModel (Model.ofDocument doc) := rfl
    rw [package, ← map_bundled, List.map_map]
    refine List.map_congr_left fun e member => ?_
    simp [fileName_bundled _ e member]
  case names =>
    rw [List.map_map]
    exact nodup_bundled doc
  case declared => rw [List.map_map]; rfl
  case exports =>
    have blanks : ((bundled (Model.ofDocument doc)).map fun _ => "").filter isExport = [] :=
      List.filter_eq_nil_iff.mpr (List.forall_mem_map.mpr fun _ _ => by decide)
    have blank : isExport "" = false := rfl
    rw [List.filter_append, List.filter_append, List.filter_cons, blank,
      filter_comment comment_bundleComment, filter_exportLines, blanks]
    rfl
  case others =>
    simp only [List.forall_mem_append, List.forall_mem_cons, List.forall_mem_map]
    exact ⟨fun line listed => .inr (.inl (comment_bundleComment line listed)),
      fun _ _ => .inl trivial, .inl trivial, fun line listed => .inr (.inr (export_spec listed).1)⟩

/-- A description whose interfaces are called like a keyword, like code and like a fixed module. -/
def crowded : Document where
  interfaces := [⟨"type", none, none, ["seqno"], [], []⟩,
    ⟨"a\n\x7d\n\npub mod b \x7b", some "type", none, [], [], []⟩,
    ⟨"registry", none, none, [], [], []⟩]
  getMethods := [⟨"seqno", [], []⟩]
  messages := []

theorem noReturn_crowded : ∀ text ∈ crowded.strings, NoReturn text := by
  show ∀ text ∈ ["type", "seqno", "a\n\x7d\n\npub mod b \x7b", "type", "registry", "seqno"],
    NoReturn text
  simp only [List.forall_mem_cons]
  exact ⟨.ofList rfl, .ofList rfl, .ofList rfl, .ofList rfl, .ofList rfl, .ofList rfl,
    List.forall_mem_nil _⟩

/-- Lines of a name that look like code do not count: there are five modules, one for each file. -/
theorem outline_bundle_crowded :
    (∀ text ∈ crowded.strings, NoReturn text) ∧
      (outline (bundle (Model.ofDocument crowded))).modules.map (·.1) =
        ["messages", "registry", "r#type", "a____pub_mod_b__", "registry_binding"] ∧
      (outline (bundle (Model.ofDocument crowded))).modules.map
          (fun m => (⟨Naming.fileName m.1, m.2⟩ : File)) =
        [(Package.ofDocument crowded).messages, (Package.ofDocument crowded).registry] ++
          (Package.ofDocument crowded).classes.map (·.2) := by
  obtain ⟨files, -, declared, -, -⟩ := outline_bundle crowded noReturn_crowded
  have names : (bundled (Model.ofDocument crowded)).map (·.1) =
      ["messages", "registry", "r#type", "a____pub_mod_b__", "registry_binding"] := by
    decide +kernel
  refine ⟨noReturn_crowded, ?_, files⟩
  rw [declared, declaredModules_index, names]

end ContractAbi.Code
