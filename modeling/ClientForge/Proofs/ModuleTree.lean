import ClientForge.Proofs.DispatchReading
import ClientForge.Proofs.FilePaths
import ClientForge.Proofs.SourceLines

/-! The files of a plan as a tree of modules. The module lines are read from the text of the files, by a reader
that knows nothing of how the text has been written: each file but the outermost one is the source of a module
that one line declares, and each declared module has one file. -/

namespace ClientForge.Source
open Plan Ident

def moduleName? (text : List Char) : Option String :=
  if text.getLast? = some ';' ∧ isName text.dropLast then some (String.ofList text.dropLast) else none

/-- Reads `mod name;` or `pub mod name;`. -/
def declaredModule? (line : String) : Option String :=
  match (Text.splitWhere Text.isBlank line.toList).filter (!·.isEmpty) with
  | [keyword, name] => if keyword = "mod".toList then moduleName? name else none
  | [visibility, keyword, name] =>
    if visibility = "pub".toList ∧ keyword = "mod".toList then moduleName? name else none
  | _ => none

/-- The modules that a source declares. -/
def declaredModules (source : String) : List String := (Text.lines source).filterMap declaredModule?

/-- Where the source of a module stands, if its parent is the module of `directory`. -/
inductive SourceOf (directory : List String) (name : String) : List String → Prop where
  | file (other : name ≠ "mod") : SourceOf directory name (directory ++ [name ++ ".rs"])
  | directory : SourceOf directory name (directory ++ [name, "mod.rs"])

/-- Files below one directory that are the sources of a tree of modules. -/
structure ModuleTree (top : String) (files : List File) : Prop where
  distinct : (files.map File.pathText).Nodup
  plain : ∀ file ∈ files, ∀ name ∈ file.path, FileTree.IsPlain name
  relative : ∀ file ∈ files, FileTree.startsFromRoot file.pathText = false ∧ FileTree.names file.pathText = file.path
  below : ∀ file ∈ files, ∀ (tree : FileTree) output base there,
    tree.follow (tree.start output) (FileTree.names output) = .ok base →
    tree.follow (tree.start (Text.joinPath output file.path)) (FileTree.names (Text.joinPath output file.path)) = .ok there →
    there = base ++ file.path
  declared : ∀ file ∈ files, file.path = [top, "mod.rs"] ∨
    ∃ directory name, SourceOf directory name file.path ∧
      ∃ parent ∈ files, parent.path = directory ++ ["mod.rs"] ∧ (declaredModules parent.contents).count name = 1
  rendered : ∀ index ∈ files, ∀ directory, index.path = directory ++ ["mod.rs"] →
    ∀ name ∈ declaredModules index.contents, ∃! file, file ∈ files ∧ SourceOf directory name file.path

private theorem noBlank_of_all {chars : List Char} (check : chars.all (!Text.isBlank ·) = true) :
    ∀ c ∈ chars, Text.isBlank c = false := by
  simpa using check

private theorem splitWhere_word {word : List Char} (check : word.all (!Text.isBlank ·) = true) (rest : List Char) :
    Text.splitWhere Text.isBlank (word ++ ' ' :: rest) = word :: Text.splitWhere Text.isBlank rest :=
  Text.splitWhere_append (noBlank_of_all check) (by decide)

private theorem isLine_of_chars {name : String} (all : ∀ c ∈ name.toList, isNameChar c = true) : IsLine name :=
  fun c member => by
    simpa using of_isNameChar (fun c => c != '\n' && c != '\r') (by decide +kernel) (all c member)

private theorem isLine_of_all {text : String} (check : text.toList.all (fun c => c != '\n' && c != '\r') = true) :
    IsLine text := by
  simpa [IsLine, List.all_eq_true] using check

private theorem isLine_moduleLine (isPublic : Bool) {name : String} (valid : IsValueName name) :
    IsLine (moduleLine isPublic name) := by
  have front : IsLine (if isPublic then "pub mod " else "mod ") := by
    cases isPublic <;> exact isLine_of_all (by decide)
  exact (front.append (isLine_of_chars valid.chars)).append (isLine_of_all (by decide))

theorem declaredModule?_moduleLine (isPublic : Bool) {name : String} (valid : IsValueName name) :
    declaredModule? (moduleLine isPublic name) = some name := by
  have solid : ∀ c ∈ name.toList ++ [';'], Text.isBlank c = false :=
    List.forall_mem_append.mpr ⟨noBlank_of_chars valid.chars, noBlank_of_all (by decide)⟩
  have read : moduleName? (name.toList ++ [';']) = some name := by
    simp [moduleName?, isName_of_valid valid]
  have ends : Text.splitWhere Text.isBlank ("mod".toList ++ ' ' :: (name.toList ++ [';'])) =
      ["mod".toList, name.toList ++ [';']] := by
    rw [splitWhere_word (by decide), Text.splitWhere_eq_singleton solid]
  cases isPublic with
  | false =>
    have chars : (moduleLine false name).toList = "mod".toList ++ ' ' :: (name.toList ++ [';']) := by
      simp [moduleLine, String.toList_append]
    rw [declaredModule?, chars, ends]
    simpa using read
  | true =>
    have chars : (moduleLine true name).toList = "pub".toList ++ ' ' :: ("mod".toList ++ ' ' :: (name.toList ++ [';'])) := by
      simp [moduleLine, String.toList_append]
    rw [declaredModule?, chars, splitWhere_word (by decide), ends]
    simpa using read

private def exportLine (entry : String × String) : String := "pub use " ++ entry.1 ++ "::" ++ entry.2 ++ ";"

private theorem isLine_exportLine {entry : String × String} (valid : IsValueName entry.1) (exported : IsTypeName entry.2) :
    IsLine (exportLine entry) := by
  have start : IsLine ("pub use " ++ entry.1) := (isLine_of_all (by decide)).append (isLine_of_chars valid.chars)
  have inner : IsLine ("pub use " ++ entry.1 ++ "::") := start.append (isLine_of_all (by decide))
  exact (inner.append (isLine_of_chars exported.chars)).append (isLine_of_all (by decide))

private theorem declaredModule?_exportLine {entry : String × String} (valid : IsValueName entry.1)
    (exported : IsTypeName entry.2) : declaredModule? (exportLine entry) = none := by
  have chars : (exportLine entry).toList =
      "pub".toList ++ ' ' :: ("use".toList ++ ' ' :: (entry.1.toList ++ "::".toList ++ entry.2.toList ++ [';'])) := by
    simp [exportLine, String.toList_append]
  have solid : ∀ c ∈ entry.1.toList ++ "::".toList ++ entry.2.toList ++ [';'], Text.isBlank c = false := by
    simp only [List.forall_mem_append]
    exact ⟨⟨⟨noBlank_of_chars valid.chars, noBlank_of_all (by decide)⟩, noBlank_of_chars exported.chars⟩, noBlank_of_all (by decide)⟩
  rw [declaredModule?, chars, splitWhere_word (by decide), splitWhere_word (by decide), Text.splitWhere_eq_singleton solid]
  simp

private theorem isLine_header : ∀ line ∈ header, IsLine line := by
  have check : header.all (fun line => line.toList.all fun c => c != '\n' && c != '\r') = true := by decide
  exact fun line member => isLine_of_all (List.all_eq_true.mp check line member)

private theorem declaredModules_of_lines {path lines : List String} (whole : ∀ line ∈ lines, IsLine line) :
    declaredModules (File.contents ⟨path, lines⟩) = lines.filterMap declaredModule? := by
  rw [declaredModules, File.contents, lines_text whole]

private theorem filterMap_header : header.filterMap declaredModule? = [] := by decide +kernel

private theorem declaredModules_parent (path : List String) {inner : String} (valid : IsValueName inner) :
    declaredModules (File.contents ⟨path, header ++ [moduleLine true inner]⟩) = [inner] := by
  rw [declaredModules_of_lines, List.filterMap_append, filterMap_header]
  · simp [declaredModule?_moduleLine true valid]
  · exact List.forall_mem_append.mpr ⟨isLine_header, by simpa using isLine_moduleLine true valid⟩

private theorem declaredModules_root (path : List String) :
    declaredModules (File.contents ⟨path, rootLines⟩) = ["clients", "config", "models"] := by
  have check : rootLines.all (fun line => line.toList.all fun c => c != '\n' && c != '\r') = true := by decide +kernel
  rw [declaredModules_of_lines fun line member => isLine_of_all (List.all_eq_true.mp check line member)]
  decide +kernel

private theorem declaredModules_index (path : List String) {doc : String} (isPublic : Bool) {entries : List (String × String)}
    (line : IsLine ("//! " ++ doc)) (silent : declaredModule? ("//! " ++ doc) = none)
    (valid : ∀ entry ∈ entries, IsValueName entry.1 ∧ IsTypeName entry.2) :
    declaredModules (File.contents ⟨path, indexLines doc isPublic entries⟩) = entries.map (·.1) := by
  have declared : (entries.map fun entry => moduleLine isPublic entry.1).filterMap declaredModule? = entries.map (·.1) := by
    rw [List.filterMap_map, ← List.filterMap_eq_map]
    exact List.filterMap_congr fun entry member => declaredModule?_moduleLine isPublic (valid entry member).1
  have exported : (entries.map exportLine).filterMap declaredModule? = [] := by
    rw [List.filterMap_map, List.filterMap_eq_nil_iff]
    exact fun entry member => declaredModule?_exportLine (valid entry member).1 (valid entry member).2
  have empty : declaredModule? "" = none := by decide +kernel
  cases entries with
  | nil =>
    rw [indexLines, declaredModules_of_lines]
    · simp [filterMap_header, silent]
    · exact List.forall_mem_append.mpr ⟨isLine_header, by simpa using line⟩
  | cons entry rest =>
    have lines : indexLines doc isPublic (entry :: rest) = header ++ ["//! " ++ doc, ""] ++
        (entry :: rest).map (fun entry => moduleLine isPublic entry.1) ++ [""] ++ (entry :: rest).map exportLine := rfl
    rw [lines, declaredModules_of_lines]
    · simp only [List.filterMap_append, filterMap_header, declared, exported]
      simp [silent, empty]
    · simp only [List.forall_mem_append, List.forall_mem_map]
      refine ⟨⟨⟨⟨isLine_header, ?_⟩, fun entry member => isLine_moduleLine isPublic (valid entry member).1⟩, ?_⟩,
        fun entry member => isLine_exportLine (valid entry member).1 (valid entry member).2⟩
      · simpa using ⟨line, isLine_of_all (by decide)⟩
      · simpa using isLine_of_all (by decide)

variable {plan : Plan} {directory names : List String} {name : String} {file : File}

private theorem declaredModules_clients (tidy : Tidy plan) (path : List String) :
    declaredModules (File.contents ⟨path, indexLines "API clients, one per tag." true
      (plan.clients.map fun client => (client.moduleName, client.typeName))⟩) = plan.clients.map (·.moduleName) := by
  rw [declaredModules_index path true (isLine_of_all (by decide)) (by decide +kernel), List.map_map]
  · rfl
  · exact List.forall_mem_map.mpr tidy.clients

private theorem declaredModules_models (tidy : Tidy plan) (path : List String) :
    declaredModules (File.contents ⟨path, indexLines "Model types." false
      (plan.models.map fun model => (model.fileStem, model.typeName))⟩) = plan.models.map (·.fileStem) := by
  rw [declaredModules_index path false (isLine_of_all (by decide)) (by decide +kernel), List.map_map]
  · rfl
  · exact List.forall_mem_map.mpr tidy.models

/-- The module of a directory, with what it declares. -/
inductive Index (plan : Plan) : List String → List String → Prop where
  | parent {front inner rest} (below : front ≠ []) (package : plan.package = front ++ inner :: rest) : Index plan front [inner]
  | root : Index plan plan.package ["clients", "config", "models"]
  | clients : Index plan (plan.package ++ ["clients"]) (plan.clients.map (·.moduleName))
  | models : Index plan (plan.package ++ ["models"]) (plan.models.map (·.fileStem))

/-- A module that declares none, in the directory of its parent. -/
inductive Leaf (plan : Plan) : List String → String → Prop where
  | config : Leaf plan plan.package "config"
  | client {client} (member : client ∈ plan.clients) : Leaf plan (plan.package ++ ["clients"]) client.moduleName
  | model {model} (member : model ∈ plan.models) : Leaf plan (plan.package ++ ["models"]) model.fileStem

private theorem Leaf.valid (tidy : Tidy plan) (leaf : Leaf plan directory name) : IsValueName name := by
  cases leaf with
  | config => exact ⟨spells_of_check rfl (by decide), by decide +kernel⟩
  | client member => exact (tidy.clients _ member).1
  | model member => exact (tidy.models _ member).1

private theorem Index.child (index : Index plan directory names) (declared : name ∈ names) :
    (∃ inner, Index plan (directory ++ [name]) inner) ∨ Leaf plan directory name := by
  cases index with
  | @parent _ inner rest below package =>
    obtain rfl := List.mem_singleton.mp declared
    refine Or.inl ?_
    cases rest with
    | nil => exact ⟨_, package ▸ Index.root⟩
    | cons next rest =>
      have deeper : plan.package = (directory ++ [name]) ++ next :: rest := by
        rw [package, List.append_assoc, List.singleton_append]
      exact ⟨_, Index.parent (by simp) deeper⟩
  | root =>
    simp only [List.mem_cons, List.not_mem_nil, or_false] at declared
    rcases declared with rfl | rfl | rfl
    · exact Or.inl ⟨_, Index.clients⟩
    · exact Or.inr Leaf.config
    · exact Or.inl ⟨_, Index.models⟩
  | clients =>
    obtain ⟨client, member, rfl⟩ := List.mem_map.mp declared
    exact Or.inr (Leaf.client member)
  | models =>
    obtain ⟨model, member, rfl⟩ := List.mem_map.mp declared
    exact Or.inr (Leaf.model member)

private theorem exists_outer {front back : List String} {top : String} {rest : List String} (below : front ≠ [])
    (package : plan.package = front ++ back) (begins : plan.package = top :: rest) :
    front = [top] ∨ ∃ outer inner, front = outer ++ [inner] ∧ Index plan outer [inner] := by
  obtain ⟨outer, inner, rfl⟩ : ∃ outer inner, front = outer ++ [inner] :=
    ⟨_, _, (List.dropLast_append_getLast below).symm⟩
  rw [List.append_assoc, List.singleton_append] at package
  cases outer with
  | nil =>
    obtain ⟨rfl, -⟩ := List.cons.inj (begins.symm.trans package)
    exact Or.inl rfl
  | cons first outer => exact Or.inr ⟨_, _, rfl, Index.parent (by simp) package⟩

/-- But for the outermost one, each index is declared once, by the index of the directory around it. -/
private theorem Index.outer (index : Index plan directory names) {top : String} {rest : List String}
    (begins : plan.package = top :: rest) : directory = [top] ∨
      ∃ outer inner siblings, directory = outer ++ [inner] ∧ Index plan outer siblings ∧ siblings.count inner = 1 := by
  have single {front back : List String} (below : front ≠ []) (package : plan.package = front ++ back) : front = [top] ∨
      ∃ outer inner siblings, front = outer ++ [inner] ∧ Index plan outer siblings ∧ siblings.count inner = 1 := by
    refine (exists_outer below package begins).imp_right ?_
    rintro ⟨outer, inner, same, declared⟩
    exact ⟨outer, inner, [inner], same, declared, List.count_singleton_self ..⟩
  cases index with
  | parent below package => exact single below package
  | root => exact single (by simp [begins]) (List.append_nil _).symm
  | clients => exact Or.inr ⟨_, "clients", _, rfl, Index.root, by decide⟩
  | models => exact Or.inr ⟨_, "models", _, rfl, Index.root, by decide⟩

private theorem Leaf.outer (tidy : Tidy plan) (leaf : Leaf plan directory name) :
    ∃ siblings, Index plan directory siblings ∧ siblings.count name = 1 := by
  cases leaf with
  | config => exact ⟨_, Index.root, by decide⟩
  | client member => exact ⟨_, Index.clients, List.count_eq_one_of_mem tidy.modules (List.mem_map_of_mem member)⟩
  | model member => exact ⟨_, Index.models, List.count_eq_one_of_mem tidy.stems (List.mem_map_of_mem member)⟩

private theorem Index.place (index : Index plan directory names) : directory.length < plan.package.length ∨
    ∃ tail, directory = plan.package ++ tail ∧ (tail = [] ∨ tail = ["clients"] ∨ tail = ["models"]) := by
  cases index with
  | parent below package =>
    refine Or.inl ?_
    rw [package, List.length_append, List.length_cons]
    omega
  | root => exact Or.inr ⟨[], by simp⟩
  | clients => exact Or.inr ⟨_, rfl, by simp⟩
  | models => exact Or.inr ⟨_, rfl, by simp⟩

private theorem Leaf.not_index (leaf : Leaf plan directory name) : ¬Index plan (directory ++ [name]) names := by
  intro index
  rcases index.place with shorter | ⟨tail, same, which⟩
  · cases leaf <;> simp only [List.length_append, List.length_singleton] at shorter <;> omega
  · cases leaf <;> rcases which with rfl | rfl | rfl <;> simp at same

private theorem shape_of_mem (tidy : Tidy plan) (member : file ∈ files plan) :
    (∃ directory, file.path = directory ++ ["mod.rs"] ∧ Index plan directory (declaredModules file.contents)) ∨
      ∃ directory name, file.path = directory ++ [name ++ ".rs"] ∧ Leaf plan directory name := by
  simp only [files, List.mem_append, List.mem_cons, List.mem_map, List.not_mem_nil, or_false] at member
  rcases member with (((parent | rfl | rfl | rfl) | ⟨client, inside, rfl⟩) | rfl) | ⟨model, inside, rfl⟩
  · obtain ⟨past, inner, rest, below, same, rfl⟩ := mem_parentFiles.mp parent
    have valid : IsValueName inner := tidy.package.2 inner (by simp [same])
    refine Or.inl ⟨past, rfl, ?_⟩
    rw [declaredModules_parent _ valid]
    exact Index.parent below same
  · refine Or.inl ⟨plan.package, rfl, ?_⟩
    rw [declaredModules_root]
    exact Index.root
  · exact Or.inr ⟨plan.package, "config", rfl, Leaf.config⟩
  · refine Or.inl ⟨plan.package ++ ["clients"], by simp, ?_⟩
    rw [declaredModules_clients tidy]
    exact Index.clients
  · exact Or.inr ⟨plan.package ++ ["clients"], client.moduleName, by simp, Leaf.client inside⟩
  · refine Or.inl ⟨plan.package ++ ["models"], by simp, ?_⟩
    rw [declaredModules_models tidy]
    exact Index.models
  · exact Or.inr ⟨plan.package ++ ["models"], model.fileStem, by simp, Leaf.model inside⟩

private theorem exists_index (tidy : Tidy plan) (index : Index plan directory names) :
    ∃ file ∈ files plan, file.path = directory ++ ["mod.rs"] ∧ declaredModules file.contents = names := by
  cases index with
  | @parent _ inner rest below package =>
    have valid : IsValueName inner := tidy.package.2 inner (by simp [package])
    refine ⟨⟨directory ++ ["mod.rs"], header ++ [moduleLine true inner]⟩, ?_, rfl, declaredModules_parent _ valid⟩
    have listed : ⟨directory ++ ["mod.rs"], header ++ [moduleLine true inner]⟩ ∈ parentFiles [] plan.package :=
      mem_parentFiles.mpr ⟨directory, inner, rest, below, package, rfl⟩
    simp only [files, List.mem_append]
    exact Or.inl (Or.inl (Or.inl (Or.inl listed)))
  | root => exact ⟨⟨plan.package ++ ["mod.rs"], rootLines⟩, by simp [files], rfl, declaredModules_root _⟩
  | clients => exact ⟨⟨plan.package ++ ["clients", "mod.rs"], _⟩, by simp [files], by simp, declaredModules_clients tidy _⟩
  | models => exact ⟨⟨plan.package ++ ["models", "mod.rs"], _⟩, by simp [files], by simp, declaredModules_models tidy _⟩

private theorem exists_leaf (leaf : Leaf plan directory name) :
    ∃ file ∈ files plan, file.path = directory ++ [name ++ ".rs"] := by
  cases leaf with
  | config => exact ⟨⟨plan.package ++ ["config.rs"], configLines plan⟩, by simp [files], rfl⟩
  | @client client member =>
    refine ⟨⟨plan.package ++ ["clients", client.moduleName ++ ".rs"], clientLines client⟩, ?_, by simp⟩
    simp only [files, List.mem_append]
    exact Or.inl (Or.inl (Or.inr (List.mem_map.mpr ⟨client, member, rfl⟩)))
  | @model model member =>
    refine ⟨⟨plan.package ++ ["models", model.fileStem ++ ".rs"], modelLines plan.settings model⟩, ?_, by simp⟩
    simp only [files, List.mem_append]
    exact Or.inr (List.mem_map.mpr ⟨model, member, rfl⟩)

private theorem file_unique (tidy : Tidy plan) {other : File} (member : file ∈ files plan) (inside : other ∈ files plan)
    (same : file.path = other.path) : file = other :=
  List.inj_on_of_nodup_map (paths_nodup tidy) member inside same

private theorem index_of_path (tidy : Tidy plan) (member : file ∈ files plan) (path : file.path = directory ++ ["mod.rs"]) :
    Index plan directory (declaredModules file.contents) := by
  rcases shape_of_mem tidy member with ⟨place, same, index⟩ | ⟨place, name, same, leaf⟩
  · obtain ⟨rfl, -⟩ := List.append_inj' (path.symm.trans same) rfl
    exact index
  · obtain ⟨-, source⟩ := List.append_inj' (path.symm.trans same) rfl
    exact absurd (List.singleton_inj.mp source).symm (source_ne_index (leaf.valid tidy))

private theorem leaf_of_path (tidy : Tidy plan) (member : file ∈ files plan) (path : file.path = directory ++ [name ++ ".rs"])
    (other : name ≠ "mod") : Leaf plan directory name := by
  rcases shape_of_mem tidy member with ⟨place, same, index⟩ | ⟨place, found, same, leaf⟩
  · obtain ⟨-, source⟩ := List.append_inj' (path.symm.trans same) rfl
    exact absurd (source_inj (List.singleton_inj.mp source)) other
  · obtain ⟨rfl, source⟩ := List.append_inj' (path.symm.trans same) rfl
    obtain rfl := source_inj (List.singleton_inj.mp source)
    exact leaf

private theorem exists_unique_source (tidy : Tidy plan) (index : Index plan directory names) (declared : name ∈ names) :
    ∃! file, file ∈ files plan ∧ SourceOf directory name file.path := by
  -- A source of the other form would make the module both a directory and a file beside the index.
  rcases index.child declared with ⟨inner, below⟩ | leaf
  · obtain ⟨file, member, path, -⟩ := exists_index tidy below
    rw [List.append_assoc] at path
    refine ⟨file, ⟨member, path ▸ SourceOf.directory⟩, ?_⟩
    rintro found ⟨inside, source⟩
    generalize same : found.path = place at source
    cases source with
    | file other => exact absurd below (leaf_of_path tidy inside same other).not_index
    | directory => exact file_unique tidy inside member (same.trans path.symm)
  · obtain ⟨file, member, path⟩ := exists_leaf leaf
    refine ⟨file, ⟨member, path ▸ SourceOf.file (valid_ne_mod (leaf.valid tidy))⟩, ?_⟩
    rintro found ⟨inside, source⟩
    generalize same : found.path = place at source
    cases source with
    | file other => exact file_unique tidy inside member (same.trans path.symm)
    | directory =>
      have index : Index plan (directory ++ [name]) _ := index_of_path tidy inside (by rw [same, List.append_assoc]; rfl)
      exact absurd index leaf.not_index

private theorem exists_declaration (tidy : Tidy plan) (member : file ∈ files plan) {top : String} {rest : List String}
    (begins : plan.package = top :: rest) : file.path = [top, "mod.rs"] ∨
      ∃ directory name, SourceOf directory name file.path ∧ ∃ parent ∈ files plan,
        parent.path = directory ++ ["mod.rs"] ∧ (declaredModules parent.contents).count name = 1 := by
  rcases shape_of_mem tidy member with ⟨directory, path, index⟩ | ⟨directory, name, path, leaf⟩
  · rcases index.outer begins with rfl | ⟨outer, inner, siblings, rfl, around, once⟩
    · exact Or.inl path
    · obtain ⟨parent, inside, place, declared⟩ := exists_index tidy around
      rw [List.append_assoc] at path
      exact Or.inr ⟨outer, inner, path ▸ SourceOf.directory, parent, inside, place, declared ▸ once⟩
  · obtain ⟨siblings, around, once⟩ := leaf.outer tidy
    obtain ⟨parent, inside, place, declared⟩ := exists_index tidy around
    have source : SourceOf directory name file.path := path ▸ SourceOf.file (valid_ne_mod (leaf.valid tidy))
    exact Or.inr ⟨directory, name, source, parent, inside, place, declared ▸ once⟩

/-- The files of a plan are a tree of modules: they stay below one directory, each of them but the outermost index is
declared once, by the index of its parent, and what is declared is there. -/
theorem build_moduleTree (model : Api.Model) (config : Config) (settings : Settings) :
    ∃ top rest, (build model config settings).package = top :: rest ∧
      ModuleTree top (files (build model config settings)) := by
  have tidy := build_tidy model config settings
  obtain ⟨top, rest, begins⟩ := List.exists_cons_of_ne_nil tidy.package.1
  refine ⟨top, rest, begins, ?_⟩
  exact
    { distinct := pathTexts_nodup tidy
      plain := paths_plain tidy
      relative := fun file member =>
        ⟨FileTree.startsFromRoot_joinPath "" (paths_plain tidy file member), names_pathText tidy member⟩
      below := by
        intro file member tree output base there start found
        have plain := paths_plain tidy file member
        rw [FileTree.start, FileTree.startsFromRoot_joinPath output plain] at found
        rw [FileTree.follow_arrives start, FileTree.follow_arrives found, FileTree.arrive_joinPath _ output plain]
        rfl
      declared := fun file member => exists_declaration tidy member begins
      rendered := fun index member directory path name declared =>
        exists_unique_source tidy (index_of_path tidy member path) declared }

end ClientForge.Source
