import ClientForge.Proofs.PathNames
import ClientForge.Proofs.PlanIdentifiers
import ClientForge.Source.File

/-! The paths of the files of a plan are plain and all different, whatever the package is called: the indices of
the outer modules have shorter paths than the files of the package, and no other source is called as an index. -/

namespace ClientForge.Plan
open Ident

/-- What the names in a plan must be for its files. -/
structure Tidy (plan : Plan) : Prop where
  package : plan.package ≠ [] ∧ ∀ segment ∈ plan.package, IsValueName segment
  clients : ∀ client ∈ plan.clients, IsValueName client.moduleName ∧ IsTypeName client.typeName
  models : ∀ model ∈ plan.models, IsValueName model.fileStem ∧ IsTypeName model.typeName
  modules : (plan.clients.map (·.moduleName)).Nodup
  stems : (plan.models.map (·.fileStem)).Nodup

theorem build_tidy (model : Api.Model) (config : Config) (settings : Settings) : Tidy (build model config settings) where
  package := by
    simp only [build]
    exact packageSegments_valid config
  clients := by
    intro client member
    simp only [build] at member
    have spelled := clientDecls_spelled _ _ client member
    exact ⟨spelled.moduleName, spelled.typeName⟩
  models := by
    intro declared member
    simp only [build] at member
    have spelled := modelDecls_spelled _ _ _ declared member
    exact ⟨spelled.fileStem, spelled.typeName.toIsTypeName⟩
  modules := by
    simp only [build, clientDecls_moduleNames]
    exact Scope.allocateAll_nodup _ _
  stems := by
    simp only [build, modelDecls_fileStems]
    exact Scope.allocateAll_nodup _ _

end ClientForge.Plan

namespace ClientForge.Source
open Plan Ident

private def isPathChar (c : Char) : Bool := isNameChar c || c == '.'

private theorem isPlain_of_chars {name : String} {c : Char} {others : List Char} (chars : name.toList = c :: others)
    (begins : c ≠ '.') (all : name.toList.all isPathChar = true) : FileTree.IsPlain name where
  moves := by
    have some : name ≠ "" := by
      rintro rfl
      cases chars
    have other : name ≠ "." := by
      rintro rfl
      exact begins (List.cons.inj chars).1.symm
    simp [FileTree.staysAt, some, other]
  down := by
    rintro rfl
    exact begins (List.cons.inj chars).1.symm
  whole := by
    intro d member
    have spec := List.all_eq_true.mp all d member
    simp only [isPathChar, Bool.or_eq_true, beq_iff_eq] at spec
    rcases spec with letter | rfl
    · simpa [and_assoc] using
        of_isNameChar (fun d => d != '/' && d != '\\' && d != '\x00') (by decide +kernel) letter
    · decide

private theorem isPlain_literal {name : String} {c : Char} {others : List Char} (chars : name.toList = c :: others)
    (check : (c != '.' && name.toList.all isPathChar) = true) : FileTree.IsPlain name := by
  rw [Bool.and_eq_true, bne_iff_ne] at check
  exact isPlain_of_chars chars check.1 check.2

private theorem isPlain_index : FileTree.IsPlain "mod.rs" := isPlain_literal rfl (by decide)

/-- A valid name is plain, also with the ending of a source behind it. -/
private theorem isPlain_append {name : String} (valid : IsValueName name) (ending : String)
    (letters : ending.toList.all isPathChar = true) : FileTree.IsPlain (name ++ ending) := by
  obtain ⟨c, others, chars, begins, -⟩ := valid.grammar
  have start : (name ++ ending).toList = c :: (others ++ ending.toList) := by
    rw [String.toList_append, chars, List.cons_append]
  have first : name.toList.all isPathChar = true := List.all_eq_true.mpr fun d member => by
    rw [isPathChar, valid.chars d member, Bool.true_or]
  refine isPlain_of_chars start ?_ ?_
  · rintro rfl
    cases begins
  · rw [String.toList_append, List.all_append, first, letters]
    rfl

theorem isPlain_of_valid {name : String} (valid : IsValueName name) : FileTree.IsPlain name := by
  have plain := isPlain_append valid "" rfl
  rwa [String.append_empty] at plain

theorem isPlain_source {name : String} (valid : IsValueName name) : FileTree.IsPlain (name ++ ".rs") :=
  isPlain_append valid ".rs" (by decide)

theorem source_inj {name other : String} (same : name ++ ".rs" = other ++ ".rs") : name = other :=
  String.append_left_inj _ |>.mp same

theorem valid_ne_mod {name : String} (valid : IsValueName name) : name ≠ "mod" := by
  rintro rfl
  exact valid.free (by decide +kernel)

theorem source_ne_index {name : String} (valid : IsValueName name) : name ++ ".rs" ≠ "mod.rs" := by
  intro same
  have equal : name = "mod" := source_inj same
  exact valid_ne_mod valid equal

theorem mem_parentFiles {file : File} {front back : List String} :
    file ∈ parentFiles front back ↔ ∃ past inner rest, past ≠ [] ∧ back = past ++ inner :: rest ∧
      file = ⟨front ++ past ++ ["mod.rs"], header ++ [moduleLine true inner]⟩ := by
  induction back generalizing front with
  | nil => simp [parentFiles]
  | cons outer back ih =>
    cases back with
    | nil =>
      refine ⟨nofun, ?_⟩
      rintro ⟨past, inner, rest, below, same, -⟩
      obtain ⟨first, past, rfl⟩ := List.exists_cons_of_ne_nil below
      cases past <;> simp at same
    | cons next back =>
      rw [parentFiles, List.mem_cons, ih]
      constructor
      · rintro (rfl | ⟨past, inner, rest, -, same, rfl⟩)
        · exact ⟨[outer], next, back, by simp, rfl, by simp⟩
        · exact ⟨outer :: past, inner, rest, by simp, by rw [same, List.cons_append], by simp⟩
      · rintro ⟨past, inner, rest, below, same, rfl⟩
        obtain ⟨first, past, rfl⟩ := List.exists_cons_of_ne_nil below
        rw [List.cons_append, List.cons.injEq] at same
        obtain ⟨rfl, same⟩ := same
        cases past with
        | nil =>
          obtain ⟨rfl, rfl⟩ := List.cons.inj same
          exact Or.inl (by simp)
        | cons second past => exact Or.inr ⟨second :: past, inner, rest, by simp, same, by simp⟩

private theorem parentFiles_lengths (front back : List String) :
    (parentFiles front back).Pairwise fun outer inner => outer.path.length < inner.path.length := by
  induction back generalizing front with
  | nil => exact List.Pairwise.nil
  | cons outer back ih =>
    cases back with
    | nil => exact List.Pairwise.nil
    | cons next back =>
      rw [parentFiles]
      refine List.Pairwise.cons (fun file member => ?_) (ih _)
      obtain ⟨past, inner, rest, below, -, rfl⟩ := mem_parentFiles.mp member
      have longer := List.length_pos_iff.mpr below
      simp only [List.length_append, List.length_cons, List.length_nil]
      omega

private def ownPaths (plan : Plan) : List (List String) :=
  ["mod.rs"] :: ["config.rs"] :: ["clients", "mod.rs"] ::
    (plan.clients.map (·.moduleName)).map (fun name => ["clients", name ++ ".rs"]) ++
    ["models", "mod.rs"] :: (plan.models.map (·.fileStem)).map fun name => ["models", name ++ ".rs"]

private theorem paths_eq (plan : Plan) : (files plan).map File.path =
    (parentFiles [] plan.package).map File.path ++ (ownPaths plan).map (plan.package ++ ·) := by
  simp [files, ownPaths, Function.comp_def]

private theorem ownPaths_nodup {plan : Plan} (tidy : Tidy plan) : (ownPaths plan).Nodup := by
  have clients : ((plan.clients.map (·.moduleName)).map fun name => ["clients", name ++ ".rs"]).Nodup :=
    tidy.modules.map fun a b same => source_inj (by simpa using same)
  have models : ((plan.models.map (·.fileStem)).map fun name => ["models", name ++ ".rs"]).Nodup :=
    tidy.stems.map fun a b same => source_inj (by simpa using same)
  have clientSources : ∀ client ∈ plan.clients, client.moduleName ++ ".rs" ≠ "mod.rs" :=
    fun client member => source_ne_index (tidy.clients client member).1
  have modelSources : ∀ model ∈ plan.models, model.fileStem ++ ".rs" ≠ "mod.rs" :=
    fun model member => source_ne_index (tidy.models model member).1
  refine List.nodup_append.mpr ⟨?_, ?_, ?_⟩
  · simp only [List.nodup_cons, List.mem_cons, List.mem_map]
    refine ⟨by simp, by simp, ?_, clients⟩
    simpa using clientSources
  · simp only [List.nodup_cons, List.mem_map]
    refine ⟨?_, models⟩
    simpa using modelSources
  · intro first listed second other same
    simp only [List.mem_cons, List.mem_map] at listed other
    rcases listed with rfl | rfl | rfl | ⟨_, _, rfl⟩ <;> rcases other with rfl | ⟨_, _, rfl⟩ <;> simp at same

private theorem ownPaths_ne_nil {plan : Plan} {path : List String} (listed : path ∈ ownPaths plan) : path ≠ [] := by
  simp only [ownPaths, List.cons_append, List.mem_cons, List.mem_append, List.mem_map] at listed
  rcases listed with rfl | rfl | rfl | ⟨_, _, rfl⟩ | rfl | ⟨_, _, rfl⟩ <;> simp

/-- What holds of the paths of the outer indices and of the paths in the package holds of all paths. -/
private theorem forall_paths {plan : Plan} (holds : List String → Prop)
    (outer : ∀ past inner rest, plan.package = past ++ inner :: rest → holds (past ++ ["mod.rs"]))
    (own : ∀ path ∈ ownPaths plan, holds (plan.package ++ path)) : ∀ file ∈ files plan, holds file.path := by
  have paths : ∀ path ∈ (files plan).map File.path, holds path := by
    rw [paths_eq, List.forall_mem_append]
    refine ⟨List.forall_mem_map.mpr fun file member => ?_, List.forall_mem_map.mpr own⟩
    obtain ⟨past, inner, rest, -, package, rfl⟩ := mem_parentFiles.mp member
    exact outer past inner rest package
  exact fun file member => paths _ (List.mem_map_of_mem member)

theorem paths_ne_nil (plan : Plan) : ∀ file ∈ files plan, file.path ≠ [] :=
  forall_paths (· ≠ []) (fun _ _ _ _ => by simp) fun _ listed =>
    List.append_ne_nil_of_right_ne_nil _ (ownPaths_ne_nil listed)

theorem paths_nodup {plan : Plan} (tidy : Tidy plan) : ((files plan).map File.path).Nodup := by
  rw [paths_eq]
  refine List.nodup_append.mpr ⟨?_, ?_, ?_⟩
  · refine List.pairwise_map.mpr ((parentFiles_lengths [] plan.package).imp fun shorter same => ?_)
    rw [same] at shorter
    exact lt_irrefl _ shorter
  · exact (ownPaths_nodup tidy).map fun a b same => List.append_cancel_left same
  · -- The path of an outer index has at most as many names as the package has segments.
    intro outer member own inside same
    obtain ⟨file, parent, rfl⟩ := List.mem_map.mp member
    obtain ⟨tail, listed, rfl⟩ := List.mem_map.mp inside
    obtain ⟨past, inner, rest, -, package, rfl⟩ := mem_parentFiles.mp parent
    have below := List.length_pos_iff.mpr (ownPaths_ne_nil listed)
    have lengths := congrArg List.length same
    simp only [package, List.nil_append, List.length_append, List.length_cons, List.length_nil] at lengths
    omega

private theorem ownPaths_plain {plan : Plan} (tidy : Tidy plan) :
    ∀ path ∈ ownPaths plan, ∀ name ∈ path, FileTree.IsPlain name := by
  intro path listed
  simp only [ownPaths, List.cons_append, List.mem_cons, List.mem_append, List.mem_map] at listed
  rcases listed with rfl | rfl | rfl | ⟨_, ⟨client, member, rfl⟩, rfl⟩ | rfl | ⟨_, ⟨model, member, rfl⟩, rfl⟩
  · simpa using isPlain_index
  · simpa using isPlain_literal rfl (by decide)
  · simpa using ⟨isPlain_literal rfl (by decide), isPlain_index⟩
  · simpa using ⟨isPlain_literal rfl (by decide), isPlain_source (tidy.clients client member).1⟩
  · simpa using ⟨isPlain_literal rfl (by decide), isPlain_index⟩
  · simpa using ⟨isPlain_literal rfl (by decide), isPlain_source (tidy.models model member).1⟩

theorem paths_plain {plan : Plan} (tidy : Tidy plan) :
    ∀ file ∈ files plan, ∀ name ∈ file.path, FileTree.IsPlain name := by
  have package : ∀ segment ∈ plan.package, FileTree.IsPlain segment := fun segment member =>
    isPlain_of_valid (tidy.package.2 segment member)
  apply forall_paths fun path => ∀ name ∈ path, FileTree.IsPlain name
  · intro past inner rest same
    rw [same] at package
    exact List.forall_mem_append.mpr ⟨(List.forall_mem_append.mp package).1, by simpa using isPlain_index⟩
  · intro path listed
    exact List.forall_mem_append.mpr ⟨package, ownPaths_plain tidy path listed⟩

/-- The files in a directory, without its index. -/
def sourcesIn (directory : List String) (files : List File) : List File :=
  files.filter fun file => file.path.dropLast = directory ∧ file.path.getLast? ≠ some "mod.rs"

private theorem sourcesIn_parentFiles (directory back : List String) : sourcesIn directory (parentFiles [] back) = [] := by
  refine List.filter_eq_nil_iff.mpr fun file member => ?_
  obtain ⟨past, inner, rest, -, -, rfl⟩ := mem_parentFiles.mp member
  simp

private theorem sourcesIn_sources {α : Type} {items : List α} {name : α → String} (lines : α → List String)
    (directory front : List String) (last : String) (valid : ∀ item ∈ items, IsValueName (name item)) :
    sourcesIn directory (items.map fun item => ⟨front ++ [last, name item ++ ".rs"], lines item⟩) =
      if front ++ [last] = directory then items.map fun item => ⟨front ++ [last, name item ++ ".rs"], lines item⟩ else [] := by
  split
  next same =>
    subst same
    refine List.filter_eq_self.mpr (List.forall_mem_map.mpr fun item member => ?_)
    simpa using source_ne_index (valid item member)
  next other =>
    refine List.filter_eq_nil_iff.mpr (List.forall_mem_map.mpr fun item member => ?_)
    simp [other]

private theorem length_sourcesIn {plan : Plan} (tidy : Tidy plan) (last : String) :
    (sourcesIn (plan.package ++ [last]) (files plan)).length =
      (if "clients" = last then plan.clients.length else 0) + if "models" = last then plan.models.length else 0 := by
  have clients := sourcesIn_sources clientLines (plan.package ++ [last]) plan.package "clients"
    fun client member => (tidy.clients client member).1
  have models := sourcesIn_sources (modelLines plan.settings) (plan.package ++ [last]) plan.package "models"
    fun model member => (tidy.models model member).1
  have outer := sourcesIn_parentFiles (plan.package ++ [last]) plan.package
  rw [sourcesIn] at clients models outer
  have own : ∀ lines config indexed, [File.mk (plan.package ++ ["mod.rs"]) lines, ⟨plan.package ++ ["config.rs"], config⟩,
      ⟨plan.package ++ ["clients", "mod.rs"], indexed⟩].filter
        (fun file => file.path.dropLast = plan.package ++ [last] ∧ file.path.getLast? ≠ some "mod.rs") = [] := by
    simp
  have index : ∀ lines, [File.mk (plan.package ++ ["models", "mod.rs"]) lines].filter
      (fun file => file.path.dropLast = plan.package ++ [last] ∧ file.path.getLast? ≠ some "mod.rs") = [] := by
    simp
  simp only [sourcesIn, files, List.filter_append, clients, models, outer, own, index]
  split <;> split <;> simp_all

theorem length_sourcesIn_clients {plan : Plan} (tidy : Tidy plan) :
    (sourcesIn (plan.package ++ ["clients"]) (files plan)).length = plan.clients.length := by
  simpa using length_sourcesIn tidy "clients"

theorem length_sourcesIn_models {plan : Plan} (tidy : Tidy plan) :
    (sourcesIn (plan.package ++ ["models"]) (files plan)).length = plan.models.length := by
  simpa using length_sourcesIn tidy "models"

theorem names_pathText {plan : Plan} (tidy : Tidy plan) {file : File} (member : file ∈ files plan) :
    FileTree.names file.pathText = file.path :=
  FileTree.names_relative (paths_ne_nil plan file member) (paths_plain tidy file member)

theorem pathTexts_nodup {plan : Plan} (tidy : Tidy plan) : ((files plan).map File.pathText).Nodup := by
  have paths := List.pairwise_map.mp (paths_nodup tidy)
  refine List.pairwise_map.mpr (paths.imp_of_mem fun first second other same => other ?_)
  rw [← names_pathText tidy first, same, names_pathText tidy second]

end ClientForge.Source
