import ClientForge.Proofs.FilePaths
import ClientForge.Proofs.FileTreeWriting
import ClientForge.Run

/-! How a run ends. Whatever can be wrong with what it is given stops it before the tree is changed; behind that,
files are written in their order up to the first that cannot be. -/

namespace ClientForge.Run
open Source

/-- A name stands for a module; blanks around it do not count. -/
def Calls (name : String) (extension : Extension) : Prop := extension.id = Text.trim name

def IsModule (name : String) : Prop := ∃ extension ∈ Extension.all, Calls name extension

/-- Why a run is refused. Each cause is looked for when those before it have been ruled out. -/
inductive Cause (config : Config) (tree : FileTree) : Failure → Prop where
  | unknownModule {known name rest} (modules : config.modules = known ++ name :: rest)
      (before : ∀ id ∈ known, IsModule id) (unknown : ¬IsModule name) : Cause config tree (.moduleNotFound name)
  | unreadable {fault} (known : ∀ id ∈ config.modules, IsModule id)
      (found : tree.read config.document = .error fault) : Cause config tree (.inputNotFound config.document fault)
  | unparsed {text fault} (known : ∀ id ∈ config.modules, IsModule id) (found : tree.read config.document = .ok text)
      (parsed : Document.parse text = .error fault) : Cause config tree (.parse fault)
  | unresolved {text document fault} (known : ∀ id ∈ config.modules, IsModule id)
      (found : tree.read config.document = .ok text) (parsed : Document.parse text = .ok document)
      (resolved : Resolve.model document = .error fault) : Cause config tree (.reference fault)

inductive Planned (config : Config) (tree : FileTree) : Plan → Prop where
  | intro {extensions text document model}
      (modules : List.Forall₂ Calls config.modules extensions)
      (found : tree.read config.document = .ok text) (parsed : Document.parse text = .ok document)
      (resolved : Resolve.model document = .ok model) :
      Planned config tree (Plan.build model config (Extension.settings extensions))

/-- Files are saved one after the other. -/
inductive Saves (output : String) : FileTree → List File → FileTree → Prop where
  | done {tree} : Saves output tree [] tree
  | save {tree between after file rest}
      (saved : (FileTree.save output file.path file.contents).run.run tree = (.ok (), between))
      (next : Saves output between rest after) : Saves output tree (file :: rest) after

/-- A file is there with all of its contents and nothing else, and can be read. -/
structure Holds (tree : FileTree) (output : String) (file : File) : Prop where
  entry : tree.get? (tree.placeOf output file.path) = some (.file file.contents.toUTF8)
  read : tree.read (Text.joinPath output file.path) = .ok file.contents

def places (tree : FileTree) (output : String) (files : List File) : List (List String) :=
  files.map fun file => tree.placeOf output file.path

/-- How a run can end, and what has become of the tree then. -/
inductive Outcome (config : Config) (tree : FileTree) : Except Failure Summary → FileTree → Prop where
  | refused {failure} (cause : Cause config tree failure) : Outcome config tree (.error failure) tree
  | stopped {plan done file rest fault between after} (planned : Planned config tree plan)
      (split : files plan = done ++ file :: rest) (saved : Saves config.output tree done between)
      (failed : (FileTree.save config.output file.path file.contents).run.run between = (.error fault, after))
      (held : ∀ file ∈ done, Holds after config.output file)
      (untouched : ∀ later ∈ file :: rest,
        after.fileAt (tree.placeOf config.output later.path) = tree.fileAt (tree.placeOf config.output later.path))
      (kept : FileTree.Keeps (places tree config.output done) tree after) :
      Outcome config tree (.error (.file fault)) after
  | written {plan after} (planned : Planned config tree plan) (saved : Saves config.output tree (files plan) after)
      (held : ∀ file ∈ files plan, Holds after config.output file)
      (kept : FileTree.Keeps (places tree config.output (files plan)) tree after) :
      Outcome config tree (.ok
        { clients := (sourcesIn (plan.package ++ ["clients"]) (files plan)).length
          models := (sourcesIn (plan.package ++ ["models"]) (files plan)).length }) after

variable {config : Config} {tree after : FileTree}

private theorem ofId?_eq_some {name : String} {extension : Extension} (found : Extension.ofId? name = some extension) :
    Calls name extension := by
  simpa [Calls] using List.find?_some found

private theorem ofId?_eq_none {name : String} : Extension.ofId? name = none ↔ ¬IsModule name := by
  simp [Extension.ofId?, IsModule, Calls]

private theorem modulesOf_ok {names : List String} {extensions : List Extension}
    (known : Config.modulesOf names = .ok extensions) :
    List.Forall₂ Calls names extensions := by
  induction names generalizing extensions with
  | nil =>
    obtain rfl := Except.ok.inj known
    exact .nil
  | cons name names ih =>
    rw [Config.modulesOf] at known
    split at known
    next => cases known
    next extension found =>
      cases rest : Config.modulesOf names with
      | error failure =>
        rw [rest] at known
        cases known
      | ok others =>
        rw [rest] at known
        obtain rfl := Except.ok.inj known
        exact .cons (ofId?_eq_some found) (ih rest)

private theorem Calls.isModule {name : String} {extension : Extension} (same : Calls name extension) : IsModule name :=
  ⟨extension, by cases extension <;> decide, same⟩

private theorem isModule_of_forall₂ {names : List String} {extensions : List Extension}
    (known : List.Forall₂ Calls names extensions) : ∀ name ∈ names, IsModule name := by
  induction known with
  | nil => exact nofun
  | cons same _ ih => exact List.forall_mem_cons.mpr ⟨same.isModule, ih⟩

private theorem modulesOf_error {names : List String} {failure : Failure} (stopped : Config.modulesOf names = .error failure) :
    ∃ known name rest, names = known ++ name :: rest ∧ (∀ id ∈ known, IsModule id) ∧ ¬IsModule name ∧
      failure = .moduleNotFound name := by
  induction names with
  | nil => cases stopped
  | cons name names ih =>
    rw [Config.modulesOf] at stopped
    split at stopped
    next unknown =>
      obtain rfl := Except.error.inj stopped
      exact ⟨[], name, names, rfl, nofun, ofId?_eq_none.mp unknown, rfl⟩
    next extension found =>
      cases rest : Config.modulesOf names with
      | ok others =>
        rw [rest] at stopped
        cases stopped
      | error later =>
        rw [rest] at stopped
        obtain rfl := Except.error.inj stopped
        obtain ⟨known, other, behind, rfl, before, unknown, rfl⟩ := ih rest
        have first := (ofId?_eq_some found).isModule
        exact ⟨name :: known, other, behind, rfl, List.forall_mem_cons.mpr ⟨first, before⟩, unknown, rfl⟩

private theorem modulesOf_unknown {known rest : List String} {name : String} (before : ∀ id ∈ known, IsModule id)
    (unknown : ¬IsModule name) : Config.modulesOf (known ++ name :: rest) = .error (.moduleNotFound name) := by
  induction known with
  | nil => rw [List.nil_append, Config.modulesOf, ofId?_eq_none.mpr unknown]
  | cons id known ih =>
    obtain ⟨first, others⟩ := List.forall_mem_cons.mp before
    obtain ⟨extension, found⟩ := Option.ne_none_iff_exists'.mp fun missing => ofId?_eq_none.mp missing first
    rw [List.cons_append, Config.modulesOf, found, ih others]
    rfl

private theorem modulesOf_known {names : List String} (known : ∀ id ∈ names, IsModule id) :
    ∃ extensions, Config.modulesOf names = .ok extensions := by
  cases result : Config.modulesOf names with
  | ok extensions => exact ⟨extensions, rfl⟩
  | error failure =>
    obtain ⟨before, name, rest, rfl, -, unknown, -⟩ := modulesOf_error result
    exact absurd (known name (by simp)) unknown

private theorem plan_run (config : Config) (tree : FileTree) :
    (config.plan : ExceptT Failure (StateM FileTree) Plan).run.run tree =
      match config.extensions with
      | .error failure => (.error failure, tree)
      | .ok extensions =>
        match tree.read config.document with
        | .error fault => (.error (.inputNotFound config.document fault), tree)
        | .ok text =>
          match Document.parse text with
          | .error fault => (.error (.parse fault), tree)
          | .ok document =>
            match Resolve.model document with
            | .error fault => (.error (.reference fault), tree)
            | .ok model => (.ok (Plan.build model config (Extension.settings extensions)), tree) := by
  have loaded : (ExceptT.mk do return (← FileStore.read config.document).mapError (.inputNotFound config.document) :
      ExceptT Failure (StateM FileTree) String).run.run tree =
        ((tree.read config.document).mapError (.inputNotFound config.document), tree) := rfl
  simp only [Config.plan, FileTree.run_bind, FileTree.run_lift]
  cases config.extensions with
  | error failure => rfl
  | ok extensions =>
    dsimp only
    rw [loaded]
    cases tree.read config.document with
    | error fault => rfl
    | ok text =>
      dsimp only [Except.mapError, Api.Model.ofText]
      cases Document.parse text with
      | error fault => rfl
      | ok document =>
        dsimp only [bind, Except.bind]
        cases Resolve.model document with
        | error fault => rfl
        | ok model => rfl

private theorem plan_ok {plan : Plan}
    (ran : (config.plan : ExceptT Failure (StateM FileTree) Plan).run.run tree = (.ok plan, after)) :
    Planned config tree plan ∧ after = tree := by
  rw [plan_run] at ran
  split at ran
  next => cases ran
  next extensions modules =>
  split at ran
  next => cases ran
  next text found =>
  split at ran
  next => cases ran
  next document parsed =>
  split at ran
  next => cases ran
  next model resolved =>
  obtain ⟨built, rfl⟩ := Prod.mk.inj ran
  obtain rfl := Except.ok.inj built
  exact ⟨.intro (modulesOf_ok modules) found parsed resolved, rfl⟩

private theorem plan_error {failure : Failure}
    (ran : (config.plan : ExceptT Failure (StateM FileTree) Plan).run.run tree = (.error failure, after)) :
    Cause config tree failure ∧ after = tree := by
  rw [plan_run] at ran
  split at ran
  next unknown stopped =>
    cases ran
    obtain ⟨known, name, rest, modules, before, unknown, rfl⟩ := modulesOf_error stopped
    exact ⟨.unknownModule modules before unknown, rfl⟩
  next extensions modules =>
  have known := isModule_of_forall₂ (modulesOf_ok modules)
  split at ran
  next fault found =>
    cases ran
    exact ⟨.unreadable known found, rfl⟩
  next text found =>
  split at ran
  next fault parsed =>
    cases ran
    exact ⟨.unparsed known found parsed, rfl⟩
  next document parsed =>
  split at ran
  next fault resolved =>
    cases ran
    exact ⟨.unresolved known found parsed resolved, rfl⟩
  next => cases ran

private theorem plan_of_cause {failure : Failure} (cause : Cause config tree failure) :
    (config.plan : ExceptT Failure (StateM FileTree) Plan).run.run tree = (.error failure, tree) := by
  rw [plan_run]
  cases cause with
  | unknownModule modules before unknown => rw [Config.extensions, modules, modulesOf_unknown before unknown]
  | unreadable known found =>
    obtain ⟨extensions, modules⟩ := modulesOf_known known
    simp only [Config.extensions, modules, found]
  | unparsed known found parsed =>
    obtain ⟨extensions, modules⟩ := modulesOf_known known
    simp only [Config.extensions, modules, found, parsed]
  | unresolved known found parsed resolved =>
    obtain ⟨extensions, modules⟩ := modulesOf_known known
    simp only [Config.extensions, modules, found, parsed, resolved]

section
variable {α ε ε' : Type} {result : Except ε α} {wrap : ε → ε'}

private theorem of_mapError_ok {value : α} (same : result.mapError wrap = .ok value) : result = .ok value := by
  cases result with
  | ok found => exact congrArg Except.ok (Except.ok.inj same)
  | error cause => cases same

private theorem of_mapError_error {fault : ε'} (same : result.mapError wrap = .error fault) :
    ∃ cause, result = .error cause ∧ fault = wrap cause := by
  cases result with
  | ok found => cases same
  | error cause => exact ⟨cause, rfl, (Except.error.inj same).symm⟩

end

variable {output : String}

private theorem placeOf_not_mem {file : File} {rest : List File} (plain : ∀ name ∈ file.path, FileTree.IsPlain name)
    (others : ∀ file ∈ rest, ∀ name ∈ file.path, FileTree.IsPlain name) (fresh : file.path ∉ rest.map File.path) :
    tree.placeOf output file.path ∉ places tree output rest := by
  intro member
  obtain ⟨other, inside, same⟩ := List.mem_map.mp member
  rw [FileTree.placeOf_plain output plain, FileTree.placeOf_plain output (others other inside)] at same
  exact fresh (List.append_cancel_left same ▸ List.mem_map_of_mem inside)

theorem Saves.spec {files : List File} (saves : Saves output tree files after)
    (plain : ∀ file ∈ files, ∀ name ∈ file.path, FileTree.IsPlain name) (distinct : (files.map File.path).Nodup) :
    (∀ file ∈ files, FileTree.Stored after output file.path file.contents) ∧
      FileTree.Keeps (places tree output files) tree after := by
  induction saves with
  | done => exact ⟨nofun, .refl _⟩
  | @save tree between after file rest saved next ih =>
    obtain ⟨first, others⟩ := List.forall_mem_cons.mp plain
    obtain ⟨fresh, apart⟩ := List.nodup_cons.mp distinct
    obtain ⟨stored, kept⟩ := FileTree.save_ok first saved
    obtain ⟨behind, later⟩ := ih others apart
    -- The rest is written at other places, so that what has been saved stays.
    have lasting := stored.mono later (placeOf_not_mem first others fresh)
    have same : places between output rest = places tree output rest :=
      List.map_congr_left fun file _ => kept.placeOf output file.path
    rw [same] at later
    exact ⟨List.forall_mem_cons.mpr ⟨lasting, behind⟩, kept.trans later⟩

private theorem of_save {file : File} {result : Except Failure Unit}
    (ran : (ExceptT.mk do return (← FileStore.save output file.path file.contents).mapError .file :
      ExceptT Failure (StateM FileTree) Unit).run.run tree = (result, after)) :
    ∃ saved, (FileTree.save output file.path file.contents).run.run tree = (saved, after) ∧ saved.mapError .file = result := by
  obtain ⟨same, rfl⟩ := Prod.mk.inj ran
  exact ⟨_, rfl, same⟩

private theorem writeFiles_ok {files : List File}
    (ran : (Config.writeFiles output files : ExceptT Failure (StateM FileTree) Unit).run.run tree = (.ok (), after)) :
    Saves output tree files after := by
  induction files generalizing tree with
  | nil =>
    obtain ⟨-, rfl⟩ := Prod.mk.inj ran
    exact .done
  | cons file rest ih =>
    rw [Config.writeFiles] at ran
    obtain ⟨_, between, begun, ran⟩ := FileTree.run_bind_ok ran
    obtain ⟨result, saved, succeeded⟩ := of_save begun
    rw [of_mapError_ok succeeded] at saved
    exact .save saved (ih ran)

/-- Writing stops at one file, behind those that have been saved. -/
private theorem writeFiles_error {files : List File} {failure : Failure}
    (ran : (Config.writeFiles output files : ExceptT Failure (StateM FileTree) Unit).run.run tree = (.error failure, after)) :
    ∃ done file rest fault between, files = done ++ file :: rest ∧ Saves output tree done between ∧
      (FileTree.save output file.path file.contents).run.run between = (.error fault, after) ∧ failure = .file fault := by
  induction files generalizing tree with
  | nil => cases ran
  | cons file rest ih =>
    rw [Config.writeFiles] at ran
    rcases FileTree.run_bind_error ran with begun | ⟨_, between, begun, ran⟩
    · obtain ⟨result, saved, stopped⟩ := of_save begun
      obtain ⟨fault, rfl, rfl⟩ := of_mapError_error stopped
      exact ⟨[], file, rest, fault, tree, rfl, .done, saved, rfl⟩
    · obtain ⟨result, saved, succeeded⟩ := of_save begun
      rw [of_mapError_ok succeeded] at saved
      obtain ⟨done, other, behind, fault, last, rfl, saves, failed, rfl⟩ := ih ran
      exact ⟨file :: done, other, behind, fault, last, rfl, .save saved saves, failed, rfl⟩

private theorem holds_of_stored {file : File} (stored : FileTree.Stored tree output file.path file.contents)
    (nonempty : file.path ≠ []) (plain : ∀ name ∈ file.path, FileTree.IsPlain name) : Holds tree output file where
  entry := stored.entry
  read := stored.read nonempty plain

theorem Planned.tidy {plan : Plan} (planned : Planned config tree plan) : Plan.Tidy plan := by
  cases planned with
  | intro modules found parsed resolved => exact Plan.build_tidy _ _ _

/-- The end of a run, and the tree that it leaves. -/
def ended (config : Config) (tree : FileTree) : Except Failure Summary × FileTree :=
  (config.run : ExceptT Failure (StateM FileTree) Summary).run.run tree

private theorem ended_ok {summary : Summary} (ran : ended config tree = (.ok summary, after)) :
    Outcome config tree (.ok summary) after := by
  rw [ended, Config.run] at ran
  obtain ⟨plan, _, planning, rest⟩ := FileTree.run_bind_ok ran
  obtain ⟨planned, rfl⟩ := plan_ok planning
  obtain ⟨_, last, writing, counting⟩ := FileTree.run_bind_ok rest
  obtain ⟨counted, rfl⟩ := Prod.mk.inj counting
  obtain rfl := Except.ok.inj counted
  have tidy := planned.tidy
  have plain := paths_plain tidy
  have saves := writeFiles_ok writing
  obtain ⟨stored, kept⟩ := saves.spec plain (paths_nodup tidy)
  have held : ∀ file ∈ files plan, Holds last config.output file := fun file member =>
    holds_of_stored (stored file member) (paths_ne_nil plan file member) (plain file member)
  have all := Outcome.written planned saves held kept
  rwa [length_sourcesIn_clients tidy, length_sourcesIn_models tidy] at all

private theorem ended_error {failure : Failure} (ran : ended config tree = (.error failure, after)) :
    Outcome config tree (.error failure) after := by
  rw [ended, Config.run] at ran
  rcases FileTree.run_bind_error ran with planning | ⟨plan, _, planning, rest⟩
  · obtain ⟨cause, rfl⟩ := plan_error planning
    exact .refused cause
  obtain ⟨planned, rfl⟩ := plan_ok planning
  rcases FileTree.run_bind_error rest with writing | ⟨_, _, _, counting⟩
  · obtain ⟨done, file, behind, fault, between, split, saves, failed, rfl⟩ := writeFiles_error writing
    have tidy := planned.tidy
    have plain := paths_plain tidy
    have distinct := paths_nodup tidy
    rw [split] at plain
    rw [split, List.map_append] at distinct
    obtain ⟨early, late⟩ := List.forall_mem_append.mp plain
    obtain ⟨apart, -, disjoint⟩ := List.nodup_append.mp distinct
    obtain ⟨stored, saved⟩ := saves.spec early apart
    have abandoned := FileTree.save_error failed
    have kept := saved.trans abandoned
    rw [List.append_nil] at kept
    refine .stopped planned split saves failed (fun written member => ?_) (fun later member => ?_) kept
    · have listed : written ∈ files plan := split ▸ List.mem_append_left _ member
      have lasting := (stored written member).mono abandoned List.not_mem_nil
      exact holds_of_stored lasting (paths_ne_nil plan written listed) (early written member)
    · refine kept.fileAt (placeOf_not_mem (late later member) early fun taken => ?_)
      exact disjoint _ taken _ (List.mem_map_of_mem member) rfl
  · cases counting

/-- A run that there is a cause to refuse ends with it and changes nothing. Any other writes its files in their order:
all of them, or those before the first that cannot be written. -/
theorem ended_outcome (config : Config) (tree : FileTree) :
    (∀ failure, Cause config tree failure → ended config tree = (.error failure, tree)) ∧
      Outcome config tree (ended config tree).1 (ended config tree).2 := by
  refine ⟨fun failure cause => ?_, ?_⟩
  · rw [ended, Config.run, FileTree.run_bind, plan_of_cause cause]
  · rcases ran : ended config tree with ⟨failure | summary, after⟩
    · exact ended_error ran
    · exact ended_ok ran

end ClientForge.Run
