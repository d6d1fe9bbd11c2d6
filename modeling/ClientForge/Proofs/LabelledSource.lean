import Mathlib.Algebra.Order.BigOperators.Group.List
import ClientForge.Proofs.CommentLines

/-! Names that the source shows in comments only: the tags of clients, the schemas of models and the schemes of API
keys. They are put into one line of a comment as they are. Behind a line feed in a name, the comment goes on only if the
name says so itself. -/

namespace ClientForge

namespace Plan

def Client.unlabelled (client : Client) : Client := { client with tag := "" }

def ModelDecl.unlabelled (model : ModelDecl) : ModelDecl := { model with schemaName := "" }

def Key.unlabelled (key : Key) : Key := { key with schemeName := "" }

/-- What a run generates, without tags and without the names of schemas and schemes. -/
def unlabelled (plan : Plan) : Plan :=
  { plan with
    keys := plan.keys.map Key.unlabelled
    clients := plan.clients.map Client.unlabelled
    models := plan.models.map ModelDecl.unlabelled }

/-- The names under which API keys are sent continue the comments that they begin. -/
def KeysStay (plan : Plan) : Prop := ∀ key ∈ plan.keys, Source.StaysInside "//" key.keyName

/-- All names that are shown in comments only continue them. -/
structure LabelsStay (plan : Plan) : Prop where
  tags : ∀ client ∈ plan.clients, Source.StaysInside "//" client.tag
  schemas : ∀ model ∈ plan.models, Source.StaysInside "//" model.schemaName
  schemes : ∀ key ∈ plan.keys, Source.StaysInside "//" key.schemeName

end Plan

namespace Source
open Plan

private theorem staysInside_empty : StaysInside "//" "" := by
  decide

private theorem quoted_iff {line name close : String} {rest : List Char} (opened : Commented "//" line)
    (closes : close.toList = '\x60' :: rest) (whole : '\n' ∉ close.toList) :
    Commented "//" (line ++ name ++ close) ↔ StaysInside "//" name := by
  rw [String.append_assoc, opened.append_iff (by decide)]
  exact StaysInside.append_iff closes (by decide) (by decide) whole

private theorem commented_tagLine_iff {tag : String} : Commented "//" (tagLine tag) ↔ StaysInside "//" tag := by
  rw [tagLine]
  split
  next empty =>
    rw [empty]
    decide
  next =>
    have opened : Commented "//" "//! Operations tagged `" := by decide
    exact quoted_iff opened rfl (by decide)

private theorem commented_schemaLine_iff {model : ModelDecl} :
    Commented "//" (schemaLine model) ↔ StaysInside "//" model.schemaName := by
  have opened : Commented "//" "/// `" := by decide
  exact quoted_iff opened rfl (by decide)

private def keyComment (key : Key) : String :=
  "    /// `" ++ key.keyName ++ "` " ++ keyPlace key.location ++ " (scheme `" ++ key.schemeName ++ "`)."

private theorem commented_keyComment_iff {key : Key} (stays : StaysInside "//" key.keyName) :
    Commented "//" (keyComment key) ↔ StaysInside "//" key.schemeName := by
  have opened : Commented "//" "    /// `" := by decide
  have named : Commented "//" ("    /// `" ++ key.keyName ++ "` ") := (quoted_iff opened rfl (by decide)).mpr stays
  have place : StaysInside "//" (keyPlace key.location) := by
    cases key.location <;> decide
  have placed := (named.append_iff (by decide)).mpr place
  have again : StaysInside "//" " (scheme `" := by decide
  exact quoted_iff ((placed.append_iff (by decide)).mpr again) rfl (by decide)

private theorem flatMap_append_eq_iff {α β : Type} (items : List α) (front back : α → List β) :
    items.flatMap back = items.flatMap (fun item => front item ++ back item) ↔ ∀ item ∈ items, front item = [] := by
  constructor
  · intro same item member
    have lengths := congrArg List.length same
    simp only [List.length_flatMap, List.length_append, List.sum_map_add] at lengths
    have none : (items.map fun item => (front item).length).sum = 0 := by omega
    apply List.length_eq_zero_iff.mp
    exact List.sum_eq_zero_iff_forall_eq_nat.mp none _ (List.mem_map_of_mem member)
  · intro empty
    apply List.flatMap_congr
    intro item member
    rw [empty item member, List.nil_append]

private theorem code_keyFields_iff {keys : List Key} (stays : ∀ key ∈ keys, StaysInside "//" key.keyName) :
    (keys.map Key.unlabelled).flatMap (fun key => code "//" (keyFieldLines key)) =
        keys.flatMap (fun key => code "//" (keyFieldLines key)) ↔
      ∀ key ∈ keys, StaysInside "//" key.schemeName := by
  have shown : (keys.map Key.unlabelled).flatMap (fun key => code "//" (keyFieldLines key)) =
      keys.flatMap fun key => code "//" ["    pub " ++ key.ident ++ ": Option<String>,"] := by
    rw [List.flatMap_map]
    apply List.flatMap_congr
    intro key member
    have named : StaysInside "//" key.unlabelled.keyName := stays key member
    have commented := (commented_keyComment_iff named).mpr staysInside_empty
    have lines : code "//" (keyFieldLines key.unlabelled) =
        without "//" (keyComment key.unlabelled) ++ code "//" ["    pub " ++ key.ident ++ ": Option<String>,"] := rfl
    rw [lines, without_eq_nil_iff.mpr commented, List.nil_append]
  rw [shown]
  apply (flatMap_append_eq_iff keys (fun key => without "//" (keyComment key)) _).trans
  apply forall₂_congr
  intro key member
  rw [without_eq_nil_iff, commented_keyComment_iff (stays key member)]

private theorem securityLines_unlabelled (keys : List Key) : securityLines (keys.map Key.unlabelled) = securityLines keys := by
  cases keys with
  | nil => rfl
  | cons key keys =>
    have statements : (keys.map Key.unlabelled).flatMap keyStatementLines = keys.flatMap keyStatementLines := by
      rw [List.flatMap_map]
      rfl
    simp only [securityLines, List.map_cons, List.flatMap_cons, statements]
    rfl

private theorem code_configLines_iff {plan : Plan} (stays : plan.KeysStay) :
    code "//" (configLines plan.unlabelled) = code "//" (configLines plan) ↔
      ∀ key ∈ plan.keys, StaysInside "//" key.schemeName := by
  have keys : plan.unlabelled.keys = plan.keys.map Key.unlabelled := rfl
  have baseUrl : plan.unlabelled.baseUrl = plan.baseUrl := rfl
  have settings : plan.unlabelled.settings = plan.settings := rfl
  simp only [configLines, keys, baseUrl, settings, securityLines_unlabelled, code_append, code_flatMap,
    List.append_left_inj, List.append_right_inj]
  exact code_keyFields_iff stays

private theorem code_clientLines_iff {client : Client} :
    code "//" (clientLines client.unlabelled) = code "//" (clientLines client) ↔ StaysInside "//" client.tag := by
  have moduleName : client.unlabelled.moduleName = client.moduleName := rfl
  have typeName : client.unlabelled.typeName = client.typeName := rfl
  have methods : client.unlabelled.methods = client.methods := rfl
  have emptied : StaysInside "//" client.unlabelled.tag := staysInside_empty
  have hidden := without_eq_nil_iff.mpr (commented_tagLine_iff.mpr emptied)
  simp only [clientLines, moduleName, typeName, methods, code_append, code_cons, List.append_left_inj,
    List.append_right_inj]
  rw [hidden, eq_comm, without_eq_nil_iff, commented_tagLine_iff]

private theorem code_modelLines_iff (settings : Settings) {model : ModelDecl} :
    code "//" (modelLines settings model.unlabelled) = code "//" (modelLines settings model) ↔
      StaysInside "//" model.schemaName := by
  have kind : model.unlabelled.kind = model.kind := rfl
  have typeName : model.unlabelled.typeName = model.typeName := rfl
  have emptied : StaysInside "//" model.unlabelled.schemaName := staysInside_empty
  have hidden := without_eq_nil_iff.mpr (commented_schemaLine_iff.mpr emptied)
  simp only [modelLines, kind, typeName, code_append]
  cases model.kind with
  | struct | enumeration | «alias» | newtype =>
    simp only [code_append, code_cons, List.append_left_inj, List.append_right_inj]
    rw [hidden, eq_comm, without_eq_nil_iff, commented_schemaLine_iff]

/-- Where the names of API keys stay in their comments, the other names do so exactly if the source without comments does
not depend on them. -/
theorem unlabelled_files_iff {plan : Plan} (keys : plan.KeysStay) :
    (files plan.unlabelled).map (File.without "//") = (files plan).map (File.without "//") ↔ plan.LabelsStay := by
  have package : plan.unlabelled.package = plan.package := rfl
  have clients : plan.unlabelled.clients = plan.clients.map Client.unlabelled := rfl
  have models : plan.unlabelled.models = plan.models.map ModelDecl.unlabelled := rfl
  rw [files_changed_iff package rfl clients models (fun _ => ⟨rfl, rfl⟩) fun _ => ⟨rfl, rfl⟩]
  simp only [code_configLines_iff keys, code_clientLines_iff, code_modelLines_iff]
  constructor
  · rintro ⟨schemes, tags, schemas⟩
    exact ⟨tags, schemas, schemes⟩
  · rintro ⟨tags, schemas, schemes⟩
    exact ⟨schemes, tags, schemas⟩

private theorem unlabelled_keysStay {plan : Plan} : plan.unlabelled.KeysStay ↔ plan.KeysStay := by
  simp only [KeysStay, unlabelled, List.forall_mem_map]
  rfl

theorem files_ne_of_leaves {plan other : Plan} (same : plan.unlabelled = other.unlabelled) (keys : plan.KeysStay)
    (stays : plan.LabelsStay) (leaves : ¬ other.LabelsStay) :
    (files plan).map (File.without "//") ≠ (files other).map (File.without "//") := by
  have otherKeys : other.KeysStay := unlabelled_keysStay.mp (same ▸ unlabelled_keysStay.mpr keys)
  intro equal
  apply leaves
  apply (unlabelled_files_iff otherKeys).mp
  rw [← equal, ← same]
  exact (unlabelled_files_iff keys).mpr stays

/-- Where the names stay in their comments, plans that differ in them only have the same files without comments. That
holds of no other plans: any name that does not stay shows. -/
theorem labels_stay_in_comments {plan other : Plan} (same : plan.unlabelled = other.unlabelled) (keys : plan.KeysStay)
    (stays : plan.LabelsStay) :
    (files plan).map (File.without "//") = (files other).map (File.without "//") ↔ other.LabelsStay := by
  have otherKeys : other.KeysStay := unlabelled_keysStay.mp (same ▸ unlabelled_keysStay.mpr keys)
  constructor
  · intro equal
    by_contra leaves
    exact files_ne_of_leaves same keys stays leaves equal
  · intro otherStays
    rw [← (unlabelled_files_iff keys).mpr stays, ← (unlabelled_files_iff otherKeys).mpr otherStays, same]

def labelled (tag schemaName schemeName : String) : Plan :=
  ⟨["example"], "http://localhost", [⟨"api_key", schemeName, .header, "X-Key"⟩], [⟨tag, "pets", "PetsClient", []⟩],
    [⟨schemaName, "Pet", "pet", .alias (.scalar .string)⟩], .standard⟩

private theorem labelled_keysStay {tag schemaName schemeName : String} :
    (labelled tag schemaName schemeName).KeysStay := by
  intro key member
  cases List.mem_singleton.mp member
  have single : '\n' ∉ "X-Key".toList := by decide
  exact StaysInside.of_line single

private theorem labelled_inside : (labelled "pets" "Pet" "key").LabelsStay := ⟨by decide, by decide, by decide⟩

theorem labelled_comments :
    (files (labelled "pets" "Pet" "key")).map (File.without "//") =
      (files (labelled "cats\n// dogs" "Cat/Dog" "")).map (File.without "//") := by
  have same : (labelled "pets" "Pet" "key").unlabelled = (labelled "cats\n// dogs" "Cat/Dog" "").unlabelled := rfl
  have stays : (labelled "cats\n// dogs" "Cat/Dog" "").LabelsStay := ⟨by decide, by decide, by decide⟩
  exact (labels_stay_in_comments same labelled_keysStay labelled_inside).mpr stays

theorem labelled_leave_comments :
    ((labelled "pets" "Pet" "key").unlabelled = (labelled "pets\nstruct Tag;" "Pet" "key").unlabelled ∧
      (files (labelled "pets" "Pet" "key")).map (File.without "//") ≠
        (files (labelled "pets\nstruct Tag;" "Pet" "key")).map (File.without "//")) ∧
    ((labelled "pets" "Pet" "key").unlabelled = (labelled "pets" "Pet\nstruct Schema;" "key").unlabelled ∧
      (files (labelled "pets" "Pet" "key")).map (File.without "//") ≠
        (files (labelled "pets" "Pet\nstruct Schema;" "key")).map (File.without "//")) ∧
    ((labelled "pets" "Pet" "key").unlabelled = (labelled "pets" "Pet" "key\nstruct Scheme;").unlabelled ∧
      (files (labelled "pets" "Pet" "key")).map (File.without "//") ≠
        (files (labelled "pets" "Pet" "key\nstruct Scheme;")).map (File.without "//")) := by
  refine ⟨⟨rfl, files_ne_of_leaves rfl labelled_keysStay labelled_inside ?_⟩,
    ⟨rfl, files_ne_of_leaves rfl labelled_keysStay labelled_inside ?_⟩,
    ⟨rfl, files_ne_of_leaves rfl labelled_keysStay labelled_inside ?_⟩⟩
  · exact fun stays => absurd stays.tags (by decide)
  · exact fun stays => absurd stays.schemas (by decide)
  · exact fun stays => absurd stays.schemes (by decide)

end Source

end ClientForge
