import Mathlib.Data.List.Basic
import ClientForge.Proofs.CommentLines

/-! What a document says about its methods, fields and outcomes in words. In the source it stands in documentation
comments and nowhere else. -/

namespace ClientForge

namespace Plan

def Variant.undescribed (variant : Variant) : Variant := { variant with description := none }

def Family.undescribed (family : Family) : Family :=
  { family with variants := family.variants.map Variant.undescribed }

def Method.undescribed (method : Method) : Method :=
  { method with summary := none, description := none, result := method.result.undescribed }

def Client.undescribed (client : Client) : Client := { client with methods := client.methods.map Method.undescribed }

def Field.undescribed (field : Field) : Field := { field with description := none }

def ModelDecl.undescribed (model : ModelDecl) : ModelDecl :=
  { model with kind := match model.kind with
    | .struct fields => .struct (fields.map Field.undescribed)
    | kind => kind }

/-- What a run generates, without the summaries and descriptions of methods and without the descriptions of outcomes
and fields. -/
def undescribed (plan : Plan) : Plan :=
  { plan with clients := plan.clients.map Client.undescribed, models := plan.models.map ModelDecl.undescribed }

end Plan

namespace Source
open Plan

private theorem code_variantLines (variant : Variant) :
    code "///" (variantLines variant.undescribed) = code "///" (variantLines variant) := by
  simp only [variantLines, code_append, code_docComment]
  rfl

private theorem code_familyLines (family : Family) (clientType method : String) :
    code "///" (familyLines family.undescribed clientType method) = code "///" (familyLines family clientType method) := by
  have variants : family.undescribed.variants.flatMap (fun variant => code "///" (variantLines variant)) =
      family.variants.flatMap fun variant => code "///" (variantLines variant) := by
    simp only [Family.undescribed, List.flatMap_map, code_variantLines]
  simp only [familyLines, code_append, code_flatMap, variants]
  rfl

private theorem defaultArm?_undescribed (variants : List Variant) :
    defaultArm? (variants.map Variant.undescribed) = defaultArm? variants := by
  have failures : openFailures (variants.map Variant.undescribed) = openFailures variants := by
    simp only [openFailures, List.any_map]
    rfl
  have default : (variants.map Variant.undescribed).find? (·.status = .default) =
      (variants.find? (·.status = .default)).map Variant.undescribed := by
    rw [List.find?_map]
    rfl
  rw [defaultArm?, defaultArm?, failures, default]
  cases variants.find? (·.status = .default) <;> cases openFailures variants <;> rfl

private theorem dispatchLines_undescribed (family : Family) : dispatchLines family.undescribed = dispatchLines family := by
  have chosen : arms family.undescribed = arms family := by
    simp only [arms, Family.undescribed, List.filter_map, ← List.map_append, List.filterMap_map, defaultArm?_undescribed]
    rfl
  simp only [dispatchLines, chosen]
  rfl

private theorem code_methodLines (method : Method) :
    code "///" (methodLines method.undescribed) = code "///" (methodLines method) := by
  have choice : dispatchLines method.undescribed.result = dispatchLines method.result := dispatchLines_undescribed _
  simp only [methodLines, code_append, code_docComment, choice]
  rfl

private theorem code_clientLines (client : Client) :
    code "///" (clientLines client.undescribed) = code "///" (clientLines client) := by
  have methods : client.undescribed.methods.flatMap (fun method => code "///" ("" :: methodLines method)) =
      client.methods.flatMap fun method => code "///" ("" :: methodLines method) := by
    simp only [Client.undescribed, List.flatMap_map, code_cons, code_methodLines]
  have families : client.undescribed.methods.flatMap (fun method =>
        code "///" ("" :: familyLines method.result client.typeName method.name)) =
      client.methods.flatMap fun method => code "///" ("" :: familyLines method.result client.typeName method.name) := by
    rw [Client.undescribed, List.flatMap_map]
    apply List.flatMap_congr
    intro method _
    rw [code_cons, code_cons]
    exact congrArg _ (code_familyLines method.result client.typeName method.name)
  simp only [clientLines, code_append, code_flatMap, methods]
  exact congrArg _ families

private theorem code_fieldLines (settings : Settings) (field : Field) :
    code "///" (fieldLines settings field.undescribed) = code "///" (fieldLines settings field) := by
  simp only [fieldLines, code_append, code_docComment]
  rfl

private theorem code_modelLines (settings : Settings) (model : ModelDecl) :
    code "///" (modelLines settings model.undescribed) = code "///" (modelLines settings model) := by
  obtain ⟨schemaName, typeName, fileStem, kind⟩ := model
  cases kind with
  | struct fields =>
    have same : (fields.map Field.undescribed).flatMap (fun field => code "///" (fieldLines settings field)) =
        fields.flatMap fun field => code "///" (fieldLines settings field) := by
      simp only [List.flatMap_map, code_fieldLines]
    simp only [modelLines, ModelDecl.undescribed, code_append, code_flatMap, same]
    rfl
  | enumeration | «alias» | newtype => rfl

theorem undescribed_files (plan : Plan) :
    (files plan.undescribed).map (File.without "///") = (files plan).map (File.without "///") := by
  have package : plan.undescribed.package = plan.package := rfl
  have clients : plan.undescribed.clients = plan.clients.map Client.undescribed := rfl
  have models : plan.undescribed.models = plan.models.map ModelDecl.undescribed := rfl
  apply (files_changed_iff package rfl clients models (fun _ => ⟨rfl, rfl⟩) fun _ => ⟨rfl, rfl⟩).mpr
  refine ⟨rfl, ?_, ?_⟩
  · intro client _
    exact code_clientLines client
  · intro model _
    exact code_modelLines plan.settings model

/-- Plans that differ in descriptions only have the same files without documentation comments. -/
theorem descriptions_stay_in_comments {plan other : Plan} (same : plan.undescribed = other.undescribed) :
    (files plan).map (File.without "///") = (files other).map (File.without "///") := by
  rw [← undescribed_files plan, ← undescribed_files other, same]

def listing (summary : Option String) : Plan :=
  ⟨["example"], "http://localhost", [],
    [⟨"pets", "pets", "PetsClient", [⟨"list", .get, "/pets", summary, none, false, [], none,
      ⟨"ListResult", [], "UnknownFailure"⟩⟩]⟩],
    [], .standard⟩

theorem listing_comments : files (listing (some "All pets.\r\n\n*/ struct Pet;")) ≠ files (listing none) ∧
    (files (listing (some "All pets.\r\n\n*/ struct Pet;"))).map (File.without "///") =
      (files (listing none)).map (File.without "///") := by
  constructor
  · intro same
    have longer : (files (listing (some "All pets.\r\n\n*/ struct Pet;")))[3]?.map (·.lines.length) ≠
        (files (listing none))[3]?.map (·.lines.length) := by decide +kernel
    exact longer (by rw [same])
  · exact descriptions_stay_in_comments rfl

end Source

end ClientForge
