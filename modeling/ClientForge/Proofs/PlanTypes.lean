import ClientForge.Proofs.TypePlaces

/-! Planning a document that was accepted asks only for type names of schemas that have a model. So every
name in a type of the plan is the name of one model, the one of the schema that the document has there. -/

namespace ClientForge.Plan
open Api Resolve

variable {first second : String → String} {schema : Schema}

/-- Two ways to name types that do not differ on what a schema refers to. -/
def Agree (first second : String → String) (schema : Schema) : Prop :=
  ∀ name ∈ schema.references, first name = second name

private theorem rename_congr {type : TypeRef} (agree : ∀ name ∈ type.names, first name = second name) :
    type.rename first = type.rename second := by
  induction type with
  | scalar | unknown => rfl
  | named name => exact congrArg TypeRef.named (agree name (List.mem_singleton.mpr rfl))
  | list items ih => exact congrArg TypeRef.list (ih agree)
  | map values ih => exact congrArg TypeRef.map (ih agree)
  | optional value ih => exact congrArg TypeRef.optional (ih agree)

private theorem ofSchema_congr (context : String) (usage : IsUsage schema) (agree : Agree first second schema) :
    (TypeRef.ofSchema context schema).rename first = (TypeRef.ofSchema context schema).rename second := by
  apply rename_congr
  rwa [names_ofSchema context usage]

private theorem ofProperty_congr (context : String) {property : Property Schema} (usage : IsUsage property.schema)
    (agree : Agree first second property.schema) :
    (TypeRef.ofProperty context property).rename first = (TypeRef.ofProperty context property).rename second := by
  simp only [TypeRef.ofProperty]
  split
  · rw [rename_orAbsent, rename_orAbsent, ofSchema_congr context usage agree]
  · exact ofSchema_congr context usage agree

private theorem fields_congr {schemas : Table String Schema} {name : String}
    {properties : List (String × Property Schema)} (usage : ∀ field ∈ properties, IsUsage field.2.schema)
    (agree : Agree first second (.object properties)) :
    fields schemas first name properties = fields schemas second name properties := by
  apply List.map_congr_left
  rintro ⟨⟨key, property⟩, ident⟩ member
  have listed : (key, property) ∈ properties := (List.of_mem_zip member).1
  have same := ofProperty_congr key (usage _ listed) fun name mentioned =>
    agree name (mem_propertyReferences.mpr ⟨_, listed, mentioned⟩)
  simp only [same]

private theorem modelKind_congr {schemas : Table String Schema} {settings : Settings} {name : String}
    (entry : IsEntry schema) (agree : Agree first second schema) :
    modelKind schemas first settings name schema = modelKind schemas second settings name schema := by
  cases entry with
  | enumeration => rfl
  | object each => exact congrArg ModelKind.struct (fields_congr each agree)
  | usage usage =>
    have same := ofSchema_congr name usage agree
    cases usage <;> simp only [modelKind, same]

private theorem modelDecls_congr {schemas : Table String Schema} {settings : Settings}
    (entries : ∀ name schema, schemas.get? name = some schema → IsEntry schema ∧ Agree first second schema) :
    modelDecls schemas first settings = modelDecls schemas second settings := by
  apply List.map_congr_left
  rintro ⟨⟨schemaName, schema⟩, typeName, fileStem⟩ member
  obtain ⟨entry, agree⟩ := entries schemaName schema (Table.get?_eq_some.mpr (List.of_mem_zip member).1)
  simp only [modelKind_congr entry agree]

private theorem variants_congr {method : String} {successes : Nat} {seen : List String}
    {responses : List (Status × Response)}
    (uses : ∀ entry ∈ responses, ∀ schema ∈ entry.2.schema, IsUsage schema ∧ Agree first second schema) :
    variants first method successes seen responses = variants second method successes seen responses := by
  induction responses generalizing seen with
  | nil => rfl
  | cons entry rest ih =>
    obtain ⟨status, response⟩ := entry
    have later (seen : List String) :
        variants first method successes seen rest = variants second method successes seen rest :=
      ih fun entry member => uses entry (List.mem_cons_of_mem _ member)
    have same : (response.schema.map fun schema => (TypeRef.ofSchema method schema).rename first) =
        response.schema.map fun schema => (TypeRef.ofSchema method schema).rename second := by
      apply Option.map_congr
      intro schema declared
      obtain ⟨usage, agree⟩ := uses _ (List.mem_cons_self ..) schema declared
      exact ofSchema_congr method usage agree
    simp only [variants, later, same]

private theorem method_congr {operation : Operation} {name familyType : String}
    (uses : ∀ schema ∈ operation.schemas, IsUsage schema ∧ Agree first second schema) :
    method first operation name familyType = method second operation name familyType := by
  have sameParams : params first operation.parameters = params second operation.parameters := by
    apply List.map_congr_left
    rintro ⟨parameter, ident⟩ member
    have declared : parameter.schema ∈ operation.schemas := by
      simp only [Operation.schemas, List.mem_append, List.mem_map]
      exact Or.inl (Or.inl ⟨parameter, (List.of_mem_zip member).1, rfl⟩)
    obtain ⟨usage, agree⟩ := uses _ declared
    simp only [ofSchema_congr parameter.name usage agree]
  have sameBody : operation.requestBody.map (body first) = operation.requestBody.map (body second) := by
    apply Option.map_congr
    intro sent carried
    obtain ⟨usage, agree⟩ := uses sent.schema (by simp [Operation.schemas, Option.mem_def.mp carried])
    simp only [body, ofSchema_congr "body" usage agree]
  have sameFamily : family first operation name familyType = family second operation name familyType := by
    simp only [family]
    rw [variants_congr]
    intro entry member schema documented
    apply uses
    simp only [Operation.schemas, List.mem_append, List.mem_filterMap]
    exact Or.inr ⟨entry.2, List.mem_map_of_mem member, documented⟩
  simp only [method, sameParams, sameBody, sameFamily]

private theorem clientDecls_congr {groups : Table String (List Operation)}
    (uses : ∀ tag operations, groups.get? tag = some operations → ∀ operation ∈ operations,
      ∀ schema ∈ operation.schemas, IsUsage schema ∧ Agree first second schema) :
    clientDecls first groups = clientDecls second groups := by
  apply List.map_congr_left
  rintro ⟨⟨tag, operations⟩, clientType, moduleName⟩ member
  have found : groups.get? tag = some operations := Table.get?_eq_some.mpr (List.of_mem_zip member).1
  have same : methods first clientType operations = methods second clientType operations := by
    apply List.map_congr_left
    rintro ⟨operation, name, familyType⟩ listed
    exact method_congr (uses tag operations found operation (List.of_mem_zip listed).1)
  simp only [same]

variable {model : Model} {config : Config} {settings : Settings}

private theorem build_congr (sound : Sound model)
    (agree : ∀ name ∈ (usedSchemas model config).keys, first name = second name) :
    modelDecls (usedSchemas model config) first settings = modelDecls (usedSchemas model config) second settings ∧
      clientDecls first (wantedGroups model config) = clientDecls second (wantedGroups model config) := by
  constructor
  · apply modelDecls_congr
    intro name schema used
    exact ⟨isEntry_of_used sound used, fun other mentioned => agree other (references_used sound used other mentioned)⟩
  · apply clientDecls_congr
    intro tag operations wanted operation member schema declared
    obtain ⟨usage, present⟩ := operation_references_used sound wanted member declared
    exact ⟨usage, fun name mentioned => agree name (present name mentioned)⟩

/-- In the plan of an accepted document every type has a place. The schema at the place is one to be used, so
that nothing is named after its context; every name in the type stands where the schema refers to another one,
and is the type name of one model, that of the schema referred to. What the type names of other schemas would
be makes no difference to the plan. -/
theorem build_types {document : Document} (accepted : Resolve.model document = .ok model) (config : Config)
    (settings : Settings) :
    (∀ type ∈ types (build model config settings), ∃ schema, Place model config (build model config settings) type schema) ∧
    (∀ type schema, Place model config (build model config settings) type schema →
      IsUsage schema ∧ ∀ written ∈ type.names, ∃ decl name, Carries type schema written name ∧
        (build model config settings).models.filter (fun other => other.typeName = written) = [decl] ∧
          decl.schemaName = name) ∧
    ∀ typeName : String → String,
      (∀ decl ∈ (build model config settings).models, typeName decl.schemaName = decl.typeName) →
        (build model config settings).models = modelDecls (usedSchemas model config) typeName settings ∧
          (build model config settings).clients = clientDecls typeName (wantedGroups model config) := by
  have sound := model_sound accepted
  refine ⟨fun type listed => place_of_type listed, ?_, ?_⟩
  · intro type schema place
    obtain ⟨usage, renders, present⟩ := place_renders sound place
    refine ⟨usage, fun written member => ?_⟩
    obtain ⟨name, mentioned, rfl, carries⟩ := renders written member
    obtain ⟨decl, planned, rfl⟩ := model_of_used (present name mentioned) settings
    refine ⟨decl, decl.schemaName, carries, ?_, rfl⟩
    rw [typeName_of_model planned]
    exact filter_typeName planned
  · intro typeName named
    apply build_congr sound
    intro name used
    obtain ⟨decl, planned, rfl⟩ := model_of_used used settings
    exact (typeName_of_model planned).trans (named decl planned).symm

theorem treeDocument_types : ∃ model, Resolve.model treeDocument = .ok model ∧ model.schemas.keys = ["Tree", "Kind"] ∧
    ∀ type schema, Place model .standard (build model .standard .standard) type schema →
      IsUsage schema ∧ ∀ written ∈ type.names, ∃ decl name, Carries type schema written name ∧
        (build model .standard .standard).models.filter (fun other => other.typeName = written) = [decl] ∧
          decl.schemaName = name := by
  obtain ⟨model, accepted, keys⟩ := treeDocument_accepted
  exact ⟨model, accepted, keys, (build_types accepted .standard .standard).2.1⟩

end ClientForge.Plan
