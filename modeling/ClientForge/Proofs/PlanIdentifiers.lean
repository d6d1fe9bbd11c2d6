import ClientForge.Proofs.DeclarationNames
import ClientForge.Proofs.VariantNames

/-! Every identifier of a plan is spelled as the generated language asks for. Each one comes out of a repair or
of a scope that was given repaired names; only the variants of a family have names of their own. -/

namespace ClientForge.Plan
open Api Ident

structure ModelDecl.Spelled (model : ModelDecl) : Prop where
  typeName : IsModelName model.typeName
  fileStem : IsValueName model.fileStem
  fields : ∀ fields, model.kind = .struct fields → ∀ field ∈ fields, IsValueName field.ident
  members : ∀ name ∈ model.members, IsTypeName name

structure Method.Spelled (method : Method) : Prop where
  name : IsValueName method.name
  params : ∀ param ∈ method.params, IsValueName param.ident
  body : ∀ body ∈ method.body, IsValueName body.ident
  family : IsTypeName method.result.typeName
  variants : ∀ name ∈ method.result.variantNames, IsTypeName name

structure Client.Spelled (client : Client) : Prop where
  moduleName : IsValueName client.moduleName
  typeName : IsTypeName client.typeName
  methods : ∀ method ∈ client.methods, method.Spelled

/-- Every identifier is valid in the generated language. The package has at least one segment. -/
structure Spelled (plan : Plan) : Prop where
  package : plan.package ≠ [] ∧ ∀ segment ∈ plan.package, IsValueName segment
  keys : ∀ key ∈ plan.keys, IsValueName key.ident
  clients : ∀ client ∈ plan.clients, client.Spelled
  models : ∀ model ∈ plan.models, model.Spelled

theorem packageSegments_valid (config : Config) :
    config.packageSegments ≠ [] ∧ ∀ segment ∈ config.packageSegments, IsValueName segment := by
  rw [Config.packageSegments]
  split
  next => exact ⟨by simp, List.forall_mem_singleton.mpr ⟨spells_of_check rfl (by decide), by decide +kernel⟩⟩
  next first rest segments =>
    refine ⟨by simp, fun segment member => ?_⟩
    rw [← segments] at member
    obtain ⟨part, -, rfl⟩ := List.mem_map.mp member
    exact snakeIdent_valid part

private theorem ident_valid {items : List α} {ident : α → String} {names : List String} {valid : String → Prop}
    (same : items.map ident = names) (each : ∀ name ∈ names, valid name) : ∀ item ∈ items, valid (ident item) :=
  fun _ member => each _ (same ▸ List.mem_map_of_mem member)

private theorem snakeIdents_valid {items : List α} (key : α → String) :
    ∀ wish ∈ items.map fun item => snakeIdent (key item), IsValueName wish := by
  intro wish member
  obtain ⟨item, -, rfl⟩ := List.mem_map.mp member
  exact snakeIdent_valid _

theorem keyDecls_spelled (schemes : List KeyScheme) : ∀ key ∈ keyDecls schemes, IsValueName key.ident :=
  ident_valid (keyDecls_idents schemes) (allocateAll_valueNames rfl (snakeIdents_valid _))

private theorem params_spelled (typeName : String → String) (parameters : List Parameter) :
    ∀ param ∈ params typeName parameters, IsValueName param.ident :=
  ident_valid (params_idents typeName parameters)
    (allocateAll_valueNames (Scope.separator_reserveAll _ _) (snakeIdents_valid _))

private theorem fields_spelled (schemas : Table String Schema) (typeName : String → String) (name : String)
    (properties : List (String × Property Schema)) :
    ∀ field ∈ fields schemas typeName name properties, IsValueName field.ident :=
  ident_valid (fields_idents schemas typeName name properties) (allocateAll_valueNames rfl (snakeIdents_valid _))

private theorem members_spelled (literals : List String) (fallback : Option String) :
    ∀ name ∈ (members literals fallback).1.map (·.ident) ++ (members literals fallback).2.toList, IsTypeName name := by
  rw [members_idents]
  apply allocateAll_typeNames rfl
  intro wish member
  obtain ⟨literal, -, rfl⟩ := List.mem_map.mp member
  exact memberIdent_valid literal

private theorem variants_named (typeName : String → String) (method : String) (successes : Nat) (seen : List String)
    (responses : List (Status × Response)) :
    ∀ variant ∈ variants typeName method successes seen responses, IsTypeName variant.name := by
  induction responses generalizing seen with
  | nil => simp [variants]
  | cons entry rest ih =>
    obtain ⟨status, response⟩ := entry
    rw [variants]
    split
    · exact ih seen
    · exact List.forall_mem_cons.mpr ⟨Status.variantName_valid successes status, ih _⟩

private theorem family_spelled (typeName : String → String) (operation : Operation) (method familyType : String) :
    ∀ name ∈ (family typeName operation method familyType).variantNames, IsTypeName name := by
  intro name member
  rcases List.mem_append.mp member with documented | unknown
  · obtain ⟨variant, inside, rfl⟩ := List.mem_map.mp documented
    exact variants_named _ _ _ _ _ variant inside
  · rw [List.mem_singleton.mp unknown]
    change IsTypeName "UnknownFailure"
    exact ⟨spells_of_check rfl (by decide), by decide⟩

private theorem method_spelled (typeName : String → String) (operation : Operation) {name familyType : String}
    (named : IsValueName name) (familyNamed : IsTypeName familyType) :
    (method typeName operation name familyType).Spelled where
  name := named
  params := params_spelled typeName operation.parameters
  body := by
    intro sent carried
    obtain ⟨request, -, rfl⟩ := Option.map_eq_some_iff.mp carried
    change IsValueName "body"
    exact ⟨spells_of_check rfl (by decide), by decide +kernel⟩
  family := familyNamed
  variants := family_spelled typeName operation name familyType

private theorem methods_spelled (typeName : String → String) (clientType : String) (operations : List Operation) :
    ∀ method ∈ methods typeName clientType operations, method.Spelled := by
  intro declared member
  obtain ⟨⟨operation, name, familyType⟩, entry, rfl⟩ := List.mem_map.mp member
  obtain ⟨named, familyNamed⟩ := List.of_mem_zip (List.of_mem_zip entry).2
  refine method_spelled typeName operation (methodNames_valid _ _ name named) ?_
  refine allocateAll_typeNames (Scope.separator_reserveAll _ _) (fun wish listed => ?_) familyType familyNamed
  obtain ⟨method, -, rfl⟩ := List.mem_map.mp listed
  exact familyName_valid method

theorem clientDecls_spelled (typeName : String → String) (groups : Table String (List Operation)) :
    ∀ client ∈ clientDecls typeName groups, client.Spelled := by
  have types : ∀ wish ∈ groups.keys.map clientTypeName, IsTypeName wish := by
    intro wish listed
    obtain ⟨tag, -, rfl⟩ := List.mem_map.mp listed
    exact clientTypeName_valid tag
  have modules : ∀ wish ∈ groups.keys.map moduleIdent, IsValueName wish := by
    intro wish listed
    obtain ⟨tag, -, rfl⟩ := List.mem_map.mp listed
    exact moduleIdent_valid tag
  intro client member
  obtain ⟨⟨⟨tag, operations⟩, clientType, moduleName⟩, entry, rfl⟩ := List.mem_map.mp member
  obtain ⟨typed, placed⟩ := List.of_mem_zip (List.of_mem_zip entry).2
  exact
    { moduleName := allocateAll_valueNames rfl modules moduleName placed
      typeName := allocateAll_typeNames rfl types clientType typed
      methods := methods_spelled typeName clientType operations }

private theorem modelKind_spelled (schemas : Table String Schema) (typeName : String → String) (settings : Settings)
    {name schemaName declared fileStem : String} (schema : Schema) (named : IsModelName declared) (placed : IsValueName fileStem) :
    ModelDecl.Spelled ⟨schemaName, declared, fileStem, modelKind schemas typeName settings name schema⟩ := by
  cases schema with
  | object properties =>
    refine ⟨named, placed, ?_, by simp [ModelDecl.members, modelKind]⟩
    intro planned kind
    obtain rfl := ModelKind.struct.inj kind
    exact fields_spelled schemas typeName name properties
  | enumeration literals =>
    exact ⟨named, placed, fun planned kind => by simp [modelKind] at kind, members_spelled literals settings.enumFallback⟩
  | reference target | array items | map values =>
    simp only [modelKind]
    split <;> exact ⟨named, placed, fun planned kind => by simp at kind, by simp [ModelDecl.members]⟩
  | primitive kind format | unknown =>
    exact ⟨named, placed, fun planned kind => by simp [modelKind] at kind, by simp [ModelDecl.members, modelKind]⟩

theorem typeNames_valid (schemas : Table String Schema) : ∀ name ∈ typeNames schemas, IsModelName name := by
  refine allocateAll_modelNames rfl fun wish listed => ?_
  obtain ⟨schema, -, rfl⟩ := List.mem_map.mp listed
  exact typeIdent_valid schema

theorem modelDecls_spelled (schemas : Table String Schema) (typeName : String → String) (settings : Settings) :
    ∀ model ∈ modelDecls schemas typeName settings, model.Spelled := by
  have stems : ∀ wish ∈ (typeNames schemas).map snakeIdent, IsValueName wish := by
    intro wish listed
    obtain ⟨name, -, rfl⟩ := List.mem_map.mp listed
    exact snakeIdent_valid name
  intro model member
  obtain ⟨⟨⟨schemaName, schema⟩, name, fileStem⟩, entry, rfl⟩ := List.mem_map.mp member
  obtain ⟨typed, placed⟩ := List.of_mem_zip (List.of_mem_zip entry).2
  exact modelKind_spelled schemas typeName settings schema (typeNames_valid schemas name typed)
    (allocateAll_valueNames rfl stems fileStem placed)

/-- Whatever texts the model, the package and the settings have, every identifier of the plan is valid. -/
theorem build_spelled (model : Model) (config : Config) (settings : Settings) : Spelled (build model config settings) where
  package := by
    simp only [build]
    exact packageSegments_valid config
  keys := by
    simp only [build]
    exact keyDecls_spelled model.keySchemes
  clients := by
    simp only [build]
    exact clientDecls_spelled _ _
  models := by
    simp only [build]
    exact modelDecls_spelled _ _ _

end ClientForge.Plan
