import ClientForge.Proofs.ModelNames
import ClientForge.Proofs.VariantNames
import Mathlib.Data.List.Forall2

/-! What a plan has for what the model has. Lists of declarations are as long as the lists that they are planned
from and in the same order: no client, method, parameter, outcome, field, member or key is lost, comes up twice
or changes places. -/

namespace ClientForge
open Api

def TypeRef.isDefinite : TypeRef → Bool
  | .optional _ => false
  | .list items => items.isDefinite
  | .map values => values.isDefinite
  | .scalar _ | .named _ | .unknown => true

theorem TypeRef.isDefinite_ofSchema (context : String) (schema : Schema) :
    (TypeRef.ofSchema context schema).isDefinite = true := by
  fun_induction TypeRef.ofSchema context schema with
  | case1 | case4 | case5 | case6 | case7 => rfl
  | case2 _ ih | case3 _ ih => exact ih

theorem TypeRef.isDefinite_rename (change : String → String) (type : TypeRef) :
    (type.rename change).isDefinite = type.isDefinite := by
  induction type with
  | scalar | named | optional | unknown => rfl
  | list items ih => exact ih
  | map values ih => exact ih

theorem TypeRef.orAbsent_of_isDefinite {type : TypeRef} (definite : type.isDefinite = true) :
    type.orAbsent = .optional type := by
  cases type with
  | optional => cases definite
  | scalar | list | map | named | unknown => rfl

end ClientForge

namespace ClientForge.Plan
open Api Ident

/-- The type of what may be absent is optional at its outermost level, and no type is optional anywhere else. -/
structure Wraps (absent : Bool) (value type : TypeRef) : Prop where
  definite : value.isDefinite = true
  same : type = if absent then .optional value else value

variable (typeName : String → String)

structure ParamFor (parameter : Parameter) (param : Param) : Prop where
  wireName : param.wireName = parameter.name
  location : param.location = parameter.location
  description : param.description = parameter.description
  type : Wraps (!parameter.required) ((TypeRef.ofSchema parameter.name parameter.schema).rename typeName) param.type

structure BodyFor (request : RequestBody) (body : Body) : Prop where
  contentType : body.contentType = request.contentType
  type : Wraps (!request.required) ((TypeRef.ofSchema "body" request.schema).rename typeName) body.type

structure VariantFor (method : String) (documented : Status × Response) (variant : Variant) : Prop where
  status : variant.status = documented.1
  description : variant.description = documented.2.description
  body : Option.Rel (fun schema => Wraps false ((TypeRef.ofSchema method schema).rename typeName))
    documented.2.schema variant.body

structure MethodFor (operation : Operation) (method : Method) : Prop where
  httpMethod : method.httpMethod = operation.method
  path : method.path = operation.path
  deprecated : method.deprecated = operation.deprecated
  summary : method.summary = operation.summary
  description : method.description = operation.description
  params : List.Forall₂ (ParamFor typeName) operation.parameters method.params
  body : Option.Rel (BodyFor typeName) operation.requestBody method.body
  variants : List.Forall₂ (VariantFor typeName method.name) operation.responses.entries method.result.variants

/-- The client of a group has a method for every wanted operation of the group. -/
structure ClientFor (config : Config) (group : String × List Operation) (client : Client) : Prop where
  tag : client.tag = group.1
  methods : List.Forall₂ (MethodFor typeName) (group.2.filter fun operation => config.allows operation.path) client.methods

structure FieldFor (entry : String × Property Schema) (field : Field) : Prop where
  wireName : field.wireName = entry.1
  description : field.description = entry.2.description
  type : Wraps (!entry.2.required || entry.2.nullable) ((TypeRef.ofSchema entry.1 entry.2.schema).rename typeName) field.type

def KindFor (settings : Settings) : Schema → ModelKind → Prop
  | .object properties, .struct fields => List.Forall₂ (FieldFor typeName) properties fields
  | .enumeration literals, .enumeration members fallback =>
    members.map (·.literal) = literals ∧ fallback.isSome = settings.enumFallback.isSome
  | .object _, _ | .enumeration _, _ | _, .struct _ | _, .enumeration .. => False
  | _, .alias type | _, .newtype type => type.isDefinite = true

structure ModelFor (settings : Settings) (entry : String × Schema) (model : ModelDecl) : Prop where
  schemaName : model.schemaName = entry.1
  kind : KindFor typeName settings entry.2 model.kind

structure KeyFor (scheme : KeyScheme) (key : Key) : Prop where
  schemeName : key.schemeName = scheme.name
  location : key.location = scheme.location
  keyName : key.keyName = scheme.keyName

/-- Position by position, a plan has what the wanted part of the model has. -/
structure Corresponds (model : Model) (config : Config) (settings : Settings) (plan : Plan) : Prop where
  clients : List.Forall₂ (ClientFor typeName config)
    (model.groups.entries.filter fun group => group.2.any fun operation => config.allows operation.path) plan.clients
  models : List.Forall₂ (ModelFor typeName settings) (usedSchemas model config).entries plan.models
  keys : List.Forall₂ KeyFor model.keySchemes plan.keys

variable {typeName}

theorem forall₂_zip_map {R : α → γ → Prop} {items : List α} {others : List β} {make : α × β → γ}
    (enough : items.length ≤ others.length) (each : ∀ item other, R item (make (item, other))) :
    List.Forall₂ R items ((items.zip others).map make) := by
  induction items generalizing others with
  | nil => exact .nil
  | cons item items ih =>
    cases others with
    | nil => simp at enough
    | cons other others => exact .cons (each item other) (ih (Nat.le_of_succ_le_succ enough))

private theorem wraps_presence {value : TypeRef} (required : Bool) (definite : value.isDefinite = true) :
    Wraps (!required) value (presence required value) := by
  refine ⟨definite, ?_⟩
  cases required with
  | true => rfl
  | false => exact TypeRef.orAbsent_of_isDefinite definite

private theorem isDefinite_schema (context : String) (schema : Schema) :
    ((TypeRef.ofSchema context schema).rename typeName).isDefinite = true := by
  rw [TypeRef.isDefinite_rename, TypeRef.isDefinite_ofSchema]

private theorem params_correspond (parameters : List Parameter) :
    List.Forall₂ (ParamFor typeName) parameters (params typeName parameters) :=
  forall₂_zip_map (by simp) fun parameter _ =>
    ⟨rfl, rfl, rfl, wraps_presence parameter.required (isDefinite_schema parameter.name parameter.schema)⟩

private theorem fields_correspond (schemas : Table String Schema) (name : String)
    (properties : List (String × Property Schema)) :
    List.Forall₂ (FieldFor typeName) properties (fields schemas typeName name properties) := by
  refine forall₂_zip_map (by simp) fun entry _ => ⟨rfl, rfl, isDefinite_schema entry.1 entry.2.schema, ?_⟩
  simp only [TypeRef.ofProperty]
  split
  · rw [TypeRef.orAbsent_of_isDefinite (TypeRef.isDefinite_ofSchema _ _)]
    rfl
  · rfl

private theorem outcome_corresponds (method : String) (status : Status) (response : Response) (name : String) :
    VariantFor typeName method (status, response)
      ⟨name, status, response.schema.map fun schema => (TypeRef.ofSchema method schema).rename typeName,
        response.description⟩ := by
  refine ⟨rfl, rfl, ?_⟩
  cases response.schema with
  | none => exact .none
  | some schema => exact .some ⟨isDefinite_schema method schema, rfl⟩

/-- Names that differ, from each other and from the names that came before, are all kept. -/
private theorem variants_correspond (method : String) (successes : Nat) {seen : List String}
    {responses : List (Status × Response)}
    (distinct : (responses.map fun documented => documented.1.variantName successes).Nodup)
    (fresh : ∀ documented ∈ responses, documented.1.variantName successes ∉ seen) :
    List.Forall₂ (VariantFor typeName method) responses (variants typeName method successes seen responses) := by
  induction responses generalizing seen with
  | nil => exact .nil
  | cons documented responses ih =>
    obtain ⟨status, response⟩ := documented
    obtain ⟨apart, distinct⟩ := List.nodup_cons.mp distinct
    obtain ⟨unseen, fresh⟩ := List.forall_mem_cons.mp fresh
    rw [variants, if_neg (by simpa using unseen)]
    refine .cons (outcome_corresponds method status response _) (ih distinct fun other member again => ?_)
    rcases List.mem_cons.mp again with same | earlier
    · exact apart (List.mem_map.mpr ⟨other, member, same⟩)
    · exact fresh other member earlier

private theorem method_corresponds (operation : Operation) (name familyType : String) :
    MethodFor typeName operation (method typeName operation name familyType) where
  httpMethod := rfl
  path := rfl
  deprecated := rfl
  summary := rfl
  description := rfl
  params := params_correspond operation.parameters
  body := by
    simp only [method]
    cases operation.requestBody with
    | none => exact .none
    | some request =>
      exact .some ⟨rfl, wraps_presence request.required (isDefinite_schema "body" request.schema)⟩
  variants := by
    have names := Status.variantNames_nodup operation.responses.distinct
    rw [List.map_map] at names
    exact variants_correspond name _ names fun _ _ => List.not_mem_nil

private theorem methods_correspond (clientType : String) (operations : List Operation) :
    List.Forall₂ (MethodFor typeName) operations (methods typeName clientType operations) :=
  forall₂_zip_map (by simp) fun operation names => method_corresponds operation names.1 names.2

private theorem wantedGroups_entries (model : Model) (config : Config) :
    (wantedGroups model config).entries =
      (model.groups.entries.filter fun group => group.2.any fun operation => config.allows operation.path).map fun group =>
        (group.1, group.2.filter fun operation => config.allows operation.path) := by
  simp only [wantedGroups, Table.filter, Table.mapValues, List.filter_map, Function.comp_def]
  congr 1
  refine List.filter_congr fun group _ => ?_
  rw [Bool.eq_iff_iff]
  simp [List.filter_eq_nil_iff]

private theorem clients_correspond (model : Model) (config : Config) :
    List.Forall₂ (ClientFor typeName config)
      (model.groups.entries.filter fun group => group.2.any fun operation => config.allows operation.path)
      (clientDecls typeName (wantedGroups model config)) := by
  have wanted : List.Forall₂ (fun (group : String × List Operation) (client : Client) =>
      client.tag = group.1 ∧ List.Forall₂ (MethodFor typeName) group.2 client.methods)
      (wantedGroups model config).entries (clientDecls typeName (wantedGroups model config)) :=
    forall₂_zip_map (by simp [Table.keys]) fun group names => ⟨rfl, methods_correspond names.1 group.2⟩
  rw [wantedGroups_entries, List.forall₂_map_left_iff] at wanted
  exact wanted.imp fun group client held => ⟨held.1, held.2⟩

theorem members_correspond (literals : List String) (fallback : Option String) :
    (members literals fallback).1.map (·.literal) = literals ∧ (members literals fallback).2.isSome = fallback.isSome := by
  generalize allocated : Scope.pascal.allocateAll ((literals ++ fallback.toList).map memberIdent) = idents
  have size : idents.length = literals.length + fallback.toList.length := by simp [← allocated]
  simp only [members, allocated, List.map_map, Function.comp_def]
  refine ⟨List.map_fst_zip (by omega), ?_⟩
  cases fallback <;> simp at size <;> simp [size]

private theorem kind_corresponds (schemas : Table String Schema) (settings : Settings) (name : String) (schema : Schema) :
    KindFor typeName settings schema (modelKind schemas typeName settings name schema) := by
  have definite : ((TypeRef.ofSchema name schema).rename typeName).isDefinite = true := isDefinite_schema name schema
  cases schema with
  | object properties => exact fields_correspond schemas name properties
  | enumeration literals => exact members_correspond literals settings.enumFallback
  | primitive | unknown => exact definite
  | reference | array | map =>
    simp only [modelKind]
    split
    · first | rfl | exact definite
    · exact definite

private theorem models_correspond (schemas : Table String Schema) (settings : Settings) :
    List.Forall₂ (ModelFor typeName settings) schemas.entries (modelDecls schemas typeName settings) :=
  forall₂_zip_map (by simp) fun entry _ => ⟨rfl, kind_corresponds schemas settings entry.1 entry.2⟩

/-- Planning loses nothing, doubles nothing and keeps every order: clients stand for the tags with a wanted
operation, methods for the wanted operations, and what is in them for what the operations have; models stand for
the schemas in use, and keys for the schemes. Types are optional just where a value may be absent. -/
theorem build_corresponds (model : Model) (config : Config) (settings : Settings) :
    Corresponds (typeNameIn model config) model config settings (build model config settings) where
  clients := by
    simp only [build]
    exact clients_correspond model config
  models := by
    simp only [build]
    exact models_correspond (usedSchemas model config) settings
  keys := by
    simp only [build]
    exact forall₂_zip_map (by simp) fun scheme _ => ⟨rfl, rfl, rfl⟩

end ClientForge.Plan
