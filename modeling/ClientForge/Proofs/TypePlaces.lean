import ClientForge.Proofs.ModelNames

/-! Where types stand in a plan. Each place has a schema of the document's model, and the type there says what
that schema says: in the same lists and maps it names the model of the schema that is referred to. -/

namespace ClientForge.Plan
open Api Resolve

/-- A type has a name where a schema refers to another one, inside the same lists and maps. -/
inductive Carries : TypeRef → Schema → String → String → Prop where
  | named {written name : String} : Carries (.named written) (.reference name) written name
  | list {items : TypeRef} {schema : Schema} {written name : String} (inner : Carries items schema written name) :
      Carries (.list items) (.array schema) written name
  | map {values : TypeRef} {schema : Schema} {written name : String} (inner : Carries values schema written name) :
      Carries (.map values) (.map schema) written name
  | optional {type : TypeRef} {schema : Schema} {written name : String} (inner : Carries type schema written name) :
      Carries (.optional type) schema written name

/-- Every name in a type is the changed name of a reference in the same position. -/
def Renders (typeName : String → String) (schema : Schema) (type : TypeRef) : Prop :=
  ∀ written ∈ type.names, ∃ name ∈ schema.references, written = typeName name ∧ Carries type schema written name

variable {typeName : String → String} {schema : Schema} {type : TypeRef}

theorem names_orAbsent (type : TypeRef) : type.orAbsent.names = type.names := by
  cases type <;> rfl

theorem rename_orAbsent (change : String → String) (type : TypeRef) :
    type.orAbsent.rename change = (type.rename change).orAbsent := by
  cases type <;> rfl

theorem names_rename (change : String → String) (type : TypeRef) : (type.rename change).names = type.names.map change := by
  induction type with
  | scalar | named | unknown => rfl
  | list items ih | map values ih | optional value ih => exact ih

theorem Carries.orAbsent {written name : String} (carries : Carries type schema written name) :
    Carries type.orAbsent schema written name := by
  cases carries with
  | named => exact .optional .named
  | list inner => exact .optional (.list inner)
  | map inner => exact .optional (.map inner)
  | optional inner => exact .optional inner

theorem Renders.orAbsent (renders : Renders typeName schema type) : Renders typeName schema type.orAbsent := by
  intro written member
  rw [names_orAbsent] at member
  obtain ⟨name, mentioned, same, carries⟩ := renders written member
  exact ⟨name, mentioned, same, carries.orAbsent⟩

theorem names_ofSchema (context : String) (usage : IsUsage schema) :
    (TypeRef.ofSchema context schema).names = schema.references := by
  induction usage with
  | primitive | reference | unknown => rfl
  | array _ inner | map _ inner => exact inner

theorem renders_ofSchema (typeName : String → String) (context : String) (usage : IsUsage schema) :
    Renders typeName schema ((TypeRef.ofSchema context schema).rename typeName) := by
  induction usage with
  | primitive | unknown => exact fun written member => by cases member
  | @reference name =>
    intro written member
    cases List.mem_singleton.mp member
    exact ⟨name, List.mem_singleton.mpr rfl, rfl, .named⟩
  | array _ inner =>
    intro written member
    obtain ⟨name, mentioned, same, carries⟩ := inner written member
    exact ⟨name, mentioned, same, .list carries⟩
  | map _ inner =>
    intro written member
    obtain ⟨name, mentioned, same, carries⟩ := inner written member
    exact ⟨name, mentioned, same, .map carries⟩

theorem renders_presence (required : Bool) (renders : Renders typeName schema type) :
    Renders typeName schema (presence required type) := by
  unfold presence
  split
  · exact renders
  · exact renders.orAbsent

theorem renders_ofProperty (typeName : String → String) (context : String) {property : Property Schema}
    (usage : IsUsage property.schema) :
    Renders typeName property.schema ((TypeRef.ofProperty context property).rename typeName) := by
  simp only [TypeRef.ofProperty]
  split
  · rw [rename_orAbsent]
    exact (renders_ofSchema typeName context usage).orAbsent
  · exact renders_ofSchema typeName context usage

def ModelKind.types : ModelKind → List TypeRef
  | .struct fields => fields.map (·.type)
  | .enumeration _ _ => []
  | .alias type | .newtype type => [type]

/-- The types of a method: of its parameters, of its body and of its outcomes. -/
def Method.types (method : Method) : List TypeRef :=
  method.params.map (·.type) ++ (method.body.map (·.type)).toList ++ method.result.variants.filterMap (·.body)

def types (plan : Plan) : List TypeRef :=
  plan.models.flatMap (·.kind.types) ++ plan.clients.flatMap fun client => client.methods.flatMap Method.types

variable {model : Model} {config : Config} {settings : Settings} {plan : Plan}

variable (model config plan) in
/-- The operation that a method is planned from. -/
def MethodOf (method : Method) (operation : Operation) : Prop :=
  ∃ client ∈ plan.clients, ∃ operations, (wantedGroups model config).get? client.tag = some operations ∧
    (method, operation) ∈ client.methods.zip operations

variable (model config plan) in
/-- A place of a plan: a type, and the schema that the document has at that place. -/
inductive Place : TypeRef → Schema → Prop where
  | field {decl : ModelDecl} {fields : List Field} {properties : List (String × Property Schema)} {field : Field}
      {key : String} {property : Property Schema} (member : decl ∈ plan.models) (kind : decl.kind = .struct fields)
      (found : model.schemas.get? decl.schemaName = some (.object properties))
      (paired : (field, key, property) ∈ fields.zip properties) : Place field.type property.schema
  | alias {decl : ModelDecl} {type : TypeRef} {schema : Schema} (member : decl ∈ plan.models)
      (kind : decl.kind = .alias type) (found : model.schemas.get? decl.schemaName = some schema) : Place type schema
  | newtype {decl : ModelDecl} {type : TypeRef} {schema : Schema} (member : decl ∈ plan.models)
      (kind : decl.kind = .newtype type) (found : model.schemas.get? decl.schemaName = some schema) : Place type schema
  | param {method : Method} {operation : Operation} {param : Param} {parameter : Parameter}
      (planned : MethodOf model config plan method operation)
      (paired : (param, parameter) ∈ method.params.zip operation.parameters) : Place param.type parameter.schema
  | body {method : Method} {operation : Operation} {body : Body} {sent : RequestBody}
      (planned : MethodOf model config plan method operation) (carried : method.body = some body)
      (declared : operation.requestBody = some sent) : Place body.type sent.schema
  | variant {method : Method} {operation : Operation} {variant : Variant} {response : Response} {type : TypeRef}
      {schema : Schema} (planned : MethodOf model config plan method operation)
      (member : variant ∈ method.result.variants) (carried : variant.body = some type)
      (documented : operation.responses.get? variant.status = some response)
      (declared : response.schema = some schema) : Place type schema

private theorem zip_planned {α β γ : Type} {items : List α} {others : List β} {make : α × β → γ}
    (enough : items.length ≤ others.length) :
    ((items.zip others).map make).zip items = (items.zip others).map fun entry => (make entry, entry.1) := by
  conv => lhs; arg 2; rw [← List.map_fst_zip enough]
  exact List.zip_map' ..

theorem exists_partner {α β : Type} {planned : List α} (items : List β) (same : planned.length = items.length)
    {first : α} (member : first ∈ planned) : ∃ item, (first, item) ∈ planned.zip items := by
  obtain ⟨index, inside, rfl⟩ := List.getElem_of_mem member
  exact ⟨items[index], List.mem_iff_getElem.mpr ⟨index, by simp; omega, by simp⟩⟩

theorem field_of_zip {schemas : Table String Schema} {name : String} {properties : List (String × Property Schema)}
    {field : Field} {key : String} {property : Property Schema}
    (paired : (field, key, property) ∈ (fields schemas typeName name properties).zip properties) :
    (key, property) ∈ properties ∧ field.type = (TypeRef.ofProperty key property).rename typeName ∧
      field.boxed = property.schema.directReferences.any (storesIn schemas name) := by
  refine ⟨(List.of_mem_zip paired).2, ?_⟩
  rw [fields, zip_planned (by simp)] at paired
  obtain ⟨⟨⟨key, property⟩, ident⟩, _, same⟩ := List.mem_map.mp paired
  cases same
  exact ⟨rfl, rfl⟩

theorem struct_of_kind {schemas : Table String Schema} {name : String} {planned : List Field}
    (kind : modelKind schemas typeName settings name schema = .struct planned) :
    ∃ properties, schema = .object properties ∧ planned = fields schemas typeName name properties := by
  cases schema with
  | object properties =>
    cases kind
    exact ⟨properties, rfl, rfl⟩
  | reference | array | map =>
    simp only [modelKind] at kind
    split at kind <;> cases kind
  | primitive | enumeration | unknown => cases kind

/-- An alias or a type of its own is declared for a schema to be used, and renders it; a broken alias renders
nothing. -/
theorem type_of_kind {schemas : Table String Schema} {name : String} (entry : IsEntry schema)
    (kind : modelKind schemas typeName settings name schema = .alias type ∨
      modelKind schemas typeName settings name schema = .newtype type) :
    IsUsage schema ∧ (type = (TypeRef.ofSchema name schema).rename typeName ∨ type = .unknown) := by
  cases entry with
  | enumeration | object => rcases kind with kind | kind <;> cases kind
  | usage usage =>
    refine ⟨usage, ?_⟩
    cases usage with
    | primitive | unknown =>
      rcases kind with kind | kind <;> cases kind
      exact Or.inl rfl
    | reference | array _ | map _ =>
      simp only [modelKind] at kind
      split at kind <;> rcases kind with kind | kind <;> cases kind <;> simp

private theorem param_of_zip {parameters : List Parameter} {param : Param} {parameter : Parameter}
    (paired : (param, parameter) ∈ (params typeName parameters).zip parameters) :
    parameter ∈ parameters ∧ param.type = presence parameter.required
      ((TypeRef.ofSchema parameter.name parameter.schema).rename typeName) := by
  refine ⟨(List.of_mem_zip paired).2, ?_⟩
  rw [params, zip_planned (by simp)] at paired
  obtain ⟨⟨parameter, ident⟩, _, same⟩ := List.mem_map.mp paired
  cases same
  rfl

private theorem method_of_zip {clientType : String} {operations : List Operation} {planned : Method}
    {operation : Operation} (paired : (planned, operation) ∈ (methods typeName clientType operations).zip operations) :
    operation ∈ operations ∧ ∃ name familyType, planned = method typeName operation name familyType := by
  refine ⟨(List.of_mem_zip paired).2, ?_⟩
  rw [methods, zip_planned (by simp)] at paired
  obtain ⟨⟨operation, name, familyType⟩, _, same⟩ := List.mem_map.mp paired
  cases same
  exact ⟨name, familyType, rfl⟩

private theorem variant_of_mem {method : String} {successes : Nat} {seen : List String}
    {responses : List (Status × Response)} {variant : Variant}
    (member : variant ∈ variants typeName method successes seen responses) :
    ∃ response, (variant.status, response) ∈ responses ∧
      variant.body = response.schema.map fun schema => (TypeRef.ofSchema method schema).rename typeName := by
  induction responses generalizing seen with
  | nil => cases member
  | cons entry rest ih =>
    obtain ⟨status, response⟩ := entry
    rw [variants] at member
    split at member
    · obtain ⟨other, listed, carried⟩ := ih member
      exact ⟨other, List.mem_cons_of_mem _ listed, carried⟩
    · rcases List.mem_cons.mp member with rfl | later
      · exact ⟨response, List.mem_cons_self .., rfl⟩
      · obtain ⟨other, listed, carried⟩ := ih later
        exact ⟨other, List.mem_cons_of_mem _ listed, carried⟩

private theorem operation_of_method {planned : Method} {operation : Operation}
    (methodOf : MethodOf model config (build model config settings) planned operation) :
    ∃ tag operations, (wantedGroups model config).get? tag = some operations ∧ operation ∈ operations ∧
      ∃ name familyType, planned = method (typeNameIn model config) operation name familyType := by
  obtain ⟨client, member, operations, wanted, paired⟩ := methodOf
  obtain ⟨⟨⟨tag, group⟩, clientType, moduleName⟩, entry, rfl⟩ := List.mem_map.mp member
  have same : group = operations := by
    have found := Table.get?_eq_some.mpr (List.of_mem_zip entry).1
    exact Option.some.inj (found.symm.trans wanted)
  subst same
  exact ⟨tag, group, wanted, method_of_zip paired⟩

/-- Where something has been planned for a schema, it renders the schema, and all that the schema refers to has
a model. -/
theorem place_renders (sound : Sound model) (place : Place model config (build model config settings) type schema) :
    IsUsage schema ∧ Renders (typeNameIn model config) schema type ∧
      ∀ name ∈ schema.references, name ∈ (usedSchemas model config).keys := by
  have ofKind {name : String} {type : TypeRef} {schema : Schema}
      (used : (usedSchemas model config).get? name = some schema)
      (kind : modelKind (usedSchemas model config) (typeNameIn model config) settings name schema = .alias type ∨
        modelKind (usedSchemas model config) (typeNameIn model config) settings name schema = .newtype type) :
      IsUsage schema ∧ Renders (typeNameIn model config) schema type ∧
        ∀ name ∈ schema.references, name ∈ (usedSchemas model config).keys := by
    obtain ⟨usage, rfl | rfl⟩ := type_of_kind (isEntry_of_used sound used) kind
    · exact ⟨usage, renders_ofSchema _ _ usage, references_used sound used⟩
    · exact ⟨usage, fun written none => (by cases none), references_used sound used⟩
  cases place with
  | @field decl planned properties field key property member kind found paired =>
    obtain ⟨declared, used, planKind⟩ := schema_of_model member
    cases found.symm.trans (usedSchemas_get?.mp used).1
    cases kind.symm.trans planKind
    obtain ⟨listed, same, _⟩ := field_of_zip paired
    have usage := (isEntry_of_used sound used).property listed
    refine ⟨usage, ?_, fun name mentioned => ?_⟩
    · rw [same]
      exact renders_ofProperty _ key usage
    · apply references_used sound used
      exact mem_propertyReferences.mpr ⟨_, listed, mentioned⟩
  | «alias» member kind found =>
    obtain ⟨declared, used, planKind⟩ := schema_of_model member
    cases found.symm.trans (usedSchemas_get?.mp used).1
    exact ofKind used (Or.inl (planKind.symm.trans kind))
  | newtype member kind found =>
    obtain ⟨declared, used, planKind⟩ := schema_of_model member
    cases found.symm.trans (usedSchemas_get?.mp used).1
    exact ofKind used (Or.inr (planKind.symm.trans kind))
  | @param _ operation param parameter planned paired =>
    obtain ⟨tag, operations, wanted, inside, name, familyType, rfl⟩ := operation_of_method planned
    obtain ⟨listed, same⟩ := param_of_zip paired
    have declared : parameter.schema ∈ operation.schemas := by
      simp only [Operation.schemas, List.mem_append, List.mem_map]
      exact Or.inl (Or.inl ⟨parameter, listed, rfl⟩)
    obtain ⟨usage, present⟩ := operation_references_used sound wanted inside declared
    rw [same]
    exact ⟨usage, renders_presence _ (renders_ofSchema _ _ usage), present⟩
  | @body _ operation body sent planned carried declared =>
    obtain ⟨tag, operations, wanted, inside, name, familyType, rfl⟩ := operation_of_method planned
    have listed : sent.schema ∈ operation.schemas := by
      simp [Operation.schemas, declared]
    obtain ⟨usage, present⟩ := operation_references_used sound wanted inside listed
    simp only [method, declared, Option.map_some] at carried
    cases carried
    exact ⟨usage, renders_presence _ (renders_ofSchema _ _ usage), present⟩
  | @variant _ operation variant response type schema planned member carried documented declared =>
    obtain ⟨tag, operations, wanted, inside, name, familyType, rfl⟩ := operation_of_method planned
    obtain ⟨answer, entry, sameBody⟩ := variant_of_mem member
    cases documented.symm.trans (Table.get?_eq_some.mpr entry)
    have listed : schema ∈ operation.schemas := by
      simp only [Operation.schemas, List.mem_append, List.mem_filterMap]
      exact Or.inr ⟨response, List.mem_map_of_mem entry, declared⟩
    obtain ⟨usage, present⟩ := operation_references_used sound wanted inside listed
    rw [sameBody, declared] at carried
    cases carried
    exact ⟨usage, renders_ofSchema _ _ usage, present⟩

theorem property_of_field {decl : ModelDecl} {planned : List Field} {field : Field}
    (member : decl ∈ (build model config settings).models) (kind : decl.kind = .struct planned)
    (inside : field ∈ planned) :
    ∃ properties key property, (usedSchemas model config).get? decl.schemaName = some (.object properties) ∧
      (field, key, property) ∈ planned.zip properties ∧ (key, property) ∈ properties ∧
        field.type = (TypeRef.ofProperty key property).rename (typeNameIn model config) ∧
          field.boxed = property.schema.directReferences.any (storesIn (usedSchemas model config) decl.schemaName) := by
  obtain ⟨schema, used, planKind⟩ := schema_of_model member
  obtain ⟨properties, rfl, rfl⟩ := struct_of_kind (planKind.symm.trans kind)
  obtain ⟨⟨key, property⟩, paired⟩ := exists_partner properties (by simp [fields]) inside
  exact ⟨properties, key, property, used, paired, field_of_zip paired⟩

private theorem place_of_model {decl : ModelDecl} (member : decl ∈ (build model config settings).models)
    (listed : type ∈ decl.kind.types) : ∃ schema, Place model config (build model config settings) type schema := by
  obtain ⟨schema, used, planKind⟩ := schema_of_model member
  have found := (usedSchemas_get?.mp used).1
  cases kind : decl.kind with
  | enumeration members fallback => simp [kind, ModelKind.types] at listed
  | «alias» declared =>
    rw [kind, ModelKind.types, List.mem_singleton] at listed
    exact ⟨schema, listed ▸ .alias member kind found⟩
  | newtype declared =>
    rw [kind, ModelKind.types, List.mem_singleton] at listed
    exact ⟨schema, listed ▸ .newtype member kind found⟩
  | struct planned =>
    rw [kind, ModelKind.types] at listed
    obtain ⟨field, inside, rfl⟩ := List.mem_map.mp listed
    obtain ⟨properties, key, property, used, paired, _⟩ := property_of_field member kind inside
    exact ⟨property.schema, .field member kind (usedSchemas_get?.mp used).1 paired⟩

private theorem place_of_method {planned : Method} {operation : Operation}
    (methodOf : MethodOf model config (build model config settings) planned operation) (listed : type ∈ planned.types) :
    ∃ schema, Place model config (build model config settings) type schema := by
  obtain ⟨_, _, _, _, name, familyType, rfl⟩ := operation_of_method methodOf
  rcases List.mem_append.mp listed with early | late
  · rcases List.mem_append.mp early with first | second
    · obtain ⟨param, inside, rfl⟩ := List.mem_map.mp first
      obtain ⟨parameter, paired⟩ := exists_partner operation.parameters (by simp [method, params]) inside
      exact ⟨parameter.schema, .param methodOf paired⟩
    · obtain ⟨sent, carried, rfl⟩ := Option.map_eq_some_iff.mp (Option.mem_toList.mp second)
      obtain ⟨declared, found, _⟩ := Option.map_eq_some_iff.mp carried
      exact ⟨declared.schema, .body methodOf carried found⟩
  · obtain ⟨variant, inside, carried⟩ := List.mem_filterMap.mp late
    obtain ⟨response, entry, sameBody⟩ := variant_of_mem inside
    obtain ⟨schema, declared, _⟩ := Option.map_eq_some_iff.mp (sameBody.symm.trans carried)
    exact ⟨schema, .variant methodOf inside carried (Table.get?_eq_some.mpr entry) declared⟩

theorem place_of_type (listed : type ∈ types (build model config settings)) :
    ∃ schema, Place model config (build model config settings) type schema := by
  rcases List.mem_append.mp listed with early | late
  · obtain ⟨decl, member, inside⟩ := List.mem_flatMap.mp early
    exact place_of_model member inside
  · obtain ⟨client, member, held⟩ := List.mem_flatMap.mp late
    obtain ⟨planned, declared, carried⟩ := List.mem_flatMap.mp held
    have whole := member
    obtain ⟨⟨⟨tag, operations⟩, clientType, moduleName⟩, entry, rfl⟩ := List.mem_map.mp member
    obtain ⟨operation, paired⟩ := exists_partner operations (by simp [methods]) declared
    have wanted := Table.get?_eq_some.mpr (List.of_mem_zip entry).1
    exact place_of_method ⟨_, whole, operations, wanted, paired⟩ carried

end ClientForge.Plan
