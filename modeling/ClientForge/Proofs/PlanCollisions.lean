import ClientForge.Proofs.DeclarationNames
import ClientForge.Proofs.MethodNaming

/-! No two declarations in one scope of the generated source have the same name, and none has a name
that its scope uses already. Scopes see to it, except where the variants of a family are named: there
a name that came before is dropped. -/

namespace ClientForge.Plan
open Api Ident

/-- The names in a model: fields of a struct, or members of an enumeration with its fallback. -/
structure ModelDecl.Distinct (model : ModelDecl) : Prop where
  fields : ∀ fields, model.kind = .struct fields → (fields.map (·.ident)).Nodup
  members : model.members.Nodup

/-- The names in a method: its parameters beside the variables of its body, and its outcomes. -/
structure Method.Distinct (method : Method) : Prop where
  params : (method.params.map (·.ident)).Nodup
  locals : ∀ param ∈ method.params, param.ident ∉ ["self", "body", "url", "request", "response"]
  variants : method.result.variantNames.Nodup
  unknown : method.result.unknownFailure = "UnknownFailure"

/-- The names in a client: its methods beside those that every client has, and their families beside
the types that its module has already. -/
structure Client.Distinct (client : Client) : Prop where
  names : (client.methods.map (·.name)).Nodup
  reserved : ∀ method ∈ client.methods, method.name ∉ ["new", "config"]
  families : (client.methods.map (·.result.typeName)).Nodup
  own : ∀ method ∈ client.methods, method.result.typeName ∉ [client.typeName, "ClientConfig"]
  methods : ∀ method ∈ client.methods, method.Distinct

structure CollisionFree (plan : Plan) : Prop where
  typeNames : (plan.models.map (·.typeName)).Nodup
  fileStems : (plan.models.map (·.fileStem)).Nodup
  models : ∀ model ∈ plan.models, model.Distinct
  moduleNames : (plan.clients.map (·.moduleName)).Nodup
  clientTypes : (plan.clients.map (·.typeName)).Nodup
  clients : ∀ client ∈ plan.clients, client.Distinct
  keys : (plan.keys.map (·.ident)).Nodup

private theorem variantName_start (successes : Nat) (status : Status) :
    (status.variantName successes).toList.head? ≠ some 'U' := by
  cases status with
  | exact code =>
    simp only [Status.variantName]
    split
    · split <;> simp [String.toList_append]
    · split <;> simp [String.toList_append]
  | range hundred =>
    simp only [Status.variantName]
    split
    · simp
    · split <;> simp [String.toList_append]
  | default => simp [Status.variantName]

theorem variantName_ne_unknownFailure (successes : Nat) (status : Status) :
    status.variantName successes ≠ Status.unknownFailure := by
  intro same
  exact variantName_start successes status (by rw [same]; rfl)

private theorem variants_distinct (typeName : String → String) (method : String) (successes : Nat)
    (seen : List String) (responses : List (Status × Response)) :
    ((variants typeName method successes seen responses).map (·.name)).Nodup ∧
      ∀ variant ∈ variants typeName method successes seen responses,
        variant.name ∉ seen ∧ variant.name ≠ Status.unknownFailure := by
  induction responses generalizing seen with
  | nil => simp [variants]
  | cons entry rest ih =>
    obtain ⟨status, response⟩ := entry
    by_cases again : seen.contains (status.variantName successes) = true
    · simpa only [variants, again, if_true] using ih seen
    · obtain ⟨distinct, fresh⟩ := ih (status.variantName successes :: seen)
      simp only [variants, again, Bool.false_eq_true, if_false, List.map_cons, List.nodup_cons, List.mem_map,
        not_exists, not_and]
      refine ⟨⟨?_, distinct⟩, ?_⟩
      · intro variant member same
        exact (fresh variant member).1 (same ▸ List.mem_cons_self ..)
      · intro variant member
        rcases List.mem_cons.mp member with rfl | later
        · exact ⟨by simpa using again, variantName_ne_unknownFailure successes status⟩
        · exact ⟨fun old => (fresh variant later).1 (List.mem_cons_of_mem _ old), (fresh variant later).2⟩

theorem family_variantNames_nodup (typeName : String → String) (operation : Operation)
    (method familyType : String) : (family typeName operation method familyType).variantNames.Nodup := by
  obtain ⟨distinct, fresh⟩ := variants_distinct typeName method
    (operation.responses.keys.countP Status.isExactSuccess) [] operation.responses.entries
  refine List.nodup_append.mpr ⟨distinct, by simp, ?_⟩
  intro name member other single
  obtain ⟨variant, inside, rfl⟩ := List.mem_map.mp member
  rw [List.mem_singleton.mp single]
  exact (fresh variant inside).2

theorem method_distinct (typeName : String → String) (operation : Operation) (name familyType : String) :
    (method typeName operation name familyType).Distinct where
  params := by
    simp only [method, params_idents]
    exact Scope.allocateAll_nodup _ _
  locals := by
    intro param member reserved
    have allocated : param.ident ∈ (params typeName operation.parameters).map (·.ident) :=
      List.mem_map_of_mem member
    rw [params_idents] at allocated
    exact Scope.allocateAll_not_mem _ _ _ allocated (Scope.mem_reserveAll.mpr (Or.inl reserved))
  variants := family_variantNames_nodup typeName operation name familyType
  unknown := rfl

private theorem of_mem_methods {typeName : String → String} {clientType : String}
    {operations : List Operation} {declared : Method}
    (member : declared ∈ methods typeName clientType operations) :
    ∃ operation name familyType, declared = method typeName operation name familyType := by
  obtain ⟨⟨operation, name, familyType⟩, _, rfl⟩ := List.mem_map.mp member
  exact ⟨operation, name, familyType, rfl⟩

private theorem methods_distinct (typeName : String → String) (tag moduleName clientType : String)
    (operations : List Operation) :
    Client.Distinct ⟨tag, moduleName, clientType, methods typeName clientType operations⟩ where
  names := by
    simp only [methods_names]
    exact methodNames_nodup _ _
  reserved := by
    intro declared member
    have named : declared.name ∈ (methods typeName clientType operations).map (·.name) :=
      List.mem_map_of_mem member
    rw [methods_names] at named
    exact methodNames_not_reserved _ _ _ named
  families := by
    simp only [methods_familyTypes]
    exact Scope.allocateAll_nodup _ _
  own := by
    intro declared member taken
    have allocated : declared.result.typeName ∈
        (methods typeName clientType operations).map (·.result.typeName) :=
      List.mem_map_of_mem member
    rw [methods_familyTypes] at allocated
    exact Scope.allocateAll_not_mem _ _ _ allocated (Scope.mem_reserveAll.mpr (Or.inl taken))
  methods := by
    intro declared member
    obtain ⟨operation, name, familyType, rfl⟩ := of_mem_methods member
    exact method_distinct typeName operation name familyType

theorem clientDecls_distinct (typeName : String → String) (groups : Table String (List Operation)) :
    ∀ client ∈ clientDecls typeName groups, client.Distinct := by
  intro client member
  obtain ⟨⟨⟨tag, operations⟩, clientType, moduleName⟩, _, rfl⟩ := List.mem_map.mp member
  exact methods_distinct typeName tag moduleName clientType operations

private theorem modelKind_distinct (schemas : Table String Schema) (typeName : String → String)
    (settings : Settings) (name schemaName modelType fileStem : String) (schema : Schema) :
    ModelDecl.Distinct ⟨schemaName, modelType, fileStem, modelKind schemas typeName settings name schema⟩ := by
  cases schema with
  | object properties =>
    refine ⟨?_, by simp [ModelDecl.members, modelKind]⟩
    intro fields same
    obtain rfl := ModelKind.struct.inj same
    rw [fields_idents]
    exact Scope.allocateAll_nodup _ _
  | enumeration literals =>
    refine ⟨fun fields same => by simp [modelKind] at same, ?_⟩
    simp only [ModelDecl.members, modelKind, members_idents]
    exact Scope.allocateAll_nodup _ _
  | reference target | array items | map values =>
    simp only [modelKind]
    split <;> exact ⟨fun fields same => by simp at same, by simp [ModelDecl.members]⟩
  | primitive kind format | unknown =>
    exact ⟨fun fields same => by simp [modelKind] at same, by simp [ModelDecl.members, modelKind]⟩

/-- Whatever the model, the paths that are wanted and the settings, no two names of one scope of the
planned source are equal. -/
theorem build_collisionFree (model : Model) (config : Config) (settings : Settings) :
    CollisionFree (build model config settings) where
  typeNames := by
    simp only [build, modelDecls_typeNames]
    exact Scope.allocateAll_nodup _ _
  fileStems := by
    simp only [build, modelDecls_fileStems]
    exact Scope.allocateAll_nodup _ _
  models := by
    intro declared member
    obtain ⟨⟨⟨schemaName, schema⟩, typeName, fileStem⟩, _, rfl⟩ := List.mem_map.mp member
    exact modelKind_distinct _ _ settings schemaName schemaName typeName fileStem schema
  moduleNames := by
    simp only [build, clientDecls_moduleNames]
    exact Scope.allocateAll_nodup _ _
  clientTypes := by
    simp only [build, clientDecls_typeNames]
    exact Scope.allocateAll_nodup _ _
  clients := by
    simp only [build]
    exact clientDecls_distinct _ _
  keys := by
    simp only [build, keyDecls_idents]
    exact Scope.allocateAll_nodup _ _

end ClientForge.Plan
