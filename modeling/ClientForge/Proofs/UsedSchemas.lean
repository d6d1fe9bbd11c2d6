import ClientForge.Proofs.ModelNames

/-! The schemas of a run. A schema is used if a wanted operation mentions it, or if another schema does that is used.
The search finds these and no others, and each of them has one model. -/

namespace ClientForge.Plan
open Api Relation

variable (model : Model) (config : Config)

/-- An operation of the API at a path that a run is about. -/
def Wanted (operation : Operation) : Prop :=
  ∃ operations ∈ model.groups.values, operation ∈ operations ∧ config.allows operation.path = true

/-- A named schema that is mentioned in an operation that a run is about, or in a schema that is. -/
inductive Used : String → Prop where
  | parameter {operation : Operation} {parameter : Parameter} (wanted : Wanted model config operation)
      (declared : parameter ∈ operation.parameters) (mentioned : name ∈ parameter.schema.references)
      (present : name ∈ model.schemas.keys) : Used name
  | body {operation : Operation} {body : RequestBody} (wanted : Wanted model config operation)
      (declared : operation.requestBody = some body) (mentioned : name ∈ body.schema.references)
      (present : name ∈ model.schemas.keys) : Used name
  | response {operation : Operation} {response : Response} {schema : Schema} (wanted : Wanted model config operation)
      (declared : response ∈ operation.responses.values) (described : response.schema = some schema)
      (mentioned : name ∈ schema.references) (present : name ∈ model.schemas.keys) : Used name
  | schema {source : String} {schema : Schema} (used : Used source) (found : model.schemas.get? source = some schema)
      (mentioned : name ∈ schema.references) (present : name ∈ model.schemas.keys) : Used name

variable {model config} {operation : Operation} {name : String}

theorem mem_wantedGroups :
    operation ∈ (wantedGroups model config).values.flatten ↔ Wanted model config operation := by
  constructor
  · intro member
    obtain ⟨operations, listed, inside⟩ := List.mem_flatten.mp member
    obtain ⟨tag, found⟩ := Table.mem_values.mp listed
    obtain ⟨found, -⟩ := Table.get?_filter.mp found
    obtain ⟨group, declared, rfl⟩ := Table.get?_mapValues.mp found
    obtain ⟨inside, allowed⟩ := List.mem_filter.mp inside
    exact ⟨group, Table.mem_values.mpr ⟨tag, declared⟩, inside, allowed⟩
  · rintro ⟨group, listed, inside, allowed⟩
    obtain ⟨tag, declared⟩ := Table.mem_values.mp listed
    have kept : operation ∈ group.filter fun operation => config.allows operation.path :=
      List.mem_filter.mpr ⟨inside, allowed⟩
    have nonempty := List.isEmpty_eq_false_iff_exists_mem.mpr ⟨operation, kept⟩
    have wanted : (wantedGroups model config).get? tag = some (group.filter fun operation => config.allows operation.path) :=
      Table.get?_filter.mpr ⟨Table.get?_mapValues.mpr ⟨group, declared, rfl⟩, congrArg not nonempty⟩
    exact List.mem_flatten.mpr ⟨_, Table.mem_values.mpr ⟨tag, wanted⟩, kept⟩

private theorem mem_schemas {schema : Schema} : schema ∈ operation.schemas ↔
    (∃ parameter ∈ operation.parameters, parameter.schema = schema) ∨
      (∃ body, operation.requestBody = some body ∧ body.schema = schema) ∨
      ∃ response ∈ operation.responses.values, response.schema = some schema := by
  simp [Operation.schemas]

private theorem used_of_mentioned {schema : Schema} (wanted : Wanted model config operation)
    (declared : schema ∈ operation.schemas) (mentioned : name ∈ schema.references)
    (present : name ∈ model.schemas.keys) : Used model config name := by
  rcases mem_schemas.mp declared with ⟨parameter, member, rfl⟩ | ⟨body, sent, rfl⟩ | ⟨response, member, described⟩
  · exact .parameter wanted member mentioned present
  · exact .body wanted sent mentioned present
  · exact .response wanted member described mentioned present

theorem mem_reachable :
    name ∈ reachable model (wantedGroups model config).values.flatten ↔ Used model config name := by
  have direct {operation : Operation} {schema : Schema} {name : String} (wanted : Wanted model config operation)
      (declared : schema ∈ operation.schemas) (mentioned : name ∈ schema.references) (present : name ∈ model.schemas.keys) :
      Leads model.schemas Schema.references
        ((wantedGroups model config).values.flatten.flatMap Operation.references) name := by
    refine ⟨name, ?_, present, .refl⟩
    apply List.mem_flatMap.mpr
    exact ⟨operation, mem_wantedGroups.mpr wanted, List.mem_flatMap.mpr ⟨schema, declared, mentioned⟩⟩
  rw [reachable, mem_reach]
  constructor
  · rintro ⟨first, begins, present, path⟩
    induction path with
    | refl =>
      obtain ⟨operation, listed, refers⟩ := List.mem_flatMap.mp begins
      obtain ⟨schema, declared, mentioned⟩ := List.mem_flatMap.mp refers
      exact used_of_mentioned (mem_wantedGroups.mp listed) declared mentioned present
    | tail _ edge ih =>
      obtain ⟨schema, found, mentioned, inside⟩ := edge
      exact .schema ih found mentioned inside
  · intro used
    induction used with
    | parameter wanted declared mentioned present =>
      exact direct wanted (mem_schemas.mpr (.inl ⟨_, declared, rfl⟩)) mentioned present
    | body wanted declared mentioned present =>
      exact direct wanted (mem_schemas.mpr (.inr (.inl ⟨_, declared, rfl⟩))) mentioned present
    | response wanted declared described mentioned present =>
      exact direct wanted (mem_schemas.mpr (.inr (.inr ⟨_, declared, described⟩))) mentioned present
    | schema _ found mentioned present ih =>
      obtain ⟨first, begins, inside, path⟩ := ih
      exact ⟨first, begins, inside, path.tail ⟨_, found, mentioned, present⟩⟩

open Classical in
/-- The search for the schemas of a run ends with those that are used, each of them once, whatever the schemas refer
to; and a plan has one model for each of them and no others, in the order of the schemas in the API. -/
theorem build_usedSchemas (model : Model) (config : Config) (settings : Settings) :
    (reachable model (wantedGroups model config).values.flatten).Nodup ∧
      (∀ name, name ∈ reachable model (wantedGroups model config).values.flatten ↔ Used model config name) ∧
      (build model config settings).models.map (·.schemaName) =
        model.schemas.keys.filter fun name => decide (Used model config name) := by
  refine ⟨reach_nodup _, fun name => mem_reachable, ?_⟩
  calc (build model config settings).models.map (·.schemaName)
      = (usedSchemas model config).keys := modelDecls_schemaNames _ _ _
    _ = model.schemas.keys.filter
          fun name => (reachable model (wantedGroups model config).values.flatten).contains name := by
      simp only [usedSchemas, Table.keys, Table.filter, List.filter_map, Function.comp_def]
    _ = model.schemas.keys.filter fun name => decide (Used model config name) := by
      apply List.filter_congr
      intro name _
      rw [Bool.eq_iff_iff, List.contains_iff_mem, mem_reachable, decide_eq_true_iff]

end ClientForge.Plan
