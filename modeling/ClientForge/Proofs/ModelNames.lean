import ClientForge.Proofs.DeclarationNames
import ClientForge.Proofs.DocumentTranslation
import ClientForge.Proofs.Reachability

/-! The models of a plan. Each schema that is used has one model, and what a used schema refers to is used as
well, so that a type name stands for a schema wherever it comes up. -/

namespace ClientForge.Plan
open Api Resolve

variable {model : Model} {config : Config} {settings : Settings}

theorem wantedGroups_get? {tag : String} {operations : List Operation}
    (wanted : (wantedGroups model config).get? tag = some operations) :
    ∃ group, model.groups.get? tag = some group ∧ ∀ operation ∈ operations, operation ∈ group := by
  obtain ⟨filtered, _⟩ := Table.get?_filter.mp wanted
  obtain ⟨group, found, rfl⟩ := Table.get?_mapValues.mp filtered
  exact ⟨group, found, fun operation member => (List.mem_filter.mp member).1⟩

theorem usedSchemas_get? {name : String} {schema : Schema} :
    (usedSchemas model config).get? name = some schema ↔
      model.schemas.get? name = some schema ∧
        Leads model.schemas Schema.references
          ((wantedGroups model config).values.flatten.flatMap Operation.references) name := by
  rw [usedSchemas, Table.get?_filter, List.contains_iff_mem]
  exact and_congr_right fun _ => mem_reach

theorem mem_usedSchemas {name : String} :
    name ∈ (usedSchemas model config).keys ↔ Leads model.schemas Schema.references
      ((wantedGroups model config).values.flatten.flatMap Operation.references) name := by
  rw [Table.mem_keys]
  constructor
  · rintro ⟨schema, used⟩
    exact (usedSchemas_get?.mp used).2
  · intro leads
    have present : name ∈ model.schemas.keys := by
      obtain ⟨first, _, inside, path⟩ := leads
      rcases Relation.ReflTransGen.cases_tail path with rfl | ⟨_, _, _, _, _, inside⟩ <;> exact inside
    obtain ⟨schema, found⟩ := Table.mem_keys.mp present
    exact ⟨schema, usedSchemas_get?.mpr ⟨found, leads⟩⟩

theorem references_used (sound : Sound model) {name : String} {schema : Schema}
    (used : (usedSchemas model config).get? name = some schema) :
    ∀ other ∈ schema.references, other ∈ (usedSchemas model config).keys := by
  intro other mentioned
  obtain ⟨found, first, begins, inside, path⟩ := usedSchemas_get?.mp used
  have present : other ∈ model.schemas.keys := sound.closed _ (Table.get?_eq_some.mp found) other mentioned
  exact mem_usedSchemas.mpr ⟨first, begins, inside, path.tail ⟨schema, found, mentioned, present⟩⟩

theorem operation_references_used (sound : Sound model) {tag : String} {operations : List Operation}
    (wanted : (wantedGroups model config).get? tag = some operations) {operation : Operation}
    (member : operation ∈ operations) {schema : Schema} (declared : schema ∈ operation.schemas) :
    IsUsage schema ∧ ∀ name ∈ schema.references, name ∈ (usedSchemas model config).keys := by
  obtain ⟨group, found, inside⟩ := wantedGroups_get? wanted
  have grouped : group ∈ model.groups.values := Table.mem_values.mpr ⟨_, found⟩
  obtain ⟨usage, present⟩ := sound.operations group grouped operation (inside operation member) schema declared
  refine ⟨usage, fun name mentioned => mem_usedSchemas.mpr ⟨name, ?_, present name mentioned, .refl⟩⟩
  have listed : operations ∈ (wantedGroups model config).values := Table.mem_values.mpr ⟨_, wanted⟩
  exact List.mem_flatMap.mpr ⟨operation, List.mem_flatten.mpr ⟨operations, listed, member⟩,
    List.mem_flatMap.mpr ⟨schema, declared, mentioned⟩⟩

theorem isEntry_of_used (sound : Sound model) {name : String} {schema : Schema}
    (used : (usedSchemas model config).get? name = some schema) : IsEntry schema :=
  sound.entries _ (Table.get?_eq_some.mp (usedSchemas_get?.mp used).1)

/-- The type name of each schema in a plan. -/
def typeNameIn (model : Model) (config : Config) : String → String :=
  typeNameOf ((usedSchemas model config).keys.zip (typeNames (usedSchemas model config)))

private theorem pairs_eq (schemas : Table String Schema) (typeName : String → String) (settings : Settings) :
    schemas.keys.zip (typeNames schemas) =
      (modelDecls schemas typeName settings).map fun decl => (decl.schemaName, decl.typeName) := by
  rw [← modelDecls_schemaNames schemas typeName settings, ← modelDecls_typeNames schemas typeName settings]
  exact List.zip_map' ..

theorem typeName_of_model {decl : ModelDecl} (member : decl ∈ (build model config settings).models) :
    typeNameIn model config decl.schemaName = decl.typeName := by
  have distinct : (((usedSchemas model config).keys.zip (typeNames (usedSchemas model config))).map Prod.fst).Nodup := by
    rw [List.map_fst_zip (by simp [Table.keys])]
    exact (usedSchemas model config).distinct
  have paired : (decl.schemaName, decl.typeName) ∈
      (usedSchemas model config).keys.zip (typeNames (usedSchemas model config)) := by
    rw [pairs_eq _ (typeNameIn model config) settings]
    exact List.mem_map_of_mem member
  rw [typeNameIn, typeNameOf, (Table.lookup_eq_some distinct).mpr paired, Option.getD_some]

theorem model_of_used {name : String} (used : name ∈ (usedSchemas model config).keys) (settings : Settings) :
    ∃ decl ∈ (build model config settings).models, decl.schemaName = name := by
  rw [← modelDecls_schemaNames _ (typeNameIn model config) settings] at used
  exact List.mem_map.mp used

theorem schema_of_model {decl : ModelDecl} (member : decl ∈ (build model config settings).models) :
    ∃ schema, (usedSchemas model config).get? decl.schemaName = some schema ∧
      decl.kind = modelKind (usedSchemas model config) (typeNameIn model config) settings decl.schemaName schema := by
  obtain ⟨⟨⟨schemaName, schema⟩, typeName, fileStem⟩, entry, rfl⟩ := List.mem_map.mp member
  exact ⟨schema, Table.get?_eq_some.mpr (List.of_mem_zip entry).1, rfl⟩

private theorem filter_eq_singleton {α β : Type} [DecidableEq β] {list : List α} {key : α → β}
    (distinct : (list.map key).Nodup) {item : α} (member : item ∈ list) :
    list.filter (fun other => key other = key item) = [item] := by
  induction list with
  | nil => cases member
  | cons first rest ih =>
    obtain ⟨absent, distinct⟩ := List.nodup_cons.mp distinct
    rcases List.mem_cons.mp member with rfl | later
    · have alone : rest.filter (fun other => key other = key item) = [] := by
        rw [List.filter_eq_nil_iff]
        intro other inside same
        exact absent (List.mem_map.mpr ⟨other, inside, of_decide_eq_true same⟩)
      rw [List.filter_cons_of_pos (by simp), alone]
    · have differs : key first ≠ key item := fun same => absent (same ▸ List.mem_map_of_mem later)
      rw [List.filter_cons_of_neg (by simpa using differs), ih distinct later]

theorem filter_typeName {decl : ModelDecl} (member : decl ∈ (build model config settings).models) :
    (build model config settings).models.filter (fun other => other.typeName = decl.typeName) = [decl] := by
  refine filter_eq_singleton ?_ member
  simp only [build, modelDecls_typeNames]
  exact Ident.Scope.allocateAll_nodup _ _

theorem model_unique {first second : ModelDecl} (one : first ∈ (build model config settings).models)
    (two : second ∈ (build model config settings).models) (same : first.typeName = second.typeName) :
    first = second := by
  have member : first ∈ (build model config settings).models.filter (fun other => other.typeName = second.typeName) :=
    List.mem_filter.mpr ⟨one, decide_eq_true same⟩
  rw [filter_typeName two] at member
  exact List.mem_singleton.mp member

end ClientForge.Plan
