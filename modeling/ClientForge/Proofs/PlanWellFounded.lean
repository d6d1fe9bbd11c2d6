import ClientForge.Proofs.TypePlaces
import ClientForge.Source.Model

/-! No planned type holds a value of itself without a pointer between, and no alias stands for itself. A cycle
with a struct in it is cut where a field leads back to its struct; a cycle of aliases alone is cut at every one
of them, by a type of its own where it goes through a list or a map and else by giving up the reference. -/

namespace ClientForge.Plan
open Api Resolve Relation

section Schemas

variable {schemas : Table String Schema}

private theorem storesIn_of_path {source target : String} (present : target ∈ schemas.keys)
    (path : ReflTransGen (Edge schemas Schema.directReferences) target source) : storesIn schemas source target = true :=
  List.contains_iff_mem.mpr (mem_reach.mpr ⟨target, List.mem_singleton.mpr rfl, present, path⟩)

private theorem isAliasCycle_of_path {throughCollections : Bool} {source target : String} {schema : Schema}
    (found : schemas.get? source = some schema) (edge : target ∈ aliasEdges throughCollections schema)
    (present : target ∈ schemas.keys)
    (path : ReflTransGen (Edge schemas (aliasEdges throughCollections)) target source) :
    isAliasCycle schemas throughCollections source = true := by
  simp only [isAliasCycle, found]
  exact List.contains_iff_mem.mpr (mem_reach.mpr ⟨target, edge, present, path⟩)

/-- Steps that can only come back through aliases which are not known to be cyclic do not come back. -/
private theorem acyclic_of_aliases {step : String → String → Prop}
    (back : ∀ source target, step source target → ReflTransGen step target source →
      schemas.get? source = some (.reference target) ∧ target ∈ schemas.keys ∧
        isAliasCycle schemas false source = false) (name : String) : ¬ TransGen step name name := by
  -- a way that closes a cycle consists of aliases
  have along {start finish : String} (path : ReflTransGen step start finish) :
      ReflTransGen step finish start → ReflTransGen (Edge schemas (aliasEdges false)) start finish := by
    induction path with
    | refl => exact fun _ => .refl
    | @tail source target before edge ih =>
      intro closes
      obtain ⟨found, present, _⟩ := back source target edge (closes.trans before)
      exact (ih (.head edge closes)).tail ⟨_, found, List.mem_singleton.mpr rfl, present⟩
  intro cycle
  obtain ⟨target, edge, closes⟩ := TransGen.head'_iff.mp cycle
  obtain ⟨found, present, unbroken⟩ := back name target edge closes
  have cyclic := isAliasCycle_of_path found (List.mem_singleton.mpr rfl) present (along closes (.single edge))
  rw [unbroken] at cyclic
  cases cyclic

/-- A schema stores another one: an object in a field that does not lead back, or an unbroken alias. -/
private inductive StoredIn (schemas : Table String Schema) (source target : String) : Prop where
  | field {properties : List (String × Property Schema)} (found : schemas.get? source = some (.object properties))
      (stored : target ∈ Schema.propertyDirectReferences properties) (present : target ∈ schemas.keys)
      (unboxed : storesIn schemas source target = false)
  | alias (found : schemas.get? source = some (.reference target)) (present : target ∈ schemas.keys)
      (unbroken : isAliasCycle schemas false source = false)

private theorem storedIn_acyclic (name : String) : ¬ TransGen (StoredIn schemas) name name := by
  apply acyclic_of_aliases
  intro source target edge closes
  cases edge with
  | «alias» found present unbroken => exact ⟨found, present, unbroken⟩
  | field found stored present unboxed =>
    have steps : ∀ first second, StoredIn schemas first second →
        Edge schemas Schema.directReferences first second := by
      intro first second edge
      cases edge with
      | field found stored present _ => exact ⟨_, found, stored, present⟩
      | «alias» found present _ => exact ⟨_, found, List.mem_singleton.mpr rfl, present⟩
    rw [storesIn_of_path present (ReflTransGen.mono steps _ _ closes)] at unboxed
    cases unboxed

/-- An alias stands for another one: an unbroken reference, or a list or map that does not lead back. -/
private inductive ExpandsTo (schemas : Table String Schema) (source target : String) : Prop where
  | reference (found : schemas.get? source = some (.reference target)) (present : target ∈ schemas.keys)
      (unbroken : isAliasCycle schemas false source = false)
  | collection {schema : Schema} (found : schemas.get? source = some schema)
      (inside : target ∈ aliasEdges true schema) (present : target ∈ schemas.keys)
      (plain : isAliasCycle schemas true source = false)

private theorem expandsTo_acyclic (name : String) : ¬ TransGen (ExpandsTo schemas) name name := by
  apply acyclic_of_aliases
  intro source target edge closes
  cases edge with
  | reference found present unbroken => exact ⟨found, present, unbroken⟩
  | collection found inside present plain =>
    have steps : ∀ first second, ExpandsTo schemas first second → Edge schemas (aliasEdges true) first second := by
      intro first second edge
      cases edge with
      | reference found present _ => exact ⟨_, found, List.mem_singleton.mpr rfl, present⟩
      | collection found inside present _ => exact ⟨_, found, inside, present⟩
    rw [isAliasCycle_of_path found inside present (ReflTransGen.mono steps _ _ closes)] at plain
    cases plain

end Schemas

/-- The models that a value of a type holds in itself. Lists and maps hold theirs behind pointers. -/
def stored : TypeRef → List String
  | .named name => [name]
  | .optional value => stored value
  | _ => []

/-- The models that a value of a model holds in itself. -/
def ModelKind.stored : ModelKind → List String
  | .struct fields => (fields.filter (!·.boxed)).flatMap fun field => Plan.stored field.type
  | .enumeration _ _ => []
  | .alias type | .newtype type => Plan.stored type

/-- A value of the first model holds one of the second in itself. -/
structure Stores (plan : Plan) (holder held : ModelDecl) : Prop where
  planned : holder ∈ plan.models
  other : held ∈ plan.models
  inside : held.typeName ∈ holder.kind.stored

/-- The first model is an alias for a type with the second one in it. -/
structure Expands (plan : Plan) (first second : ModelDecl) : Prop where
  planned : first ∈ plan.models
  other : second ∈ plan.models
  inside : ∃ type, first.kind = .alias type ∧ second.typeName ∈ type.names

variable {typeName : String → String} {schema : Schema} {model : Model} {config : Config} {settings : Settings}

private theorem stored_orAbsent (type : TypeRef) : stored type.orAbsent = stored type := by
  cases type <;> rfl

private theorem stored_ofSchema (context : String) (usage : IsUsage schema) :
    stored ((TypeRef.ofSchema context schema).rename typeName) = schema.directReferences.map typeName := by
  cases usage <;> rfl

private theorem stored_ofProperty (key : String) {property : Property Schema} (usage : IsUsage property.schema) :
    stored ((TypeRef.ofProperty key property).rename typeName) = property.schema.directReferences.map typeName := by
  simp only [TypeRef.ofProperty]
  split
  · rw [rename_orAbsent, stored_orAbsent, stored_ofSchema key usage]
  · exact stored_ofSchema key usage

private theorem references_of_direct (usage : IsUsage schema) :
    ∀ name ∈ schema.directReferences, name ∈ schema.references := by
  cases usage with
  | reference => exact fun name member => member
  | primitive | array | map | unknown => exact fun name none => by cases none

private theorem schemaName_eq {name : String} {decl : ModelDecl} (used : name ∈ (usedSchemas model config).keys)
    (member : decl ∈ (build model config settings).models) (same : decl.typeName = typeNameIn model config name) :
    decl.schemaName = name := by
  obtain ⟨other, planned, rfl⟩ := model_of_used used settings
  rw [typeName_of_model planned] at same
  rw [model_unique member planned same]

private theorem storedIn_of_stores (sound : Sound model) {holder held : ModelDecl}
    (stores : Stores (build model config settings) holder held) :
    StoredIn (usedSchemas model config) holder.schemaName held.schemaName := by
  obtain ⟨schema, used, kind⟩ := schema_of_model stores.planned
  have stored := stores.inside
  rw [kind] at stored
  have present := references_used sound used
  cases isEntry_of_used sound used with
  | enumeration => cases stored
  | @object properties each =>
    obtain ⟨field, inside, named⟩ := List.mem_flatMap.mp stored
    obtain ⟨inside, unboxed⟩ := List.mem_filter.mp inside
    obtain ⟨_, key, property, again, _, listed, type, boxed⟩ := property_of_field stores.planned kind inside
    cases used.symm.trans again
    rw [type, stored_ofProperty key (each _ listed)] at named
    obtain ⟨target, direct, same⟩ := List.mem_map.mp named
    have inKeys : target ∈ (usedSchemas model config).keys :=
      present target (mem_propertyReferences.mpr ⟨_, listed, references_of_direct (each _ listed) target direct⟩)
    rw [schemaName_eq inKeys stores.other same.symm]
    refine .field used (mem_propertyDirectReferences.mpr ⟨_, listed, direct⟩) inKeys ?_
    simp only [boxed, Bool.not_eq_true', List.any_eq_false, Bool.not_eq_true] at unboxed
    exact unboxed target direct
  | usage usage =>
    cases usage with
    | primitive | unknown => cases stored
    | array | map =>
      simp only [modelKind] at stored
      split at stored <;> cases stored
    | @reference target =>
      simp only [modelKind] at stored
      split at stored
      next => cases stored
      next unbroken =>
        have inKeys : target ∈ (usedSchemas model config).keys := present target (List.mem_singleton.mpr rfl)
        rw [schemaName_eq inKeys stores.other (List.mem_singleton.mp stored)]
        exact .alias used inKeys (Bool.eq_false_iff.mpr unbroken)

private theorem expandsTo_of_expands (sound : Sound model) {first second : ModelDecl}
    (expands : Expands (build model config settings) first second) :
    ExpandsTo (usedSchemas model config) first.schemaName second.schemaName := by
  obtain ⟨schema, used, kind⟩ := schema_of_model expands.planned
  obtain ⟨type, isAlias, named⟩ := expands.inside
  rw [isAlias] at kind
  obtain ⟨usage, rfl | rfl⟩ := type_of_kind (isEntry_of_used sound used) (Or.inl kind.symm)
  · obtain ⟨target, mentioned, same, _⟩ := renders_ofSchema (typeNameIn model config) first.schemaName usage _ named
    have inKeys := references_used sound used target mentioned
    rw [schemaName_eq inKeys expands.other same]
    cases usage with
    | primitive | unknown => cases mentioned
    | reference =>
      cases List.mem_singleton.mp mentioned
      simp only [modelKind] at kind
      split at kind
      next => cases kind
      next unbroken => exact .reference used inKeys (Bool.eq_false_iff.mpr unbroken)
    | array | map =>
      simp only [modelKind] at kind
      split at kind
      next => cases kind
      next plain => exact .collection used mentioned inKeys (Bool.eq_false_iff.mpr plain)
  · cases named

private theorem boxed_type (sound : Sound model) {decl : ModelDecl} {planned : List Field}
    (member : decl ∈ (build model config settings).models) (kind : decl.kind = .struct planned)
    {field : Field} (inside : field ∈ planned) (boxed : field.boxed = true) :
    ∃ written, field.type = .named written ∨ field.type = .optional (.named written) := by
  obtain ⟨properties, key, property, used, _, listed, type, sameBoxed⟩ := property_of_field member kind inside
  obtain ⟨target, direct, _⟩ := List.any_eq_true.mp (sameBoxed.symm.trans boxed)
  have usage := (isEntry_of_used sound used).property listed
  obtain ⟨schema, required, nullable, description⟩ := property
  cases usage with
  | primitive | array | map | unknown => cases direct
  | reference =>
    simp only [TypeRef.ofProperty, TypeRef.ofSchema] at type
    split at type
    · exact ⟨_, Or.inr type⟩
    · exact ⟨_, Or.inl type⟩

/-- In the plan of an accepted document no model holds a value of itself, no alias expands to itself, and what
is boxed is a model, perhaps an optional one, so that a pointer is written. -/
theorem build_wellFounded {document : Document} (accepted : Resolve.model document = .ok model) (config : Config)
    (settings : Settings) :
    (∀ decl, ¬ TransGen (Stores (build model config settings)) decl decl) ∧
    (∀ decl, ¬ TransGen (Expands (build model config settings)) decl decl) ∧
    ∀ decl ∈ (build model config settings).models, ∀ fields, decl.kind = .struct fields →
      ∀ field ∈ fields, field.boxed = true → ∃ written,
        (field.type = .named written ∧
          Source.fieldType field = "Box<" ++ Source.siblingQualifier ++ written ++ ">") ∨
        (field.type = .optional (.named written) ∧
          Source.fieldType field = "Option<" ++ ("Box<" ++ Source.siblingQualifier ++ written ++ ">") ++ ">") := by
  have sound := model_sound accepted
  refine ⟨fun decl cycle => ?_, fun decl cycle => ?_, fun decl member fields kind field inside boxed => ?_⟩
  · exact storedIn_acyclic decl.schemaName
      (TransGen.lift ModelDecl.schemaName (fun _ _ stores => storedIn_of_stores sound stores) _ _ cycle)
  · exact expandsTo_acyclic decl.schemaName
      (TransGen.lift ModelDecl.schemaName (fun _ _ expands => expandsTo_of_expands sound expands) _ _ cycle)
  · obtain ⟨written, type | type⟩ := boxed_type sound member kind inside boxed
    · exact ⟨written, Or.inl ⟨type, by simp only [Source.fieldType, boxed, type, if_true, TypeRef.boxedText]⟩⟩
    · exact ⟨written, Or.inr ⟨type, by simp only [Source.fieldType, boxed, type, if_true, TypeRef.boxedText]⟩⟩

theorem treeDocument_wellFounded : ∃ model, Resolve.model treeDocument = .ok model ∧ model.schemas.keys = ["Tree", "Kind"] ∧
    ∀ decl, ¬ TransGen (Stores (build model .standard .standard)) decl decl := by
  obtain ⟨model, accepted, keys⟩ := treeDocument_accepted
  exact ⟨model, accepted, keys, (build_wellFounded accepted .standard .standard).1⟩

end ClientForge.Plan
