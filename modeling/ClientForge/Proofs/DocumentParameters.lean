import ClientForge.Proofs.DocumentOperations

/-! The parameters that a document declares for its operations, and those that its model has. A parameter that is declared
again, or in a location that is not supported, leaves no trace: the document that declares none of these has the same
model, entries included. -/

namespace ClientForge.Resolve
open Document

variable {components : Components} {document : Document} {model : Api.Model}

/-- The parameters at the ends of references; a reference that leads nowhere has none. -/
def followed (components : Components) (items : List (RefOr Parameter)) : List Parameter :=
  items.filterMap fun item => (chase "parameters" components.parameters maxChain item).toOption

/-- An operation that declares in its own place which parameters it has. -/
def settled (components : Components) (shared : List (RefOr Parameter)) (operation : Operation) : Operation :=
  { operation with parameters := (effective (followed components (shared ++ operation.parameters))).map .inline }

/-- A document whose paths share no parameters, and whose operations declare those that they have. -/
def settleParameters (document : Document) : Document :=
  { document with paths := document.paths.mapValues fun item =>
      ⟨[], fun method => (item.operation? method).map (settled (document.components.getD .none) item.parameters)⟩ }

private theorem followed_eq {items : List (RefOr Parameter)} {declared : List Parameter}
    (ends : List.Forall₂ (fun item parameter => chase "parameters" components.parameters maxChain item = .ok parameter)
      items declared) : followed components items = declared := by
  induction ends with
  | nil => rfl
  | cons first _ ih =>
    rw [followed, List.filterMap_cons, first]
    exact congrArg _ ih

private theorem mapM_inline (declared : List Parameter) :
    (declared.map RefOr.inline).mapM (chase "parameters" components.parameters maxChain) = .ok declared := by
  rw [mapM_eq_ok, List.forall₂_map_left_iff]
  exact List.forall₂_same.mpr fun _ _ => rfl

private theorem resolveOperation_settled {registry : Registry}
    {entry : List (RefOr Parameter) × String × Api.HttpMethod × Operation} {operation : Api.Operation}
    (resolved : ResolvedOperation components registry entry operation) :
    resolveOperation components [] entry.2.1 entry.2.2.1 (settled components entry.1 entry.2.2.2) =
      resolveOperation components entry.1 entry.2.1 entry.2.2.1 entry.2.2.2 := by
  obtain ⟨declared, ends, -⟩ := resolved.parametersFor
  have same : (settled components entry.1 entry.2.2.2).parameters = (effective declared).map .inline := by
    rw [settled, followed_eq ends]
  have parameters (owners : OperationOwners) :
      resolveParameters components owners (mergeParameters (effective declared)).values =
        resolveParameters components owners (mergeParameters declared).values := by
    rw [values_mergeParameters_effective, ← filter_values_mergeParameters, resolveParameters_filter]
  unfold resolveOperation
  rw [same, List.nil_append, mapM_inline, mapM_eq_ok.mpr ends]
  simp only [MonadExcept.ofExcept, pure_bind, parameters, settled]

private theorem resolveOperations_settled {registry : Registry}
    {entries : List (List (RefOr Parameter) × String × Api.HttpMethod × Operation)} {operations : List Api.Operation}
    (resolved : List.Forall₂ (ResolvedOperation components registry) entries operations) :
    resolveOperations components (entries.map fun entry =>
      ([], entry.2.1, entry.2.2.1, settled components entry.1 entry.2.2.2)) = resolveOperations components entries := by
  induction resolved with
  | nil => rfl
  | cons first _ ih => rw [List.map_cons, resolveOperations, resolveOperations, resolveOperation_settled first, ih]

private theorem operationsOf_settleParameters (document : Document) :
    operationsOf (settleParameters document) = (operationsOf document).map fun entry =>
      ([], entry.2.1, entry.2.2.1, settled (document.components.getD .none) entry.1 entry.2.2.2) := by
  have each (item : PathItem) (settle : Operation → Operation) :
      (PathItem.mk [] fun method => (item.operation? method).map settle).operations =
        item.operations.map fun entry => (entry.1, settle entry.2) := by
    simp only [PathItem.operations, List.map_filterMap, Option.map_map, Function.comp_def]
  simp only [operationsOf, settleParameters, Table.mapValues, List.flatMap_map, List.map_flatMap, each, List.map_map,
    Function.comp_def]

/-- The parameters of each operation of an accepted document are made of those that count, of which each makes one. The
others leave no trace in the model: it is that of the document without them. -/
theorem model_parameters (accepted : Resolve.model document = .ok model) :
    (∀ path item method own, document.paths.get? path = some item → item.operation? method = some own →
      ∃ operation, OperationAt model (path, method) operation ∧
        ParametersFor (document.components.getD .none) (registryOf document) (item.parameters ++ own.parameters)
          operation.parameters) ∧
    model.schemas = (registryOf document).schemas ∧ Resolve.model (settleParameters document) = .ok model := by
  obtain ⟨_, -, resolved, -, schemas⟩ := model_operations accepted
  refine ⟨fun path item method own listed found => ?_, schemas, ?_⟩
  · obtain ⟨operation, unique, same⟩ := exists_operationAt accepted listed found
    exact ⟨operation, unique, same.parametersFor⟩
  · obtain ⟨operations, registry, keys, ended, found, made⟩ := model_eq_ok.mp accepted
    refine model_eq_ok.mpr ⟨operations, registry, keys, ?_, found, made⟩
    rw [operationsOf_settleParameters]
    exact resolveOperations_settled resolved ▸ ended

/-- A path and an operation at it that both declare a header, the operation by a reference. What the path declares for the
header has an enumeration of its own; the cookie, too. -/
def sharedDocument : Document :=
  let options (literals : List String) : SchemaNode :=
    .inline ⟨some (.one "string"), none, some (literals.map .string), [], false, none⟩ none [] none [] [] []
  let trace : Parameter := ⟨"X-Trace", "header", true, some (options ["on", "off"]), none⟩
  let get : Operation := ⟨some "getPet", none, none, [], [.ref ⟨"#/components/parameters/Trace", "", ""⟩,
    .inline ⟨"limit", "query", false, none, none⟩], none, .empty, false⟩
  ⟨"3.0.0", [], ⟨[("/pet", ⟨[.inline ⟨"X-Trace", "header", false, some (options ["yes", "no"]), none⟩,
      .inline ⟨"id", "path", false, none, none⟩, .inline ⟨"session", "cookie", true, some (options ["a", "b"]), none⟩],
    fun method => if method = .get then some get else none⟩)], by simp⟩,
    some { Components.none with parameters := ⟨[("Trace", .inline trace)], by simp⟩ }⟩

/-- The header has the place of its first declaration and all else of its last one, whose enumeration is the only entry. -/
theorem sharedDocument_accepted : ∃ model, Resolve.model sharedDocument = .ok model ∧
    (model.schemas.keys, model.groups.values.flatten.map fun operation =>
      operation.parameters.map fun parameter => (parameter.name, parameter.required)) =
        (["X-Trace"], [[("X-Trace", true), ("id", true), ("limit", false)]]) :=
  exists_of_read (by decide +kernel)

theorem sharedDocument_parameters : ∃ model, Resolve.model sharedDocument = .ok model ∧
    (∃ item own operation, sharedDocument.paths.get? "/pet" = some item ∧ item.operation? .get = some own ∧
      OperationAt model ("/pet", .get) operation ∧
      ParametersFor (sharedDocument.components.getD .none) (registryOf sharedDocument)
        (item.parameters ++ own.parameters) operation.parameters) ∧
    Resolve.model (settleParameters sharedDocument) = .ok model := by
  obtain ⟨model, accepted, -⟩ := sharedDocument_accepted
  obtain ⟨each, -, settled⟩ := model_parameters accepted
  obtain ⟨operation, unique, parameters⟩ := each "/pet" _ .get _ rfl rfl
  exact ⟨model, accepted, ⟨_, _, operation, rfl, rfl, unique, parameters⟩, settled⟩

end ClientForge.Resolve
