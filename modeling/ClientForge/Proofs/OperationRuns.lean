import ClientForge.Proofs.ResolverGrowth
import ClientForge.Resolve.Model

/-! How operations are resolved, part by part. What holds of the parameters, the body and the responses when each of
them has been resolved holds of the operation that they make up, and of all the operations of a document when the
last one of them has been resolved. -/

namespace ClientForge.Resolve
open Document

variable {components : Components}

/-- An operation of the model says what its declaration says, apart from what has a schema. Each tag is named once. -/
structure OperationFor (declared : String × Api.HttpMethod × Document.Operation) (operation : Api.Operation) : Prop where
  path : operation.path = declared.1
  method : operation.method = declared.2.1
  operationId : operation.operationId = declared.2.2.operationId
  summary : operation.summary = declared.2.2.summary
  description : operation.description = declared.2.2.description
  deprecated : operation.deprecated = declared.2.2.deprecated
  tags : operation.tags = declared.2.2.tags.eraseDups

section Operation

variable {parametersHeld : List Api.Parameter → Registry → Prop} {bodyHeld : Option Api.RequestBody → Registry → Prop}
  {responsesHeld : Table Api.Status Api.Response → Registry → Prop}

theorem resolveOperation_parts {shared : List (RefOr Document.Parameter)} {path : String} {method : Api.HttpMethod}
    {operation : Document.Operation} (parametersLast : ∀ parameters, Lasting (parametersHeld parameters))
    (bodyLast : ∀ body, Lasting (bodyHeld body)) (responsesLast : ∀ responses, Lasting (responsesHeld responses))
    (parameters : ∀ declared,
      (shared ++ operation.parameters).mapM (chase "parameters" components.parameters maxChain) = .ok declared →
      Resolves components.schemas (resolveParameters components (OperationOwners.of ⟨path, method, operation.operationId⟩)
        (mergeParameters declared).values) parametersHeld)
    (noBody : ∀ registry, bodyHeld none registry)
    (body : ∀ owners body, Resolves components.schemas (resolveBody components owners body) bodyHeld)
    (responses : ∀ owners,
      Resolves components.schemas (resolveResponses components owners .empty operation.responses.entries) responsesHeld) :
    Resolves components.schemas (resolveOperation components shared path method operation) fun resolved after =>
      OperationFor (path, method, operation) resolved ∧ parametersHeld resolved.parameters after ∧
        bodyHeld resolved.requestBody after ∧ responsesHeld resolved.responses after := by
  have finished (found : List Api.Parameter) (sent : Option Api.RequestBody) :
      Resolves components.schemas
        (resolveResponses components (OperationOwners.of ⟨path, method, operation.operationId⟩) .empty
            operation.responses.entries >>= fun responses =>
          pure (⟨⟨path, method, operation.operationId⟩, operation.summary, operation.description,
            distinct operation.tags, operation.deprecated, found, sent, responses⟩ : Api.Operation))
        fun resolved after => bodyHeld sent after → parametersHeld found after →
          OperationFor (path, method, operation) resolved ∧ parametersHeld resolved.parameters after ∧
            bodyHeld resolved.requestBody after ∧ responsesHeld resolved.responses after := by
    refine .bind (responses _) responsesLast fun responses => .pure fun registry held bodyHeld parametersHeld => ?_
    exact ⟨⟨rfl, rfl, rfl, rfl, rfl, rfl, distinct_eq_eraseDups _⟩, parametersHeld, bodyHeld, held⟩
  unfold resolveOperation
  refine .ofExcept_bind fun declared followed => .bind (parameters declared followed) parametersLast fun found => ?_
  dsimp only
  cases operation.requestBody with
  | none => exact .bind (.pure noBody) bodyLast (finished found)
  | some item => exact .ofExcept_bind fun sent _ => .bind (body _ sent) bodyLast (finished found)

end Operation

theorem resolveOperations_each
    {holds : List (RefOr Document.Parameter) × String × Api.HttpMethod × Document.Operation → Api.Operation →
      Registry → Prop}
    (each : ∀ entry, Resolves components.schemas
      (resolveOperation components entry.1 entry.2.1 entry.2.2.1 entry.2.2.2) (holds entry))
    (lasting : ∀ entry operation, Lasting (holds entry operation))
    (declared : List (List (RefOr Document.Parameter) × String × Api.HttpMethod × Document.Operation)) :
    Resolves components.schemas (resolveOperations components declared) fun operations after =>
      List.Forall₂ (fun entry operation => holds entry operation after) declared operations := by
  induction declared with
  | nil => exact .pure fun _ => .nil
  | cons entry declared ih =>
    obtain ⟨shared, path, method, operation⟩ := entry
    rw [resolveOperations]
    refine .bind (each (shared, path, method, operation)) (lasting _) fun resolved => ?_
    refine .bind ih ?_ fun others => .pure fun registry all own => .cons own all
    exact fun operations before after keeps all => all.imp fun _ _ held => lasting _ _ before after keeps held

def registryOf (document : Document) : Registry :=
  ((resolveOperations (document.components.getD .none) (operationsOf document)).run.run .empty).2

theorem model_eq_ok {document : Document} {model : Api.Model} :
    Resolve.model document = .ok model ↔ ∃ operations registry keys,
      (resolveOperations (document.components.getD .none) (operationsOf document)).run.run .empty =
          (.ok operations, registry) ∧
        keySchemes (document.components.getD .none) = .ok keys ∧
        model = ⟨serverUrl document.servers, groupByTag operations, registry.schemas, keys⟩ := by
  unfold Resolve.model
  rcases ended : (resolveOperations (document.components.getD .none) (operationsOf document)).run.run .empty
    with ⟨fault | operations, registry⟩
  · simp only [ended]
    constructor
    · intro accepted
      cases accepted
    · rintro ⟨_, _, _, ⟨⟩, _⟩
  · simp only [ended]
    cases keySchemes (document.components.getD .none) with
    | error fault =>
      constructor
      · intro accepted
        cases accepted
      · rintro ⟨_, _, _, _, ⟨⟩, _⟩
    | ok schemes =>
      constructor
      · intro accepted
        cases accepted
        exact ⟨operations, registry, schemes, rfl, rfl, rfl⟩
      · rintro ⟨_, _, _, ⟨⟩, ⟨⟩, rfl⟩
        rfl

/-- What holds of the operations of a document while it is resolved holds of those that its model is made of. -/
theorem model_each {document : Document} {model : Api.Model}
    {holds : List (RefOr Document.Parameter) × String × Api.HttpMethod × Document.Operation → Api.Operation →
      Registry → Prop}
    (each : ∀ entry, Resolves (document.components.getD .none).schemas
      (resolveOperation (document.components.getD .none) entry.1 entry.2.1 entry.2.2.1 entry.2.2.2) (holds entry))
    (lasting : ∀ entry operation, Lasting (holds entry operation)) (accepted : Resolve.model document = .ok model) :
    ∃ operations, Grown (document.components.getD .none).schemas .empty (registryOf document) ∧
      List.Forall₂ (fun entry operation => holds entry operation (registryOf document)) (operationsOf document) operations ∧
      model.groups = groupByTag operations ∧ model.schemas = (registryOf document).schemas := by
  obtain ⟨operations, registry, keys, ended, -, rfl⟩ := model_eq_ok.mp accepted
  have left : registryOf document = registry := congrArg Prod.snd ended
  have run : Run (resolveOperations (document.components.getD .none) (operationsOf document)) .empty _ _ :=
    resolveOperations_each each lasting _ .empty .empty
  obtain ⟨grown, held⟩ := run.of_ok ended
  exact ⟨operations, left ▸ grown, left ▸ held, rfl, congrArg Registry.schemas left.symm⟩

theorem exists_of_read {document : Document} {β : Type} {read : Api.Model → β} {seen : β}
    (evaluated : (Resolve.model document).toOption.map read = some seen) :
    ∃ model, Resolve.model document = .ok model ∧ read model = seen := by
  cases resolved : Resolve.model document with
  | error fault =>
    rw [resolved] at evaluated
    cases evaluated
  | ok model =>
    rw [resolved] at evaluated
    exact ⟨model, rfl, Option.some.inj evaluated⟩

end ClientForge.Resolve
