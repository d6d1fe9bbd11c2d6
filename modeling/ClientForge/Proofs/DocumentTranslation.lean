import ClientForge.Proofs.OperationGroups
import ClientForge.Proofs.OperationParameters
import ClientForge.Proofs.ResolverSessions

/-! What a whole document is resolved to. Every schema of an operation is one to be used, and every name in it
or in an entry is the name of an entry, so that nothing of an accepted document is left dangling. -/

namespace ClientForge.Resolve
open Document

/-- A schema to be used, all of whose names are names of entries. -/
structure Grounded (schemas : Table String Api.Schema) (schema : Api.Schema) : Prop where
  usage : IsUsage schema
  present : ∀ name ∈ schema.references, name ∈ schemas.keys

/-- A model with nothing dangling. -/
structure Sound (model : Api.Model) : Prop where
  closed : Closed model.schemas
  entries : ∀ entry ∈ model.schemas.entries, IsEntry entry.2
  operations : ∀ operations ∈ model.groups.values, ∀ operation ∈ operations, ∀ schema ∈ operation.schemas,
    Grounded model.schemas schema

variable {components : Components}

private theorem grounded_lasting (schema : Api.Schema) :
    Lasting fun registry => Grounded registry.schemas schema :=
  fun _ _ keeps grounded => ⟨grounded.usage, fun name member => keeps.present name (grounded.present name member)⟩

private theorem resolveOwned_grounds (node : SchemaNode) (context : String) (owners : List String) :
    Resolves components.schemas (resolveOwned components.schemas node context owners) fun schema after =>
      Grounded after.schemas schema :=
  (usage_resolves (follow_follows components.schemas) (reads_ofNode node) _).mono fun _ _ usage =>
    ⟨usage.isUsage, usage.references_present⟩

private theorem unknown_grounded {schemas : Table String Api.Schema} : Grounded schemas .unknown :=
  ⟨.unknown, fun _ member => (by cases member)⟩

private theorem ParametersFor.grounded {registry : Registry} {items : List (RefOr Document.Parameter)}
    {parameters : List Api.Parameter} (parametersFor : ParametersFor components registry items parameters) :
    ∀ parameter ∈ parameters, Grounded registry.schemas parameter.schema := by
  intro parameter member
  obtain ⟨_, _, all⟩ := parametersFor
  obtain ⟨declared, _, same⟩ := exists_of_mem_right all member
  cases given : declared.schema with
  | none => exact same.noSchema given ▸ unknown_grounded
  | some node => exact ⟨(same.schema node given).isUsage, (same.schema node given).references_present⟩

private theorem resolveBody_grounds (owners : OperationOwners) (body : Document.RequestBody) :
    Resolves components.schemas (resolveBody components owners body) fun resolved after =>
      ∀ body ∈ resolved, Grounded after.schemas body.schema := by
  unfold resolveBody
  split
  next => exact .pure fun _ _ none => by cases none
  next contentType media _ =>
    cases media.schema with
    | none =>
      refine .bind (.pure fun _ => unknown_grounded) grounded_lasting fun schema => .pure ?_
      rintro registry grounded _ ⟨⟩
      exact grounded
    | some node =>
      refine .bind (resolveOwned_grounds node _ _) grounded_lasting fun schema => .pure ?_
      rintro registry grounded _ ⟨⟩
      exact grounded

private theorem resolveResponse_grounds (owners : OperationOwners) (status : Api.Status)
    (response : Document.Response) :
    Resolves components.schemas (resolveResponse components owners status response) fun resolved after =>
      ∀ schema ∈ resolved.schema, Grounded after.schemas schema := by
  unfold resolveResponse
  split
  next => exact .pure fun _ _ none => by cases none
  next node _ =>
    refine .bind (resolveOwned_grounds node _ _) grounded_lasting fun schema => .pure ?_
    rintro registry grounded _ ⟨⟩
    exact grounded

private def ResponsesGrounded (responses : Table Api.Status Api.Response) (schemas : Table String Api.Schema) : Prop :=
  ∀ status response, responses.get? status = some response → ∀ schema ∈ response.schema, Grounded schemas schema

private theorem resolveResponses_grounds (owners : OperationOwners) (done : Table Api.Status Api.Response)
    (rest : List (String × RefOr Document.Response)) :
    Resolves components.schemas (resolveResponses components owners done rest) fun resolved after =>
      ResponsesGrounded done after.schemas → ResponsesGrounded resolved after.schemas := by
  induction rest generalizing done with
  | nil => exact .pure fun _ grounded => grounded
  | cons entry rest ih =>
    obtain ⟨key, item⟩ := entry
    rw [resolveResponses]
    split
    next => exact ih done
    next status _ =>
      refine .ofExcept_bind fun response _ => ?_
      refine .bind (resolveResponse_grounds owners status response) (fun _ => .each grounded_lasting) fun resolved => ?_
      refine (ih (done.insert status resolved)).mono fun table registry later own before => later ?_
      intro other response found
      rw [Table.get?_insert] at found
      split at found
      · cases found
        exact own
      · exact before other response found

variable (components) in
structure ResolvedOperation (registry : Registry)
    (entry : List (RefOr Document.Parameter) × String × Api.HttpMethod × Document.Operation) (operation : Api.Operation) :
    Prop extends OperationFor entry.2 operation where
  parametersFor : ParametersFor components registry (entry.1 ++ entry.2.2.2.parameters) operation.parameters
  grounded : ∀ schema ∈ operation.schemas, Grounded registry.schemas schema

private theorem resolved_lasting
    (entry : List (RefOr Document.Parameter) × String × Api.HttpMethod × Document.Operation) (operation : Api.Operation) :
    Lasting fun registry => ResolvedOperation components registry entry operation := by
  intro before after keeps resolved
  exact { resolved with
    parametersFor := resolved.parametersFor.mono keeps
    grounded := fun schema member => grounded_lasting schema before after keeps (resolved.grounded schema member) }

private theorem operation_grounded {operation : Api.Operation} {schemas : Table String Api.Schema}
    (parameters : ∀ parameter ∈ operation.parameters, Grounded schemas parameter.schema)
    (body : ∀ body ∈ operation.requestBody, Grounded schemas body.schema)
    (responses : ResponsesGrounded operation.responses schemas) : ∀ schema ∈ operation.schemas, Grounded schemas schema := by
  intro schema member
  rcases List.mem_append.mp member with early | late
  · rcases List.mem_append.mp early with first | second
    · obtain ⟨parameter, listed, rfl⟩ := List.mem_map.mp first
      exact parameters parameter listed
    · obtain ⟨sent, declared, rfl⟩ := Option.map_eq_some_iff.mp (Option.mem_toList.mp second)
      exact body sent declared
  · obtain ⟨response, listed, documented⟩ := List.mem_filterMap.mp late
    obtain ⟨⟨status, response⟩, entry, rfl⟩ := List.mem_map.mp listed
    exact responses status response (Table.get?_eq_some.mpr entry) schema documented

private theorem resolveOperation_resolved
    (entry : List (RefOr Document.Parameter) × String × Api.HttpMethod × Document.Operation) :
    Resolves components.schemas (resolveOperation components entry.1 entry.2.1 entry.2.2.1 entry.2.2.2)
      fun operation after => ResolvedOperation components after entry operation := by
  have noResponses (schemas : Table String Api.Schema) : ResponsesGrounded .empty schemas :=
    fun status response found => (by cases found)
  have parameters (owners : OperationOwners) (declared : List Document.Parameter)
      (followed : (entry.1 ++ entry.2.2.2.parameters).mapM (chase "parameters" components.parameters maxChain) =
        .ok declared) :
      Resolves components.schemas (resolveParameters components owners (mergeParameters declared).values)
        fun parameters after => ParametersFor components after (entry.1 ++ entry.2.2.2.parameters) parameters := by
    refine (resolveParameters_for owners _).mono fun parameters after all => ⟨declared, mapM_eq_ok.mp followed, ?_⟩
    rwa [filter_values_mergeParameters] at all
  have lasting (responses : Table Api.Status Api.Response) :
      Lasting fun registry => ResponsesGrounded responses registry.schemas :=
    fun before after keeps each status response found schema member =>
      grounded_lasting _ before after keeps (each status response found schema member)
  refine (resolveOperation_parts (fun _ _ _ keeps held => held.mono keeps) (fun _ => .each fun _ => grounded_lasting _)
    lasting (parameters _) (fun _ _ none => by cases none) resolveBody_grounds
    fun owners => (resolveResponses_grounds owners .empty _).mono fun _ _ grounded => grounded (noResponses _)).mono ?_
  rintro operation after ⟨same, parameters, body, responses⟩
  exact ⟨same, parameters, operation_grounded parameters.grounded body responses⟩

theorem model_operations {document : Document} {model : Api.Model} (accepted : Resolve.model document = .ok model) :
    ∃ operations, Grown (document.components.getD .none).schemas .empty (registryOf document) ∧
      List.Forall₂ (ResolvedOperation (document.components.getD .none) (registryOf document)) (operationsOf document) operations ∧
      model.groups = groupByTag operations ∧ model.schemas = (registryOf document).schemas :=
  model_each resolveOperation_resolved resolved_lasting accepted

/-- Every document that is accepted is resolved to a model with nothing dangling. -/
theorem model_sound {document : Document} {model : Api.Model} (accepted : Resolve.model document = .ok model) :
    Sound model := by
  obtain ⟨operations, grown, grounded, groups, schemas⟩ := model_operations accepted
  refine ⟨schemas ▸ grown.coherent.closed, fun entry member => ?_, fun group listed operation member => ?_⟩
  · rcases grown.faithful entry (schemas ▸ member) with none | ⟨node, _, translated⟩
    · cases none
    · exact translated.isEntry
  · rw [groups] at listed
    obtain ⟨⟨tag, group⟩, entry, rfl⟩ := List.mem_map.mp listed
    have resolved := mem_of_groupByTag (Table.get?_eq_some.mpr entry) operation member
    obtain ⟨declared, _, held⟩ := exists_of_mem_right grounded resolved
    exact schemas ▸ held.grounded

def treeDocument : Document :=
  let response : Response := ⟨none, ⟨[("application/json", ⟨some (.ref ⟨"#/components/schemas/Tree", "", ""⟩)⟩)], by simp⟩⟩
  let operation : Operation := ⟨some "getTree", none, none, [], [], none, ⟨[("200", .inline response)], by simp⟩, false⟩
  ⟨"3.0.0", [], ⟨[("/tree", ⟨[], fun method => if method = .get then some operation else none⟩)], by simp⟩,
    some { Components.none with schemas := treeComponents }⟩

theorem treeDocument_accepted : ∃ model, Resolve.model treeDocument = .ok model ∧ model.schemas.keys = ["Tree", "Kind"] :=
  exists_of_read (by decide +kernel)

end ClientForge.Resolve
