import ClientForge.Proofs.DocumentOperations
import ClientForge.Proofs.SchemaKeys

/-! No schema that stands in a document has a key twice if the document has been read from a text. Every reader
keeps that: from data in which no object has a key twice it makes something whose schemas have none twice
either, and so does a reader that is put together from such readers. -/

namespace ClientForge.Document

def contentNodes (content : Table String MediaType) : List SchemaNode :=
  content.values.flatMap fun media => media.schema.toList

/-- What a reference leads to stands elsewhere. -/
def RefOr.nodes (inside : α → List SchemaNode) : RefOr α → List SchemaNode
  | .ref _ => []
  | .inline item => inside item

def Parameter.nodes (parameter : Parameter) : List SchemaNode := parameter.schema.toList

def RequestBody.nodes (body : RequestBody) : List SchemaNode := contentNodes body.content

def Response.nodes (response : Response) : List SchemaNode := contentNodes response.content

def Operation.nodes (operation : Operation) : List SchemaNode :=
  operation.parameters.flatMap (RefOr.nodes Parameter.nodes) ++
    operation.requestBody.toList.flatMap (RefOr.nodes RequestBody.nodes) ++
    operation.responses.values.flatMap (RefOr.nodes Response.nodes)

def PathItem.nodes (item : PathItem) : List SchemaNode :=
  item.parameters.flatMap (RefOr.nodes Parameter.nodes) ++ item.operations.flatMap fun entry => entry.2.nodes

def Components.nodes (components : Components) : List SchemaNode :=
  components.schemas.values ++ components.parameters.values.flatMap (RefOr.nodes Parameter.nodes) ++
    components.requestBodies.values.flatMap (RefOr.nodes RequestBody.nodes) ++
    components.responses.values.flatMap (RefOr.nodes Response.nodes)

/-- The schemas that stand in a document, apart from those that stand inside others. -/
def nodes (document : Document) : List SchemaNode :=
  document.paths.values.flatMap PathItem.nodes ++ document.components.toList.flatMap Components.nodes

end ClientForge.Document

namespace ClientForge.Resolve
open Document

def AllDistinct (nodes : List SchemaNode) : Prop := ∀ node ∈ nodes, DistinctKeys node

theorem allDistinct_append {first second : List SchemaNode} :
    AllDistinct (first ++ second) ↔ AllDistinct first ∧ AllDistinct second := List.forall_mem_append

theorem allDistinct_flatMap {items : List α} {nodes : α → List SchemaNode} :
    AllDistinct (items.flatMap nodes) ↔ ∀ item ∈ items, AllDistinct (nodes item) := List.forall_mem_flatMap

private theorem allDistinct_singletons {nodes : List SchemaNode} :
    AllDistinct (nodes.flatMap fun node => [node]) ↔ AllDistinct nodes := by
  rw [List.flatMap_singleton']

private theorem bind_eq_ok {first : Except ε α} {next : α → Except ε β} {last : β} :
    first >>= next = .ok last ↔ ∃ value, first = .ok value ∧ next value = .ok last := by
  cases first with
  | error fault => exact ⟨nofun, nofun⟩
  | ok value => exact ⟨fun ended => ⟨value, rfl, ended⟩, fun ⟨_, same, ended⟩ => by cases same; exact ended⟩

private theorem map_eq_ok {first : Except ε α} {change : α → β} {last : β} :
    first.map change = .ok last ↔ ∃ value, first = .ok value ∧ change value = last := by
  cases first <;> simp [Except.map]

private theorem foldlM_keeps {step : α → β → Except ε α} (good : α → Prop) {items : List β} {start last : α}
    (each : ∀ item ∈ items, ∀ value next, good value → step value item = .ok next → good next) (begins : good start)
    (ended : items.foldlM step start = .ok last) : good last := by
  induction items generalizing start with
  | nil =>
    cases ended
    exact begins
  | cons item items ih =>
    rw [List.foldlM_cons] at ended
    obtain ⟨next, begun, ended⟩ := bind_eq_ok.mp ended
    have holds := each item (List.mem_cons_self ..) start next begins begun
    exact ih (fun item member => each item (List.mem_cons_of_mem _ member)) holds ended

/-- Data in which no object has a key twice is read as something whose schemas have none twice. -/
def ReadsDistinct (item : Reader α) (nodes : α → List SchemaNode) : Prop :=
  ∀ value result, value.hasDistinctKeys = true → item value = .ok result → AllDistinct (nodes result)

namespace ReadsDistinct

variable {item : Reader α} {nodes : α → List SchemaNode}

theorem orNull (reads : ReadsDistinct item nodes) : ReadsDistinct (Reader.orNull item) fun found => found.toList.flatMap nodes := by
  intro value result distinct read
  rw [allDistinct_flatMap]
  intro found present
  rw [Option.mem_toList] at present
  subst present
  cases value with
  | null => cases read
  | bool | number | string | array | object =>
    obtain ⟨_, read, same⟩ := map_eq_ok.mp read
    cases same
    exact reads _ found distinct read

theorem listOf (reads : ReadsDistinct item nodes) : ReadsDistinct (Reader.listOf item) fun items => items.flatMap nodes := by
  intro value results distinct read
  cases value with
  | null | bool | number | string | object => cases read
  | array items =>
    rw [allDistinct_flatMap]
    intro result member
    obtain ⟨inside, listed, read⟩ := exists_of_mem_right (mapM_eq_ok.mp read) member
    exact reads inside result (Value.hasDistinctKeys_array.mp distinct inside listed) read

theorem tableOf (reads : ReadsDistinct item nodes) : ReadsDistinct (Reader.tableOf item) fun table => table.values.flatMap nodes := by
  intro value table distinct read
  cases value with
  | null | bool | number | string | array => cases read
  | object fields =>
    obtain ⟨entries, all, made⟩ := bind_eq_ok.mp read
    cases made
    rw [allDistinct_flatMap]
    intro result member
    obtain ⟨entry, listed, rfl⟩ := List.mem_map.mp member
    obtain ⟨field, inside, one⟩ := exists_of_mem_right (mapM_eq_ok.mp all) (Table.mem_ofList listed)
    obtain ⟨found, begun, same⟩ := bind_eq_ok.mp one
    cases same
    exact reads field.2 found ((Value.hasDistinctKeys_object.mp distinct).2 field inside) begun

theorem refOr (reads : ReadsDistinct item nodes) : ReadsDistinct (Reader.refOr item) (RefOr.nodes nodes) := by
  intro value result distinct read
  unfold Reader.refOr at read
  split at read
  next =>
    cases read
    exact fun node none => absurd none List.not_mem_nil
  next =>
    split at read
    next found inside =>
      cases read
      exact reads value found distinct inside
    next => cases read

/-- What holds before a record is read, and behind each of its fields, holds of the record. -/
theorem record (nodes : α → List SchemaNode) {layout : Layout} {set : α → String → Reader α} {start : α}
    (begins : AllDistinct (nodes start))
    (each : ∀ record key, AllDistinct (nodes record) → ReadsDistinct (set record key) nodes) :
    ReadsDistinct (layout.read set start) nodes := by
  intro value result distinct read
  cases value with
  | null | bool | number | string => cases read
  | object fields =>
    have inside := (Value.hasDistinctKeys_object.mp distinct).2
    exact foldlM_keeps (fun record => AllDistinct (nodes record)) (fun field member record next holds =>
      each record field.1 holds field.2 next (inside field member)) begins read
  | array items =>
    have inside := Value.hasDistinctKeys_array.mp distinct
    rw [Layout.read] at read
    obtain ⟨last, ended, read⟩ := bind_eq_ok.mp read
    have holds : AllDistinct (nodes last) := foldlM_keeps (fun record => AllDistinct (nodes record))
      (fun field member record next holds =>
        each record field.1 holds field.2 next (inside field.2 (List.of_mem_zip member).2)) begins ended
    split at read
    next => cases read
    next =>
      split at read
      next => cases read
      next =>
        cases read
        exact holds

end ReadsDistinct

private theorem node_reads : ReadsDistinct Reader.node fun node => [node] := by
  intro value node distinct read
  unfold Reader.node at read
  split at read
  next found =>
    cases read
    exact List.forall_mem_singleton.mpr (ofValue_distinctKeys distinct found)
  next => cases read

private theorem media_reads : ReadsDistinct MediaType.read fun media => media.schema.toList := by
  refine .record _ (fun node none => absurd none List.not_mem_nil) fun media key holds value next distinct set => ?_
  split at set
  case h_1 =>
    obtain ⟨schema, read, rfl⟩ := map_eq_ok.mp set
    exact allDistinct_singletons.mp (node_reads.orNull value schema distinct read)
  case h_2 =>
    cases set
    exact holds

private theorem body_reads : ReadsDistinct RequestBody.read RequestBody.nodes := by
  refine .record _ (fun node none => absurd none List.not_mem_nil) fun body key holds value next distinct set => ?_
  split at set
  case h_1 =>
    obtain ⟨content, read, rfl⟩ := map_eq_ok.mp set
    exact media_reads.tableOf value content distinct read
  case h_2 | h_3 =>
    obtain ⟨part, -, rfl⟩ := map_eq_ok.mp set
    exact holds
  case h_4 =>
    cases set
    exact holds

private theorem response_reads : ReadsDistinct Response.read Response.nodes := by
  refine .record _ (fun node none => absurd none List.not_mem_nil) fun response key holds value next distinct set => ?_
  split at set
  case h_1 =>
    obtain ⟨part, -, rfl⟩ := map_eq_ok.mp set
    exact holds
  case h_2 =>
    obtain ⟨content, read, rfl⟩ := map_eq_ok.mp set
    exact media_reads.tableOf value content distinct read
  case h_3 =>
    cases set
    exact holds

private theorem parameter_reads : ReadsDistinct Parameter.read Parameter.nodes := by
  intro value parameter distinct read
  obtain ⟨⟨name, location, draft⟩, begun, read⟩ := bind_eq_ok.mp read
  have holds : AllDistinct draft.nodes := by
    refine ReadsDistinct.record (fun draft => draft.2.2.nodes) (fun node none => absurd none List.not_mem_nil)
      (fun draft key holds value next distinct set => ?_) value (name, location, draft) distinct begun
    split at set
    case h_1 | h_2 | h_3 | h_5 =>
      obtain ⟨part, -, rfl⟩ := map_eq_ok.mp set
      exact holds
    case h_4 =>
      obtain ⟨schema, read, rfl⟩ := map_eq_ok.mp set
      exact allDistinct_singletons.mp (node_reads.orNull value schema distinct read)
    case h_6 =>
      cases set
      exact holds
  obtain ⟨_, -, read⟩ := bind_eq_ok.mp read
  obtain ⟨_, -, read⟩ := bind_eq_ok.mp read
  cases read
  exact holds

theorem allDistinct_operation {operation : Operation} : AllDistinct operation.nodes ↔
    AllDistinct (operation.parameters.flatMap (RefOr.nodes Parameter.nodes)) ∧
      AllDistinct (operation.requestBody.toList.flatMap (RefOr.nodes RequestBody.nodes)) ∧
      AllDistinct (operation.responses.values.flatMap (RefOr.nodes Response.nodes)) := by
  simp only [Operation.nodes, allDistinct_append, and_assoc]

private theorem operation_reads : ReadsDistinct Operation.read Operation.nodes := by
  refine .record _ (fun node none => absurd none List.not_mem_nil) fun operation key holds value next distinct set => ?_
  obtain ⟨parameters, body, responses⟩ := allDistinct_operation.mp holds
  split at set
  case h_1 | h_2 | h_3 | h_4 | h_8 =>
    obtain ⟨part, -, rfl⟩ := map_eq_ok.mp set
    exact holds
  case h_5 =>
    obtain ⟨found, read, rfl⟩ := map_eq_ok.mp set
    exact allDistinct_operation.mpr ⟨parameter_reads.refOr.listOf value found distinct read, body, responses⟩
  case h_6 =>
    obtain ⟨found, read, rfl⟩ := map_eq_ok.mp set
    exact allDistinct_operation.mpr ⟨parameters, body_reads.refOr.orNull value found distinct read, responses⟩
  case h_7 =>
    obtain ⟨found, read, rfl⟩ := map_eq_ok.mp set
    exact allDistinct_operation.mpr ⟨parameters, body, response_reads.refOr.tableOf value found distinct read⟩
  case h_9 =>
    cases set
    exact holds

theorem allDistinct_item {item : PathItem} : AllDistinct item.nodes ↔
    AllDistinct (item.parameters.flatMap (RefOr.nodes Parameter.nodes)) ∧
      ∀ method operation, item.operation? method = some operation → AllDistinct operation.nodes := by
  simp only [PathItem.nodes, allDistinct_append, allDistinct_flatMap, Prod.forall, mem_operations]

private theorem item_reads : ReadsDistinct PathItem.read PathItem.nodes := by
  refine .record _ (fun node none => absurd none List.not_mem_nil) fun item key holds value next distinct set => ?_
  obtain ⟨parameters, operations⟩ := allDistinct_item.mp holds
  split at set
  next =>
    obtain ⟨found, read, rfl⟩ := map_eq_ok.mp set
    exact allDistinct_item.mpr ⟨parameter_reads.refOr.listOf value found distinct read, operations⟩
  next =>
    split at set
    next method _ =>
      obtain ⟨found, read, rfl⟩ := map_eq_ok.mp set
      have inside := allDistinct_flatMap.mp (operation_reads.orNull value found distinct read)
      refine allDistinct_item.mpr ⟨parameters, fun other operation there => ?_⟩
      dsimp only at there
      split at there
      · exact inside operation (Option.mem_toList.mpr there)
      · exact operations other operation there
    next =>
      cases set
      exact holds

theorem allDistinct_components {components : Components} : AllDistinct components.nodes ↔
    AllDistinct components.schemas.values ∧
      AllDistinct (components.parameters.values.flatMap (RefOr.nodes Parameter.nodes)) ∧
      AllDistinct (components.requestBodies.values.flatMap (RefOr.nodes RequestBody.nodes)) ∧
      AllDistinct (components.responses.values.flatMap (RefOr.nodes Response.nodes)) := by
  simp only [Components.nodes, allDistinct_append, and_assoc]

private theorem components_reads : ReadsDistinct Components.read Components.nodes := by
  refine .record _ (fun node none => absurd none List.not_mem_nil) fun components key holds value next distinct set => ?_
  obtain ⟨schemas, parameters, bodies, responses⟩ := allDistinct_components.mp holds
  split at set
  case h_1 =>
    obtain ⟨found, read, rfl⟩ := map_eq_ok.mp set
    have inside := allDistinct_singletons.mp (node_reads.tableOf value found distinct read)
    exact allDistinct_components.mpr ⟨inside, parameters, bodies, responses⟩
  case h_2 =>
    obtain ⟨found, read, rfl⟩ := map_eq_ok.mp set
    have inside := parameter_reads.refOr.tableOf value found distinct read
    exact allDistinct_components.mpr ⟨schemas, inside, bodies, responses⟩
  case h_3 =>
    obtain ⟨found, read, rfl⟩ := map_eq_ok.mp set
    have inside := body_reads.refOr.tableOf value found distinct read
    exact allDistinct_components.mpr ⟨schemas, parameters, inside, responses⟩
  case h_4 =>
    obtain ⟨found, read, rfl⟩ := map_eq_ok.mp set
    have inside := response_reads.refOr.tableOf value found distinct read
    exact allDistinct_components.mpr ⟨schemas, parameters, bodies, inside⟩
  case h_5 =>
    obtain ⟨part, -, rfl⟩ := map_eq_ok.mp set
    exact holds
  case h_6 =>
    cases set
    exact holds

private theorem paths_reads : ReadsDistinct readPaths fun paths => paths.values.flatMap PathItem.nodes := by
  intro value paths distinct read
  cases value with
  | null | bool | number | string | array => cases read
  | object fields =>
    obtain ⟨entries, all, made⟩ := bind_eq_ok.mp read
    cases made
    rw [allDistinct_flatMap]
    intro item member
    obtain ⟨entry, listed, rfl⟩ := List.mem_map.mp member
    obtain ⟨field, kept, one⟩ := exists_of_mem_right (mapM_eq_ok.mp all) (Table.mem_ofList listed)
    have inside := (Value.hasDistinctKeys_object.mp distinct).2 field (List.mem_filter.mp kept).1
    split at one
    next found begun =>
      cases one
      exact item_reads field.2 found inside begun
    next => cases one

private theorem document_reads (version : String) : ReadsDistinct (readAs version) Document.nodes := by
  refine .record _ (fun node none => absurd none List.not_mem_nil) fun document key holds value next distinct set => ?_
  obtain ⟨paths, components⟩ := allDistinct_append.mp holds
  split at set
  case h_1 =>
    obtain ⟨part, -, rfl⟩ := map_eq_ok.mp set
    exact holds
  case h_2 =>
    obtain ⟨found, read, rfl⟩ := map_eq_ok.mp set
    exact allDistinct_append.mpr ⟨paths_reads value found distinct read, components⟩
  case h_3 =>
    obtain ⟨found, read, rfl⟩ := map_eq_ok.mp set
    exact allDistinct_append.mpr ⟨paths, components_reads.orNull value found distinct read⟩
  case h_4 =>
    cases set
    exact holds

/-- No key is there twice in any schema of a document that has been read from a text. -/
theorem parse_distinctKeys {text : String} {document : Document} (read : parse text = .ok document) :
    ∀ node ∈ document.nodes, DistinctKeys node := by
  unfold parse at read
  split at read
  next => cases read
  next value found =>
    have distinct := Yaml.valueOf_distinctKeys found
    split at read
    next => cases read
    next version _ =>
      split at read
      next =>
        cases ended : readAs version value with
        | error fault =>
          rw [ended] at read
          cases read
        | ok whole =>
          rw [ended] at read
          cases read
          exact document_reads version value document distinct ended
      next => cases read

end ClientForge.Resolve
