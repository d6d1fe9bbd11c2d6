import ClientForge.Proofs.DocumentTranslation

/-! The operations of a model by tag. An accepted document has one list of operations, in its own order, and each tag
has those of them that carry it. -/

namespace ClientForge.Resolve
open Document

variable {document : Document} {model : Api.Model}

/-- The operations of a document: paths as they come in it, and at each path the methods in one order. -/
structure InOrder (document : Document) (declared : List (String × Api.HttpMethod × Operation)) : Prop where
  mem : ∀ path method operation, (path, method, operation) ∈ declared ↔
    ∃ item, document.paths.get? path = some item ∧ item.operation? method = some operation
  ordered : declared.Pairwise fun first second =>
    [first.1, second.1].Sublist document.paths.keys ∨ first.1 = second.1 ∧
      [first.2.1, second.2.1].Sublist [.get, .put, .post, .delete, .options, .head, .patch, .trace]

/-- The tags that an operation carries; one without tags carries the empty tag. -/
def carriedTags (operation : Operation) : List String := if operation.tags = [] then [""] else operation.tags.eraseDups

theorem mem_operations {item : PathItem} {method : Api.HttpMethod} {operation : Operation} :
    (method, operation) ∈ item.operations ↔ item.operation? method = some operation := by
  have all : method ∈ Api.HttpMethod.all := by cases method <;> decide
  simp only [PathItem.operations, List.mem_filterMap, Option.map_eq_some_iff, Prod.mk.injEq]
  constructor
  · rintro ⟨_, _, _, found, rfl, rfl⟩
    exact found
  · exact fun found => ⟨method, all, operation, found, rfl, rfl⟩

private theorem operations_ordered (item : PathItem) :
    item.operations.Pairwise fun first second => [first.1, second.1].Sublist Api.HttpMethod.all := by
  have methods : item.operations.map Prod.fst = Api.HttpMethod.all.filter fun method => (item.operation? method).isSome := by
    rw [PathItem.operations, List.map_filterMap, ← List.filterMap_eq_filter]
    congr
    funext method
    cases found : item.operation? method <;> simp [Option.guard, found]
  refine List.pairwise_iff_forall_sublist.mpr fun sublist => ?_
  exact (methods ▸ sublist.map Prod.fst).trans List.filter_sublist

theorem inOrder_operationsOf (document : Document) :
    InOrder document ((operationsOf document).map fun entry => entry.2) := by
  constructor
  · intro path method operation
    simp only [operationsOf, List.mem_map, List.mem_flatMap, Prod.exists, Table.get?_eq_some]
    constructor
    · rintro ⟨_, _, _, _, ⟨_, item, listed, _, _, inside, ⟨⟩⟩, ⟨⟩⟩
      exact ⟨item, listed, mem_operations.mp inside⟩
    · rintro ⟨item, listed, found⟩
      exact ⟨_, _, _, _, ⟨path, item, listed, method, operation, mem_operations.mpr found, rfl⟩, rfl⟩
  · rw [List.pairwise_map, operationsOf, List.pairwise_flatMap]
    constructor
    · rintro ⟨path, item⟩ _
      rw [List.pairwise_map]
      exact (operations_ordered item).imp fun sublist => Or.inr ⟨rfl, sublist⟩
    · refine List.pairwise_iff_forall_sublist.mpr fun {first second} sublist => ?_
      intro entry member other inside
      obtain ⟨_, _, rfl⟩ := List.mem_map.mp member
      obtain ⟨_, _, rfl⟩ := List.mem_map.mp inside
      exact Or.inl (sublist.map Prod.fst)

theorem InOrder.nodup {declared : List (String × Api.HttpMethod × Operation)} (inOrder : InOrder document declared) :
    (declared.map fun entry => (entry.1, entry.2.1)).Nodup := by
  refine List.pairwise_map.mpr (inOrder.ordered.imp fun {first second} either same => ?_)
  obtain ⟨path, method⟩ := Prod.mk.inj same
  rcases either with paths | ⟨-, methods⟩
  · exact (List.nodup_cons.mp (paths.nodup document.paths.distinct)).1 (path ▸ List.mem_singleton_self _)
  · exact (List.nodup_cons.mp (methods.nodup (by decide))).1 (method ▸ List.mem_singleton_self _)

private theorem OperationFor.carries {declared : String × Api.HttpMethod × Operation} {operation : Api.Operation}
    (same : OperationFor declared operation) : tagsOf operation = carriedTags declared.2.2 := by
  rw [tagsOf, carriedTags, same.tags]
  cases declared.2.2.tags <;> simp [List.eraseDups_cons]

theorem OperationFor.tags_nodup {declared : String × Api.HttpMethod × Operation} {operation : Api.Operation}
    (same : OperationFor declared operation) : (tagsOf operation).Nodup := by
  rw [same.carries, carriedTags]
  split
  · simp
  · exact Table.nodup_eraseDups _

variable {declared : List (String × Api.HttpMethod × Operation)} {operations : List Api.Operation}

private theorem flatMap_tagsOf (resolved : List.Forall₂ OperationFor declared operations) :
    operations.flatMap tagsOf = declared.flatMap fun entry => carriedTags entry.2.2 := by
  induction resolved with
  | nil => rfl
  | cons same _ ih => rw [List.flatMap_cons, List.flatMap_cons, same.carries, ih]

private theorem filter_tagsOf (resolved : List.Forall₂ OperationFor declared operations) (tag : String) :
    operations.filter (tag ∈ tagsOf ·) =
      ((declared.zip operations).filter fun pair => tag ∈ carriedTags pair.1.2.2).map Prod.snd := by
  induction resolved with
  | nil => rfl
  | cons same _ ih =>
    rw [List.zip_cons_cons, List.filter_cons, List.filter_cons, same.carries, ih]
    split <;> rfl

private theorem exists_operations (accepted : Resolve.model document = .ok model) :
    ∃ operations,
      List.Forall₂ (ResolvedOperation (document.components.getD .none) (registryOf document)) (operationsOf document)
        operations ∧
      List.Forall₂ OperationFor ((operationsOf document).map fun entry => entry.2) operations ∧
      (∀ operation ∈ operations, (tagsOf operation).Nodup) ∧ model.groups = groupByTag operations := by
  obtain ⟨operations, -, resolved, groups, -⟩ := model_operations accepted
  refine ⟨operations, resolved, ?_, fun operation member => ?_, groups⟩
  · exact List.forall₂_map_left_iff.mpr (resolved.imp fun _ _ same => same.toOperationFor)
  · obtain ⟨_, -, same⟩ := exists_of_mem_right resolved member
    exact same.tags_nodup

/-- Operations by the tags of their declarations. The tags stand in the order of their first use; a tag that no operation
carries has no group. An operation stands once in the group of each of its tags, and it is the same in all of them. -/
structure Grouped (declared : List (String × Api.HttpMethod × Operation)) (operations : List Api.Operation)
    (groups : Table String (List Api.Operation)) : Prop where
  keys : groups.keys = (declared.flatMap fun entry => carriedTags entry.2.2).eraseDups
  group : ∀ {tag group}, groups.get? tag = some group ↔ group ≠ [] ∧
    group = ((declared.zip operations).filter fun pair => tag ∈ carriedTags pair.1.2.2).map Prod.snd

/-- An accepted document has one operation for each that it declares, in the order in which it declares them, and
its groups are made of these. -/
theorem model_groups (accepted : Resolve.model document = .ok model) :
    ∃ declared operations, InOrder document declared ∧ List.Forall₂ OperationFor declared operations ∧
      Grouped declared operations model.groups := by
  obtain ⟨operations, -, resolved, distinct, groups⟩ := exists_operations accepted
  refine ⟨_, operations, inOrder_operationsOf document, resolved, ?_, fun {tag group} => ?_⟩
  · rw [groups, keys_groupByTag, flatMap_tagsOf resolved]
  · rw [groups, get?_groupByTag distinct, filter_tagsOf resolved]

/-- Operations at two paths: one with two tags of which it repeats one, one without tags, and one with the empty tag. -/
def taggedDocument : Document :=
  let tagged (tags : List String) : Operation := ⟨none, none, none, tags, [], none, .empty, false⟩
  ⟨"3.0.0", [], ⟨[
    ("/pets", ⟨[], fun
      | .post => some (tagged [])
      | .get => some (tagged ["pets", "admin", "pets"])
      | _ => none⟩),
    ("/audit", ⟨[], fun method => if method = .get then some (tagged ["", "admin"]) else none⟩)], by decide⟩, none⟩

theorem taggedDocument_accepted : ∃ model, Resolve.model taggedDocument = .ok model ∧
    (model.groups.entries.map fun group => (group.1, group.2.map fun operation => (operation.method, operation.path))) =
      [("pets", [(.get, "/pets")]), ("admin", [(.get, "/pets"), (.get, "/audit")]),
        ("", [(.post, "/pets"), (.get, "/audit")])] :=
  exists_of_read (by decide +kernel)

theorem taggedDocument_groups : ∃ model declared operations, Resolve.model taggedDocument = .ok model ∧
    InOrder taggedDocument declared ∧ List.Forall₂ OperationFor declared operations ∧
      Grouped declared operations model.groups := by
  obtain ⟨model, accepted, -⟩ := taggedDocument_accepted
  obtain ⟨declared, operations, holds⟩ := model_groups accepted
  exact ⟨model, declared, operations, accepted, holds⟩

/-- The one operation that a model has at a path for a method. -/
structure OperationAt (model : Api.Model) (place : String × Api.HttpMethod) (operation : Api.Operation) : Prop where
  placed : (operation.path, operation.method) = place
  listed : ∃ group ∈ model.groups.values, operation ∈ group
  only : ∀ group ∈ model.groups.values, ∀ other ∈ group, (other.path, other.method) = place → other = operation

theorem exists_operationAt (accepted : Resolve.model document = .ok model) {path : String} {item : PathItem}
    {method : Api.HttpMethod} {own : Operation} (listed : document.paths.get? path = some item)
    (found : item.operation? method = some own) :
    ∃ operation, OperationAt model (path, method) operation ∧
      ResolvedOperation (document.components.getD .none) (registryOf document) (item.parameters, path, method, own)
        operation := by
  obtain ⟨operations, resolved, each, distinct, groups⟩ := exists_operations accepted
  have entry : (item.parameters, path, method, own) ∈ operationsOf document :=
    List.mem_flatMap.mpr ⟨_, Table.get?_eq_some.mp listed, List.mem_map.mpr ⟨_, mem_operations.mpr found, rfl⟩⟩
  obtain ⟨operation, member, same⟩ := exists_of_mem_right resolved.flip entry
  have place : (operation.path, operation.method) = (path, method) := Prod.ext same.path same.method
  have places : (operations.map fun operation => (operation.path, operation.method)) =
      ((operationsOf document).map fun entry => entry.2).map fun entry => (entry.1, entry.2.1) := by
    rw [← List.forall₂_eq_eq_eq, List.forall₂_map_left_iff, List.forall₂_map_right_iff]
    exact .flip (each.imp fun _ _ same => Prod.ext same.path same.method)
  have apart : (operations.map fun operation => (operation.path, operation.method)).Nodup :=
    places ▸ (inOrder_operationsOf document).nodup
  refine ⟨operation, ⟨place, ?_, ?_⟩, same⟩
  · obtain ⟨tag, carried⟩ : ∃ tag, tag ∈ tagsOf operation := by
      unfold tagsOf
      cases operation.tags <;> simp
    obtain ⟨group, grouped⟩ := Table.mem_keys.mp (mem_keys_groupByTag.mpr ⟨operation, member, carried⟩)
    refine ⟨group, groups ▸ Table.mem_values.mpr ⟨tag, grouped⟩, ?_⟩
    rw [((get?_groupByTag distinct).mp grouped).2]
    exact List.mem_filter.mpr ⟨member, decide_eq_true carried⟩
  · intro group grouped other inside same
    obtain ⟨tag, grouped⟩ := Table.mem_values.mp (groups ▸ grouped)
    exact List.inj_on_of_nodup_map apart (mem_of_groupByTag grouped other inside) member (same.trans place.symm)

end ClientForge.Resolve
