import ClientForge.Proofs.TableEntries
import ClientForge.Resolve.Model
import Mathlib.Data.List.Nodup

/-! Operations by tag. Adding an operation under its tags, one operation after the other, is one row of writes, of
which each adds to one group: the tags stand in the order of their first use, and a group holds what has been added
to it in the order of the operations. -/

namespace ClientForge.Resolve

private theorem groupByTag_eq (operations : List Api.Operation) :
    groupByTag operations =
      (operations.flatMap fun operation => (tagsOf operation).map fun tag => (operation, tag)).foldl
        (fun groups entry => addUnder entry.1 groups entry.2) .empty := by
  rw [groupByTag, List.foldl_flatMap]
  simp only [List.foldl_map]

theorem keys_groupByTag (operations : List Api.Operation) :
    (groupByTag operations).keys = (operations.flatMap tagsOf).eraseDups := by
  have written (groups : Table String (List Api.Operation)) (entry : Api.Operation × String) :
      (addUnder entry.1 groups entry.2).keys =
        if entry.2 ∈ groups.keys then groups.keys else groups.keys ++ [entry.2] := Table.keys_insert ..
  rw [groupByTag_eq, Table.keys_foldl written, List.map_flatMap]
  simp only [List.map_map, Function.comp_def, List.map_id']

theorem mem_keys_groupByTag {operations : List Api.Operation} {tag : String} :
    tag ∈ (groupByTag operations).keys ↔ ∃ operation ∈ operations, tag ∈ tagsOf operation := by
  rw [keys_groupByTag, List.mem_eraseDups, List.mem_flatMap]

private theorem getD_addAll (entries : List (Api.Operation × String)) (groups : Table String (List Api.Operation))
    (tag : String) :
    ((entries.foldl (fun groups entry => addUnder entry.1 groups entry.2) groups).get? tag).getD [] =
      (groups.get? tag).getD [] ++ (entries.filter (·.2 = tag)).map Prod.fst := by
  induction entries generalizing groups with
  | nil => simp
  | cons entry entries ih =>
    rw [List.foldl_cons, ih, addUnder, Table.get?_insert]
    by_cases same : tag = entry.2
    · simp [same]
    · simp [same, Ne.symm same]

theorem mem_of_groupByTag {operations : List Api.Operation} {tag : String} {group : List Api.Operation}
    (found : (groupByTag operations).get? tag = some group) : ∀ operation ∈ group, operation ∈ operations := by
  have added := getD_addAll
    (operations.flatMap fun operation => (tagsOf operation).map fun tag => (operation, tag)) .empty tag
  rw [← groupByTag_eq, found, Option.getD_some] at added
  have none : ((Table.empty : Table String (List Api.Operation)).get? tag).getD [] = [] := rfl
  intro operation member
  rw [added, none, List.nil_append] at member
  obtain ⟨entry, kept, rfl⟩ := List.mem_map.mp member
  obtain ⟨source, listed, inside⟩ := List.mem_flatMap.mp (List.mem_filter.mp kept).1
  obtain ⟨_, _, rfl⟩ := List.mem_map.mp inside
  exact listed

private theorem filter_tags {tags : List String} (distinct : tags.Nodup) (operation : Api.Operation) (tag : String) :
    ((tags.map fun other => (operation, other)).filter (·.2 = tag)).map Prod.fst =
      if tag ∈ tags then [operation] else [] := by
  rw [List.filter_map, List.map_map]
  change (tags.filter (· = tag)).map (fun _ => operation) = _
  rw [List.filter_eq, List.Nodup.count distinct]
  split <;> rfl

/-- The group of a tag; a tag without operations has none. -/
theorem getD_groupByTag {operations : List Api.Operation}
    (distinct : ∀ operation ∈ operations, (tagsOf operation).Nodup) (tag : String) :
    ((groupByTag operations).get? tag).getD [] = operations.filter (tag ∈ tagsOf ·) := by
  have none : ((Table.empty : Table String (List Api.Operation)).get? tag).getD [] = [] := rfl
  rw [groupByTag_eq, getD_addAll, none, List.nil_append, List.filter_flatMap, List.map_flatMap]
  induction operations with
  | nil => rfl
  | cons operation operations ih =>
    obtain ⟨first, rest⟩ := List.forall_mem_cons.mp distinct
    rw [List.flatMap_cons, ih rest, filter_tags first, List.filter_cons]
    by_cases carried : tag ∈ tagsOf operation <;> simp [carried]

theorem get?_groupByTag {operations : List Api.Operation}
    (distinct : ∀ operation ∈ operations, (tagsOf operation).Nodup) {tag : String} {group : List Api.Operation} :
    (groupByTag operations).get? tag = some group ↔ group ≠ [] ∧ group = operations.filter (tag ∈ tagsOf ·) := by
  have grouped := getD_groupByTag distinct tag
  have used : (operations.filter (tag ∈ tagsOf ·)) ≠ [] ↔ tag ∈ (groupByTag operations).keys := by
    rw [mem_keys_groupByTag, ne_eq, List.filter_eq_nil_iff]
    simp
  constructor
  · intro found
    rw [found, Option.getD_some] at grouped
    exact ⟨grouped ▸ used.mpr (Table.mem_keys.mpr ⟨group, found⟩), grouped⟩
  · rintro ⟨some, rfl⟩
    obtain ⟨found, held⟩ := Table.mem_keys.mp (used.mp some)
    rw [held, Option.getD_some] at grouped
    rw [held, grouped]

end ClientForge.Resolve
