import Mathlib.Logic.Relation
import ClientForge.Proofs.ComponentPointers
import ClientForge.Proofs.DefinitionReading

/-! The references that a schema needs: those that it comes to by way of components, properties, items, values
and single members, without a word on how or when they are followed. Schemas with equal definitions need the
same references. -/

namespace ClientForge.Resolve
open Api Document Relation

/-- The form of a location: a segment behind the place of the schemas, with a name in it once it is decoded. -/
def PointsTo (location name : String) : Prop :=
  ∃ segment : String, location = "#/components/schemas/" ++ segment ∧ '/' ∉ segment.toList ∧
    decodeSegment segment = name ∧ name ≠ ""

theorem componentName?_eq_some {location name : String} :
    componentName? location "schemas" = some name ↔ PointsTo location name := by
  have place (segment : String) : "#/components/" ++ "schemas" ++ "/" ++ segment = "#/components/schemas/" ++ segment := rfl
  rw [componentName?_eq_some_iff]
  constructor
  · rintro ⟨⟨segment, rfl, none, same⟩, named, -⟩
    exact ⟨segment, place segment, none, same, named⟩
  · rintro ⟨segment, rfl, none, same, named⟩
    exact ⟨⟨segment, (place segment).symm, none, same⟩, named, by decide⟩

variable {components : Table String SchemaNode}

variable (components) in
/-- What has to be resolved for a schema, one step on: nothing below a string enumeration or below combinators
other than a single member. -/
inductive Step : SchemaNode → SchemaNode → Prop where
  | component {target : Reference} {name : String} {node : SchemaNode} (points : PointsTo target.location name)
      (declared : components.get? name = some node) : Step (.ref target) node
  | property {draft : Draft} {entry : String × SchemaNode} (object : IsObject draft)
      (listed : entry ∈ draft.properties) : Step draft.schema entry.2
  | member {draft : Draft} {node : SchemaNode} (wraps : Wraps draft node) : Step draft.schema node
  | items {draft : Draft} {node : SchemaNode} (plain : Plain draft) (type : primary? draft.keywords = some "array")
      (items : draft.items = some node) : Step draft.schema node
  | values {draft : Draft} {node : SchemaNode} (plain : Plain draft) (type : ObjectType draft.keywords)
      (values : draft.additional = some (.schema node)) : Step draft.schema node

variable (components) in
/-- A reference that has to be followed for a schema. -/
def Needs (node : SchemaNode) (target : Reference) : Prop := ReflTransGen (Step components) node (.ref target)

theorem Needs.head {node inner : SchemaNode} {target : Reference} (step : Step components node inner)
    (needs : Needs components inner target) : Needs components node target := ReflTransGen.head step needs

theorem Step.distinctKeys {node inner : SchemaNode} (declared : ∀ entry ∈ components.entries, DistinctKeys entry.2)
    (keys : DistinctKeys node) (step : Step components node inner) : DistinctKeys inner := by
  cases step with
  | component _ found => exact declared _ (Table.get?_eq_some.mp found)
  | property _ listed => exact (Inside.property listed).distinctKeys keys
  | member wraps => exact (Inside.member (wraps.single ▸ List.mem_singleton.mpr rfl)).distinctKeys keys
  | items _ _ items => exact (Inside.items items).distinctKeys keys
  | values _ _ values => exact (Inside.values values).distinctKeys keys

namespace Alike

variable {a b : Draft}

theorem isEnum_iff (alike : Alike a b) : IsEnum a ↔ IsEnum b := exists_congr alike.enumeration

theorem primary_eq (alike : Alike a b) : primary? a.keywords = primary? b.keywords := by
  rw [primary?, primary?, alike.type]

theorem isObject_iff (alike : Alike a b) : IsObject a ↔ IsObject b := by
  have type : ObjectType a.keywords ↔ ObjectType b.keywords := by rw [ObjectType, ObjectType, alike.primary_eq]
  have some : a.properties ≠ [] ↔ b.properties ≠ [] := not_congr alike.noProperties
  constructor
  · exact fun object => ⟨mt alike.isEnum_iff.mpr object.noEnum, type.mp object.type, some.mp object.properties⟩
  · exact fun object => ⟨mt alike.isEnum_iff.mp object.noEnum, type.mpr object.type, some.mpr object.properties⟩

theorem hoisted_iff (alike : Alike a b) : Hoisted a ↔ Hoisted b := or_congr alike.isEnum_iff alike.isObject_iff

theorem plain (alike : Alike a b) (plain : Plain a) : Plain b := by
  have allOf := alike.allOf
  rw [plain.allOf] at allOf
  exact ⟨mt alike.hoisted_iff.mpr plain.inPlace, List.forall₂_nil_left_iff.mp allOf, alike.oneOf.mp plain.oneOf,
    alike.anyOf.mp plain.anyOf⟩

theorem wraps (alike : Alike a b) {node : SchemaNode} (wraps : Wraps a node) :
    ∃ other, Wraps b other ∧ SameSchema node other := by
  have allOf := alike.allOf
  rw [wraps.single] at allOf
  obtain ⟨other, rest, same, none, single⟩ := List.forall₂_cons_left_iff.mp allOf
  rw [List.forall₂_nil_left_iff.mp none] at single
  exact ⟨other, ⟨mt alike.hoisted_iff.mpr wraps.inPlace, single, alike.noProperties.mp wraps.bare⟩, same⟩

end Alike

private theorem reference_fields (target : Reference) :
    ∃ fields, (SchemaNode.ref target).toValue = .object fields ∧
      fields.lookup "$ref" = some (.string target.location) := ⟨_, rfl, rfl⟩

theorem same_reference {target : Reference} {node : SchemaNode} (same : SameSchema (.ref target) node) :
    ∃ other, node = .ref other ∧ other.location = target.location := by
  obtain ⟨fields, written, location⟩ := reference_fields target
  rw [SameSchema, written] at same
  obtain ⟨others, writtenOther, -, each⟩ := Value.same_object_left same
  obtain ⟨value, found, same⟩ := each _ (Value.mem_of_lookup location)
  rcases exists_draft node with ⟨other, rfl⟩ | ⟨draft, rfl⟩
  · obtain ⟨again, writtenAgain, locationOther⟩ := reference_fields other
    cases writtenAgain.symm.trans writtenOther
    cases locationOther.symm.trans found
    exact ⟨other, rfl, Value.string.inj (Value.same_string_left.mp same)⟩
  · obtain ⟨again, writtenAgain, writes⟩ := exists_writes draft
    cases writtenAgain.symm.trans writtenOther
    cases writes.reference.symm.trans found

theorem same_inline {draft : Draft} {node : SchemaNode} (keys : DistinctKeys draft.schema)
    (same : SameSchema draft.schema node) : ∃ other : Draft, node = other.schema ∧ Alike draft other := by
  rcases exists_draft node with ⟨target, rfl⟩ | ⟨other, rfl⟩
  · obtain ⟨fields, written, writes⟩ := exists_writes draft
    obtain ⟨others, writtenOther, location⟩ := reference_fields target
    rw [DistinctKeys, written, Value.hasDistinctKeys_object] at keys
    rw [SameSchema, written, writtenOther] at same
    have related := Value.lookup_same keys.1 same "$ref"
    rw [writes.reference, location] at related
    cases related
  · exact ⟨other, rfl, alike_of_same keys same⟩

theorem Step.same {node inner twin : SchemaNode} (declared : ∀ entry ∈ components.entries, DistinctKeys entry.2)
    (keys : DistinctKeys node) (same : SameSchema node twin) (step : Step components node inner) :
    ∃ innerTwin, Step components twin innerTwin ∧ SameSchema inner innerTwin := by
  cases step with
  | component points found =>
    obtain ⟨other, rfl, location⟩ := same_reference same
    rw [← location] at points
    exact ⟨inner, .component points found, Value.same_refl (declared _ (Table.get?_eq_some.mp found))⟩
  | property object listed =>
    obtain ⟨other, rfl, alike⟩ := same_inline keys same
    obtain ⟨entry, listedOther, same⟩ := alike.properties _ listed
    exact ⟨entry.2, .property (alike.isObject_iff.mp object) listedOther, same⟩
  | member wraps =>
    obtain ⟨other, rfl, alike⟩ := same_inline keys same
    obtain ⟨node, wraps, same⟩ := alike.wraps wraps
    exact ⟨node, .member wraps, same⟩
  | items plain type items =>
    obtain ⟨other, rfl, alike⟩ := same_inline keys same
    have rel := alike.items
    rw [items] at rel
    generalize listed : other.items = there at rel
    cases rel with
    | some same => exact ⟨_, .items (alike.plain plain) (alike.primary_eq ▸ type) listed, same⟩
  | values plain type values =>
    obtain ⟨other, rfl, alike⟩ := same_inline keys same
    obtain ⟨node, values, same⟩ := alike.values _ values
    have type : ObjectType other.keywords := by
      rw [ObjectType, ← alike.primary_eq]
      exact type
    exact ⟨node, .values (alike.plain plain) type values, same⟩

private theorem path_same {node last twin : SchemaNode} (declared : ∀ entry ∈ components.entries, DistinctKeys entry.2)
    (keys : DistinctKeys node) (same : SameSchema node twin) (path : ReflTransGen (Step components) node last) :
    DistinctKeys last ∧ ∃ lastTwin, ReflTransGen (Step components) twin lastTwin ∧ SameSchema last lastTwin := by
  induction path with
  | refl => exact ⟨keys, twin, .refl, same⟩
  | tail _ step ih =>
    obtain ⟨keys, middle, path, same⟩ := ih
    obtain ⟨next, stepTwin, same⟩ := step.same declared keys same
    exact ⟨step.distinctKeys declared keys, next, path.tail stepTwin, same⟩

theorem Needs.same {node twin : SchemaNode} {target : Reference}
    (declared : ∀ entry ∈ components.entries, DistinctKeys entry.2) (keys : DistinctKeys node)
    (same : SameSchema node twin) (needs : Needs components node target) :
    ∃ other, other.location = target.location ∧ Needs components twin other := by
  obtain ⟨-, last, path, same⟩ := path_same declared keys same needs
  obtain ⟨other, rfl, location⟩ := same_reference same
  exact ⟨other, location, path⟩

end ClientForge.Resolve
