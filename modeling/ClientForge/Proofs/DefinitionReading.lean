import ClientForge.Proofs.SchemaReading
import ClientForge.Proofs.ValueEquality

/-! Schemas with equal definitions read alike. A definition holds every keyword that says how the schema reads,
under a key of its own; so equal definitions have the same type and literals, and what stands in one of them has
an equal counterpart at the same place of the other. -/

namespace ClientForge.Document.SchemaNode

theorem lookup_fields {entries : List (String × Option Value)} (distinct : (entries.map Prod.fst).Nodup)
    (key : String) :
    (entries.flatMap fun entry => fieldOf entry.1 entry.2).lookup key = (entries.lookup key).join := by
  induction entries with
  | nil => rfl
  | cons entry rest ih =>
    obtain ⟨name, value⟩ := entry
    obtain ⟨absent, distinct⟩ := List.nodup_cons.mp distinct
    rw [List.flatMap_cons, List.lookup_append, List.lookup_cons, ih distinct]
    by_cases same : key = name
    · subst same
      have none : rest.lookup key = none :=
        List.lookup_eq_none_iff.mpr fun entry member => bne_iff_ne.mpr fun same =>
          absent (List.mem_map.mpr ⟨entry, member, same.symm⟩)
      cases value <;> simp [fieldOf, none]
    · have differs : (key == name) = false := beq_eq_false_iff_ne.mpr same
      cases value <;> simp [fieldOf, List.lookup_cons, differs]

theorem toValues_eq_map (nodes : List SchemaNode) : toValues nodes = nodes.map toValue := by
  induction nodes with
  | nil => rw [toValues, List.map_nil]
  | cons node nodes ih => rw [toValues, List.map_cons, ih]

theorem fieldsOf_eq_map (properties : List (String × SchemaNode)) :
    fieldsOf properties = properties.map fun entry => (entry.1, entry.2.toValue) := by
  induction properties with
  | nil => rw [fieldsOf, List.map_nil]
  | cons entry properties ih => obtain ⟨name, node⟩ := entry; rw [fieldsOf, List.map_cons, ih]

end ClientForge.Document.SchemaNode

namespace ClientForge.Resolve
open Document

theorem schema_injective {a b : Draft} (same : a.schema = b.schema) : a = b := by
  cases a
  cases b
  simpa [Draft.schema] using same

theorem exists_draft (node : SchemaNode) : (∃ target, node = .ref target) ∨ ∃ draft : Draft, node = draft.schema := by
  cases node with
  | ref target => exact Or.inl ⟨target, rfl⟩
  | inline keywords items properties additional allOf oneOf anyOf =>
    exact Or.inr ⟨⟨keywords, items, properties, additional, allOf, oneOf, anyOf⟩, rfl⟩

theorem toValue_of_definition {node : SchemaNode} {own : Value} (written : node.definition? = some own) :
    node.toValue = own := by
  cases node with
  | ref => cases written
  | inline => exact Option.some.inj written

abbrev SameSchema (a b : SchemaNode) : Prop := a.toValue.Same b.toValue

def writtenList (nodes : List SchemaNode) : Option Value :=
  if nodes = [] then none else some (.array (nodes.map SchemaNode.toValue))

def writtenProperties (properties : List (String × SchemaNode)) : Option Value :=
  if properties = [] then none else some (.object (properties.map fun entry => (entry.1, entry.2.toValue)))

def writtenAdditional : Additional SchemaNode → Value
  | .flag allowed => .bool allowed
  | .schema node => node.toValue

/-- The keys of a definition, with what it holds under each of them. -/
def writtenFields (draft : Draft) : List (String × Option Value) :=
  [("type", draft.keywords.type.map TypeKeyword.toValue), ("format", draft.keywords.format.map .string),
    ("enum", draft.keywords.literals.map .array), ("items", draft.items.map SchemaNode.toValue),
    ("properties", writtenProperties draft.properties),
    ("required", if draft.keywords.required = [] then none else some (.array (draft.keywords.required.map .string))),
    ("additionalProperties", draft.additional.map writtenAdditional), ("allOf", writtenList draft.allOf),
    ("oneOf", writtenList draft.oneOf), ("anyOf", writtenList draft.anyOf),
    ("nullable", if draft.keywords.nullable then some (.bool true) else none),
    ("description", draft.keywords.description.map .string)]

theorem toValue_schema (draft : Draft) : draft.schema.toValue =
    .object ((writtenFields draft).flatMap fun entry => SchemaNode.fieldOf entry.1 entry.2) := by
  obtain ⟨keywords, items, properties, additional, allOf, oneOf, anyOf⟩ := draft
  have list (key : String) (nodes : List SchemaNode) :
      SchemaNode.listOf key (SchemaNode.toValues nodes) = SchemaNode.fieldOf key (writtenList nodes) := by
    cases nodes <;> simp [writtenList, SchemaNode.listOf, SchemaNode.fieldOf, SchemaNode.toValues_eq_map]
  rw [Draft.schema, SchemaNode.toValue.eq_def]
  simp only [list, writtenFields, List.flatMap_cons, List.flatMap_nil, List.append_nil, List.append_assoc]
  congr 10
  · cases items <;> rfl
  · cases properties <;> simp [writtenProperties, SchemaNode.fieldOf, SchemaNode.fieldsOf_eq_map]
  · cases keywords.required <;> simp [SchemaNode.listOf, SchemaNode.fieldOf]
  · rcases additional with _ | ⟨_ | _⟩ <;> rfl
  · cases keywords.nullable <;> rfl

structure Writes (draft : Draft) (fields : List (String × Value)) : Prop where
  reference : fields.lookup "$ref" = none
  type : fields.lookup "type" = draft.keywords.type.map TypeKeyword.toValue
  literals : fields.lookup "enum" = draft.keywords.literals.map Value.array
  items : fields.lookup "items" = draft.items.map SchemaNode.toValue
  properties : fields.lookup "properties" = writtenProperties draft.properties
  additional : fields.lookup "additionalProperties" = draft.additional.map writtenAdditional
  allOf : fields.lookup "allOf" = writtenList draft.allOf
  oneOf : fields.lookup "oneOf" = writtenList draft.oneOf
  anyOf : fields.lookup "anyOf" = writtenList draft.anyOf

theorem writtenFields_distinct (draft : Draft) : ((writtenFields draft).map Prod.fst).Nodup := by
  have keys : SchemaNode.keys.Nodup := by decide
  exact keys

theorem exists_writes (draft : Draft) : ∃ fields, draft.schema.toValue = .object fields ∧ Writes draft fields := by
  have under := SchemaNode.lookup_fields (writtenFields_distinct draft)
  refine ⟨_, toValue_schema draft, ?_⟩
  constructor <;> rw [under] <;> rfl

/-- A schema that stands right inside another one. -/
inductive Inside (draft : Draft) : SchemaNode → Prop where
  | property {entry : String × SchemaNode} (listed : entry ∈ draft.properties) : Inside draft entry.2
  | items {node : SchemaNode} (items : draft.items = some node) : Inside draft node
  | values {node : SchemaNode} (values : draft.additional = some (.schema node)) : Inside draft node
  | member {node : SchemaNode} (listed : node ∈ draft.allOf) : Inside draft node

/-- No object in a definition has a key twice. -/
abbrev DistinctKeys (node : SchemaNode) : Prop := node.toValue.hasDistinctKeys = true

theorem Inside.distinctKeys {draft : Draft} {node : SchemaNode} (inside : Inside draft node)
    (distinct : DistinctKeys draft.schema) : DistinctKeys node := by
  obtain ⟨fields, written, writes⟩ := exists_writes draft
  rw [DistinctKeys, written, Value.hasDistinctKeys_object] at distinct
  have under {key : String} {value : Value} (found : fields.lookup key = some value) :
      value.hasDistinctKeys = true :=
    distinct.2 _ ((Table.lookup_eq_some distinct.1).mp found)
  cases inside with
  | @property entry listed =>
    have found := writes.properties
    rw [writtenProperties, if_neg (List.ne_nil_of_mem listed)] at found
    have each := (Value.hasDistinctKeys_object.mp (under found)).2
    exact each (entry.1, entry.2.toValue) (List.mem_map.mpr ⟨entry, listed, rfl⟩)
  | items items =>
    have found := writes.items
    rw [items] at found
    exact under found
  | values values =>
    have found := writes.additional
    rw [values] at found
    exact under found
  | member listed =>
    have found := writes.allOf
    rw [writtenList, if_neg (List.ne_nil_of_mem listed)] at found
    exact Value.hasDistinctKeys_array.mp (under found) _ (List.mem_map.mpr ⟨_, listed, rfl⟩)

/-- Schemas of one reading, with equal schemas inside. -/
structure Alike (a b : Draft) : Prop where
  type : a.keywords.type = b.keywords.type
  enumeration : ∀ literals, StringEnum a.keywords literals ↔ StringEnum b.keywords literals
  properties : ∀ entry ∈ a.properties, ∃ other ∈ b.properties, SameSchema entry.2 other.2
  noProperties : a.properties = [] ↔ b.properties = []
  items : Option.Rel SameSchema a.items b.items
  values : ∀ node, a.additional = some (.schema node) →
    ∃ other, b.additional = some (.schema other) ∧ SameSchema node other
  allOf : List.Forall₂ SameSchema a.allOf b.allOf
  oneOf : a.oneOf = [] ↔ b.oneOf = []
  anyOf : a.anyOf = [] ↔ b.anyOf = []

private theorem same_strings_left {texts : List String} {values : List Value}
    (same : List.Forall₂ Value.Same (texts.map .string) values) : values = texts.map .string := by
  induction texts generalizing values with
  | nil => simpa using same
  | cons text texts ih =>
    cases same with
    | cons head rest => rw [Value.same_string_left.mp head, ih rest, List.map_cons]

private theorem same_strings_right {texts : List String} {values : List Value}
    (same : List.Forall₂ Value.Same values (texts.map .string)) : values = texts.map .string := by
  induction texts generalizing values with
  | nil => simpa using same
  | cons text texts ih =>
    cases same with
    | cons head rest => rw [Value.same_string_right.mp head, ih rest, List.map_cons]

private theorem type_eq {s t : TypeKeyword} (same : s.toValue.Same t.toValue) : s = t := by
  cases s <;> cases t <;> simp only [TypeKeyword.toValue] at same
  · cases Value.same_string_left.mp same
    rfl
  · cases Value.same_string_left.mp same
  · cases Value.same_string_right.mp same
  · have texts := same_strings_left (Value.same_array.mp same)
    exact congrArg _ (List.map_injective_iff.mpr (fun _ _ => Value.string.inj) texts).symm

private theorem same_isNull {x y : Value} (same : x.Same y) : x.isNull = y.isNull := by
  cases x <;> cases y <;> simp_all [Value.Same, Value.same, Value.isNull]

private theorem same_without_null {xs ys : List Value} (same : List.Forall₂ Value.Same xs ys) :
    List.Forall₂ Value.Same (xs.filter (!·.isNull)) (ys.filter (!·.isNull)) := by
  induction same with
  | nil => exact .nil
  | @cons x y _ _ head _ ih =>
    rw [List.filter_cons, List.filter_cons, same_isNull head]
    split
    · exact .cons head ih
    · exact ih

private theorem filter_eq_strings {xs ys : List Value} (same : List.Forall₂ Value.Same xs ys) (texts : List String) :
    xs.filter (!·.isNull) = texts.map .string ↔ ys.filter (!·.isNull) = texts.map .string := by
  have nonNull := same_without_null same
  constructor
  · intro all
    exact same_strings_left (all ▸ nonNull)
  · intro all
    exact same_strings_right (all ▸ nonNull)

private theorem stringEnum_iff {a b : Keywords} (type : a.type = b.type)
    (same : Option.Rel (List.Forall₂ Value.Same) a.literals b.literals) (literals : List String) :
    StringEnum a literals ↔ StringEnum b literals := by
  have primary : primary? a = primary? b := by rw [primary?, primary?, type]
  unfold StringEnum
  rw [primary]
  generalize a.literals = first at same ⊢
  generalize b.literals = second at same ⊢
  cases same with
  | none => rfl
  | some same => simp [filter_eq_strings same]

private theorem rel_of_map {α β : Type} {related : β → β → Prop} {f : α → β} {x y : Option α}
    (rel : Option.Rel related (x.map f) (y.map f)) : Option.Rel (fun a b => related (f a) (f b)) x y := by
  cases x <;> cases y <;> cases rel
  · exact .none
  · exact .some (by assumption)

private theorem sameSchemas_of_written {xs ys : List SchemaNode}
    (rel : Option.Rel Value.Same (writtenList xs) (writtenList ys)) : List.Forall₂ SameSchema xs ys := by
  cases xs <;> cases ys <;> simp only [writtenList, reduceCtorEq, if_false, if_true] at rel
  · exact .nil
  · cases rel
  · cases rel
  · cases rel with
    | some same => simpa [List.forall₂_map_left_iff, List.forall₂_map_right_iff] using Value.same_array.mp same

private theorem nil_iff_nil {α : Type} {related : α → α → Prop} {xs ys : List α} (all : List.Forall₂ related xs ys) :
    xs = [] ↔ ys = [] := by
  cases all <;> simp

private theorem sameProperties_of_written {xs ys : List (String × SchemaNode)}
    (rel : Option.Rel Value.Same (writtenProperties xs) (writtenProperties ys)) :
    (xs = [] ↔ ys = []) ∧ ∀ entry ∈ xs, ∃ other ∈ ys, SameSchema entry.2 other.2 := by
  cases xs <;> cases ys <;> simp only [writtenProperties, reduceCtorEq, if_false, if_true] at rel
  · simp
  · cases rel
  · cases rel
  · cases rel with
    | some same =>
      refine ⟨by simp, fun entry member => ?_⟩
      obtain ⟨value, found, same⟩ := (Value.same_object.mp same).2 _ (List.mem_map.mpr ⟨entry, member, rfl⟩)
      obtain ⟨other, listed, written⟩ := List.mem_map.mp (Value.mem_of_lookup found)
      rw [← (Prod.mk.inj written).2] at same
      exact ⟨other, listed, same⟩

private theorem sameValues_of_written {a b : Option (Additional SchemaNode)}
    (rel : Option.Rel (fun a b => (writtenAdditional a).Same (writtenAdditional b)) a b) (node : SchemaNode)
    (values : a = some (.schema node)) : ∃ other, b = some (.schema other) ∧ SameSchema node other := by
  subst values
  cases rel with
  | @some _ other same =>
    cases other with
    | schema other => exact ⟨other, rfl, same⟩
    | flag allowed =>
      obtain ⟨fields, written⟩ : ∃ fields, node.toValue = .object fields := by
        rcases exists_draft node with ⟨target, rfl⟩ | ⟨draft, rfl⟩
        · exact ⟨_, rfl⟩
        · obtain ⟨fields, written, -⟩ := exists_writes draft
          exact ⟨fields, written⟩
      simp [writtenAdditional, written, Value.Same, Value.same] at same

theorem alike_of_same {a b : Draft} (distinct : DistinctKeys a.schema) (same : SameSchema a.schema b.schema) :
    Alike a b := by
  obtain ⟨fields, written, first⟩ := exists_writes a
  obtain ⟨others, writtenOther, second⟩ := exists_writes b
  rw [DistinctKeys, written, Value.hasDistinctKeys_object] at distinct
  rw [SameSchema, written, writtenOther] at same
  have under {key : String} {x y : Option Value} (here : fields.lookup key = x) (there : others.lookup key = y) :
      Option.Rel Value.Same x y := here ▸ there ▸ Value.lookup_same distinct.1 same key
  have type : a.keywords.type = b.keywords.type := by
    have rel := rel_of_map (under first.type second.type)
    generalize a.keywords.type = x at rel ⊢
    generalize b.keywords.type = y at rel ⊢
    cases rel with
    | none => rfl
    | some same => exact congrArg some (type_eq same)
  have literals : Option.Rel (List.Forall₂ Value.Same) a.keywords.literals b.keywords.literals := by
    simpa only [Value.same_array] using rel_of_map (under first.literals second.literals)
  have properties := sameProperties_of_written (under first.properties second.properties)
  exact {
    type
    enumeration := stringEnum_iff type literals
    properties := properties.2
    noProperties := properties.1
    items := rel_of_map (f := SchemaNode.toValue) (under first.items second.items)
    values := sameValues_of_written (rel_of_map (under first.additional second.additional))
    allOf := sameSchemas_of_written (under first.allOf second.allOf)
    oneOf := nil_iff_nil (sameSchemas_of_written (under first.oneOf second.oneOf))
    anyOf := nil_iff_nil (sameSchemas_of_written (under first.anyOf second.anyOf)) }

end ClientForge.Resolve
