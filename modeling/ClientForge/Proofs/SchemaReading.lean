import ClientForge.Proofs.TableEntries
import ClientForge.Resolve.Shape

/-! How a schema of a document reads, rule by rule: the keywords that make it an enumeration, an
object, a wrapper around its only member, a list, a map, a scalar or nothing that is supported.
`Shape.ofNode` gives every schema the shape that these rules give it. -/

namespace ClientForge.Resolve
open Api Document

/-- A string enumeration has these literals: the texts among its values without null, each once. -/
def StringEnum (keywords : Keywords) (literals : List String) : Prop :=
  (primary? keywords = none ∨ primary? keywords = some "string") ∧
    ∃ values texts, keywords.literals = some values ∧
      values.filter (!·.isNull) = texts.map Value.string ∧ texts ≠ [] ∧ literals = texts.eraseDups

def ObjectType (keywords : Keywords) : Prop :=
  primary? keywords = none ∨ primary? keywords = some "object"

def IsEnum (draft : Draft) : Prop := ∃ literals, StringEnum draft.keywords literals

/-- Objects with properties, unless they are string enumerations by their keywords. -/
structure IsObject (draft : Draft) : Prop where
  noEnum : ¬ IsEnum draft
  type : ObjectType draft.keywords
  properties : draft.properties ≠ []

/-- Objects and string enumerations get an entry wherever they are used. -/
def Hoisted (draft : Draft) : Prop := IsEnum draft ∨ IsObject draft

/-- A schema around the only member of its `allOf`. -/
structure Wraps (draft : Draft) (node : SchemaNode) : Prop where
  inPlace : ¬ Hoisted draft
  single : draft.allOf = [node]
  bare : draft.properties = []

/-- A schema of its own shape: no entry is needed for it, and no combinator has a say in it. -/
structure Plain (draft : Draft) : Prop where
  inPlace : ¬ Hoisted draft
  allOf : draft.allOf = []
  oneOf : draft.oneOf = []
  anyOf : draft.anyOf = []

/-- Combinators that say more than a single member. -/
structure Combined (draft : Draft) : Prop where
  inPlace : ¬ Hoisted draft
  some : draft.allOf ≠ [] ∨ draft.oneOf ≠ [] ∨ draft.anyOf ≠ []
  noWrapper : ∀ node, ¬ Wraps draft node

/-- How a schema reads. -/
inductive Reads : SchemaNode → Shape → Prop where
  | reference {target : Reference} : Reads (.ref target) (.reference target.location)
  | enumeration {draft : Draft} {literals : List String} (literal : StringEnum draft.keywords literals) :
      Reads draft.schema (.enumeration draft.schema.toValue literals)
  | object {draft : Draft} (object : IsObject draft)
      (fields : ∀ entry ∈ draft.properties, Reads entry.2 (Shape.ofNode entry.2)) :
      Reads draft.schema
        (.record draft.schema.toValue (fieldsOf draft.keywords.required draft.properties))
  | member {draft : Draft} {node : SchemaNode} {shape : Shape} (wraps : Wraps draft node)
      (inner : Reads node shape) : Reads draft.schema (.member shape)
  | combined {draft : Draft} (combined : Combined draft) : Reads draft.schema .unknown
  | array {draft : Draft} {node : SchemaNode} {shape : Shape} (plain : Plain draft)
      (type : primary? draft.keywords = some "array") (items : draft.items = some node)
      (inner : Reads node shape) : Reads draft.schema (.array (some shape))
  | anyArray {draft : Draft} (plain : Plain draft) (type : primary? draft.keywords = some "array")
      (items : draft.items = none) : Reads draft.schema (.array none)
  | map {draft : Draft} {node : SchemaNode} {shape : Shape} (plain : Plain draft)
      (type : ObjectType draft.keywords) (values : draft.additional = some (.schema node))
      (inner : Reads node shape) : Reads draft.schema (.map shape)
  | free {draft : Draft} (plain : Plain draft) (type : ObjectType draft.keywords)
      (values : ∀ node, draft.additional ≠ some (.schema node)) : Reads draft.schema .unknown
  | scalar {draft : Draft} {keyword : String} {kind : Primitive} (plain : Plain draft)
      (type : primary? draft.keywords = some keyword) (known : Primitive.ofKeyword? keyword = some kind) :
      Reads draft.schema (.scalar kind draft.keywords.format)
  | unsupported {draft : Draft} {keyword : String} (plain : Plain draft)
      (type : primary? draft.keywords = some keyword) (other : keyword ≠ "array" ∧ keyword ≠ "object")
      (unknown : Primitive.ofKeyword? keyword = none) : Reads draft.schema .unknown

theorem distinct_eq_eraseDups (items : List String) : distinct items = items.eraseDups := by
  have all : items.filter (· ∉ ([] : List String)) = items := List.filter_eq_self.mpr (by simp)
  rw [distinct, Table.foldl_new, all, List.nil_append]

theorem mapM_string?_eq_some {values : List Value} {texts : List String} :
    values.mapM Value.string? = some texts ↔ values = texts.map Value.string := by
  induction values generalizing texts with
  | nil => cases texts <;> simp
  | cons value values ih =>
    rw [List.mapM_cons]
    cases value with
    | string text =>
      cases texts with
      | nil => simp [Value.string?, Option.bind_eq_some_iff]
      | cons first texts => simpa [Value.string?, Option.bind_eq_some_iff, ← ih] using and_comm
    | _ => cases texts <;> simp [Value.string?]

theorem literals?_eq_some {keywords : Keywords} {literals : List String} :
    literals? keywords = some literals ↔ StringEnum keywords literals := by
  unfold literals? StringEnum
  by_cases type : primary? keywords = none ∨ primary? keywords = some "string"
  · simp only [Bool.or_eq_true, decide_eq_true_eq, type, if_true, true_and]
    constructor
    · intro read
      split at read
      next first rest found =>
        obtain ⟨values, listed, texts⟩ := Option.bind_eq_some_iff.mp found
        refine ⟨values, first :: rest, listed, mapM_string?_eq_some.mp texts, by simp, ?_⟩
        rw [← Option.some.inj read, distinct_eq_eraseDups]
      next => cases read
    · rintro ⟨values, texts, listed, all, some, rfl⟩
      obtain ⟨first, rest, rfl⟩ := List.exists_cons_of_ne_nil some
      rw [listed, Option.bind_some, mapM_string?_eq_some.mpr all]
      exact congrArg Option.some (distinct_eq_eraseDups _)
  · simp only [Bool.or_eq_true, decide_eq_true_eq, type, if_false, false_and, reduceCtorEq]

theorem literals?_eq_none {draft : Draft} : literals? draft.keywords = none ↔ ¬ IsEnum draft := by
  rw [Option.eq_none_iff_forall_ne_some, IsEnum, not_exists]
  exact forall_congr' fun literals => not_congr literals?_eq_some

private theorem mayBeObject_iff {keywords : Keywords} : mayBeObject keywords = true ↔ ObjectType keywords := by
  simp [mayBeObject, ObjectType]

theorem isObject_iff {draft : Draft} (noEnum : ¬ IsEnum draft) :
    (mayBeObject draft.keywords && !draft.properties.isEmpty) = true ↔ IsObject draft := by
  rw [Bool.and_eq_true, mayBeObject_iff, Bool.not_eq_true', List.isEmpty_eq_false_iff]
  exact ⟨fun both => ⟨noEnum, both.1, both.2⟩, fun object => ⟨object.type, object.properties⟩⟩

private theorem reads_plain {draft : Draft} (plain : Plain draft) {items values : Option Shape}
    (listed : ∀ shape, items = some shape → ∃ node, draft.items = some node ∧ Reads node shape)
    (unlisted : items = none → draft.items = none)
    (valued : ∀ shape, values = some shape → ∃ node, draft.additional = some (.schema node) ∧ Reads node shape)
    (unvalued : values = none → ∀ node, draft.additional ≠ some (.schema node)) :
    Reads draft.schema (Resolve.plain draft.keywords items values) := by
  have mapped (type : ObjectType draft.keywords) (shape : Shape) (found : values = some shape) :
      Reads draft.schema (.map shape) := by
    obtain ⟨node, additional, inner⟩ := valued shape found
    exact .map plain type additional inner
  unfold Resolve.plain
  split
  next type =>
    cases items with
    | some shape =>
      obtain ⟨node, items, inner⟩ := listed shape rfl
      exact .array plain type items inner
    | none => exact .anyArray plain type (unlisted rfl)
  next type =>
    cases values with
    | some shape => exact mapped (Or.inr type) shape rfl
    | none => exact .free plain (Or.inr type) (unvalued rfl)
  next type =>
    cases values with
    | some shape => exact mapped (Or.inl type) shape rfl
    | none => exact .free plain (Or.inl type) (unvalued rfl)
  next keyword noArray noObject type =>
    split
    next kind known => exact .scalar plain type known
    next unknown => exact .unsupported plain type ⟨noArray, noObject⟩ unknown

private theorem sizeOf_property_lt {entry : String × SchemaNode} {properties : List (String × SchemaNode)}
    (member : entry ∈ properties) : sizeOf entry.2 < sizeOf properties := by
  have smaller := List.sizeOf_lt_of_mem member
  obtain ⟨name, node⟩ := entry
  simp only [Prod.mk.sizeOf_spec] at smaller ⊢
  omega

theorem reads_ofNode : ∀ node : SchemaNode, Reads node (Shape.ofNode node)
  | .ref _ => .reference
  | .inline keywords items properties additional allOf oneOf anyOf => by
    let draft : Draft := ⟨keywords, items, properties, additional, allOf, oneOf, anyOf⟩
    change Reads draft.schema _
    rw [Shape.ofNode.eq_def]
    dsimp only
    split
    next literals literal => exact Reads.enumeration (literals?_eq_some.mp literal)
    next literal =>
      have noEnum : ¬ IsEnum draft := literals?_eq_none.mp literal
      split
      next object =>
        refine Reads.object ((isObject_iff noEnum).mp object) fun entry member => ?_
        have smaller : sizeOf entry.2 < sizeOf properties := sizeOf_property_lt member
        exact reads_ofNode entry.2
      next object =>
        have inPlace : ¬ Hoisted draft := fun hoisted =>
          hoisted.elim noEnum fun isObject => object ((isObject_iff noEnum).mpr isObject)
        split
        next node => exact Reads.member ⟨inPlace, rfl, rfl⟩ (reads_ofNode node)
        next notSingle =>
          split
          next combined =>
            refine .combined ⟨inPlace, ?_, fun node wraps => notSingle node wraps.single wraps.bare⟩
            simpa [or_assoc] using combined
          next plain =>
            simp only [Bool.or_eq_true, Bool.not_eq_true', List.isEmpty_eq_false_iff, not_or, ne_eq,
              Classical.not_not] at plain
            refine reads_plain ⟨inPlace, plain.1.1, plain.1.2, plain.2⟩ ?_ ?_ ?_ ?_
            · intro shape found
              split at found
              next node =>
                cases found
                exact ⟨node, rfl, reads_ofNode node⟩
              next => cases found
            · intro found
              split at found
              next => cases found
              next => rfl
            · intro shape found
              split at found
              next node =>
                cases found
                exact ⟨node, rfl, reads_ofNode node⟩
              next => cases found
            · intro found node additional
              split at found
              next => cases found
              next none => exact none node additional
termination_by node => sizeOf node

end ClientForge.Resolve
