import ClientForge.Proofs.ResolverTranslation
import ClientForge.Proofs.PlanCorrespondence

/-! Properties whose schema is an `allOf` with a single member. The value of such a property is that of the member, entry
by entry. What admits null is asked of the wrapper only: where just the member admits null, the property does not. -/

namespace ClientForge.Resolve
open Api Document

/-- A schema that has nothing of its own to say about its values but that they are those of an inline member. -/
structure WrapsInline (wrapper member : Draft) : Prop where
  allOf : wrapper.allOf = [member.schema]
  properties : wrapper.properties = []
  literals : wrapper.keywords.literals = none
  oneOf : wrapper.oneOf = []
  anyOf : wrapper.anyOf = []

variable {components : Table String SchemaNode} {follow : String → Resolving Schema} {wrapper member : Draft}

private theorem WrapsInline.wraps (inline : WrapsInline wrapper member) : Wraps wrapper member.schema where
  inPlace := by
    rintro (⟨_, -, _, _, listed, -⟩ | object)
    · rw [inline.literals] at listed
      cases listed
    · exact object.properties inline.properties
  single := inline.allOf
  bare := inline.properties

private theorem WrapsInline.ofNode (inline : WrapsInline wrapper member) :
    Shape.ofNode wrapper.schema = .member (Shape.ofNode member.schema) := by
  have noEnum : literals? wrapper.keywords = none := by simp [literals?, inline.literals]
  obtain ⟨keywords, items, _, additional, _, _, _⟩ := wrapper
  obtain ⟨rfl, rfl, -, rfl, rfl⟩ := inline
  rw [Draft.schema, Shape.ofNode.eq_def]
  simp only [noEnum, List.isEmpty_nil, Bool.not_true, Bool.and_false, Bool.false_eq_true, if_false]

/-- The field of a property with what another schema says about null, and with its description. -/
def labelled (schema : Draft) (field : String × Property Schema) : String × Property Schema :=
  (field.1, { field.2 with nullable := isNullable schema.keywords, description := schema.keywords.description })

private theorem properties_wrapped (inline : WrapsInline wrapper member) (required : List String) (name : String)
    (before behind : List (String × SchemaNode)) :
    properties components follow (fieldsOf required (before ++ (name, wrapper.schema) :: behind)) =
      (fun fields => fields.modify before.length (labelled wrapper)) <$>
        properties components follow (fieldsOf required (before ++ (name, member.schema) :: behind)) := by
  induction before with
  | nil =>
    rw [List.nil_append, List.nil_append, fieldsOf, fieldsOf, properties, properties]
    simp only [inline.ofNode, usage, map_bind, map_pure]
    rfl
  | cons entry before ih =>
    obtain ⟨key, node⟩ := entry
    rw [List.cons_append, List.cons_append, fieldsOf, fieldsOf, properties, properties]
    simp only [ih, map_bind, bind_map_left, map_pure]
    rfl

private theorem within_map {α β : Type} (name : String) (f : α → β) (program : Resolving α) :
    within name (f <$> program) = f <$> within name program := by
  have settled (result : Except ReferenceFault α) :
      (MonadExcept.ofExcept (f <$> result) : Resolving β) = f <$> MonadExcept.ofExcept result := by
    cases result <;> rfl
  have lifted : (ExceptT.lift (f <$> program).run : Resolving (Except ReferenceFault β)) =
      Functor.map f <$> ExceptT.lift program.run := by
    rw [ExceptT.run_map]
    apply ExceptT.ext
    simp only [ExceptT.run_lift, ExceptT.run_map, Functor.map_map]
    rfl
  unfold within
  simp only [lifted, map_bind, bind_map_left, settled]

private theorem ofNode_object {draft : Draft} (object : IsObject draft) :
    Shape.ofNode draft.schema = .record draft.schema.toValue (fieldsOf draft.keywords.required draft.properties) := by
  rw [Draft.schema, Shape.ofNode.eq_def]
  simp only [literals?_eq_none.mpr object.noEnum, if_pos ((isObject_iff object.noEnum).mpr object)]

/-- A property that its wrapper has the say about: whether it may be absent and whether it may be null. -/
structure LabelOf (required : List String) (declared : String × SchemaNode) (field : String × Property Schema) : Prop where
  name : field.1 = declared.1
  required : field.2.required = true ↔ declared.1 ∈ required
  nullable : field.2.nullable = true ↔ AdmitsNull declared.2

private theorem run_any {α : Type} {program : Resolving α} {registry : Registry} :
    Run program registry (fun _ _ => True) fun _ _ => True := by
  unfold Run
  split <;> trivial

private theorem properties_labels (required : List String) (declared : List (String × SchemaNode)) (registry : Registry) :
    Run (properties components follow (fieldsOf required declared)) registry
      (fun fields _ => List.Forall₂ (LabelOf required) declared fields) fun _ _ => True := by
  induction declared generalizing registry with
  | nil =>
    rw [fieldsOf, properties]
    exact .pure .nil
  | cons entry declared ih =>
    obtain ⟨name, node⟩ := entry
    rw [fieldsOf, properties]
    refine .get_bind (run_any.bind fun schema after _ => (ih after).bind fun others last labels => ?_)
    exact .pure (.cons ⟨rfl, by simp, nullable_iff node⟩ labels)

private theorem entry_labels {draft : Draft} (object : IsObject draft) (owner : String) (registry : Registry) :
    Run (entry components follow owner (Shape.ofNode draft.schema)) registry
      (fun schema _ => ∃ fields, schema = .object fields ∧
        List.Forall₂ (LabelOf draft.keywords.required) draft.properties fields) fun _ _ => True := by
  rw [ofNode_object object, entry]
  refine .within (.map ((properties_labels _ _ _).mono (fun fields _ labels => ?_) fun _ _ _ => trivial))
  exact ⟨fields, rfl, labels⟩

theorem isOptional_ofProperty (name : String) (property : Property Schema) (typeName : String → String) :
    ((TypeRef.ofProperty name property).rename typeName).isOptional = (!property.required || property.nullable) := by
  have definite := TypeRef.isDefinite_ofSchema name property.schema
  unfold TypeRef.ofProperty
  split
  next absent =>
    rw [TypeRef.orAbsent_of_isDefinite definite, absent]
    rfl
  next present =>
    rw [Bool.not_eq_true] at present
    rw [present]
    rw [← TypeRef.isDefinite_rename typeName] at definite
    cases type : (TypeRef.ofSchema name property.schema).rename typeName with
    | optional => rw [type] at definite; cases definite
    | _ => rfl

def changeField (place : Nat) (change : String × Property Schema → String × Property Schema) : Schema → Schema
  | .object fields => .object (fields.modify place change)
  | schema => schema

/-- An object of which a property wraps a single member is resolved as if the member stood in its place, to the same schema
and with the same entries; only what is said about null and the description are the wrapper's. So the property may be null
if the wrapper admits it, and what admits null in the member is lost unless the wrapper does, too. -/
theorem object_wrapped {draft : Draft} {before behind : List (String × SchemaNode)} {name : String} (object : IsObject draft)
    (place : draft.properties = before ++ (name, wrapper.schema) :: behind) (inline : WrapsInline wrapper member)
    (names : Candidates) (owner : String) :
    usage components follow (Shape.ofNode draft.schema) names = enter components follow names draft.schema.toValue
        (fun owner => entry components follow owner (Shape.ofNode draft.schema)) ∧
      entry components follow owner (Shape.ofNode draft.schema) =
        changeField before.length (labelled wrapper) <$> entry components follow owner
          (Shape.ofNode { draft with properties := before ++ (name, member.schema) :: behind }.schema) ∧
      ∀ registry schema after,
        (entry components follow owner (Shape.ofNode draft.schema)).run.run registry = (.ok schema, after) →
        ∃ fields field, schema = .object fields ∧ fields[before.length]? = some field ∧
          LabelOf draft.keywords.required (name, wrapper.schema) field ∧
          ((field.2.nullable = true ↔ AdmitsNull wrapper.schema ∨ AdmitsNull member.schema) ↔
            (AdmitsNull member.schema → AdmitsNull wrapper.schema)) ∧
          ∀ typeName, ((TypeRef.ofProperty name field.2).rename typeName).isOptional = true ↔
            name ∉ draft.keywords.required ∨ AdmitsNull wrapper.schema := by
  let other : Draft := { draft with properties := before ++ (name, member.schema) :: behind }
  have alike : IsObject other := ⟨object.noEnum, object.type, by simp [other]⟩
  refine ⟨?_, ?_, ?_⟩
  · rw [ofNode_object object, usage]
    rfl
  · rw [ofNode_object object, ofNode_object alike, entry, entry, place, properties_wrapped inline, within_map, within_map,
      within_map, Functor.map_map, Functor.map_map]
    rfl
  · intro registry schema after ended
    obtain ⟨fields, rfl, labels⟩ := (entry_labels object owner registry).of_ok ended
    obtain ⟨length, each⟩ := List.forall₂_iff_get.mp labels
    have inside : before.length < draft.properties.length := by simp [place]
    have declared : draft.properties.get ⟨before.length, inside⟩ = (name, wrapper.schema) := by simp [place]
    have listed : before.length < fields.length := length ▸ inside
    have label : LabelOf draft.keywords.required (name, wrapper.schema) fields[before.length] :=
      declared ▸ each before.length inside listed
    refine ⟨fields, _, rfl, List.getElem?_eq_getElem listed, label, ?_, fun typeName => ?_⟩
    · rw [label.nullable]
      exact iff_comm.trans or_iff_left_iff_imp
    · rw [isOptional_ofProperty, Bool.or_eq_true, Bool.not_eq_true', ← Bool.not_eq_true]
      exact or_congr (not_congr label.required) label.nullable

def nullableText : Draft := { Draft.blank with keywords := ⟨some (.one "string"), none, none, [], true, none⟩ }

def wrappedText : Draft := { Draft.blank with allOf := [nullableText.schema] }

/-- An object of which such a text is required, as the single member of an `allOf`. -/
def noteObject : Draft :=
  { Draft.blank with
    keywords := ⟨some (.one "object"), none, none, ["text"], false, none⟩
    properties := [("text", wrappedText.schema)] }

theorem noteObject_isObject : IsObject noteObject :=
  ⟨by simp [IsEnum, StringEnum, noteObject], Or.inr rfl, by simp [noteObject]⟩

theorem wrappedText_wraps : WrapsInline wrappedText nullableText := ⟨rfl, rfl, rfl, rfl, rfl⟩

theorem noteObject_wrapped : IsObject noteObject ∧ WrapsInline wrappedText nullableText ∧
    entry .empty (Resolve.follow .empty) "Note" (Shape.ofNode noteObject.schema) =
      changeField 0 (labelled wrappedText) <$> entry .empty (Resolve.follow .empty) "Note"
        (Shape.ofNode { noteObject with properties := [("text", nullableText.schema)] }.schema) := by
  have place : noteObject.properties = [] ++ ("text", wrappedText.schema) :: [] := rfl
  exact ⟨noteObject_isObject, wrappedText_wraps,
    (object_wrapped noteObject_isObject place wrappedText_wraps ⟨"Note", []⟩ "Note").2.1⟩

/-- The text admits null, and still the property that wraps it may neither be null nor absent. -/
theorem noteObject_refusesNull : "text" ∈ noteObject.keywords.required ∧ WrapsInline wrappedText nullableText ∧
    AdmitsNull nullableText.schema ∧ ∃ property,
      ((resolveAt .empty noteObject.schema "note").run.run .empty).2.schemas.entries = [("Note", .object [("text", property)])] ∧
      property.nullable = false ∧ (TypeRef.ofProperty "text" property).isOptional = false :=
  ⟨List.mem_singleton.mpr rfl, wrappedText_wraps, Or.inl rfl, ⟨.primitive .string none, true, false, none⟩, by rfl, rfl, rfl⟩

end ClientForge.Resolve
