import Mathlib.Data.List.Forall2
import ClientForge.Document.Pointer
import ClientForge.Proofs.SchemaReading
import ClientForge.Proofs.TableEntries
import ClientForge.Resolve.Registry

/-! What a resolved schema says about the schema of the document that it comes from, one level deep: a use
of an object or an enumeration is a reference to an entry with the same definition, and only that entry
says more. Nothing here runs, so that the translation of a schema that comes back to itself is still finite. -/

namespace ClientForge.Resolve
open Api Document

/-- The definition behind a name: that of its component, or the one recorded for an inline schema. -/
def definitionAt (components : Table String SchemaNode) (registry : Registry) (name : String) : Option Value :=
  match components.get? name with
  | some node => node.definition?
  | none => registry.origins.get? name

/-- Definitions are the same if they are written the same. -/
def SameDefinition (own other : Value) : Prop := own = other ∨ own.same other = true

/-- The name of an entry with the same definition. -/
structure EntryFor (components : Table String SchemaNode) (registry : Registry) (definition : Value)
    (name : String) : Prop where
  present : name ∈ registry.schemas.keys
  same : ∃ own, definitionAt components registry name = some own ∧ SameDefinition own definition

/-- The schema that an entry is for: the component of its name, or a recorded definition. -/
inductive Declares (components : Table String SchemaNode) (registry : Registry) (name : String) :
    SchemaNode → Prop where
  | component {node : SchemaNode} (declared : components.get? name = some node) :
      Declares components registry name node
  | recorded {draft : Draft} (undeclared : name ∉ components.keys)
      (origin : registry.origins.get? name = some draft.schema.toValue) :
      Declares components registry name draft.schema

variable {components : Table String SchemaNode} {registry before after : Registry}

variable (components registry) in
/-- How a schema is translated where it is used. -/
inductive UsageOf : SchemaNode → Schema → Prop where
  | reference {target : Reference} {name : String}
      (component : componentName? target.location "schemas" = some name)
      (present : name ∈ registry.schemas.keys) : UsageOf (.ref target) (.reference name)
  | hoisted {draft : Draft} {name : String} (hoisted : Hoisted draft)
      (named : EntryFor components registry draft.schema.toValue name) :
      UsageOf draft.schema (.reference name)
  | member {draft : Draft} {node : SchemaNode} {schema : Schema} (wraps : Wraps draft node)
      (inner : UsageOf node schema) : UsageOf draft.schema schema
  | combined {draft : Draft} (combined : Combined draft) : UsageOf draft.schema .unknown
  | array {draft : Draft} {node : SchemaNode} {schema : Schema} (plain : Plain draft)
      (type : primary? draft.keywords = some "array") (items : draft.items = some node)
      (inner : UsageOf node schema) : UsageOf draft.schema (.array schema)
  | anyArray {draft : Draft} (plain : Plain draft) (type : primary? draft.keywords = some "array")
      (items : draft.items = none) : UsageOf draft.schema (.array .unknown)
  | map {draft : Draft} {node : SchemaNode} {schema : Schema} (plain : Plain draft)
      (type : ObjectType draft.keywords) (values : draft.additional = some (.schema node))
      (inner : UsageOf node schema) : UsageOf draft.schema (.map schema)
  | free {draft : Draft} (plain : Plain draft) (type : ObjectType draft.keywords)
      (values : ∀ node, draft.additional ≠ some (.schema node)) : UsageOf draft.schema .unknown
  | scalar {draft : Draft} {keyword : String} {kind : Primitive} (plain : Plain draft)
      (type : primary? draft.keywords = some keyword) (known : Primitive.ofKeyword? keyword = some kind) :
      UsageOf draft.schema (.primitive kind draft.keywords.format)
  | unsupported {draft : Draft} {keyword : String} (plain : Plain draft)
      (type : primary? draft.keywords = some keyword) (other : keyword ≠ "array" ∧ keyword ≠ "object")
      (unknown : Primitive.ofKeyword? keyword = none) : UsageOf draft.schema .unknown

/-- Null is admitted by a flag or by the type; a reference does not say. -/
def AdmitsNull : SchemaNode → Prop
  | .ref _ => False
  | .inline keywords .. => keywords.nullable = true ∨ ∃ type, keywords.type = some type ∧ "null" ∈ type.names

def inlineDescription : SchemaNode → Option String
  | .ref _ => none
  | .inline keywords .. => keywords.description

variable (components registry) in
/-- A property under its own name, with the translation of its schema. -/
structure FieldOf (required : List String) (declared : String × SchemaNode)
    (field : String × Property Schema) : Prop where
  name : field.1 = declared.1
  schema : UsageOf components registry declared.2 field.2.schema
  required : field.2.required = true ↔ declared.1 ∈ required
  nullable : field.2.nullable = true ↔ AdmitsNull declared.2
  description : field.2.description = inlineDescription declared.2

variable (components registry) in
/-- How a schema is translated where it has an entry of its own. -/
inductive EntryOf : SchemaNode → Schema → Prop where
  | reference {target : Reference} {name : String}
      (component : componentName? target.location "schemas" = some name)
      (present : name ∈ registry.schemas.keys) : EntryOf (.ref target) (.reference name)
  | enumeration {draft : Draft} {literals : List String} (literal : StringEnum draft.keywords literals) :
      EntryOf draft.schema (.enumeration literals)
  | object {draft : Draft} {fields : List (String × Property Schema)} (object : IsObject draft)
      (each : List.Forall₂ (FieldOf components registry draft.keywords.required) draft.properties fields) :
      EntryOf draft.schema (.object fields)
  | usage {draft : Draft} {schema : Schema} (inPlace : ¬ Hoisted draft)
      (usage : UsageOf components registry draft.schema schema) : EntryOf draft.schema schema

variable (components registry) in
/-- An entry that is for some schema and translates it. -/
def Faithful (entry : String × Schema) : Prop :=
  ∃ node, Declares components registry entry.1 node ∧ EntryOf components registry node entry.2

/-- A later registry: no entry is lost, and a recorded definition stays. -/
structure Keeps (before after : Registry) : Prop where
  present : ∀ name ∈ before.schemas.keys, name ∈ after.schemas.keys
  origins : before.origins.entries <+: after.origins.entries

theorem EntryFor.mono {definition : Value} {name : String} (keeps : Keeps before after)
    (entry : EntryFor components before definition name) : EntryFor components after definition name := by
  obtain ⟨own, found, same⟩ := entry.same
  refine ⟨keeps.present name entry.present, own, ?_, same⟩
  unfold definitionAt at *
  split at found
  next node declared => simpa only [declared] using found
  next undeclared => simpa only [undeclared] using Table.get?_of_prefix keeps.origins found

theorem Declares.mono {name : String} {node : SchemaNode} (keeps : Keeps before after)
    (declares : Declares components before name node) : Declares components after name node := by
  cases declares with
  | component declared => exact .component declared
  | recorded undeclared origin => exact .recorded undeclared (Table.get?_of_prefix keeps.origins origin)

theorem UsageOf.mono {node : SchemaNode} {schema : Schema} (keeps : Keeps before after)
    (usage : UsageOf components before node schema) : UsageOf components after node schema := by
  induction usage with
  | reference component present => exact .reference component (keeps.present _ present)
  | hoisted hoisted named => exact .hoisted hoisted (named.mono keeps)
  | member wraps _ inner => exact .member wraps inner
  | combined combined => exact .combined combined
  | array plain type items _ inner => exact .array plain type items inner
  | anyArray plain type items => exact .anyArray plain type items
  | map plain type values _ inner => exact .map plain type values inner
  | free plain type values => exact .free plain type values
  | scalar plain type known => exact .scalar plain type known
  | unsupported plain type other unknown => exact .unsupported plain type other unknown

theorem FieldOf.mono {required : List String} {declared : String × SchemaNode}
    {field : String × Property Schema} (keeps : Keeps before after)
    (fieldOf : FieldOf components before required declared field) :
    FieldOf components after required declared field :=
  { fieldOf with schema := fieldOf.schema.mono keeps }

theorem EntryOf.mono {node : SchemaNode} {schema : Schema} (keeps : Keeps before after)
    (entry : EntryOf components before node schema) : EntryOf components after node schema := by
  cases entry with
  | reference component present => exact .reference component (keeps.present _ present)
  | enumeration literal => exact .enumeration literal
  | object object each => exact .object object (each.imp fun _ _ field => field.mono keeps)
  | usage inPlace usage => exact .usage inPlace (usage.mono keeps)

theorem Faithful.mono {entry : String × Schema} (keeps : Keeps before after)
    (faithful : Faithful components before entry) : Faithful components after entry := by
  obtain ⟨node, declares, translated⟩ := faithful
  exact ⟨node, declares.mono keeps, translated.mono keeps⟩

theorem Declares.definition_eq {name : String} {node : SchemaNode} (declares : Declares components registry name node) :
    node.definition? = definitionAt components registry name := by
  unfold definitionAt
  cases declares with
  | component declared => simp only [declared]
  | recorded undeclared origin => simp only [Table.get?_eq_none.mpr undeclared, origin]; rfl

/-- Behind every name that stands for a definition there is an entry that translates the same definition. -/
theorem EntryFor.translated {definition : Value} {name : String}
    (entry : EntryFor components registry definition name)
    (faithful : ∀ entry ∈ registry.schemas.entries, Faithful components registry entry) :
    ∃ node schema own, registry.schemas.get? name = some schema ∧ EntryOf components registry node schema ∧
      node.definition? = some own ∧ SameDefinition own definition := by
  obtain ⟨own, found, same⟩ := entry.same
  obtain ⟨schema, written⟩ := Table.mem_keys.mp entry.present
  obtain ⟨node, declares, translated⟩ := faithful _ (Table.get?_eq_some.mp written)
  exact ⟨node, schema, own, written, translated, declares.definition_eq.trans found, same⟩

/-- A schema as it may stand anywhere but at the top of an entry: no object and no enumeration is in it. -/
inductive IsUsage : Schema → Prop where
  | primitive {kind : Primitive} {format : Option String} : IsUsage (.primitive kind format)
  | array {items : Schema} (inner : IsUsage items) : IsUsage (.array items)
  | map {values : Schema} (inner : IsUsage values) : IsUsage (.map values)
  | reference {name : String} : IsUsage (.reference name)
  | unknown : IsUsage .unknown

theorem UsageOf.isUsage {node : SchemaNode} {schema : Schema} (usage : UsageOf components registry node schema) :
    IsUsage schema := by
  induction usage with
  | reference | hoisted => exact .reference
  | member _ _ inner => exact inner
  | array _ _ _ _ inner => exact .array inner
  | anyArray => exact .array .unknown
  | map _ _ _ _ inner => exact .map inner
  | scalar => exact .primitive
  | combined | free | unsupported => exact .unknown

/-- A schema as an entry may hold it: objects and enumerations stand at its top only. -/
inductive IsEntry : Schema → Prop where
  | enumeration {literals : List String} : IsEntry (.enumeration literals)
  | object {fields : List (String × Property Schema)} (each : ∀ field ∈ fields, IsUsage field.2.schema) :
      IsEntry (.object fields)
  | usage {schema : Schema} (usage : IsUsage schema) : IsEntry schema

theorem IsEntry.property {fields : List (String × Property Schema)} (entry : IsEntry (.object fields))
    {field : String × Property Schema} (listed : field ∈ fields) : IsUsage field.2.schema := by
  cases entry with
  | object each => exact each field listed
  | usage usage => cases usage

theorem UsageOf.references_present {node : SchemaNode} {schema : Schema}
    (usage : UsageOf components registry node schema) : ∀ name ∈ schema.references, name ∈ registry.schemas.keys := by
  induction usage with
  | reference component present => simpa [Schema.references] using present
  | hoisted hoisted named => simpa [Schema.references] using named.present
  | member _ _ inner => exact inner
  | array _ _ _ _ inner | map _ _ _ _ inner => simpa only [Schema.references] using inner
  | anyArray | combined | free | scalar | unsupported => simp [Schema.references]

theorem mem_propertyReferences {name : String} {fields : List (String × Property Schema)} :
    name ∈ Schema.propertyReferences fields ↔ ∃ field ∈ fields, name ∈ field.2.schema.references := by
  induction fields with
  | nil => simp [Schema.propertyReferences]
  | cons field fields ih =>
    obtain ⟨key, schema, required, nullable, description⟩ := field
    simp [Schema.propertyReferences, ih]

theorem mem_propertyDirectReferences {name : String} {fields : List (String × Property Schema)} :
    name ∈ Schema.propertyDirectReferences fields ↔ ∃ field ∈ fields, name ∈ field.2.schema.directReferences := by
  induction fields with
  | nil => simp [Schema.propertyDirectReferences]
  | cons field fields ih =>
    obtain ⟨key, schema, required, nullable, description⟩ := field
    simp [Schema.propertyDirectReferences, ih]

theorem exists_of_mem_right {α β : Type} {related : α → β → Prop} {declared : List α} {fields : List β}
    {field : β} (all : List.Forall₂ related declared fields) (member : field ∈ fields) :
    ∃ entry ∈ declared, related entry field := by
  induction all with
  | nil => cases member
  | @cons entry _ _ _ first _ ih =>
    rcases List.mem_cons.mp member with rfl | later
    · exact ⟨entry, List.mem_cons_self .., first⟩
    · obtain ⟨other, listed, holds⟩ := ih later
      exact ⟨other, List.mem_cons_of_mem _ listed, holds⟩

theorem EntryOf.references_present {node : SchemaNode} {schema : Schema}
    (entry : EntryOf components registry node schema) : ∀ name ∈ schema.references, name ∈ registry.schemas.keys := by
  cases entry with
  | reference component present => simpa [Schema.references] using present
  | enumeration literal => simp [Schema.references]
  | usage inPlace usage => exact usage.references_present
  | object object each =>
    intro name member
    obtain ⟨field, listed, inside⟩ := mem_propertyReferences.mp (by simpa only [Schema.references] using member)
    obtain ⟨declared, _, fieldOf⟩ := exists_of_mem_right each listed
    exact fieldOf.schema.references_present name inside

theorem EntryOf.isEntry {node : SchemaNode} {schema : Schema} (entry : EntryOf components registry node schema) :
    IsEntry schema := by
  cases entry with
  | reference => exact .usage .reference
  | enumeration => exact .enumeration
  | usage _ usage => exact .usage usage.isUsage
  | object _ each =>
    refine .object fun field listed => ?_
    obtain ⟨declared, _, fieldOf⟩ := exists_of_mem_right each listed
    exact fieldOf.schema.isUsage

end ClientForge.Resolve
