import ClientForge.Proofs.DocumentTranslation
import ClientForge.Proofs.SourceNames

/-! What the file of a model shadows. No model has the name of a type of the language, so that all that can be hidden is
what the file imports. Aliases import nothing; any other model hides an import exactly if it is named like one, and there
is a model of such a name whenever the identifier of a schema in use is that name. -/

namespace ClientForge.Source
open Api Ident Plan

/-- A name that is declared in a source and also imported there, or used for a type that is not declared there. -/
def Shadows (lines : List String) (name : String) : Prop :=
  (Role.declared, name) ∈ lines.flatMap mentions ∧
    ((Role.imported, name) ∈ lines.flatMap mentions ∨ (Role.used, name) ∈ lines.flatMap mentions)

instance (lines : List String) (name : String) : Decidable (Shadows lines name) := inferInstanceAs (Decidable (_ ∧ _))

example : Shadows ["pub struct Box \x7b", "    pub lid: Option<Box<super::Box>>,", "\x7d"] "Box" ∧
    ¬ Shadows ["pub struct Lid \x7b", "    pub of: Option<Box<super::Lid>>,", "\x7d"] "Lid" := by decide +kernel

variable {model : Model} {config : Config} {settings : Settings} {decl : ModelDecl}

private theorem typeNameIn_valid (model : Model) (config : Config) (name : String) :
    IsTypeName (typeNameIn model config name) := by
  rw [typeNameIn, typeNameOf]
  cases found : ((usedSchemas model config).keys.zip (typeNames (usedSchemas model config))).lookup name with
  | none =>
    rw [Option.getD_none]
    exact (typeIdent_valid name).toIsTypeName
  | some typeName =>
    obtain ⟨before, behind, pairs, -⟩ := List.lookup_eq_some_iff.mp found
    have paired : (name, typeName) ∈ (usedSchemas model config).keys.zip (typeNames (usedSchemas model config)) := by
      simp [pairs]
    rw [Option.getD_some]
    exact (typeNames_valid _ typeName (List.of_mem_zip paired).2).toIsTypeName

private theorem names_valid (member : decl ∈ (build model config settings).models) :
    ∀ type ∈ decl.kind.types, ∀ name ∈ type.names, IsTypeName name := by
  have renamed (type : TypeRef) : ∀ name ∈ (type.rename (typeNameIn model config)).names, IsTypeName name := by
    intro name mentioned
    rw [names_rename] at mentioned
    obtain ⟨schema, -, rfl⟩ := List.mem_map.mp mentioned
    exact typeNameIn_valid model config schema
  have broken : ∀ name ∈ TypeRef.unknown.names, IsTypeName name := fun name none => by cases none
  obtain ⟨schema, -, kind⟩ := schema_of_model member
  rw [kind]
  cases schema with
  | object properties =>
    intro type listed
    obtain ⟨field, inside, rfl⟩ := List.mem_map.mp listed
    obtain ⟨⟨⟨key, property⟩, ident⟩, -, rfl⟩ := List.mem_map.mp inside
    exact renamed _
  | enumeration => exact fun type none => by cases none
  | reference | array | map =>
    simp only [modelKind]
    split <;> exact List.forall_mem_singleton.mpr (by first | exact renamed _ | exact broken)
  | primitive | unknown => exact List.forall_mem_singleton.mpr (renamed _)

/-- There is a model of an imported name exactly if the identifier of a schema in use is that name: what a scope adds to
identifiers ends with a digit. -/
private theorem named_iff {name : String} (imported : name ∈ codecNames) :
    (∃ decl ∈ (build model config settings).models, decl.typeName = name) ↔
      ∃ schema ∈ (usedSchemas model config).keys, typeIdent schema = name := by
  have planned : (build model config settings).models.map (·.typeName) = typeNames (usedSchemas model config) :=
    modelDecls_typeNames ..
  simp only [← List.mem_map, planned]
  constructor
  · intro allocated
    obtain ⟨wish, listed, rfl | ⟨n, rfl⟩⟩ := Resolve.exists_of_mem_right (Scope.allocateAll_named ..) allocated
    · exact listed
    · exact absurd imported (numbered_not_mem (by decide +kernel) _ n)
  · exact fun listed => Scope.mem_allocateAll listed List.not_mem_nil

private theorem not_languageType {name : String} (valid : IsModelName name) : name ∉ languageTypes := by
  have each : (languageTypes.all fun name => name ∈ reservedTypes || name.toList.head?.all fun c => !c.isUpper) = true := by
    decide +kernel
  intro listed
  obtain ⟨c, others, chars, upper, -⟩ := valid.grammar
  have other := List.all_eq_true.mp each name listed
  simp [chars, upper, valid.unreserved] at other

/-- The file of a model declares the model and nothing else. Types of the language are never hidden, and what the model
imports is hidden if the model has its name. -/
structure HidesOnlyImports (settings : Settings) (decl : ModelDecl) : Prop where
  declares : ∀ name, (Role.declared, name) ∈ (modelLines settings decl).flatMap mentions ↔ name = decl.typeName
  free : decl.typeName ∉ ["Option", "Vec", "String", "Box"]
  shadows : ∀ name, Shadows (modelLines settings decl) name ↔ name = decl.typeName ∧ name ∈ imports decl.kind

theorem hidesOnlyImports (spelled : decl.Spelled) (types : ∀ type ∈ decl.kind.types, ∀ name ∈ type.names, IsTypeName name)
    (settings : Settings) : HidesOnlyImports settings decl := by
  obtain ⟨used, known, lines⟩ := mentions_modelLines settings spelled types
  have declares (name : String) :
      (Role.declared, name) ∈ (modelLines settings decl).flatMap mentions ↔ name = decl.typeName := by
    simp [lines]
  have imported (name : String) :
      (Role.imported, name) ∈ (modelLines settings decl).flatMap mentions ↔ name ∈ imports decl.kind := by
    simp [lines]
  have uses (name : String) : (Role.used, name) ∈ (modelLines settings decl).flatMap mentions ↔ name ∈ used := by
    simp [lines]
  refine ⟨declares, fun listed => not_languageType spelled.typeName ?_, fun name => ?_⟩
  · have language : ["Option", "Vec", "String", "Box"] ⊆ languageTypes := by decide
    exact language listed
  · rw [Shadows, declares, imported, uses]
    refine and_congr_right fun own => or_iff_left fun member => ?_
    exact not_languageType spelled.typeName (own ▸ known name member)

/-- Whatever the document, the paths that are wanted and the settings, a model hides nothing in its file but an import of
the file, and that only by having its name. This comes about through the identifiers of schemas in use and in no other
way. -/
theorem build_hidesOnlyImports (model : Model) (config : Config) (settings : Settings) :
    (∀ decl ∈ (build model config settings).models, HidesOnlyImports settings decl) ∧
      ∀ name ∈ codecNames, (∃ decl ∈ (build model config settings).models, decl.typeName = name) ↔
        ∃ schema ∈ (usedSchemas model config).keys, typeIdent schema = name := by
  refine ⟨fun decl member => ?_, fun name imported => named_iff imported⟩
  exact hidesOnlyImports ((build_spelled model config settings).models decl member) (names_valid member) settings

/-- A document with one operation, whose response is an object that is called as the trait is that structs import. -/
def traitDocument : Document :=
  let text : Document.SchemaNode := .inline ⟨some (.one "string"), none, none, [], false, none⟩ none [] none [] [] []
  let object : Document.SchemaNode :=
    .inline ⟨some (.one "object"), none, none, ["text"], false, none⟩ none [("text", text)] none [] [] []
  let response : Document.Response :=
    ⟨none, ⟨[("application/json", ⟨some (.ref ⟨"#/components/schemas/Serialize", "", ""⟩)⟩)], by simp⟩⟩
  let operation : Document.Operation :=
    ⟨some "getNote", none, none, [], [], none, ⟨[("200", .inline response)], by simp⟩, false⟩
  ⟨"3.0.0", [], ⟨[("/notes", ⟨[], fun method => if method = .get then some operation else none⟩)], by simp⟩,
    some { Document.Components.none with schemas := ⟨[("Serialize", object)], by simp⟩ }⟩

def isObject : Schema → Bool
  | .object _ => true
  | _ => false

theorem traitDocument_accepted : ∃ model, Resolve.model traitDocument = .ok model ∧
    (model.schemas.entries.map fun entry => (entry.1, isObject entry.2),
      (wantedGroups model .standard).values.flatten.flatMap Operation.references) = ([("Serialize", true)], ["Serialize"]) :=
  Resolve.exists_of_read (by decide +kernel)

theorem traitDocument_shadows : ∃ model, Resolve.model traitDocument = .ok model ∧
    ∃ decl ∈ (build model .standard .standard).models, decl.typeName = "Serialize" ∧
      (∃ fields, decl.kind = .struct fields) ∧ Shadows (modelLines .standard decl) "Serialize" := by
  obtain ⟨model, accepted, read⟩ := traitDocument_accepted
  obtain ⟨schemas, mentioned⟩ := Prod.mk.inj read
  obtain ⟨⟨name, schema⟩, entries, declared⟩ := List.map_eq_singleton_iff.mp schemas
  obtain ⟨rfl, object⟩ := Prod.mk.inj declared
  have used : "Serialize" ∈ (usedSchemas model .standard).keys :=
    mem_usedSchemas.mpr ⟨"Serialize", by simp [mentioned], by simp [Table.keys, entries], .refl⟩
  have identifier : typeIdent "Serialize" = "Serialize" := by decide +kernel
  obtain ⟨decl, member, named⟩ : ∃ decl ∈ (build model .standard .standard).models, decl.typeName = "Serialize" :=
    (named_iff (by decide)).mpr ⟨"Serialize", used, identifier⟩
  obtain ⟨other, found, kind⟩ := schema_of_model member
  have listed := Table.get?_eq_some.mp (usedSchemas_get?.mp found).1
  rw [entries] at listed
  obtain ⟨-, rfl⟩ := Prod.mk.inj (List.mem_singleton.mp listed)
  have hides := hidesOnlyImports ((build_spelled model .standard .standard).models decl member) (names_valid member) .standard
  cases other with
  | object properties =>
    refine ⟨model, accepted, decl, member, named, ⟨_, kind⟩, (hides.shadows "Serialize").mpr ⟨named.symm, ?_⟩⟩
    rw [kind]
    exact List.mem_cons_of_mem _ (List.mem_singleton_self _)
  | _ => cases object

end ClientForge.Source
