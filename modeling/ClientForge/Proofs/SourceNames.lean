import ClientForge.Proofs.PlanIdentifiers
import ClientForge.Proofs.TypePlaces
import ClientForge.Source.Model
import ClientForge.Text.Split
import Mathlib.Data.List.TakeWhile

/-! The names in the source of a model, read off its lines: the types that it declares, those that it imports and those
that it uses at a place of a type. What a path leads to is not among them: nothing that is declared beside it can hide it. -/

namespace ClientForge.Source
open Ident Plan TypeRef

/-- What a name is there for. -/
inductive Role where
  | declared
  | imported
  | used
  deriving DecidableEq, Repr

def breaksPath (c : Char) : Bool := !(isNameChar c || c == ':')

/-- The paths of a text that are a single name. -/
def bareNames (text : List Char) : List String :=
  ((Text.splitWhere breaksPath text).filter fun path => path ≠ [] && !path.contains ':').map String.ofList

def after (c : Char) (text : List Char) : List Char := (text.dropWhile (· ≠ c)).tail

def nameAt (text : List Char) : List String := ([text.takeWhile isNameChar].filter (· ≠ [])).map String.ofList

/-- How a line begins that mentions names, and how the names are read off the rest of it. Types stand behind the colon of
a field, in the parentheses of a struct and behind the sign of an alias. What an enumeration implements is not read: it has
paths and the enumeration's own names only, and what is derived is no type. -/
def readers : List (String × (List Char → List (Role × String))) :=
  [("pub struct ", fun text => (nameAt text).map (Role.declared, ·) ++
      (bareNames (after ' ' (after '(' text))).map (Role.used, ·)),
    ("pub enum ", fun text => (nameAt text).map (Role.declared, ·)),
    ("pub type ", fun text => (nameAt text).map (Role.declared, ·) ++ (bareNames (after '=' text)).map (Role.used, ·)),
    ("use ", fun text => (bareNames text).map (Role.imported, ·)),
    ("    pub ", fun text => (bareNames (after ':' text)).map (Role.used, ·))]

/-- The names that a line declares, imports and uses. -/
def mentions (line : String) : List (Role × String) :=
  readers.flatMap fun reader =>
    if reader.1.toList.isPrefixOf line.toList then reader.2 (line.toList.drop reader.1.toList.length) else []

/-- Two texts that differ at some place, so that neither is how the other one begins. -/
def differ (first second : List Char) : Bool := (first.zip second).any fun pair => pair.1 != pair.2

private theorem begins_differ {front fixed line : List Char} (begins : fixed <+: line) (apart : differ front fixed = true) :
    front.isPrefixOf line = false := by
  obtain ⟨rest, rfl⟩ := begins
  induction front generalizing fixed with
  | nil => simp [differ] at apart
  | cons c front ih =>
    cases fixed with
    | nil => simp [differ] at apart
    | cons d fixed =>
      simp only [differ, List.zip_cons_cons, List.any_cons, Bool.or_eq_true, bne_iff_ne] at apart
      by_cases same : c = d
      · simpa [List.isPrefixOf, same] using ih (apart.resolve_left (not_not_intro same))
      · simp [List.isPrefixOf, same]

private theorem begins_front (front rest : String) : front.toList <+: (front ++ rest).toList := by
  rw [String.toList_append]
  exact List.prefix_append ..

private theorem begins_own (front rest : String) : front.toList.isPrefixOf (front ++ rest).toList = true :=
  List.isPrefixOf_iff_prefix.mpr (begins_front front rest)

private theorem begins_other {front fixed : String} (rest : String) (apart : differ front.toList fixed.toList = true) :
    front.toList.isPrefixOf (fixed ++ rest).toList = false := begins_differ (begins_front fixed rest) apart

private theorem drop_own (front rest : String) : (front ++ rest).toList.drop front.toList.length = rest.toList := by
  rw [String.toList_append, List.drop_left]

def lead (line : List Char) : Option Char := (line.dropWhile (· == ' ')).head?

private theorem lead_append {front rest : List Char} {c : Char} (first : lead front = some c) : lead (front ++ rest) = some c := by
  induction front with
  | nil => cases first
  | cons d front ih =>
    rw [lead, List.cons_append, List.dropWhile_cons] at *
    split
    next blank => exact ih (by rwa [if_pos blank] at first)
    next written => rwa [if_neg written] at first

/-- Lines that are read begin with one of two letters, so that others mention nothing. -/
theorem mentions_silent {line : String} {c : Char} (first : lead line.toList = some c) (other : c ∉ ['p', 'u']) :
    mentions line = [] := by
  have leads : (readers.all fun reader => (lead reader.1.toList).any (· ∈ ['p', 'u'])) = true := by decide +kernel
  refine List.flatMap_eq_nil_iff.mpr fun reader listed => if_neg fun begins => ?_
  obtain ⟨d, front, known⟩ := (Option.any_eq_true _ _).mp (List.all_eq_true.mp leads reader listed)
  obtain ⟨rest, same⟩ := List.isPrefixOf_iff_prefix.mp begins
  rw [← same, lead_append front, Option.some.injEq] at first
  exact other (first ▸ of_decide_eq_true known)

private theorem mentions_fixed {chars : List Char} {c : Char} (first : lead chars = some c) (other : c ∉ ['p', 'u']) :
    mentions (String.ofList chars) = [] := mentions_silent (String.toList_ofList ▸ first) other

private theorem mentions_front {front : List Char} {c : Char} (first : lead front = some c) (other : c ∉ ['p', 'u'])
    (rest : String) : mentions (String.ofList front ++ rest) = [] := by
  refine mentions_silent ?_ other
  rw [String.toList_append, String.toList_ofList, lead_append first]

private theorem mentions_blank : mentions "" = [] := by
  decide

theorem mentions_reader {front : String} {read : List Char → List (Role × String)} (listed : (front, read) ∈ readers)
    (rest : String) : mentions (front ++ rest) = read rest.toList := by
  simp only [readers, List.mem_cons, Prod.mk.injEq, List.not_mem_nil, or_false] at listed
  rcases listed with ⟨rfl, rfl⟩ | ⟨rfl, rfl⟩ | ⟨rfl, rfl⟩ | ⟨rfl, rfl⟩ | ⟨rfl, rfl⟩ <;>
    simp (disch := decide) only [mentions, readers, List.flatMap_cons, List.flatMap_nil, begins_own, begins_other, drop_own,
      if_true, Bool.false_eq_true, if_false, List.append_nil, List.nil_append]

@[simp]
theorem bareNames_nil : bareNames [] = [] := rfl

theorem bareNames_append {c : Char} (breaks : breaksPath c = true) (front rest : List Char) :
    bareNames (front ++ c :: rest) = bareNames front ++ bareNames rest := by
  rw [bareNames, Text.splitWhere_append_cons front rest breaks, List.filter_append, List.map_append]
  rfl

theorem bareNames_cons {c : Char} (breaks : breaksPath c = true) (rest : List Char) :
    bareNames (c :: rest) = bareNames rest := bareNames_append breaks [] rest

private theorem bareNames_word {word : String} (chars : ∀ c ∈ word.toList, isNameChar c = true) (nonempty : word.toList ≠ []) :
    bareNames word.toList = [word] := by
  have whole : Text.splitWhere breaksPath word.toList = [word.toList] :=
    Text.splitWhere_eq_singleton fun c member => by rw [breaksPath, chars c member]; rfl
  have noColon : ':' ∉ word.toList := fun member => absurd (chars _ member) (by decide)
  simp [bareNames, whole, nonempty, noColon]

private theorem bareNames_qualified {name : String} (valid : IsTypeName name) :
    bareNames (siblingQualifier ++ name).toList = [] := by
  have whole : Text.splitWhere breaksPath (siblingQualifier ++ name).toList = [(siblingQualifier ++ name).toList] := by
    refine Text.splitWhere_eq_singleton fun c member => ?_
    rw [String.toList_append] at member
    rcases List.mem_append.mp member with path | own
    · have all : (siblingQualifier.toList.all fun c => !breaksPath c) = true := by decide
      simpa using List.all_eq_true.mp all c path
    · rw [breaksPath, valid.chars c own]
      rfl
  have colon : ':' ∈ (siblingQualifier ++ name).toList := by
    rw [String.toList_append]
    exact List.mem_append_left _ (by decide)
  have held : (siblingQualifier ++ name).toList.contains ':' = true := List.contains_iff_mem.mpr colon
  rw [bareNames, whole, List.filter_cons_of_neg (by rw [held]; simp)]
  rfl

def languageTypes : List String := ["bool", "f32", "f64", "i32", "i64", "Box", "Option", "String", "Vec"]

/-- A type whose parameter is written behind a sign uses what stands in front of it and what the parameter uses. -/
private theorem mem_inside {front : List Char} {inner : String} (sign : front.getLast?.any breaksPath = true)
    (known : ∀ name ∈ bareNames front, name ∈ languageTypes) (each : ∀ name ∈ bareNames inner.toList, name ∈ languageTypes) :
    ∀ name ∈ bareNames (String.ofList front ++ inner ++ ">").toList, name ∈ languageTypes := by
  obtain ⟨c, last, breaks⟩ := (Option.any_eq_true _ _).mp sign
  obtain ⟨before, rfl⟩ := List.getLast?_eq_some_iff.mp last
  have parts : (String.ofList (before ++ [c]) ++ inner ++ ">").toList = before ++ c :: (inner.toList ++ ['>']) := by
    rw [String.toList_append, String.toList_append, String.toList_ofList, List.append_assoc, List.append_assoc]
    rfl
  rw [bareNames_append breaks, bareNames_nil, List.append_nil] at known
  rw [parts, bareNames_append breaks, bareNames_append (by decide), bareNames_nil, List.append_nil]
  exact fun name member => (List.mem_append.mp member).elim (known name) (each name)

theorem bareNames_text {type : TypeRef} (valid : ∀ name ∈ type.names, IsTypeName name) :
    ∀ name ∈ bareNames (type.text siblingQualifier).toList, name ∈ languageTypes := by
  induction type with
  | scalar kind =>
    have chars : ((scalarText kind).toList.all isNameChar && (scalarText kind).toList ≠ []) = true := by cases kind <;> decide
    have known : scalarText kind ∈ languageTypes := by cases kind <;> decide
    obtain ⟨letters, nonempty⟩ := Bool.and_eq_true_iff.mp chars
    change ∀ name ∈ bareNames (scalarText kind).toList, name ∈ languageTypes
    rw [bareNames_word (List.all_eq_true.mp letters) (of_decide_eq_true nonempty)]
    exact List.forall_mem_singleton.mpr known
  | list items inner => exact mem_inside rfl (by decide) (inner valid)
  | map values inner => exact mem_inside rfl (by decide) (inner valid)
  | named name =>
    intro bare member
    change bare ∈ bareNames (siblingQualifier ++ name).toList at member
    rw [bareNames_qualified (valid name (List.mem_singleton_self _))] at member
    cases member
  | optional value inner => exact mem_inside rfl (by decide) (inner valid)
  | unknown => decide

theorem bareNames_boxedText {type : TypeRef} (valid : ∀ name ∈ type.names, IsTypeName name) :
    ∀ name ∈ bareNames (type.boxedText siblingQualifier).toList, name ∈ languageTypes := by
  induction type with
  | optional value inner => exact mem_inside rfl (by decide) (inner valid)
  | named name =>
    have inside : ∀ bare ∈ bareNames ("Box<" ++ TypeRef.text siblingQualifier (.named name) ++ ">").toList,
        bare ∈ languageTypes := mem_inside rfl (by decide) (bareNames_text valid)
    have joined : "Box<" ++ siblingQualifier ++ name = "Box<" ++ (siblingQualifier ++ name) := String.append_assoc
    change ∀ bare ∈ bareNames ("Box<" ++ siblingQualifier ++ name ++ ">").toList, bare ∈ languageTypes
    rw [joined]
    exact inside
  | scalar | list | map | unknown => exact bareNames_text valid

private theorem after_append {c : Char} {front rest : List Char} (absent : c ∉ front) :
    after c (front ++ c :: rest) = rest := by
  rw [after, List.dropWhile_append_of_pos, List.dropWhile_cons_of_neg (by simp)]
  · rfl
  · intro d member
    simpa using fun same : d = c => absent (same ▸ member)

private theorem after_absent {c : Char} {text : List Char} (absent : c ∉ text) : after c text = [] := by
  have none : text.dropWhile (· ≠ c) = [] := by
    rw [List.dropWhile_eq_nil_iff]
    intro d member
    simpa using fun same : d = c => absent (same ▸ member)
  rw [after, none]
  rfl

private theorem nameAt_append {name : String} (valid : IsTypeName name) {c : Char} (ends : isNameChar c = false)
    (rest : List Char) : nameAt (name.toList ++ c :: rest) = [name] := by
  obtain ⟨first, others, chars, -, -⟩ := valid.grammar
  have taken : (name.toList ++ c :: rest).takeWhile isNameChar = name.toList := by
    rw [List.takeWhile_append_of_pos valid.chars, List.takeWhile_cons_of_neg (by simp [ends]), List.append_nil]
  have nonempty : name.toList ≠ [] := by simp [chars]
  simp [nameAt, taken, nonempty]

private theorem absent_of_valid {name : String} {c : Char} (chars : ∀ d ∈ name.toList, isNameChar d = true)
    (other : isNameChar c = false) : c ∉ name.toList :=
  fun member => by simp [chars c member] at other

theorem mentions_field {ident type : String} (named : IsValueName ident) :
    mentions ("    pub " ++ ident ++ ": " ++ type ++ ",") = (bareNames type.toList).map (Role.used, ·) := by
  have rest : (ident ++ (": " ++ (type ++ ","))).toList = ident.toList ++ ':' :: ' ' :: (type.toList ++ [',']) := by
    simp only [String.toList_append]
    rfl
  simp only [String.append_assoc]
  rw [mentions_reader (by simp [readers]; rfl), rest, after_append (absent_of_valid named.chars (by decide)),
    bareNames_cons (by decide), bareNames_append (by decide), bareNames_nil, List.append_nil]

theorem mentions_struct {name : String} (valid : IsTypeName name) :
    mentions ("pub struct " ++ name ++ " \x7b") = [(.declared, name)] := by
  have rest : (name ++ " \x7b").toList = name.toList ++ ' ' :: ['\x7b'] := String.toList_append
  have noOpening : '(' ∉ name.toList ++ ' ' :: ['\x7b'] := by
    simp [absent_of_valid valid.chars (by decide : isNameChar '(' = false)]
  rw [String.append_assoc, mentions_reader (by simp [readers]; rfl), rest, nameAt_append valid (by decide),
    after_absent noOpening]
  rfl

theorem mentions_enum {name : String} (valid : IsTypeName name) :
    mentions ("pub enum " ++ name ++ " \x7b") = [(.declared, name)] := by
  have rest : (name ++ " \x7b").toList = name.toList ++ ' ' :: ['\x7b'] := String.toList_append
  rw [String.append_assoc, mentions_reader (by simp [readers]; rfl), rest, nameAt_append valid (by decide)]
  rfl

theorem mentions_alias {name type : String} (valid : IsTypeName name) :
    mentions ("pub type " ++ name ++ " = " ++ type ++ ";") =
      (.declared, name) :: (bareNames type.toList).map (Role.used, ·) := by
  have rest : (name ++ (" = " ++ (type ++ ";"))).toList = name.toList ++ ' ' :: ('=' :: ' ' :: (type.toList ++ [';'])) := by
    simp only [String.toList_append]
    rfl
  have behind : after '=' (name.toList ++ ' ' :: ('=' :: ' ' :: (type.toList ++ [';']))) = ' ' :: (type.toList ++ [';']) := by
    have absent : '=' ∉ name.toList ++ [' '] := by
      simp [absent_of_valid valid.chars (by decide : isNameChar '=' = false)]
    rw [List.append_cons]
    exact after_append absent
  simp only [String.append_assoc]
  rw [mentions_reader (by simp [readers]; rfl), rest, nameAt_append valid (by decide), behind, bareNames_cons (by decide),
    bareNames_append (by decide), bareNames_nil, List.append_nil]
  rfl

theorem mentions_newtype {name type : String} (valid : IsTypeName name) :
    mentions ("pub struct " ++ name ++ "(pub " ++ type ++ ");") =
      (.declared, name) :: (bareNames type.toList).map (Role.used, ·) := by
  have rest : (name ++ ("(pub " ++ (type ++ ");"))).toList =
      name.toList ++ '(' :: (['p', 'u', 'b'] ++ ' ' :: (type.toList ++ ')' :: [';'])) := by
    simp only [String.toList_append]
    rfl
  simp only [String.append_assoc]
  rw [mentions_reader (by simp [readers]; rfl), rest, nameAt_append valid (by decide),
    after_append (absent_of_valid valid.chars (by decide)), after_append (by decide), bareNames_append (by decide)]
  have nothing : bareNames [';'] = [] := by decide +kernel
  rw [nothing, List.append_nil]
  rfl

private theorem mentions_docComment (description : Option String) : (docComment "    " description).flatMap mentions = [] := by
  refine List.flatMap_eq_nil_iff.mpr fun line listed => ?_
  obtain ⟨part, -, rfl⟩ := List.mem_map.mp listed
  have mark : '/' ∉ ['p', 'u'] := by decide
  dsimp only
  split <;> refine mentions_silent ?_ mark <;> simp only [String.toList_append] <;> rfl

theorem mentions_fieldLines (settings : Settings) {field : Field} (named : IsValueName field.ident) :
    (fieldLines settings field).flatMap mentions = (bareNames (fieldType field).toList).map (Role.used, ·) := by
  simp only [fieldLines, List.flatMap_append, mentions_docComment, List.flatMap_singleton, mentions_field named,
    List.nil_append]
  split
  · rfl
  · rw [List.flatMap_singleton, String.append_assoc, mentions_front rfl (by decide), List.nil_append]

private theorem mentions_member {ident : String} (valid : IsTypeName ident) : mentions ("    " ++ ident ++ ",") = [] := by
  obtain ⟨c, others, chars, upper, -⟩ := valid.grammar
  have written : (c == ' ') = false := beq_eq_false_iff_ne.mpr (by rintro rfl; cases upper)
  have first : lead ("    " ++ ident ++ ",").toList = some c := by
    have spaces : "    ".toList = [' ', ' ', ' ', ' '] := rfl
    simp [lead, String.toList_append, chars, spaces, written]
  refine mentions_silent first fun known => ?_
  rcases List.mem_pair.mp known with rfl | rfl <;> cases upper

private theorem mentions_memberLines {member : Member} (valid : IsTypeName member.ident) :
    (memberLines member).flatMap mentions = [] := by
  rw [memberLines, List.flatMap_append, List.flatMap_singleton, mentions_member valid, List.append_nil]
  split
  · rfl
  · rw [List.flatMap_singleton, String.append_assoc, mentions_front rfl (by decide)]

private theorem mentions_fallbackLines {fallback : String} (valid : IsTypeName fallback) :
    (fallbackLines fallback).flatMap mentions = [] := by
  have note : mentions "    /// Any value this version of the client does not know." = [] := mentions_fixed rfl (by decide)
  have default : mentions "    #[default]" = [] := mentions_fixed rfl (by decide)
  have other : mentions "    #[serde(other)]" = [] := mentions_fixed rfl (by decide)
  simp only [fallbackLines, List.flatMap_cons, List.flatMap_nil, note, default, other, mentions_member valid, List.append_nil]

private theorem mentions_displayArm (ident literal : String) : mentions (displayArm ident literal) = [] := by
  unfold displayArm
  simp only [String.append_assoc]
  exact mentions_front rfl (by decide) _

private theorem mentions_displayLines (members : List Member) (fallback : Option String) :
    (displayLines members fallback).flatMap mentions = [] := by
  have arms : (members.map fun member => displayArm member.ident member.literal).flatMap mentions = [] :=
    List.flatMap_eq_nil_iff.mpr fun line listed => by
      obtain ⟨member, -, rfl⟩ := List.mem_map.mp listed
      exact mentions_displayArm ..
  have last : ((fallback.map fun ident => displayArm ident ident).toList).flatMap mentions = [] := by
    cases fallback with
    | none => rfl
    | some ident => rw [Option.map_some, Option.toList_some, List.flatMap_singleton, mentions_displayArm]
  have none : mentions "        match *self \x7b\x7d" = [] := mentions_fixed rfl (by decide)
  have opening : mentions "        f.write_str(match self \x7b" = [] := mentions_fixed rfl (by decide)
  have closing : mentions "        \x7d)" = [] := mentions_fixed rfl (by decide)
  unfold displayLines
  split
  · rw [List.flatMap_singleton, none]
  · simp only [List.flatMap_append, List.flatMap_cons, List.flatMap_nil, opening, arms, last, closing, List.append_nil]

def codecNames : List String := ["Deserialize", "Serialize"]

/-- What a model imports. -/
def imports : ModelKind → List String
  | .alias _ => []
  | .struct _ | .enumeration _ _ | .newtype _ => codecNames

private theorem mentions_header : header.flatMap mentions = [] := by
  have generated : mentions "// Generated by clientgen. Do not edit." = [] := mentions_fixed rfl (by decide)
  simp only [header, List.flatMap_cons, List.flatMap_nil, generated, mentions_blank, List.append_nil]

private theorem mentions_codecLines : codecLines.flatMap mentions = codecNames.map (Role.imported, ·) := by
  decide +kernel

private theorem mentions_schemaLine (decl : ModelDecl) : mentions (schemaLine decl) = [] := by
  rw [schemaLine, String.append_assoc]
  exact mentions_front rfl (by decide) _

private theorem mentions_derive : mentions "#[derive(Debug, Clone, PartialEq, Serialize, Deserialize)]" = [] :=
  mentions_fixed rfl (by decide)

private theorem mentions_closing : mentions "\x7d" = [] := mentions_fixed rfl (by decide)

/-- The file of a model declares the model, imports what that needs and uses types of the language. -/
theorem mentions_modelLines (settings : Settings) {decl : ModelDecl} (spelled : decl.Spelled)
    (types : ∀ type ∈ decl.kind.types, ∀ name ∈ type.names, IsTypeName name) :
    ∃ used : List String, (∀ name ∈ used, name ∈ languageTypes) ∧ (modelLines settings decl).flatMap mentions =
      (imports decl.kind).map (Role.imported, ·) ++ (.declared, decl.typeName) :: used.map (Role.used, ·) := by
  have named := spelled.typeName.toIsTypeName
  rw [modelLines, List.flatMap_append, mentions_header, List.nil_append]
  cases kind : decl.kind with
  | struct fields =>
    have each (field : Field) (inside : field ∈ fields) :
        (fieldLines settings field).flatMap mentions = (bareNames (fieldType field).toList).map (Role.used, ·) :=
      mentions_fieldLines settings (spelled.fields fields kind field inside)
    refine ⟨fields.flatMap fun field => bareNames (fieldType field).toList, ?_, ?_⟩
    · intro name member
      obtain ⟨field, inside, uses⟩ := List.mem_flatMap.mp member
      have valid := types field.type (by rw [kind]; exact List.mem_map_of_mem inside)
      rw [fieldType] at uses
      split at uses
      · exact bareNames_boxedText valid name uses
      · exact bareNames_text valid name uses
    · have body : (fields.flatMap (fieldLines settings)).flatMap mentions =
          (fields.flatMap fun field => bareNames (fieldType field).toList).map (Role.used, ·) := by
        rw [List.flatMap_assoc, List.map_flatMap]
        exact List.flatMap_congr each
      have strict : (if settings.denyUnknownFields then ["#[serde(deny_unknown_fields)]"] else []).flatMap mentions = [] := by
        split
        · rw [List.flatMap_singleton]
          exact mentions_fixed rfl (by decide)
        · rfl
      simp only [List.flatMap_append, List.flatMap_cons, List.flatMap_nil, mentions_codecLines, mentions_schemaLine,
        mentions_derive, strict, mentions_struct named, body, mentions_closing, imports, List.append_nil, List.append_assoc,
        List.singleton_append, List.nil_append]
  | enumeration members fallback =>
    have valid (name : String) (member : name ∈ members.map (·.ident) ++ fallback.toList) : IsTypeName name :=
      spelled.members name (by rw [ModelDecl.members, kind]; exact member)
    have each : (members.flatMap memberLines).flatMap mentions = [] := by
      rw [List.flatMap_assoc]
      exact List.flatMap_eq_nil_iff.mpr fun member inside =>
        mentions_memberLines (valid _ (List.mem_append_left _ (List.mem_map_of_mem inside)))
    have last : ((fallback.map fallbackLines).getD []).flatMap mentions = [] := by
      cases fallback with
      | none => rfl
      | some ident => exact mentions_fallbackLines (valid ident (by simp))
    have derives (extra : String) :
        mentions ("#[derive(Debug, Clone, Copy, PartialEq, Eq, Hash, " ++ extra ++ "Serialize, Deserialize)]") = [] := by
      rw [String.append_assoc]
      exact mentions_front rfl (by decide) _
    have displays : mentions ("impl std::fmt::Display for " ++ decl.typeName ++ " \x7b") = [] := by
      rw [String.append_assoc]
      exact mentions_front rfl (by decide) _
    have fmt : mentions "    fn fmt(&self, f: &mut std::fmt::Formatter<'_>) -> std::fmt::Result \x7b" = [] :=
      mentions_fixed rfl (by decide)
    have inner : mentions "    \x7d" = [] := mentions_fixed rfl (by decide)
    refine ⟨[], by simp, ?_⟩
    simp only [List.flatMap_append, List.flatMap_cons, List.flatMap_nil, mentions_codecLines, mentions_schemaLine,
      derives, mentions_enum named, each, last, mentions_closing, mentions_blank, displays, fmt,
      mentions_displayLines, inner, imports, List.map_nil, List.append_nil, List.nil_append]
  | «alias» type =>
    refine ⟨bareNames (type.text siblingQualifier).toList, bareNames_text (types type (by simp [kind, ModelKind.types])), ?_⟩
    simp only [List.flatMap_cons, List.flatMap_nil, mentions_alias named, mentions_schemaLine, imports, List.map_nil,
      List.append_nil, List.nil_append]
  | newtype type =>
    refine ⟨bareNames (type.text siblingQualifier).toList, bareNames_text (types type (by simp [kind, ModelKind.types])), ?_⟩
    have transparent : mentions "#[serde(transparent)]" = [] := mentions_fixed rfl (by decide)
    simp only [List.flatMap_append, List.flatMap_cons, List.flatMap_nil, mentions_codecLines, mentions_schemaLine,
      mentions_derive, transparent, mentions_newtype named, imports, List.append_nil, List.nil_append]

end ClientForge.Source
