import ClientForge.Proofs.DispatchReading
import ClientForge.Proofs.LiteralReading
import ClientForge.Proofs.PlanIdentifiers
import ClientForge.Source.Model

/-! The source of an enumeration as it reads. A variant is written as its own name unless an attribute in front of it renames
it, and one that an attribute marks stands for every other text; what is shown of a variant is the text behind its arm. The
readers know nothing of how the source has been written. -/

namespace ClientForge.Source
open Plan Ident

structure WireVariant where
  ident : String
  wire : String
  catchesAll : Bool
  deriving DecidableEq, Repr

/-- Reads the attribute that renames what follows. -/
def renamed? (code : List Char) : Option String :=
  ("#[serde(rename = ".toList.isPrefixOf? code).bind fun literal =>
    (Text.readQuoted literal).bind fun (name, behind) =>
      if behind = ")]".toList then some (String.ofList name) else none

def otherMark : List Char := "#[serde(other)]".toList

/-- Reads the line of a variant: its name and a comma. -/
def variant? (code : List Char) : Option String :=
  if code.getLast? = some ',' ∧ isName code.dropLast then some (String.ofList code.dropLast) else none

/-- Reads variants, with what the attributes say that stand in front of the first one. -/
def readVariants : Option String → Bool → List (List Char) → List WireVariant
  | _, _, [] => []
  | renamed, marked, code :: rest =>
    match renamed? code, variant? code with
    | some name, _ => readVariants (some name) marked rest
    | none, some ident => ⟨ident, renamed.getD ident, marked⟩ :: readVariants none false rest
    | none, none => readVariants renamed (marked || code = otherMark) rest

/-- Reads an arm: a variant and the text that is shown for it. -/
def shown? (code : List Char) : Option (String × String) :=
  ("Self::".toList.isPrefixOf? code).bind fun path =>
    (" => ".toList.isPrefixOf? (path.dropWhile isNameChar)).bind fun literal =>
      (Text.readQuoted literal).bind fun (text, behind) =>
        if behind = [','] then some (String.ofList (path.takeWhile isNameChar), String.ofList text) else none

def codes (lines : List String) : List (List Char) := lines.map fun line => Text.trimChars line.toList

def wireVariants (lines : List String) : List WireVariant := readVariants none false (codes lines)

def shownTexts (lines : List String) : List (String × String) := (codes lines).filterMap shown?

@[simp]
theorem codes_append (front rest : List String) : codes (front ++ rest) = codes front ++ codes rest := List.map_append

theorem codes_cons (line : String) (rest : List String) :
    codes (line :: rest) = Text.trimChars line.toList :: codes rest := rfl

theorem codes_nil : codes [] = [] := rfl

@[simp]
theorem shownTexts_append (front rest : List String) : shownTexts (front ++ rest) = shownTexts front ++ shownTexts rest :=
  (congrArg (List.filterMap shown?) (codes_append front rest)).trans List.filterMap_append

theorem shownTexts_singleton {line : String} {code : List Char} (trimmed : Text.trimChars line.toList = code) :
    shownTexts [line] = (shown? code).toList := by
  subst trimmed
  rw [shownTexts, codes_cons, codes_nil, List.filterMap_cons, List.filterMap_nil]
  cases shown? (Text.trimChars line.toList) <;> rfl

private theorem trim_line {line : String} (indent : List Char) {c d : Char} {middle : List Char}
    (chars : line.toList = indent ++ (c :: middle ++ [d])) (blank : indent.all Text.isBlank = true)
    (first : Text.isBlank c = false) (last : Text.isBlank d = false) :
    Text.trimChars line.toList = c :: middle ++ [d] := by
  have tight : Tight (c :: middle ++ [d]) := by
    constructor
    · intro b head
      obtain rfl : c = b := by simpa using head
      exact first
    · intro b ends
      rw [List.getLast?_concat] at ends
      obtain rfl := Option.some.inj ends
      exact last
  have padded := trimChars_padded (List.all_eq_true.mp blank) (List.forall_mem_nil _) tight
  rwa [List.append_nil, ← chars] at padded

private theorem code_member {name : String} (valid : IsTypeName name) :
    Text.trimChars ("    " ++ name ++ ",").toList = name.toList ++ [','] := by
  obtain ⟨c, others, chars, -, -⟩ := valid.grammar
  have solid := noBlank_of_chars valid.chars c (by simp [chars])
  rw [chars]
  exact trim_line "    ".toList (by simp [chars]) (by decide) solid (by decide)

private theorem code_rename (name : String) :
    Text.trimChars ("    #[serde(rename = " ++ Text.quoted name ++ ")]").toList =
      "#[serde(rename = ".toList ++ ((Text.quoted name).toList ++ ")]".toList) := by
  have chars : ("    #[serde(rename = " ++ Text.quoted name ++ ")]").toList =
      "    ".toList ++ ('#' :: ("[serde(rename = ".toList ++ (Text.quoted name).toList ++ [')']) ++ [']']) := by
    simp [String.toList_append]
  rw [trim_line _ chars (by decide) (by decide) (by decide)]
  simp

private theorem code_arm (ident literal : String) :
    Text.trimChars (displayArm ident literal).toList =
      "Self::".toList ++ (ident.toList ++ (" => ".toList ++ ((Text.quoted literal).toList ++ [',']))) := by
  have chars : (displayArm ident literal).toList = "            ".toList ++
      ('S' :: ("elf::".toList ++ ident.toList ++ " => ".toList ++ (Text.quoted literal).toList) ++ [',']) := by
    unfold displayArm
    simp
  rw [trim_line _ chars (by decide) (by decide) (by decide)]
  simp

private theorem isPrefixOf?_append (front rest : List Char) : front.isPrefixOf? (front ++ rest) = some rest :=
  List.isPrefixOf?_eq_some_iff_append_eq.mpr rfl

private theorem isPrefixOf?_other {c d : Char} (front rest : List Char) (other : c ≠ d) :
    (c :: front).isPrefixOf? (d :: rest) = none := by
  simp [List.isPrefixOf?, other]

private theorem renamed?_rename (name : String) :
    renamed? ("#[serde(rename = ".toList ++ ((Text.quoted name).toList ++ ")]".toList)) = some name := by
  rw [renamed?, isPrefixOf?_append, Option.bind_some, Text.readQuoted_quoted, Option.bind_some]
  simp

private theorem renamed?_other {c : Char} (rest : List Char) (other : c ≠ '#') : renamed? (c :: rest) = none := by
  have front : "#[serde(rename = ".toList = '#' :: "[serde(rename = ".toList := rfl
  rw [renamed?, front, isPrefixOf?_other _ _ other.symm, Option.bind_none]

private theorem renamed?_member {name : String} (valid : IsTypeName name) (rest : List Char) :
    renamed? (name.toList ++ rest) = none := by
  obtain ⟨c, others, chars, upper, -⟩ := valid.grammar
  rw [chars]
  refine renamed?_other _ ?_
  rintro rfl
  cases upper

private theorem isName_of_typeName {name : String} (valid : IsTypeName name) : isName name.toList = true := by
  obtain ⟨c, others, chars, upper, -⟩ := valid.grammar
  exact isName_of_chars chars valid.chars (not_isDigit_of_isUpper upper)

private theorem variant?_member {name : String} (valid : IsTypeName name) : variant? (name.toList ++ [',']) = some name := by
  rw [variant?, List.getLast?_concat, List.dropLast_concat, if_pos ⟨rfl, isName_of_typeName valid⟩, String.ofList_toList]

private theorem shown?_arm {ident : String} (valid : IsTypeName ident) (literal : String) :
    shown? ("Self::".toList ++ (ident.toList ++ (" => ".toList ++ ((Text.quoted literal).toList ++ [','])))) =
      some (ident, literal) := by
  have arrow : " => ".toList ++ ((Text.quoted literal).toList ++ [',']) =
      ' ' :: ("=> ".toList ++ ((Text.quoted literal).toList ++ [','])) := rfl
  rw [shown?, isPrefixOf?_append, Option.bind_some, List.dropWhile_append_of_pos valid.chars,
    List.takeWhile_append_of_pos valid.chars, arrow, List.dropWhile_cons_of_neg (by decide),
    List.takeWhile_cons_of_neg (by decide), ← arrow, isPrefixOf?_append, Option.bind_some, Text.readQuoted_quoted,
    Option.bind_some]
  simp

private theorem shown?_other {c : Char} (rest : List Char) (other : c ≠ 'S') : shown? (c :: rest) = none := by
  have front : "Self::".toList = 'S' :: "elf::".toList := rfl
  rw [shown?, front, isPrefixOf?_other _ _ other.symm, Option.bind_none]

/-- A name may begin as a path does, but there is no colon in it. -/
private theorem shown?_member {name : String} (valid : IsTypeName name) : shown? (name.toList ++ [',']) = none := by
  rw [shown?]
  cases found : "Self::".toList.isPrefixOf? (name.toList ++ [',']) with
  | none => rfl
  | some rest =>
    have whole := List.isPrefixOf?_eq_some_iff_append_eq.mp found
    have colon : ':' ∈ name.toList ++ [','] := by
      rw [← whole]
      exact List.mem_append_left _ (by decide)
    rcases List.mem_append.mp colon with inside | last
    · cases valid.chars ':' inside
    · cases List.mem_singleton.mp last

/-- What is no part of a variant. -/
def isSkipped (code : List Char) : Bool := (renamed? code).isNone && (variant? code).isNone && code ≠ otherMark

def isSilent (line : String) : Bool :=
  isSkipped (Text.trimChars line.toList) && (shown? (Text.trimChars line.toList)).isNone

/-- A line says nothing that begins neither as an attribute nor as a path and ends with no comma. -/
private theorem isSilent_around {front back : String} {c d : Char} (first : front.toList.head? = some c)
    (last : back.toList.getLast? = some d)
    (ends : (!Text.isBlank c && !Text.isBlank d && c != '#' && c != 'S' && d != ',') = true) (name : String) :
    isSilent (front ++ name ++ back) = true := by
  obtain ⟨behind, begins⟩ := List.head?_eq_some_iff.mp first
  obtain ⟨before, closes⟩ := List.getLast?_eq_some_iff.mp last
  have chars : (front ++ name ++ back).toList = [] ++ (c :: (behind ++ name.toList ++ before) ++ [d]) := by
    simp [begins, closes]
  simp only [Bool.and_eq_true, Bool.not_eq_true', bne_iff_ne] at ends
  obtain ⟨⟨⟨⟨solid, solidEnd⟩, noMark⟩, noPath⟩, noComma⟩ := ends
  have noVariant : variant? (c :: (behind ++ name.toList ++ before) ++ [d]) = none := by
    rw [variant?, List.getLast?_concat, if_neg fun ends => noComma (Option.some.inj ends.1)]
  have plain : renamed? (c :: (behind ++ name.toList ++ before) ++ [d]) = none := renamed?_other _ noMark
  have unshown : shown? (c :: (behind ++ name.toList ++ before) ++ [d]) = none := shown?_other _ noPath
  have unmarked : c :: (behind ++ name.toList ++ before) ++ [d] ≠ otherMark := fun same => noMark (List.cons.inj same).1
  rw [isSilent, trim_line [] chars rfl solid solidEnd, isSkipped, plain, noVariant, unshown]
  simpa using unmarked

private theorem readVariants_skipped {front : List (List Char)} (skipped : ∀ code ∈ front, isSkipped code = true)
    (rest : List (List Char)) : readVariants none false (front ++ rest) = readVariants none false rest := by
  induction front with
  | nil => rfl
  | cons code front ih =>
    obtain ⟨here, later⟩ := List.forall_mem_cons.mp skipped
    simp only [isSkipped, Bool.and_eq_true, Option.isNone_iff_eq_none, decide_eq_true_eq] at here
    obtain ⟨⟨plain, noVariant⟩, unmarked⟩ := here
    rw [List.cons_append, readVariants, plain, noVariant]
    simpa [unmarked] using ih later

private theorem readVariants_silent {front : List String} (silent : ∀ line ∈ front, isSilent line = true)
    (rest : List (List Char)) : readVariants none false (codes front ++ rest) = readVariants none false rest := by
  refine readVariants_skipped (fun code member => ?_) rest
  obtain ⟨line, listed, rfl⟩ := List.mem_map.mp member
  exact (Bool.and_eq_true_iff.mp (silent line listed)).1

private theorem shownTexts_silent {lines : List String} (silent : ∀ line ∈ lines, isSilent line = true) :
    shownTexts lines = [] := by
  refine List.filterMap_eq_nil_iff.mpr fun code member => ?_
  obtain ⟨line, listed, rfl⟩ := List.mem_map.mp member
  exact Option.isNone_iff_eq_none.mp (Bool.and_eq_true_iff.mp (silent line listed)).2

/-- A literal is checked by its characters: to take them from the text, it would have to be decoded. -/
private theorem isSilent_ofList {chars : List Char}
    (silent : (isSkipped (Text.trimChars chars) && (shown? (Text.trimChars chars)).isNone) = true) :
    isSilent (String.ofList chars) = true := by
  rwa [isSilent, String.toList_ofList]

private theorem readVariants_member {name : String} (valid : IsTypeName name) (renamed : Option String) (marked : Bool)
    (rest : List (List Char)) :
    readVariants renamed marked ((name.toList ++ [',']) :: rest) =
      ⟨name, renamed.getD name, marked⟩ :: readVariants none false rest := by
  rw [readVariants, renamed?_member valid, variant?_member valid]

private theorem readVariants_memberLines {member : Member} (valid : IsTypeName member.ident) (rest : List (List Char)) :
    readVariants none false (codes (memberLines member) ++ rest) =
      ⟨member.ident, member.literal, false⟩ :: readVariants none false rest := by
  unfold memberLines
  by_cases same : member.ident = member.literal
  · rw [if_pos same, List.nil_append, codes_cons, code_member valid, List.cons_append, readVariants_member valid,
      Option.getD_none, ← same]
    rfl
  · rw [if_neg same, List.singleton_append, codes_cons, codes_cons, code_rename, code_member valid, List.cons_append,
      List.cons_append, readVariants, renamed?_rename]
    exact readVariants_member valid _ _ _

private def fallbackFront : List String :=
  ["    /// Any value this version of the client does not know.", "    #[default]"]

private theorem fallbackFront_silent : ∀ line ∈ fallbackFront, isSilent line = true :=
  List.forall_mem_cons.mpr ⟨isSilent_ofList (by rfl), List.forall_mem_singleton.mpr (isSilent_ofList (by rfl))⟩

private theorem code_mark : Text.trimChars "    #[serde(other)]".toList = otherMark := by
  have chars : "    #[serde(other)]".toList = "    ".toList ++ ('#' :: "[serde(other)".toList ++ [']']) := by simp
  exact trim_line _ chars (by decide) (by decide) (by decide)

private theorem readVariants_fallbackLines {fallback : String} (valid : IsTypeName fallback) (rest : List (List Char)) :
    readVariants none false (codes (fallbackLines fallback) ++ rest) =
      ⟨fallback, fallback, true⟩ :: readVariants none false rest := by
  have lines : fallbackLines fallback = fallbackFront ++ ["    #[serde(other)]", "    " ++ fallback ++ ","] := rfl
  have plain : renamed? otherMark = none := by rfl
  have noVariant : variant? otherMark = none := by rfl
  rw [lines, codes_append, List.append_assoc, readVariants_silent fallbackFront_silent, codes_cons, codes_cons,
    code_mark, code_member valid, List.cons_append, List.cons_append, readVariants, plain, noVariant]
  simpa [codes_nil] using readVariants_member valid none true rest

private theorem shownTexts_member {name : String} (valid : IsTypeName name) : shownTexts ["    " ++ name ++ ","] = [] := by
  rw [shownTexts_singleton (code_member valid), shown?_member valid, Option.toList_none]

private theorem shownTexts_memberLines {member : Member} (valid : IsTypeName member.ident) :
    shownTexts (memberLines member) = [] := by
  have renames : shownTexts ["    #[serde(rename = " ++ Text.quoted member.literal ++ ")]"] = [] := by
    have mark : shown? ("#[serde(rename = ".toList ++ ((Text.quoted member.literal).toList ++ ")]".toList)) = none :=
      shown?_other _ (by decide)
    rw [shownTexts_singleton (code_rename _), mark, Option.toList_none]
  unfold memberLines
  rw [shownTexts_append, shownTexts_member valid, List.append_nil]
  split
  · rfl
  · exact renames

private theorem shownTexts_fallbackLines {fallback : String} (valid : IsTypeName fallback) :
    shownTexts (fallbackLines fallback) = [] := by
  have lines : fallbackLines fallback = fallbackFront ++ (["    #[serde(other)]"] ++ ["    " ++ fallback ++ ","]) := rfl
  have mark : shownTexts ["    #[serde(other)]"] = [] := by
    have unshown : shown? otherMark = none := by rfl
    rw [shownTexts_singleton code_mark, unshown, Option.toList_none]
  rw [lines, shownTexts_append, shownTexts_append, shownTexts_silent fallbackFront_silent, mark, shownTexts_member valid,
    List.append_nil, List.append_nil]

private theorem shownTexts_arms {arms : List (String × String)} (valid : ∀ arm ∈ arms, IsTypeName arm.1) :
    shownTexts (arms.map fun arm => displayArm arm.1 arm.2) = arms := by
  induction arms with
  | nil => rfl
  | cons arm arms ih =>
    obtain ⟨first, others⟩ := List.forall_mem_cons.mp valid
    have here : shownTexts [displayArm arm.1 arm.2] = [arm] := by
      rw [shownTexts_singleton (code_arm _ _), shown?_arm first, Option.toList_some]
    rw [List.map_cons, ← List.singleton_append, shownTexts_append, here, ih others, List.singleton_append]

private theorem isSkipped_arm (ident literal : String) :
    isSkipped (Text.trimChars (displayArm ident literal).toList) = true := by
  have ends : (Text.trimChars (displayArm ident literal).toList).dropLast =
      "Self::".toList ++ (ident.toList ++ (" => ".toList ++ (Text.quoted literal).toList)) := by
    rw [code_arm]
    simp only [← List.append_assoc, List.dropLast_concat]
  have noName : isName ("Self::".toList ++ (ident.toList ++ (" => ".toList ++ (Text.quoted literal).toList))) = false := by
    have path : ("Self::".toList.all fun c => c.isAlphanum || c == '_') = false := by decide
    rw [isName, List.all_append, path]
    rfl
  have noVariant : variant? (Text.trimChars (displayArm ident literal).toList) = none := by
    rw [variant?, ends, noName, if_neg (by simp)]
  have plain (rest : List Char) : renamed? ("Self::".toList ++ rest) = none := renamed?_other _ (by decide)
  have unmarked (rest : List Char) : "Self::".toList ++ rest ≠ otherMark := fun same => by cases same
  rw [isSkipped, noVariant, code_arm, plain]
  simp only [Option.isNone_none, Bool.true_and, decide_eq_true_eq]
  exact unmarked _

variable {decl : ModelDecl} {members : List Member} {fallback : Option String}

private def enumFront (decl : ModelDecl) (fallback : Option String) : List String :=
  header ++ codecLines ++
    [schemaLine decl,
      "#[derive(Debug, Clone, Copy, PartialEq, Eq, Hash, " ++
        (if fallback.isSome then "Default, " else "") ++ "Serialize, Deserialize)]",
      "pub enum " ++ decl.typeName ++ " \x7b"]

private def enumMiddle (decl : ModelDecl) : List String :=
  ["\x7d",
    "",
    "impl std::fmt::Display for " ++ decl.typeName ++ " \x7b",
    "    fn fmt(&self, f: &mut std::fmt::Formatter<'_>) -> std::fmt::Result \x7b"]

private theorem modelLines_enumeration (settings : Settings) (kind : decl.kind = .enumeration members fallback) :
    modelLines settings decl = enumFront decl fallback ++ (members.flatMap memberLines ++
      ((fallback.map fallbackLines).getD [] ++ (enumMiddle decl ++ (displayLines members fallback ++ ["    \x7d", "\x7d"])))) := by
  unfold modelLines
  rw [kind]
  simp only [enumFront, enumMiddle, List.append_assoc, List.cons_append, List.nil_append]

private theorem enumFront_silent (decl : ModelDecl) (fallback : Option String) :
    ∀ line ∈ enumFront decl fallback, isSilent line = true := by
  have fixed : ∀ line ∈ header ++ codecLines, isSilent line = true := by
    simp only [header, codecLines, List.cons_append, List.nil_append, List.forall_mem_cons]
    exact ⟨isSilent_ofList (by rfl), isSilent_ofList (by rfl), isSilent_ofList (by rfl), isSilent_ofList (by rfl),
      List.forall_mem_nil _⟩
  have derived : isSilent ("#[derive(Debug, Clone, Copy, PartialEq, Eq, Hash, " ++
      (if fallback.isSome then "Default, " else "") ++ "Serialize, Deserialize)]") = true := by
    rw [isSilent, String.toList_append, String.toList_append, String.toList_ofList, String.toList_ofList]
    cases fallback.isSome <;> rfl
  have comment : isSilent (schemaLine decl) = true := isSilent_around rfl rfl (by decide) decl.schemaName
  have opening : isSilent ("pub enum " ++ decl.typeName ++ " \x7b") = true := isSilent_around rfl rfl (by decide) decl.typeName
  refine List.forall_mem_append.mpr ⟨fixed, ?_⟩
  simp only [List.forall_mem_cons]
  exact ⟨comment, derived, opening, List.forall_mem_nil _⟩

private theorem enumMiddle_silent (decl : ModelDecl) : ∀ line ∈ enumMiddle decl, isSilent line = true := by
  have implements : isSilent ("impl std::fmt::Display for " ++ decl.typeName ++ " \x7b") = true :=
    isSilent_around rfl rfl (by decide) decl.typeName
  have behind : ∀ line ∈ ["impl std::fmt::Display for " ++ decl.typeName ++ " \x7b",
      "    fn fmt(&self, f: &mut std::fmt::Formatter<'_>) -> std::fmt::Result \x7b"], isSilent line = true :=
    List.forall_mem_cons.mpr ⟨implements, List.forall_mem_singleton.mpr (isSilent_ofList (by rfl))⟩
  exact List.forall_mem_cons.mpr ⟨isSilent_ofList (by rfl), List.forall_mem_cons.mpr ⟨isSilent_ofList (by rfl), behind⟩⟩

/-- The variants of an enumeration and their texts. The fallback is shown as its own name. -/
def namedTexts (members : List Member) (fallback : Option String) : List (String × String) :=
  members.map (fun member => (member.ident, member.literal)) ++ fallback.toList.map fun ident => (ident, ident)

private theorem displayLines_cases (members : List Member) (fallback : Option String) :
    displayLines members fallback = ["        match *self \x7b\x7d"] ∧ namedTexts members fallback = [] ∨
      displayLines members fallback = ["        f.write_str(match self \x7b"] ++
        ((namedTexts members fallback).map (fun arm => displayArm arm.1 arm.2) ++ ["        \x7d)"]) := by
  have arms : (namedTexts members fallback).map (fun arm => displayArm arm.1 arm.2) =
      members.map (fun member => displayArm member.ident member.literal) ++
        (fallback.map fun ident => displayArm ident ident).toList := by
    cases fallback <;> simp [namedTexts]
  rw [arms]
  cases members with
  | nil =>
    cases fallback with
    | none => exact Or.inl ⟨rfl, rfl⟩
    | some ident => exact Or.inr rfl
  | cons member members => exact Or.inr (by simp [displayLines])

private theorem emptyMatch_silent : isSilent "        match *self \x7b\x7d" = true := isSilent_ofList (by rfl)

private theorem matchBegin_silent : isSilent "        f.write_str(match self \x7b" = true := isSilent_ofList (by rfl)

private theorem matchEnd_silent : isSilent "        \x7d)" = true := isSilent_ofList (by rfl)

private theorem displayLines_skipped (members : List Member) (fallback : Option String) :
    ∀ code ∈ codes (displayLines members fallback), isSkipped code = true := by
  have skipped {line : String} (silent : isSilent line = true) : ∀ code ∈ codes [line], isSkipped code = true :=
    List.forall_mem_singleton.mpr (Bool.and_eq_true_iff.mp silent).1
  rcases displayLines_cases members fallback with ⟨lines, -⟩ | lines
  · rw [lines]
    exact skipped emptyMatch_silent
  · rw [lines, codes_append, codes_append]
    refine List.forall_mem_append.mpr ⟨skipped matchBegin_silent,
      List.forall_mem_append.mpr ⟨fun code member => ?_, skipped matchEnd_silent⟩⟩
    obtain ⟨line, listed, rfl⟩ := List.mem_map.mp member
    obtain ⟨arm, -, rfl⟩ := List.mem_map.mp listed
    exact isSkipped_arm arm.1 arm.2

private theorem shownTexts_displayLines (valid : ∀ arm ∈ namedTexts members fallback, IsTypeName arm.1) :
    shownTexts (displayLines members fallback) = namedTexts members fallback := by
  have unshown {line : String} (silent : isSilent line = true) : shownTexts [line] = [] :=
    shownTexts_silent (List.forall_mem_singleton.mpr silent)
  rcases displayLines_cases members fallback with ⟨lines, nothing⟩ | lines
  · rw [lines, unshown emptyMatch_silent, nothing]
  · rw [lines, shownTexts_append, shownTexts_append, unshown matchBegin_silent, unshown matchEnd_silent,
      shownTexts_arms valid, List.nil_append, List.append_nil]

private theorem ends_silent : ∀ line ∈ ["    \x7d", "\x7d"], isSilent line = true :=
  List.forall_mem_cons.mpr ⟨isSilent_ofList (by rfl), List.forall_mem_singleton.mpr (isSilent_ofList (by rfl))⟩

private theorem readVariants_members {members : List Member} (valid : ∀ member ∈ members, IsTypeName member.ident)
    (rest : List (List Char)) :
    readVariants none false (codes (members.flatMap memberLines) ++ rest) =
      members.map (fun member => ⟨member.ident, member.literal, false⟩) ++ readVariants none false rest := by
  induction members with
  | nil => rfl
  | cons member members ih =>
    obtain ⟨first, others⟩ := List.forall_mem_cons.mp valid
    rw [List.flatMap_cons, codes_append, List.append_assoc, readVariants_memberLines first, ih others, List.map_cons,
      List.cons_append]

private theorem shownTexts_members {members : List Member} (valid : ∀ member ∈ members, IsTypeName member.ident) :
    shownTexts (members.flatMap memberLines) = [] := by
  induction members with
  | nil => rfl
  | cons member members ih =>
    obtain ⟨first, others⟩ := List.forall_mem_cons.mp valid
    rw [List.flatMap_cons, shownTexts_append, shownTexts_memberLines first, ih others, List.append_nil]

private theorem valid_members (kind : decl.kind = .enumeration members fallback)
    (spelled : ∀ name ∈ decl.members, IsTypeName name) :
    (∀ member ∈ members, IsTypeName member.ident) ∧ ∀ ident ∈ fallback, IsTypeName ident := by
  have names : decl.members = members.map (·.ident) ++ fallback.toList := by rw [ModelDecl.members, kind]
  rw [names] at spelled
  obtain ⟨own, other⟩ := List.forall_mem_append.mp spelled
  exact ⟨fun member listed => own _ (List.mem_map_of_mem listed), fun ident is => other ident (Option.mem_toList.mpr is)⟩

theorem wireVariants_enumeration (settings : Settings) (kind : decl.kind = .enumeration members fallback)
    (spelled : ∀ name ∈ decl.members, IsTypeName name) :
    wireVariants (modelLines settings decl) =
      members.map (fun member => ⟨member.ident, member.literal, false⟩) ++
        fallback.toList.map fun ident => ⟨ident, ident, true⟩ := by
  obtain ⟨own, other⟩ := valid_members kind spelled
  have behind : readVariants none false
      (codes (enumMiddle decl) ++ (codes (displayLines members fallback) ++ codes ["    \x7d", "\x7d"])) = [] := by
    rw [readVariants_silent (enumMiddle_silent decl), readVariants_skipped (displayLines_skipped members fallback),
      ← List.append_nil (codes _), readVariants_silent ends_silent, readVariants]
  rw [wireVariants, modelLines_enumeration settings kind]
  simp only [codes_append]
  rw [readVariants_silent (enumFront_silent decl fallback), readVariants_members own]
  cases fallback with
  | none => simpa [codes] using behind
  | some ident =>
    rw [Option.map_some, Option.getD_some, readVariants_fallbackLines (other ident rfl), behind]
    rfl

theorem shownTexts_enumeration (settings : Settings) (kind : decl.kind = .enumeration members fallback)
    (spelled : ∀ name ∈ decl.members, IsTypeName name) :
    shownTexts (modelLines settings decl) = namedTexts members fallback := by
  obtain ⟨own, other⟩ := valid_members kind spelled
  have last : shownTexts ((fallback.map fallbackLines).getD []) = [] := by
    cases fallback with
    | none => rfl
    | some ident => exact shownTexts_fallbackLines (other ident rfl)
  have arms : ∀ arm ∈ namedTexts members fallback, IsTypeName arm.1 := by
    intro arm listed
    rcases List.mem_append.mp listed with named | unnamed
    · obtain ⟨member, inside, rfl⟩ := List.mem_map.mp named
      exact own member inside
    · obtain ⟨ident, is, rfl⟩ := List.mem_map.mp unnamed
      exact other ident (Option.mem_toList.mp is)
  rw [modelLines_enumeration settings kind]
  simp only [shownTexts_append, shownTexts_silent (enumFront_silent decl fallback), shownTexts_members own, last,
    shownTexts_silent (enumMiddle_silent decl), shownTexts_displayLines arms, shownTexts_silent ends_silent,
    List.nil_append, List.append_nil]

end ClientForge.Source
