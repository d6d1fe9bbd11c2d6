import ClientForge.Ident.Method
import ClientForge.Proofs.MethodNaming

/-! How identifiers are spelled. Words are never empty and have letters and digits only, so that what they are
joined to begins with a letter or a digit; the repairs see to the rest, and a number at the end undoes none of
them. -/

namespace ClientForge.Ident
open Api

/-- A name that begins with a character of one class and goes on with characters of another. -/
def Spells (first rest : Char → Bool) (name : String) : Prop :=
  ∃ c others, name.toList = c :: others ∧ first c = true ∧ ∀ d ∈ others, rest d = true

def isSnakeChar (c : Char) : Bool := c.isLower || c.isDigit || c == '_'

/-- The grammar `[a-z][a-z0-9_]*`. -/
abbrev IsSnake : String → Prop := Spells Char.isLower isSnakeChar

/-- The grammar `[A-Z][A-Za-z0-9]*`. -/
abbrev IsPascal : String → Prop := Spells Char.isUpper Char.isAlphanum

/-- A name that a value, a field, a method or a module can have. -/
structure IsValueName (name : String) : Prop where
  grammar : IsSnake name
  free : name ∉ keywords

/-- A name that a type or a member of one can have. -/
structure IsTypeName (name : String) : Prop where
  grammar : IsPascal name
  free : name ≠ "Self"

/-- A type name that hides nothing. -/
structure IsModelName (name : String) : Prop extends IsTypeName name where
  unreserved : name ∉ reservedTypes

variable {first rest : Char → Bool} {name : String}

theorem spells_of_check {c : Char} {others : List Char} (chars : name.toList = c :: others)
    (check : (first c && others.all rest) = true) : Spells first rest name := by
  obtain ⟨begins, letters⟩ := Bool.and_eq_true_iff.mp check
  exact ⟨c, others, chars, begins, List.all_eq_true.mp letters⟩

theorem Spells.append (spelled : Spells first rest name) {behind : String}
    (letters : ∀ c ∈ behind.toList, rest c = true) : Spells first rest (name ++ behind) := by
  obtain ⟨c, others, chars, begins, all⟩ := spelled
  refine ⟨c, others ++ behind.toList, by simp [String.toList_append, chars], begins, fun d member => ?_⟩
  exact (List.mem_append.mp member).elim (all d) (letters d)

private theorem flatten_onto (c : Char) (parts : List (List Char)) : (onto c parts).flatten = c :: parts.flatten := by
  cases parts <;> rfl

theorem flatten_cut (mode : Case) (chars : List Char) : (cut mode chars).flatten = chars := by
  fun_induction cut mode chars with
  | case1 => rfl
  | case2 => rfl
  | case3 _ _ _ _ _ ih => rw [List.flatten_cons, ih, List.singleton_append]
  | case4 _ _ _ _ _ _ ih => rw [List.flatten_cons, flatten_onto, ih, List.nil_append]
  | case5 _ _ _ _ _ _ ih => rw [flatten_onto, ih]

private theorem onto_ne_nil (c : Char) {parts : List (List Char)} (later : ∀ part ∈ parts.tail, part ≠ []) :
    ∀ part ∈ onto c parts, part ≠ [] := by
  cases parts with
  | nil => simp [onto]
  | cons part parts => simpa [onto] using later

/-- Only the part that continues a word in upper case may be empty. -/
private theorem cut_ne_nil (mode : Case) (chars : List Char) :
    (∀ part ∈ (cut mode chars).tail, part ≠ []) ∧ (mode ≠ .upper → ∀ part ∈ cut mode chars, part ≠ []) := by
  fun_induction cut mode chars with
  | case1 => simp
  | case2 => simp
  | case3 _ _ _ _ _ ih =>
    have later := ih.2 (by simp)
    exact ⟨later, fun _ => List.forall_mem_cons.mpr ⟨List.cons_ne_nil _ _, later⟩⟩
  | case4 _ _ _ _ _ upper ih => exact ⟨onto_ne_nil _ ih.1, fun other => absurd upper.1 other⟩
  | case5 _ c _ _ _ _ ih =>
    have all := onto_ne_nil c ih.1
    exact ⟨fun part member => all part (List.mem_of_mem_tail member), fun _ => all⟩

theorem mem_words {raw : String} {word : List Char} (member : word ∈ words raw) :
    word ≠ [] ∧ ∀ c ∈ word, c.isAlphanum = true := by
  obtain ⟨run, inside, part⟩ := List.mem_flatMap.mp member
  refine ⟨(cut_ne_nil .none run).2 (by simp) word part, fun c letter => ?_⟩
  have among : c ∈ run := by
    rw [← flatten_cut .none run]
    exact List.mem_flatten.mpr ⟨word, part, letter⟩
  simpa using Text.not_separator_of_mem inside c among

def isNameChar (c : Char) : Bool := c.isAlphanum || c == '_'

theorem isAlphanum_of_isUpper {c : Char} (upper : c.isUpper = true) : c.isAlphanum = true :=
  Bool.or_eq_true_iff.mpr (Or.inl (Bool.or_eq_true_iff.mpr (Or.inl upper)))

theorem isAlphanum_of_isLower {c : Char} (lower : c.isLower = true) : c.isAlphanum = true :=
  Bool.or_eq_true_iff.mpr (Or.inl (Bool.or_eq_true_iff.mpr (Or.inr lower)))

theorem isAlphanum_of_isDigit {c : Char} (digit : c.isDigit = true) : c.isAlphanum = true :=
  Bool.or_eq_true_iff.mpr (Or.inr digit)

theorem isUpper_iff {c : Char} : c.isUpper = true ↔ 65 ≤ c.toNat ∧ c.toNat ≤ 90 := decide_eq_true_iff

theorem isLower_iff {c : Char} : c.isLower = true ↔ 97 ≤ c.toNat ∧ c.toNat ≤ 122 :=
  Bool.and_eq_true_iff.trans (and_congr decide_eq_true_iff decide_eq_true_iff)

theorem isDigit_iff {c : Char} : c.isDigit = true ↔ 48 ≤ c.toNat ∧ c.toNat ≤ 57 := Char.isDigit_iff_toNat

private theorem ascii_of_isNameChar {c : Char} (h : isNameChar c = true) : c.toNat < 128 := by
  rcases Bool.or_eq_true_iff.mp h with alphanum | mark
  · have parts : (c.isUpper || c.isLower || c.isDigit) = true := alphanum
    simp only [Bool.or_eq_true, isUpper_iff, isLower_iff, isDigit_iff] at parts
    omega
  · rw [beq_iff_eq.mp mark]
    decide

/-- What holds of such characters among the 128 first ones holds of all of them. -/
theorem of_isNameChar (holds : Char → Bool)
    (all : ∀ n : Fin 128, (!isNameChar (Char.ofNat n) || holds (Char.ofNat n)) = true) {c : Char}
    (h : isNameChar c = true) : holds c = true := by
  have inside := all ⟨c.toNat, ascii_of_isNameChar h⟩
  rw [Char.ofNat_toNat] at inside
  simpa [h] using inside

theorem isNameChar_of_isAlphanum {c : Char} (h : c.isAlphanum = true) : isNameChar c = true := by
  rw [isNameChar, h, Bool.true_or]

theorem not_isDigit_of_isUpper {c : Char} (upper : c.isUpper = true) : c.isDigit = false := by
  rw [isUpper_iff] at upper
  rw [Bool.eq_false_iff, ne_eq, isDigit_iff]
  omega

theorem not_isDigit_of_isLower {c : Char} (lower : c.isLower = true) : c.isDigit = false := by
  rw [isLower_iff] at lower
  rw [Bool.eq_false_iff, ne_eq, isDigit_iff]
  omega

theorem toUpper_of_not_isLower {c : Char} (other : c.isLower = false) : c.toUpper = c :=
  dif_neg fun small => Bool.eq_false_iff.mp other (isLower_iff.mpr small)

theorem toLower_of_not_isUpper {c : Char} (other : c.isUpper = false) : c.toLower = c :=
  dif_neg fun capital => Bool.eq_false_iff.mp other (isUpper_iff.mpr capital)

/-- What is added stands for 32 less. -/
theorem toNat_toUpper {c : Char} (lower : c.isLower = true) : c.toUpper.toNat = c.toNat - 32 := by
  have bounds := isLower_iff.mp lower
  have code : c.toUpper.toNat = (c.toNat + 4294967264) % 2 ^ 32 :=
    (congrArg Char.toNat (dif_pos bounds)).trans (UInt32.toNat_add _ _)
  omega

theorem toNat_toLower {c : Char} (upper : c.isUpper = true) : c.toLower.toNat = c.toNat + 32 := by
  have bounds := isUpper_iff.mp upper
  have code : c.toLower.toNat = (c.toNat + 32) % 2 ^ 32 :=
    (congrArg Char.toNat (dif_pos bounds)).trans (UInt32.toNat_add _ _)
  omega

theorem isUpper_toUpper {c : Char} (lower : c.isLower = true) : c.toUpper.isUpper = true := by
  have bounds := isLower_iff.mp lower
  rw [isUpper_iff, toNat_toUpper lower]
  omega

theorem isLower_toLower {c : Char} (upper : c.isUpper = true) : c.toLower.isLower = true := by
  have bounds := isUpper_iff.mp upper
  rw [isLower_iff, toNat_toLower upper]
  omega

private theorem toUpper_spec {c : Char} (h : c.isAlphanum = true) : (c.toUpper.isUpper || c.toUpper.isDigit) = true := by
  cases letter : c.isLower with
  | true => rw [isUpper_toUpper letter, Bool.true_or]
  | false =>
    have parts : (c.isUpper || c.isLower || c.isDigit) = true := h
    rw [toUpper_of_not_isLower letter]
    simpa only [letter, Bool.or_false] using parts

theorem toLower_spec {c : Char} (h : c.isAlphanum = true) : (c.toLower.isLower || c.toLower.isDigit) = true := by
  cases letter : c.isUpper with
  | true => rw [isLower_toLower letter, Bool.true_or]
  | false =>
    have parts : (c.isUpper || c.isLower || c.isDigit) = true := h
    rw [toLower_of_not_isUpper letter]
    simpa only [letter, Bool.false_or] using parts

private theorem isSnakeChar_toLower {c : Char} (h : c.isAlphanum = true) : isSnakeChar c.toLower = true := by
  rw [isSnakeChar, toLower_spec h, Bool.true_or]

private theorem isAlphanum_toLower {c : Char} (h : c.isAlphanum = true) : c.toLower.isAlphanum = true := by
  rcases Bool.or_eq_true_iff.mp (toLower_spec h) with lower | digit
  · exact isAlphanum_of_isLower lower
  · exact isAlphanum_of_isDigit digit

private theorem isAlphanum_toUpper {c : Char} (h : c.isAlphanum = true) : c.toUpper.isAlphanum = true := by
  rcases Bool.or_eq_true_iff.mp (toUpper_spec h) with upper | digit
  · exact isAlphanum_of_isUpper upper
  · exact isAlphanum_of_isDigit digit

theorem isSnakeChar_of_isDigit {c : Char} (digit : c.isDigit = true) : isSnakeChar c = true := by
  simp [isSnakeChar, digit]

theorem IsValueName.chars {name : String} (valid : IsValueName name) : ∀ c ∈ name.toList, isNameChar c = true := by
  obtain ⟨c, others, chars, begins, rest⟩ := valid.grammar
  have ofSnakeChar {d : Char} (h : isSnakeChar d = true) : isNameChar d = true := by
    simp only [isSnakeChar, Bool.or_eq_true] at h
    rcases h with (lower | digit) | underscore
    · exact isNameChar_of_isAlphanum (isAlphanum_of_isLower lower)
    · exact isNameChar_of_isAlphanum (isAlphanum_of_isDigit digit)
    · rw [isNameChar, underscore, Bool.or_true]
  rw [chars]
  exact List.forall_mem_cons.mpr ⟨ofSnakeChar (by rw [isSnakeChar, begins]; rfl), fun d member => ofSnakeChar (rest d member)⟩

theorem IsTypeName.chars {name : String} (valid : IsTypeName name) : ∀ c ∈ name.toList, isNameChar c = true := by
  obtain ⟨c, others, chars, begins, rest⟩ := valid.grammar
  rw [chars]
  refine List.forall_mem_cons.mpr ⟨?_, fun d member => isNameChar_of_isAlphanum (rest d member)⟩
  exact isNameChar_of_isAlphanum (isAlphanum_of_isUpper begins)

private theorem pascal_spec (raw : String) :
    pascal raw = "" ∨ Spells (fun c => c.isUpper || c.isDigit) Char.isAlphanum (pascal raw) := by
  have title {word : List Char} (letters : ∀ c ∈ word, c.isAlphanum = true) :
      ∀ c ∈ titleWord word, c.isAlphanum = true := by
    cases word with
    | nil => simp [titleWord]
    | cons d word =>
      refine List.forall_mem_cons.mpr ⟨isAlphanum_toUpper (letters d (List.mem_cons_self ..)), fun c member => ?_⟩
      obtain ⟨e, inside, rfl⟩ := List.mem_map.mp member
      exact isAlphanum_toLower (letters e (List.mem_cons_of_mem _ inside))
  cases found : words raw with
  | nil => exact Or.inl (by simp [pascal, found])
  | cons word others =>
    right
    have each {other : List Char} (member : other ∈ word :: others) := mem_words (found ▸ member)
    obtain ⟨c, word, rfl⟩ := List.exists_cons_of_ne_nil (each (List.mem_cons_self ..)).1
    have letters := (each (List.mem_cons_self ..)).2
    refine ⟨c.toUpper, word.map Char.toLower ++ others.flatMap titleWord, by simp [pascal, found, titleWord],
      toUpper_spec (letters c (List.mem_cons_self ..)), fun d member => ?_⟩
    rcases List.mem_append.mp member with first | later
    · exact title letters d (List.mem_cons_of_mem _ first)
    · obtain ⟨other, inside, among⟩ := List.mem_flatMap.mp later
      exact title (each (List.mem_cons_of_mem _ inside)).2 d among

private theorem mem_intercalate {separator : List α} {parts : List (List α)} {a : α}
    (member : a ∈ separator.intercalate parts) : a ∈ separator ∨ ∃ part ∈ parts, a ∈ part := by
  induction parts with
  | nil => simp at member
  | cons part parts ih =>
    cases parts with
    | nil => exact Or.inr ⟨part, by simp, by simpa using member⟩
    | cons next parts =>
      rw [List.intercalate_cons_cons] at member
      rcases List.mem_append.mp member with first | later
      · rcases List.mem_append.mp first with inside | between
        · exact Or.inr ⟨part, List.mem_cons_self .., inside⟩
        · exact Or.inl between
      · exact (ih later).imp_right fun ⟨other, listed, inside⟩ => ⟨other, List.mem_cons_of_mem _ listed, inside⟩

private theorem snake_spec (raw : String) :
    snake raw = "" ∨ Spells (fun c => c.isLower || c.isDigit) isSnakeChar (snake raw) := by
  have inside : ∀ c ∈ (snake raw).toList, isSnakeChar c = true := by
    intro c member
    rw [snake, String.toList_ofList] at member
    rcases mem_intercalate member with between | ⟨word, listed, letter⟩
    · rw [List.mem_singleton.mp between]
      decide
    · obtain ⟨word, written, rfl⟩ := List.mem_map.mp listed
      obtain ⟨c, among, rfl⟩ := List.mem_map.mp letter
      exact isSnakeChar_toLower ((mem_words written).2 c among)
  cases found : words raw with
  | nil => exact Or.inl (by simp [snake, found])
  | cons word others =>
    right
    obtain ⟨some, letters⟩ := mem_words (found ▸ List.mem_cons_self .. : word ∈ words raw)
    obtain ⟨c, word, rfl⟩ := List.exists_cons_of_ne_nil some
    have begins : ∃ rest, (snake raw).toList = c.toLower :: rest := by
      cases others with
      | nil => exact ⟨_, by simp [snake, found]; rfl⟩
      | cons next others => exact ⟨_, by simp [snake, found, List.intercalate_cons_cons]; rfl⟩
    obtain ⟨rest, chars⟩ := begins
    rw [chars] at inside
    exact ⟨_, rest, chars, toLower_spec (letters c (List.mem_cons_self ..)),
      fun d member => inside d (List.mem_cons_of_mem _ member)⟩

/-- What takes the place of nothing, and what goes in front of a digit, gives the name its first character. -/
private theorem repaired_spells {joined : String} (empty front : String)
    (spec : joined = "" ∨ Spells (fun c => first c || c.isDigit) rest joined)
    (digits : ∀ c, c.isDigit = true → rest c = true) (blank : Spells first rest empty) (before : Spells first rest front) :
    Spells first rest (if joined = "" then empty else if startsWithDigit joined then front ++ joined else joined) := by
  rcases spec with nothing | ⟨c, others, chars, begins, letters⟩
  · rwa [if_pos nothing]
  · have some : joined ≠ "" := by
      rintro rfl
      cases chars
    have starts : startsWithDigit joined = c.isDigit := by rw [startsWithDigit, chars]
    rw [if_neg some, starts]
    split
    next digit =>
      apply before.append
      rw [chars]
      exact List.forall_mem_cons.mpr ⟨digits c digit, letters⟩
    next other => exact ⟨c, others, chars, by simpa [other] using begins, letters⟩

private theorem keywords_end : ∀ word ∈ keywords, ∀ c, word.toList.getLast? = some c → c.isDigit = false ∧ c ≠ '_' := by
  have ends : keywords.all (fun word => word.toList.getLast?.all fun c => !c.isDigit && c != '_') = true := by
    decide +kernel
  intro word member c last
  simpa [last] using List.all_eq_true.mp ends word member

theorem snakeIdent_valid (raw : String) : IsValueName (snakeIdent raw) := by
  have spelled : IsSnake (if snake raw = "" then "value" else
      if startsWithDigit (snake raw) then "v" ++ snake raw else snake raw) :=
    repaired_spells "value" "v" (snake_spec raw) (fun _ => isSnakeChar_of_isDigit)
      (spells_of_check rfl (by decide)) (spells_of_check rfl (by decide))
  simp only [snakeIdent]
  generalize (if snake raw = "" then "value" else
    if startsWithDigit (snake raw) then "v" ++ snake raw else snake raw) = name at spelled ⊢
  split
  next keyword =>
    refine ⟨spelled.append (List.all_eq_true.mp (by decide)), fun member => ?_⟩
    exact (keywords_end _ member '_' (by simp [String.toList_append])).2 rfl
  next free => exact ⟨spelled, free⟩

theorem typeIdent_valid (raw : String) : IsModelName (typeIdent raw) := by
  have spelled : IsPascal (if pascal raw = "" then "Unnamed" else
      if startsWithDigit (pascal raw) then "T" ++ pascal raw else pascal raw) :=
    repaired_spells "Unnamed" "T" (pascal_spec raw) (fun _ => isAlphanum_of_isDigit)
      (spells_of_check rfl (by decide)) (spells_of_check rfl (by decide))
  simp only [typeIdent]
  generalize (if pascal raw = "" then "Unnamed" else
    if startsWithDigit (pascal raw) then "T" ++ pascal raw else pascal raw) = name at spelled ⊢
  have ofUnreserved {name : String} (spelled : IsPascal name) (free : name ∉ reservedTypes) : IsModelName name :=
    ⟨⟨spelled, fun same => free (same ▸ List.mem_cons_self ..)⟩, free⟩
  split
  next reserved =>
    have each : ∀ word ∈ reservedTypes, word ++ "Model" ∉ reservedTypes := by decide +kernel
    exact ofUnreserved (spelled.append (List.all_eq_true.mp (by decide))) (each name reserved)
  next free => exact ofUnreserved spelled free

theorem memberIdent_valid (literal : String) : IsTypeName (memberIdent literal) := by
  have spelled : IsPascal (if pascal literal = "" then "Empty" else
      if startsWithDigit (pascal literal) then "Value" ++ pascal literal else pascal literal) :=
    repaired_spells "Empty" "Value" (pascal_spec literal) (fun _ => isAlphanum_of_isDigit)
      (spells_of_check rfl (by decide)) (spells_of_check rfl (by decide))
  rw [memberIdent]
  by_cases nothing : pascal literal = ""
  · rw [if_pos nothing] at spelled ⊢
    exact ⟨spelled, by decide⟩
  by_cases digit : startsWithDigit (pascal literal) = true
  · rw [if_neg nothing, if_pos digit] at spelled
    rw [if_neg nothing, if_pos digit]
    exact ⟨spelled, fun same => by simpa using congrArg (·.toList.head?) same⟩
  rw [if_neg nothing, if_neg digit] at spelled
  rw [if_neg nothing, if_neg digit]
  by_cases self : pascal literal = "Self"
  · rw [if_pos self]
    exact ⟨spells_of_check rfl (by decide), by decide⟩
  · rw [if_neg self]
    exact ⟨spelled, self⟩

/-- No word of a list is a name with a number if none of them ends with a digit. -/
theorem numbered_not_mem {words : List String}
    (ends : words.all (fun word => word.toList.getLast?.all fun c => !c.isDigit) = true) (front : String) (n : Nat) :
    front ++ toString n ∉ words := by
  intro member
  obtain ⟨c, last⟩ := Option.isSome_iff_exists.mp (List.getLast?_isSome.mpr (Proofs.Numbering.toString_ne_nil n))
  have digit := Proofs.Numbering.isDigit_of_mem_toString (List.mem_of_getLast? last)
  have whole : (front ++ toString n).toList.getLast? = some c := by
    rw [String.toList_append, List.getLast?_append, last, Option.some_or]
  have other := List.all_eq_true.mp ends _ member
  rw [whole, Option.all_some, digit] at other
  cases other

theorem IsValueName.numbered (valid : IsValueName name) (n : Nat) : IsValueName (name ++ "_" ++ toString n) where
  grammar := (valid.grammar.append (List.all_eq_true.mp (by decide))).append fun _ member =>
    isSnakeChar_of_isDigit (Proofs.Numbering.isDigit_of_mem_toString member)
  free := numbered_not_mem (by decide +kernel) _ n

theorem IsTypeName.numbered (valid : IsTypeName name) (n : Nat) : IsTypeName (name ++ "" ++ toString n) where
  grammar := (valid.grammar.append (by simp)).append fun _ member =>
    isAlphanum_of_isDigit (Proofs.Numbering.isDigit_of_mem_toString member)
  free := by
    have free : name ++ "" ++ toString n ∉ ["Self"] := numbered_not_mem (by decide) _ n
    simpa using free

theorem IsModelName.numbered (valid : IsModelName name) (n : Nat) : IsModelName (name ++ "" ++ toString n) where
  toIsTypeName := valid.toIsTypeName.numbered n
  unreserved := numbered_not_mem (by decide +kernel) _ n

theorem allocateAll_valueNames {scope : Scope} {wishes : List String} (underscore : scope.separator = "_")
    (each : ∀ wish ∈ wishes, IsValueName wish) : ∀ name ∈ scope.allocateAll wishes, IsValueName name := by
  refine scope.allocateAll_keeps each fun name n valid => ?_
  rw [underscore]
  exact valid.numbered n

theorem allocateAll_typeNames {scope : Scope} {wishes : List String} (nothing : scope.separator = "")
    (each : ∀ wish ∈ wishes, IsTypeName wish) : ∀ name ∈ scope.allocateAll wishes, IsTypeName name := by
  refine scope.allocateAll_keeps each fun name n valid => ?_
  rw [nothing]
  exact valid.numbered n

theorem allocateAll_modelNames {scope : Scope} {wishes : List String} (nothing : scope.separator = "")
    (each : ∀ wish ∈ wishes, IsModelName wish) : ∀ name ∈ scope.allocateAll wishes, IsModelName name := by
  refine scope.allocateAll_keeps each fun name n valid => ?_
  rw [nothing]
  exact valid.numbered n

theorem stem_valid (endpoint : Endpoint) : IsValueName (stem endpoint) := by
  rw [stem, operationStem]
  split
  · exact snakeIdent_valid _
  · exact snakeIdent_valid _

theorem qualify_valid (group : List Endpoint) (endpoint : Endpoint) : IsValueName (qualify group endpoint) := by
  simp only [qualify]
  split
  · exact stem_valid endpoint
  · split
    · exact snakeIdent_valid _
    · split
      · exact stem_valid endpoint
      · exact snakeIdent_valid _

theorem NamedFor.valid {endpoints : List Endpoint} {endpoint : Endpoint} {name : String}
    (named : NamedFor endpoints endpoint name) : IsValueName name := by
  rcases named with rfl | ⟨n, _, rfl⟩
  · exact qualify_valid _ endpoint
  · exact (qualify_valid _ endpoint).numbered n

theorem methodNames_valid (endpoints : List Endpoint) (reserved : List String) :
    ∀ name ∈ methodNames endpoints reserved, IsValueName name := by
  intro name member
  obtain ⟨i, inside, rfl⟩ := List.getElem_of_mem member
  exact ((methodNames_named endpoints reserved).get (by simpa using inside) inside).valid

theorem IsPascal.suffixed {suffix : String} (spelled : IsPascal name) (letters : suffix.toList.all Char.isAlphanum = true)
    (ends : suffix.toList.getLast?.any (· != 'f') = true) : IsTypeName (name ++ suffix) where
  grammar := spelled.append (List.all_eq_true.mp letters)
  free := by
    intro same
    have last := congrArg (·.toList.getLast?) same
    simp only [String.toList_append, List.getLast?_append] at last
    cases found : suffix.toList.getLast? with
    | none => simp [found] at ends
    | some c =>
      rw [found] at last ends
      cases last
      cases ends

theorem familyName_valid (method : String) : IsTypeName (familyName method) :=
  (typeIdent_valid method).grammar.suffixed (by decide) (by decide)

theorem moduleIdent_valid (tag : String) : IsValueName (moduleIdent tag) := by
  rw [moduleIdent]
  split
  · exact ⟨spells_of_check rfl (by decide), by decide +kernel⟩
  · exact snakeIdent_valid tag

theorem clientTypeName_valid (tag : String) : IsTypeName (clientTypeName tag) := by
  rw [clientTypeName]
  split
  · exact ⟨spells_of_check rfl (by decide), by decide⟩
  · exact (typeIdent_valid tag).grammar.suffixed (by decide) (by decide)

end ClientForge.Ident
