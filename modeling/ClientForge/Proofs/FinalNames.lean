import ClientForge.Proofs.JoinedNames

/-! Names that are final. Words in small letters are cut nowhere, so that joining them and reading the words off again loses
nothing; a repaired name is repaired in the same way again. -/

namespace ClientForge.Ident
open Api

private theorem cut_whole {mode : Case} {c : Char} {rest : List Char} (begins : mode = .upper → c.isUpper = false)
    (small : ∀ d ∈ rest, d.isUpper = false) : cut mode (c :: rest) = [c :: rest] := by
  induction rest generalizing mode c with
  | nil => rfl
  | cons next rest ih =>
    obtain ⟨first, others⟩ := List.forall_mem_cons.mp small
    have noCapital : ¬ (mode.after c = .lower ∧ next.isUpper = true) := by simp [first]
    have noEnd : ¬ (mode = .upper ∧ c.isUpper = true ∧ next.isLower = true) := by
      rintro ⟨upper, capital, -⟩
      rw [begins upper] at capital
      cases capital
    rw [cut, if_neg noCapital, if_neg noEnd, ih (fun _ => first) others, onto]

/-- A name with no capital but perhaps its first letter is one word. -/
theorem words_single {name : String} {c : Char} {rest : List Char} (chars : name.toList = c :: rest)
    (letters : ∀ d ∈ name.toList, d.isAlphanum = true) (small : ∀ d ∈ rest, d.isUpper = false) :
    words name = [name.toList] := by
  have run : Text.splitWhere (fun c => !c.isAlphanum) name.toList = [name.toList] :=
    Text.splitWhere_eq_singleton fun d member => by simp [letters d member]
  rw [words, run, List.flatMap_singleton, chars, cut_whole (by simp) small]

def joined (parts : List (List Char)) : String := String.ofList (['_'].intercalate parts)

structure IsSmall (part : List Char) : Prop where
  nonempty : part ≠ []
  letters : ∀ c ∈ part, (c.isLower || c.isDigit) = true

theorem small_spec {c : Char} (small : (c.isLower || c.isDigit) = true) :
    c.isAlphanum = true ∧ c.isUpper = false ∧ c.toLower = c := by
  have letter : c.isAlphanum = true := (Bool.or_eq_true_iff.mp small).elim isAlphanum_of_isLower isAlphanum_of_isDigit
  have noCapital : c.isUpper = false := by
    rw [Bool.or_eq_true, isLower_iff, isDigit_iff] at small
    rw [Bool.eq_false_iff, ne_eq, isUpper_iff]
    omega
  exact ⟨letter, noCapital, toLower_of_not_isUpper noCapital⟩

theorem map_toLower_of_small {part : List Char} (small : ∀ c ∈ part, (c.isLower || c.isDigit) = true) :
    part.map Char.toLower = part :=
  (List.map_congr_left fun c member => (small_spec (small c member)).2.2).trans (List.map_id' part)

theorem words_joined {parts : List (List Char)} (small : ∀ part ∈ parts, IsSmall part) : words (joined parts) = parts := by
  induction parts with
  | nil => rfl
  | cons part parts ih =>
    obtain ⟨first, others⟩ := List.forall_mem_cons.mp small
    obtain ⟨c, rest, rfl⟩ := List.exists_cons_of_ne_nil first.nonempty
    have single : words (String.ofList (c :: rest)) = [c :: rest] := by
      rw [words_single (String.toList_ofList) (fun d member => ?_) fun d member => ?_, String.toList_ofList]
      · rw [String.toList_ofList] at member
        exact (small_spec (first.letters d member)).1
      · exact (small_spec (first.letters d (List.mem_cons_of_mem _ member))).2.1
    cases parts with
    | nil => simpa [joined] using single
    | cons next parts =>
      have front : joined ((c :: rest) :: next :: parts) = String.ofList (c :: rest) ++ "_" ++ joined (next :: parts) := by
        apply String.toList_inj.mp
        simp [joined, List.intercalate_cons_cons]
      rw [front, words_append, single, ih others, List.singleton_append]

theorem snake_joined {parts : List (List Char)} (small : ∀ part ∈ parts, IsSmall part) :
    snake (joined parts) = joined parts := by
  have same : parts.map (·.map Char.toLower) = parts :=
    (List.map_congr_left fun part member => map_toLower_of_small (small part member).letters).trans (List.map_id' parts)
  rw [snake, words_joined small, same, joined]

private theorem joined_begins (c : Char) (part : List Char) (parts : List (List Char)) :
    ∃ rest, (joined ((c :: part) :: parts)).toList = c :: rest := by
  cases parts with
  | nil => exact ⟨part, by simp [joined]⟩
  | cons next parts => exact ⟨_, by simp [joined, List.intercalate_cons_cons]; rfl⟩

private theorem joined_ne_empty {parts : List (List Char)} (some : parts ≠ []) (small : ∀ part ∈ parts, IsSmall part) :
    joined parts ≠ "" := by
  intro nothing
  obtain ⟨part, others, rfl⟩ := List.exists_cons_of_ne_nil some
  obtain ⟨c, rest, rfl⟩ := List.exists_cons_of_ne_nil (small part (List.mem_cons_self ..)).nonempty
  obtain ⟨behind, chars⟩ := joined_begins c rest others
  rw [nothing] at chars
  cases chars

private theorem joined_front (c : Char) (part : List Char) (parts : List (List Char)) :
    joined ((c :: part) :: parts) = String.singleton c ++ joined (part :: parts) := by
  apply String.toList_inj.mp
  cases parts with
  | nil => simp [joined]
  | cons next parts => simp [joined, List.intercalate_cons_cons]

/-- The form of a final name. It has words in small letters, the first of which begins with a letter, or is a keyword with
an underscore behind it. -/
inductive IsFinal : String → Prop where
  | words {parts : List (List Char)} (some : parts ≠ []) (small : ∀ part ∈ parts, IsSmall part)
      (letter : startsWithDigit (joined parts) = false) (free : joined parts ∉ keywords) : IsFinal (joined parts)
  | keyword {word : String} (listed : word ∈ keywords) : IsFinal (word ++ "_")

private theorem keywords_small : ∀ word ∈ keywords, IsSmall word.toList ∧ startsWithDigit word = false := by
  have all : keywords.all (fun word => !word.toList.isEmpty && word.toList.all Char.isLower) = true := by decide +kernel
  intro word listed
  obtain ⟨some, small⟩ := Bool.and_eq_true_iff.mp (List.all_eq_true.mp all word listed)
  have letters : ∀ c ∈ word.toList, c.isLower = true := List.all_eq_true.mp small
  refine ⟨⟨by simpa using some, fun c member => by rw [letters c member, Bool.true_or]⟩, ?_⟩
  rw [startsWithDigit]
  cases chars : word.toList with
  | nil => rfl
  | cons c rest => exact not_isDigit_of_isLower (letters c (by simp [chars]))

/-- The second pass drops the underscore of a keyword, and puts it back. -/
private theorem snakeIdent_keyword {word : String} (listed : word ∈ keywords) : snakeIdent (word ++ "_") = word ++ "_" := by
  obtain ⟨small, letter⟩ := keywords_small word listed
  have alone : ∀ part ∈ [word.toList], IsSmall part := List.forall_mem_singleton.mpr small
  have same : joined [word.toList] = word := by simp [joined]
  have dropped : snake (word ++ "_") = word := by
    have front : word ++ "_" = joined [word.toList] ++ "_" ++ "" := by rw [same, String.append_empty]
    have nothing : words "" = [] := by rfl
    rw [snake, front, words_append, words_joined alone, nothing, List.append_nil, List.map_singleton,
      map_toLower_of_small small.letters]
    exact same
  have nonempty : word ≠ "" := same ▸ joined_ne_empty (by simp) alone
  simp only [snakeIdent, dropped, if_neg nonempty, letter, Bool.false_eq_true, if_false, if_pos listed]

theorem IsFinal.snakeIdent_eq {name : String} (final : IsFinal name) : snakeIdent name = name := by
  cases final with
  | words some small letter free =>
    have nonempty := joined_ne_empty some small
    simp only [snakeIdent, snake_joined small, if_neg nonempty, letter, Bool.false_eq_true, if_false, if_neg free]
  | keyword listed => exact snakeIdent_keyword listed

private theorem lowered_small (raw : String) : ∀ part ∈ (words raw).map (·.map Char.toLower), IsSmall part := by
  intro part member
  obtain ⟨word, written, rfl⟩ := List.mem_map.mp member
  obtain ⟨some, letters⟩ := mem_words written
  refine ⟨by simpa using some, fun c inside => ?_⟩
  obtain ⟨d, among, rfl⟩ := List.mem_map.mp inside
  exact toLower_spec (letters d among)

private theorem repaired_joined (raw : String) : ∃ parts, parts ≠ [] ∧ (∀ part ∈ parts, IsSmall part) ∧
    startsWithDigit (joined parts) = false ∧
      (if snake raw = "" then "value" else if startsWithDigit (snake raw) then "v" ++ snake raw else snake raw) =
        joined parts := by
  have small := lowered_small raw
  have written : snake raw = joined ((words raw).map (·.map Char.toLower)) := rfl
  rw [written]
  cases parts : (words raw).map (·.map Char.toLower) with
  | nil =>
    refine ⟨["value".toList], by simp, fun part member => ?_, by decide, by rfl⟩
    rw [List.mem_singleton.mp member]
    exact ⟨by decide, List.all_eq_true.mp (by decide)⟩
  | cons part others =>
    rw [parts] at small
    obtain ⟨first, rest⟩ := List.forall_mem_cons.mp small
    obtain ⟨c, letters, rfl⟩ := List.exists_cons_of_ne_nil first.nonempty
    rw [if_neg (joined_ne_empty (by simp) small)]
    split
    next digit =>
      have led : IsSmall ('v' :: c :: letters) :=
        ⟨by simp, List.forall_mem_cons.mpr ⟨by decide, first.letters⟩⟩
      refine ⟨('v' :: c :: letters) :: others, by simp, List.forall_mem_cons.mpr ⟨led, rest⟩, ?_,
        (joined_front 'v' (c :: letters) others).symm⟩
      obtain ⟨_, begins⟩ := joined_begins 'v' (c :: letters) others
      rw [startsWithDigit, begins]
      rfl
    next letter =>
      exact ⟨(c :: letters) :: others, by simp, small, Bool.eq_false_iff.mpr letter, rfl⟩

theorem snakeIdent_final (raw : String) : IsFinal (snakeIdent raw) := by
  obtain ⟨parts, some, small, letter, repaired⟩ := repaired_joined raw
  simp only [snakeIdent, repaired]
  split
  next keyword => exact .keyword keyword
  next free => exact .words some small letter free

theorem stem_final (operationId : Option String) (method : HttpMethod) (path : String) :
    IsFinal (operationStem operationId method path) := by
  rw [operationStem]
  split
  · exact snakeIdent_final _
  · exact snakeIdent_final _

/-- A name of a value stays as it is when it is made a name again, and so does every stem. -/
theorem snakeIdent_settles : (∀ raw, snakeIdent (snakeIdent raw) = snakeIdent raw) ∧
    ∀ operationId method path,
      snakeIdent (operationStem operationId method path) = operationStem operationId method path :=
  ⟨fun raw => (snakeIdent_final raw).snakeIdent_eq, fun operationId method path => (stem_final operationId method path).snakeIdent_eq⟩

/-- The name of a type need not stay. -/
example : typeIdent "a b" = "AB" ∧ typeIdent "AB" = "Ab" := by decide +kernel

end ClientForge.Ident
