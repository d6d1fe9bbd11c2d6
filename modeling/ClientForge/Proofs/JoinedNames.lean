import ClientForge.Proofs.IdentifierGrammar

/-! Names that are joined with an underscore. Their words are those of the one and then those of the other, and what stands
behind the last underscore can be told from what stands in front of it. -/

namespace ClientForge.Ident

private theorem flatten_splitWhere {α : Type} (isSeparator : α → Bool) (list : List α) :
    (Text.splitWhere isSeparator list).flatten = list.filter (!isSeparator ·) := by
  induction list with
  | nil => rfl
  | cons a rest ih =>
    rw [Text.splitWhere]
    by_cases separates : isSeparator a = true
    · simp [separates, ih]
    · rw [if_neg separates, List.filter_cons_of_pos (by simpa using separates), ← ih]
      split
      next nothing => exact absurd nothing (Text.splitWhere_ne_nil _ _)
      next parts => rw [parts]; rfl

theorem flatten_words (raw : String) : (words raw).flatten = raw.toList.filter Char.isAlphanum := by
  have cutting (runs : List (List Char)) : (runs.flatMap (cut .none)).flatten = runs.flatten := by
    induction runs with
    | nil => rfl
    | cons run runs ih => rw [List.flatMap_cons, List.flatten_append, flatten_cut, ih, List.flatten_cons]
  rw [words, cutting, flatten_splitWhere]
  simp only [Bool.not_not]

theorem words_append (front rest : String) : words (front ++ "_" ++ rest) = words front ++ words rest := by
  have whole : (front ++ "_" ++ rest).toList = front.toList ++ '_' :: rest.toList := by simp
  rw [words, whole, Text.splitWhere_append_cons _ _ rfl, List.flatMap_append, words, words]

theorem words_ne_nil {name : String} (valid : IsValueName name) : words name ≠ [] := by
  obtain ⟨c, others, chars, lower, -⟩ := valid.grammar
  intro nothing
  have letters := flatten_words name
  rw [nothing, chars, List.filter_cons_of_pos (isAlphanum_of_isLower lower)] at letters
  cases letters

private theorem intercalate_append {α : Type} {separator : List α} {front : List (List α)} (some : front ≠ []) (last : List α) :
    separator.intercalate (front ++ [last]) = separator.intercalate front ++ separator ++ last := by
  induction front with
  | nil => exact absurd rfl some
  | cons part front ih =>
    cases front with
    | nil => simp
    | cons next front =>
      rw [List.cons_append, List.cons_append, List.intercalate_cons_cons, ← List.cons_append, ih (by simp),
        List.intercalate_cons_cons]
      simp only [List.append_assoc]

theorem snake_append {front word : String} (some : words front ≠ []) (single : words word = [word.toList]) :
    snake (front ++ "_" ++ word) = snake front ++ "_" ++ String.ofList (word.toList.map Char.toLower) := by
  rw [snake, words_append, single, List.map_append, List.map_singleton, intercalate_append (by simpa using some)]
  apply String.toList_inj.mp
  simp [snake]

def led (name : String) : String := if startsWithDigit name then "v" ++ name else name

private theorem startsWithDigit_append (front rest : String) :
    startsWithDigit (front ++ "_" ++ rest) = startsWithDigit front := by
  have whole : (front ++ "_" ++ rest).toList = front.toList ++ '_' :: rest.toList := by simp
  rw [startsWithDigit, startsWithDigit, whole]
  cases front.toList <;> rfl

/-- A word behind an underscore needs no repair itself, and leaves the repair in front as it is. -/
theorem snakeIdent_append {front word : String} (some : words front ≠ []) (single : words word = [word.toList]) :
    snakeIdent (front ++ "_" ++ word) = led (snake front) ++ "_" ++ String.ofList (word.toList.map Char.toLower) := by
  have nonempty (a b : String) : a ++ "_" ++ b ≠ "" := by
    intro nothing
    have chars := congrArg String.toList nothing
    simp at chars
  have noKeyword (a b : String) : a ++ "_" ++ b ∉ keywords := by
    intro keyword
    have plain : keywords.all (fun word => !word.toList.contains '_') = true := by decide +kernel
    simpa using List.all_eq_true.mp plain _ keyword
  rw [snakeIdent, snake_append some single]
  simp only [nonempty, if_false, startsWithDigit_append, led]
  split
  · rw [← String.append_assoc, ← String.append_assoc, if_neg (noKeyword _ _)]
  · rw [if_neg (noKeyword _ _)]

private theorem splitWhere_underscore (front : String) {last : String} (plain : '_' ∉ last.toList) :
    Text.splitWhere (· == '_') (front ++ "_" ++ last).toList =
      Text.splitWhere (· == '_') front.toList ++ [last.toList] := by
  have whole : (front ++ "_" ++ last).toList = front.toList ++ '_' :: last.toList := by simp
  have single : Text.splitWhere (· == '_') last.toList = [last.toList] :=
    Text.splitWhere_eq_singleton fun c member => beq_eq_false_iff_ne.mpr fun same => plain (same ▸ member)
  rw [whole, Text.splitWhere_append_cons _ _ rfl, single]

/-- The last part of a name can be told from what stands in front of it. -/
theorem append_underscore_inj {front back first last : String} (plain : '_' ∉ first.toList) (plainToo : '_' ∉ last.toList)
    (same : front ++ "_" ++ first = back ++ "_" ++ last) : front = back ∧ first = last := by
  have parts := congrArg (fun name : String => Text.splitWhere (· == '_') name.toList) same
  simp only [splitWhere_underscore _ plain, splitWhere_underscore _ plainToo] at parts
  obtain rfl : first = last := String.toList_inj.mp (List.singleton_inj.mp (List.append_inj' parts rfl).2)
  exact ⟨(String.append_left_inj _).mp ((String.append_left_inj _).mp same), rfl⟩

end ClientForge.Ident
