import ClientForge.Api.Status
import ClientForge.Proofs.IdentifierGrammar
import Mathlib.Data.List.Nodup

/-! Names of outcomes. A name is a word for the kind of outcome and what tells outcomes of that kind apart, so
that two outcomes have one name only where each is the lone success. -/

namespace ClientForge.Api.Status
open Ident Proofs.Numbering

private def classWord (hundred : Nat) : String :=
  if hundred = 2 then "Success" else if hundred = 4 ∨ hundred = 5 then "Failure" else "Status"

private def word : Status → String
  | exact code => classWord (code / 100)
  | range hundred => classWord hundred
  | default => "Failure"

private def mark (successes : Nat) : Status → String
  | exact code => if code / 100 = 2 ∧ successes = 1 then "" else toString code
  | range hundred => toString hundred ++ "xx"
  | default => ""

private theorem classWord_mem (hundred : Nat) : classWord hundred ∈ ["Success", "Failure", "Status"] := by
  unfold classWord
  split
  · simp
  · split <;> simp

private theorem word_mem (status : Status) : status.word ∈ ["Success", "Failure", "Status"] := by
  cases status with
  | exact code => exact classWord_mem _
  | range hundred => exact classWord_mem _
  | default => simp [word]

private theorem variantName_eq (successes : Nat) (status : Status) :
    status.variantName successes = status.word ++ status.mark successes := by
  cases status with
  | exact code =>
    simp only [variantName, word, mark, classWord, Bool.or_eq_true, decide_eq_true_eq]
    by_cases success : code / 100 = 2
    · simp only [success, if_true, true_and]
      split <;> simp
    · simp only [success, if_false, false_and]
      split <;> rfl
  | range hundred =>
    simp only [variantName, word, mark, classWord, Bool.or_eq_true, decide_eq_true_eq]
    by_cases success : hundred = 2
    · subst success
      rfl
    · simp only [success, if_false]
      split <;> rw [String.append_assoc]
  | default => rfl

/-- The first two letters tell the words apart, from each other and from `Self`. -/
private theorem take_word {word : String} (listed : word ∈ ["Success", "Failure", "Status"]) (behind : String) :
    (word ++ behind).toList.take 2 = word.toList.take 2 := by
  have long : ∀ word ∈ ["Success", "Failure", "Status"], 2 ≤ word.toList.length := by decide
  rw [String.toList_append, List.take_append_of_le_length (long word listed)]

private theorem word_append_inj {first second front back : String} (one : first ∈ ["Success", "Failure", "Status"])
    (two : second ∈ ["Success", "Failure", "Status"]) (same : first ++ front = second ++ back) :
    first = second ∧ front = back := by
  have apart : ∀ word ∈ ["Success", "Failure", "Status"], ∀ other ∈ ["Success", "Failure", "Status"],
      word.toList.take 2 = other.toList.take 2 → word = other := by decide
  have begins : first.toList.take 2 = second.toList.take 2 := by
    rw [← take_word one front, same, take_word two back]
  obtain rfl := apart first one second two begins
  exact ⟨rfl, (String.append_right_inj first).mp same⟩

private theorem toString_inj {first second : Nat} (same : toString first = toString second) : first = second :=
  numbered_injective "" (congrArg ("" ++ ·) same)

private theorem toString_ne_empty (n : Nat) : toString n ≠ "" := fun nothing => toString_ne_nil n (nothing ▸ rfl)

private theorem isExactSuccess_iff {code : Nat} : (exact code).isExactSuccess = true ↔ code / 100 = 2 := by
  simp only [isExactSuccess, Bool.and_eq_true, decide_eq_true_eq]
  omega

private theorem mark_exact_inj {successes code other : Nat}
    (same : (exact code).mark successes = (exact other).mark successes) :
    code = other ∨ successes = 1 ∧ code / 100 = 2 ∧ other / 100 = 2 := by
  simp only [mark] at same
  split at same
  next lone =>
    split at same
    next otherLone => exact Or.inr ⟨lone.2, lone.1, otherLone.1⟩
    next => exact absurd same.symm (toString_ne_empty other)
  next =>
    split at same
    next => exact absurd same (toString_ne_empty code)
    next => exact Or.inl (toString_inj same)

/-- A number has digits, and the mark of a class ends with a letter. -/
private theorem mark_exact_ne_range (successes code hundred : Nat) :
    (exact code).mark successes ≠ (range hundred).mark successes := by
  intro same
  simp only [mark] at same
  split at same
  next => simp at same
  next =>
    have letter : 'x' ∈ (toString code).toList := by
      rw [same]
      simp
    exact absurd (isDigit_of_mem_toString letter) (by decide)

private theorem exact_default_apart {successes code : Nat} (words : (exact code).word = default.word) :
    (exact code).mark successes ≠ default.mark successes := by
  intro same
  simp only [mark] at same
  split at same
  next lone => simp [word, classWord, lone.1] at words
  next => exact toString_ne_empty code same

private theorem mark_range_ne_default (successes hundred : Nat) :
    (range hundred).mark successes ≠ default.mark successes := by
  simp [mark]

/-- Two outcomes have the same name only if they are the same, or each of them is the lone success. -/
theorem eq_of_variantName_eq {successes : Nat} {first second : Status}
    (same : first.variantName successes = second.variantName successes) :
    first = second ∨ successes = 1 ∧ first.isExactSuccess = true ∧ second.isExactSuccess = true := by
  rw [variantName_eq, variantName_eq] at same
  obtain ⟨words, marks⟩ := word_append_inj (word_mem first) (word_mem second) same
  cases first with
  | exact code =>
    cases second with
    | exact other =>
      rw [isExactSuccess_iff, isExactSuccess_iff]
      exact (mark_exact_inj marks).imp_left (congrArg exact)
    | range hundred => exact absurd marks (mark_exact_ne_range successes code hundred)
    | default => exact absurd marks (exact_default_apart words)
  | range hundred =>
    cases second with
    | exact code => exact absurd marks.symm (mark_exact_ne_range successes code hundred)
    | range other => exact Or.inl (congrArg range (toString_inj ((String.append_left_inj _).mp marks)))
    | default => exact absurd marks (mark_range_ne_default successes hundred)
  | default =>
    cases second with
    | exact code => exact absurd marks.symm (exact_default_apart words.symm)
    | range hundred => exact absurd marks.symm (mark_range_ne_default successes hundred)
    | default => exact Or.inl rfl

theorem variantNames_nodup {statuses : List Status} (distinct : statuses.Nodup) :
    (statuses.map (variantName (statuses.countP isExactSuccess))).Nodup := by
  refine List.Nodup.map_on (fun first one second two same => ?_) distinct
  rcases eq_of_variantName_eq same with equal | ⟨alone, firstCounts, secondCounts⟩
  · exact equal
  · obtain ⟨lone, only⟩ := List.length_eq_one_iff.mp ((List.countP_eq_length_filter ..).symm.trans alone)
    have listed {status : Status} (member : status ∈ statuses) (counts : status.isExactSuccess = true) : status = lone := by
      have kept := List.mem_filter.mpr ⟨member, counts⟩
      rw [only] at kept
      exact List.mem_singleton.mp kept
    rw [listed one firstCounts, listed two secondCounts]

private theorem mark_letters (successes : Nat) (status : Status) :
    ∀ c ∈ (status.mark successes).toList, c.isAlphanum = true := by
  have digits {n : Nat} {c : Char} (member : c ∈ (toString n).toList) : c.isAlphanum = true :=
    isAlphanum_of_isDigit (isDigit_of_mem_toString member)
  cases status with
  | exact code =>
    simp only [mark]
    split
    · simp
    · exact fun c => digits
  | range hundred =>
    intro c member
    rw [mark, String.toList_append] at member
    rcases List.mem_append.mp member with digit | letter
    · exact digits digit
    · simp at letter
      rw [letter]
      decide
  | default => simp [mark]

theorem variantName_valid (successes : Nat) (status : Status) : IsTypeName (status.variantName successes) := by
  have spelled : ∀ word ∈ ["Success", "Failure", "Status"], IsPascal word := by
    simp only [List.forall_mem_cons]
    exact ⟨spells_of_check rfl (by decide), spells_of_check rfl (by decide), spells_of_check rfl (by decide), by simp⟩
  have other : ∀ word ∈ ["Success", "Failure", "Status"], word.toList.take 2 ≠ "Self".toList.take 2 := by decide
  rw [variantName_eq]
  refine ⟨(spelled _ (word_mem status)).append (mark_letters successes status), fun same => ?_⟩
  exact other _ (word_mem status) (by rw [← take_word (word_mem status) (status.mark successes), same])

end ClientForge.Api.Status
