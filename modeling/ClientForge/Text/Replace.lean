/-!
Replacing the occurrences of a pattern, from left to right and without overlaps.
-/

namespace ClientForge.Text

/-- Replaces every occurrence of the nonempty `pattern`; `skip` characters still belong to the
occurrence found last. -/
def replaceFrom (pattern replacement : List Char) : Nat → List Char → List Char
  | _, [] => []
  | skip + 1, _ :: rest => replaceFrom pattern replacement skip rest
  | 0, c :: rest =>
    if pattern.isPrefixOf (c :: rest) then
      replacement ++ replaceFrom pattern replacement (pattern.length - 1) rest
    else c :: replaceFrom pattern replacement 0 rest

/-- Replaces every occurrence of the nonempty `pattern`. -/
def replaceChars (pattern replacement text : List Char) : List Char :=
  replaceFrom pattern replacement 0 text

def replace (pattern replacement text : String) : String :=
  String.ofList (replaceChars pattern.toList replacement.toList text.toList)

variable {pattern replacement text rest : List Char}

theorem replaceFrom_drop (skip : Nat) :
    replaceFrom pattern replacement skip text = replaceChars pattern replacement (text.drop skip) := by
  induction text generalizing skip with
  | nil => simp [replaceChars, replaceFrom]
  | cons c text ih =>
    cases skip with
    | zero => rfl
    | succ skip => exact ih skip

theorem replaceChars_occurrence (nonempty : pattern ≠ []) :
    replaceChars pattern replacement (pattern ++ rest) = replacement ++ replaceChars pattern replacement rest := by
  obtain ⟨c, others, rfl⟩ := List.exists_cons_of_ne_nil nonempty
  have found : (c :: others).isPrefixOf (c :: (others ++ rest)) = true :=
    List.isPrefixOf_iff_prefix.mpr (List.prefix_append (c :: others) rest)
  rw [List.cons_append, replaceChars, replaceFrom, if_pos found, replaceFrom_drop]
  simp

theorem replaceChars_cons {c : Char} (other : ¬ pattern <+: c :: rest) :
    replaceChars pattern replacement (c :: rest) = c :: replaceChars pattern replacement rest := by
  rw [replaceChars, replaceFrom, if_neg fun found => other (List.isPrefixOf_iff_prefix.mp found)]
  rfl

/-- A front in which no occurrence begins stays. -/
theorem replaceChars_append {front : List Char}
    (none : ∀ before behind, front = before ++ behind → behind ≠ [] → ¬ pattern <+: behind ++ rest) :
    replaceChars pattern replacement (front ++ rest) = front ++ replaceChars pattern replacement rest := by
  induction front with
  | nil => rfl
  | cons c front ih =>
    have here : ¬ pattern <+: c :: (front ++ rest) := none [] (c :: front) rfl (by simp)
    rw [List.cons_append, replaceChars_cons here, ih, List.cons_append]
    intro before behind whole
    exact none (c :: before) behind (by rw [whole, List.cons_append])

theorem replaceChars_append_of_notMem {mark : Char} {front : List Char} (absent : mark ∉ front) :
    replaceChars (mark :: pattern) replacement (front ++ rest) =
      front ++ replaceChars (mark :: pattern) replacement rest := by
  apply replaceChars_append
  intro before behind whole nonempty starts
  obtain ⟨c, behind, rfl⟩ := List.exists_cons_of_ne_nil nonempty
  obtain rfl : mark = c := (List.cons_prefix_cons.mp starts).1
  exact absent (by simp [whole])

/-- Replaces piece by piece where no occurrence begins in one piece and ends in another. -/
theorem replaceChars_flatMap {written read : Char → List Char}
    (piece : ∀ c rest, replaceChars pattern replacement (written c ++ rest) =
      read c ++ replaceChars pattern replacement rest) :
    replaceChars pattern replacement (text.flatMap written) = text.flatMap read := by
  induction text with
  | nil => rfl
  | cons c text ih => rw [List.flatMap_cons, piece, ih, List.flatMap_cons]

end ClientForge.Text
