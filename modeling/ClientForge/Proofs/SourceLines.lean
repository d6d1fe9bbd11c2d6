import ClientForge.Source.Basic

/-! Written lines read back. Lines that no line end stands in are the lines of the text that is made of them. -/

namespace ClientForge.Source

/-- A line without a line end in it. -/
def IsLine (line : String) : Prop := ∀ c ∈ line.toList, c ≠ '\n' ∧ c ≠ '\r'

theorem IsLine.append {front back : String} (first : IsLine front) (last : IsLine back) : IsLine (front ++ back) := by
  intro c member
  rw [String.toList_append] at member
  exact (List.mem_append.mp member).elim (first c) (last c)

theorem text_toList_cons (line : String) (lines : List String) :
    (text (line :: lines)).toList = line.toList ++ '\n' :: (text lines).toList := by
  simp [text, String.join_cons, String.toList_append]

private theorem dropReturn_of_isLine {line : String} (whole : IsLine line) : Text.dropReturn line.toList = line.toList := by
  rw [Text.dropReturn]
  split
  next front reversed =>
    have inside : '\r' ∈ line.toList := List.mem_reverse.mp (reversed ▸ List.mem_cons_self ..)
    exact absurd rfl (whole _ inside).2
  next => rfl

theorem lines_text {lines : List String} (whole : ∀ line ∈ lines, IsLine line) : Text.lines (text lines) = lines := by
  induction lines with
  | nil => rfl
  | cons line lines ih =>
    obtain ⟨first, rest⟩ := List.forall_mem_cons.mp whole
    have later := ih rest
    have inside : ∀ c ∈ line.toList, (c == '\n') = false := fun c member => beq_eq_false_iff_ne.mpr (first c member).1
    rw [Text.lines] at later
    rw [Text.lines, text_toList_cons, Text.splitWhere_append inside (by decide)]
    cases parts : Text.splitWhere (· == '\n') (text lines).toList with
    | nil => exact absurd parts (Text.splitWhere_ne_nil _ _)
    | cons part others =>
      rw [parts] at later
      rw [Text.lineParts, dropReturn_of_isLine first, List.map_cons, later, String.ofList_toList]
      exact nofun

end ClientForge.Source
