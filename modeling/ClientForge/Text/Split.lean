/-!
Texts in parts. Cutting a list at separators gives one more part than there are separators, and
joining the parts with the separator gives the list back. A line ends at a line feed, which may
follow a carriage return; a text that ends with a line end has no empty last line. The segments of
a path have slashes between them. Blanks, which are white space in the sense of Unicode, may be
dropped at the ends.
-/

namespace ClientForge.Text

/-- The parts between the elements that are separators. -/
def splitWhere (isSeparator : α → Bool) : List α → List (List α)
  | [] => [[]]
  | a :: rest =>
    if isSeparator a then [] :: splitWhere isSeparator rest
    else match splitWhere isSeparator rest with
      | [] => [[a]]
      | part :: parts => (a :: part) :: parts

def splitAt (separator : Char) (text : String) : List String :=
  (splitWhere (· == separator) text.toList).map String.ofList

/-- Drops one carriage return at the end. -/
def dropReturn (line : List Char) : List Char :=
  match line.reverse with
  | '\r' :: front => front.reverse
  | _ => line

/-- The parts up to each line feed; the last part counts only if it is not empty, and only the
parts that a line feed ends lose a carriage return. -/
def lineParts : List (List Char) → List (List Char)
  | [] => []
  | [last] => if last.isEmpty then [] else [last]
  | part :: parts => dropReturn part :: lineParts parts

def lines (text : String) : List String :=
  (lineParts (splitWhere (· == '\n') text.toList)).map String.ofList

/-- Puts a segment behind a path. An absolute segment takes the path's place. -/
def pushSegment (path segment : String) : String :=
  if ['/'].isPrefixOf segment.toList then segment
  else if path = "" || ['/'].isSuffixOf path.toList then path ++ segment
  else path ++ "/" ++ segment

def joinPath (path : String) (segments : List String) : String := segments.foldl pushSegment path

/-- The characters with the property White_Space. -/
def isBlank (c : Char) : Bool :=
  (0x09 ≤ c.toNat && c.toNat ≤ 0x0d) || c.toNat == 0x20 || c.toNat == 0x85 || c.toNat == 0xa0 ||
    c.toNat == 0x1680 || (0x2000 ≤ c.toNat && c.toNat ≤ 0x200a) || c.toNat == 0x2028 ||
    c.toNat == 0x2029 || c.toNat == 0x202f || c.toNat == 0x205f || c.toNat == 0x3000

def trimRight (chars : List Char) : List Char :=
  (chars.reverse.dropWhile isBlank).reverse

def trimChars (chars : List Char) : List Char :=
  trimRight (chars.dropWhile isBlank)

def trimEnd (text : String) : String :=
  String.ofList (trimRight text.toList)

def trim (text : String) : String :=
  String.ofList (trimChars text.toList)

def isAllBlank (text : String) : Bool :=
  text.toList.all isBlank

theorem splitWhere_ne_nil (isSeparator : α → Bool) (list : List α) :
    splitWhere isSeparator list ≠ [] := by
  cases list with
  | nil => simp [splitWhere]
  | cons a rest =>
    rw [splitWhere]
    split
    · simp
    · split <;> simp

theorem length_splitWhere (isSeparator : α → Bool) (list : List α) :
    (splitWhere isSeparator list).length = list.countP isSeparator + 1 := by
  induction list with
  | nil => rfl
  | cons a rest ih =>
    rw [splitWhere, List.countP_cons]
    split
    · simp [ih]
    · split
      · exact absurd (by assumption) (splitWhere_ne_nil isSeparator rest)
      · simp_all

theorem splitWhere_eq_singleton {isSeparator : α → Bool} {list : List α}
    (h : ∀ a ∈ list, isSeparator a = false) : splitWhere isSeparator list = [list] := by
  induction list with
  | nil => rfl
  | cons a rest ih => simp [splitWhere, h a (by simp), ih (fun b hb => h b (by simp [hb]))]

/-- The part in front of the first separator comes first. -/
theorem splitWhere_append {isSeparator : α → Bool} {part rest : List α} {separator : α}
    (inside : ∀ a ∈ part, isSeparator a = false) (separates : isSeparator separator = true) :
    splitWhere isSeparator (part ++ separator :: rest) = part :: splitWhere isSeparator rest := by
  induction part with
  | nil => simp [splitWhere, separates]
  | cons a part ih =>
    have later := ih fun b member => inside b (List.mem_cons_of_mem _ member)
    simp [splitWhere, inside a (List.mem_cons_self ..), later]

/-- The parts in front of a separator come before those behind it. -/
theorem splitWhere_append_cons {isSeparator : α → Bool} {separator : α} (front rest : List α)
    (separates : isSeparator separator = true) :
    splitWhere isSeparator (front ++ separator :: rest) = splitWhere isSeparator front ++ splitWhere isSeparator rest := by
  induction front with
  | nil => simp [splitWhere, separates]
  | cons a front ih =>
    rw [List.cons_append, splitWhere, splitWhere, ih]
    split
    · rfl
    · cases parts : splitWhere isSeparator front with
      | nil => exact absurd parts (splitWhere_ne_nil isSeparator front)
      | cons part parts => rfl

theorem splitWhere_eq_one {isSeparator : α → Bool} {list part : List α} :
    splitWhere isSeparator list = [part] ↔ list = part ∧ ∀ a ∈ part, isSeparator a = false := by
  constructor
  · intro only
    have none : list.countP isSeparator = 0 := by
      have length := length_splitWhere isSeparator list
      simpa [only] using length
    have inside : ∀ a ∈ list, isSeparator a = false := by simpa [List.countP_eq_zero] using none
    have same : list = part := by simpa [splitWhere_eq_singleton inside] using only
    exact ⟨same, same ▸ inside⟩
  · rintro ⟨rfl, inside⟩
    exact splitWhere_eq_singleton inside

theorem splitWhere_eq_cons {isSeparator : α → Bool} {list first second : List α} {parts : List (List α)} :
    splitWhere isSeparator list = first :: second :: parts ↔
      (∀ a ∈ first, isSeparator a = false) ∧ ∃ separator rest, isSeparator separator = true ∧
        list = first ++ separator :: rest ∧ splitWhere isSeparator rest = second :: parts := by
  constructor
  · intro split
    induction list generalizing first with
    | nil => simp [splitWhere] at split
    | cons a list ih =>
      rw [splitWhere] at split
      by_cases separates : isSeparator a = true
      · rw [if_pos separates, List.cons.injEq] at split
        obtain ⟨rfl, later⟩ := split
        exact ⟨by simp, a, list, separates, rfl, later⟩
      · rw [if_neg separates] at split
        cases behind : splitWhere isSeparator list with
        | nil => exact absurd behind (splitWhere_ne_nil isSeparator list)
        | cons part others =>
          simp only [behind, List.cons.injEq] at split
          obtain ⟨rfl, rfl⟩ := split
          obtain ⟨inside, separator, rest, found, rfl, later⟩ := ih behind
          refine ⟨fun b member => ?_, separator, rest, found, rfl, later⟩
          rcases List.mem_cons.mp member with rfl | further
          · exact Bool.eq_false_iff.mpr separates
          · exact inside b further
  · rintro ⟨inside, separator, rest, separates, rfl, later⟩
    rw [splitWhere_append inside separates, later]

/-- No part holds a separator. -/
theorem not_separator_of_mem {isSeparator : α → Bool} {list part : List α}
    (member : part ∈ splitWhere isSeparator list) : ∀ a ∈ part, isSeparator a = false := by
  induction list generalizing part with
  | nil => simp_all [splitWhere]
  | cons a rest ih =>
    rw [splitWhere] at member
    by_cases separates : isSeparator a = true
    · rw [if_pos separates] at member
      rcases List.mem_cons.mp member with rfl | later
      · simp
      · exact ih later
    · rw [if_neg separates] at member
      cases behind : splitWhere isSeparator rest with
      | nil => exact absurd behind (splitWhere_ne_nil isSeparator rest)
      | cons first parts =>
        rw [behind] at ih
        simp only [behind] at member
        rcases List.mem_cons.mp member with rfl | later
        · intro b inside
          rcases List.mem_cons.mp inside with rfl | further
          · exact Bool.eq_false_iff.mpr separates
          · exact ih (List.mem_cons_self ..) b further
        · exact ih (List.mem_cons_of_mem _ later)

end ClientForge.Text
