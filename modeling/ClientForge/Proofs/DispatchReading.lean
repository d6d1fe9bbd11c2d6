import Mathlib.Data.List.TakeWhile
import ClientForge.Proofs.IdentifierGrammar
import ClientForge.Proofs.Numbering
import ClientForge.Source.Dispatch
import ClientForge.Text.Split

/-! The choice by status as its text reads: a `match` whose arms are tried in order, each with a number, a range
or several ranges, perhaps under a name, or a name alone that takes every number. The reader knows nothing of how
the text has been written. -/

namespace ClientForge.Source
open Api Plan Ident

/-- What a pattern calls the number, and the ranges that it asks for, if it asks for any. -/
structure MatchPattern where
  binding : Option String
  ranges : Option (List (Nat × Nat))
  deriving DecidableEq, Repr

def MatchPattern.covers (pattern : MatchPattern) (n : Nat) : Bool :=
  match pattern.ranges with
  | none => true
  | some ranges => ranges.any fun range => range.1 ≤ n && n ≤ range.2

structure MatchArm where
  pattern : MatchPattern
  value : String
  deriving DecidableEq, Repr

def readNumber (text : List Char) : Option Nat :=
  if text.all Char.isDigit && !text.isEmpty then some (Nat.ofDigitChars 10 text 0) else none

def readRange (text : List Char) : Option (Nat × Nat) :=
  match Text.splitWhere (· == '.') text with
  | [number] => (readNumber number).map fun n => (n, n)
  | [low, [], '=' :: high] => (readNumber low).bind fun first => (readNumber high).map fun last => (first, last)
  | _ => none

def readRanges (text : List Char) : Option (List (Nat × Nat)) :=
  if text.head? = some '(' then
    if text.getLast? = some ')' then
      (Text.splitWhere (· == '|') text.tail.dropLast).mapM fun range => readRange (Text.trimChars range)
    else none
  else (readRange text).map fun range => [range]

def isName (text : List Char) : Bool :=
  text.all (fun c => c.isAlphanum || c == '_') && !(text.head?.any Char.isDigit) && !text.isEmpty

def readPattern (text : List Char) : Option MatchPattern :=
  match Text.splitWhere (· == '@') text with
  | [alone] =>
    if isName alone then some ⟨some (String.ofList alone), none⟩
    else (readRanges alone).map fun ranges => ⟨none, some ranges⟩
  | [name, bound] =>
    if isName (Text.trimChars name) then
      (readRanges (Text.trimChars bound)).map fun ranges => ⟨some (String.ofList (Text.trimChars name)), some ranges⟩
    else none
  | _ => none

/-- Reads an arm: the first `>` ends its arrow, and a comma ends its value. -/
def readArm (line : String) : Option MatchArm :=
  let before := line.toList.takeWhile (· != '>')
  let value := Text.trimChars (line.toList.dropWhile (· != '>')).tail
  if before.getLast? = some '=' ∧ value.getLast? = some ',' then
    (readPattern (Text.trimChars before.dropLast)).map fun pattern => ⟨pattern, String.ofList value.dropLast⟩
  else none

/-- Reads a `match` on the status of a response. -/
def readMatch (lines : List String) : Option (List MatchArm) :=
  if lines.head?.map Text.trim = some "match response.status().as_u16() \x7b" ∧
      lines.getLast?.map Text.trim = some "\x7d" then
    lines.tail.dropLast.mapM readArm
  else none

def Pattern.reading : Pattern → MatchPattern
  | .code n => ⟨none, some [(n, n)]⟩
  | .hundred n => ⟨none, some [(100 * n, 100 * n + 99)]⟩
  | .hundreds first others =>
    ⟨some "status_code", some ((first :: others).map fun n => (100 * n, 100 * n + 99))⟩
  | .any => ⟨some "status_code", none⟩

/-- No end is blank. -/
structure Tight (text : List Char) : Prop where
  first : ∀ c, text.head? = some c → Text.isBlank c = false
  last : ∀ c, text.getLast? = some c → Text.isBlank c = false

theorem tight_of_forall {text : List Char} (none : ∀ c ∈ text, Text.isBlank c = false) : Tight text :=
  ⟨fun c head => none c (List.mem_of_head? head), fun c last => none c (List.mem_of_getLast? last)⟩

private theorem tight_append {front back : List Char} (middle : List Char) (first : Tight front) (last : Tight back)
    (some : front ≠ []) (someBack : back ≠ []) : Tight (front ++ middle ++ back) := by
  constructor
  · intro c head
    have begins := List.head?_eq_some_head some
    rw [List.append_assoc, List.head?_append, begins, Option.some_or] at head
    exact first.first c (begins.trans head)
  · intro c tail
    have ends := List.getLast?_eq_some_getLast someBack
    rw [List.getLast?_append, ends, Option.some_or] at tail
    exact last.last c (ends.trans tail)

private theorem dropWhile_blank {front text : List Char} (blank : ∀ c ∈ front, Text.isBlank c = true)
    (begins : ∀ c, text.head? = some c → Text.isBlank c = false) :
    (front ++ text).dropWhile Text.isBlank = text := by
  rw [List.dropWhile_append_of_pos blank]
  cases text with
  | nil => rfl
  | cons c text => exact List.dropWhile_cons_of_neg (by simp [begins c rfl])

theorem trimChars_padded {front text back : List Char} (blankFront : ∀ c ∈ front, Text.isBlank c = true)
    (blankBack : ∀ c ∈ back, Text.isBlank c = true) (tight : Tight text) :
    Text.trimChars (front ++ text ++ back) = text := by
  have right : Text.trimRight (text ++ back) = text := by
    rw [Text.trimRight, List.reverse_append, dropWhile_blank (by simpa using blankBack), List.reverse_reverse]
    intro c head
    exact tight.last c (by simpa using head)
  cases text with
  | nil =>
    have all : ∀ c ∈ front ++ back, Text.isBlank c = true := by
      intro c member
      exact (List.mem_append.mp member).elim (blankFront c) (blankBack c)
    rw [Text.trimChars, List.append_nil, List.dropWhile_eq_nil_iff.mpr all]
    rfl
  | cons c text =>
    rw [Text.trimChars, List.append_assoc, dropWhile_blank blankFront (by simpa using tight.first c), right]

theorem isName_of_chars {name others : List Char} {c : Char} (chars : name = c :: others)
    (all : ∀ d ∈ name, isNameChar d = true) (noDigit : c.isDigit = false) : isName name = true := by
  have letters : name.all (fun d => d.isAlphanum || d == '_') = true := List.all_eq_true.mpr all
  rw [isName, letters, chars]
  simp [noDigit]

theorem isName_of_valid {name : String} (valid : IsValueName name) : isName name.toList = true := by
  obtain ⟨c, others, chars, begins, -⟩ := valid.grammar
  exact isName_of_chars chars valid.chars (not_isDigit_of_isLower begins)

theorem noBlank_of_chars {chars : List Char} (all : ∀ c ∈ chars, isNameChar c = true) :
    ∀ c ∈ chars, Text.isBlank c = false := fun c member => by
  simpa using of_isNameChar (fun c => !Text.isBlank c) (by decide +kernel) (all c member)

def digits (n : Nat) : List Char := (toString n).toList

theorem isDigit_of_mem_digits {n : Nat} {c : Char} (member : c ∈ digits n) : c.isDigit = true :=
  Proofs.Numbering.isDigit_of_mem_toString member

private theorem digits_ne_nil (n : Nat) : digits n ≠ [] := Proofs.Numbering.toString_ne_nil n

private theorem readNumber_digits (n : Nat) : readNumber (digits n) = some n := by
  have all : (digits n).all Char.isDigit = true := List.all_eq_true.mpr fun _ member => isDigit_of_mem_digits member
  have some : (digits n).isEmpty = false := by simpa using digits_ne_nil n
  have written : digits n = Nat.toDigits 10 n := Nat.toList_repr
  rw [readNumber, all, some, if_pos (by decide), written, Nat.ofDigitChars_toDigits (by decide) (by decide)]

private theorem digits_without {n : Nat} {c : Char} (other : c.isDigit = false) :
    ∀ d ∈ digits n, (d == c) = false := by
  intro d member
  refine beq_eq_false_iff_ne.mpr fun same => ?_
  rw [← same, isDigit_of_mem_digits member] at other
  cases other

private theorem tight_digits (n : Nat) : Tight (digits n) :=
  tight_of_forall (noBlank_of_chars fun _ member =>
    isNameChar_of_isAlphanum (isAlphanum_of_isDigit (isDigit_of_mem_digits member)))

theorem hundredText_toList (n : Nat) :
    (hundredText n).toList = digits (100 * n) ++ ['.', '.', '='] ++ digits (100 * n + 99) := by
  simp [hundredText, digits]

private theorem tight_hundred (n : Nat) : Tight (hundredText n).toList := by
  rw [hundredText_toList]
  exact tight_append _ (tight_digits _) (tight_digits _) (digits_ne_nil _) (digits_ne_nil _)

/-- Only digits, dots and the sign of equality are in a range. -/
private theorem hundred_without {n : Nat} {c : Char} (other : c.isDigit = false) (noDot : c ≠ '.') (noSign : c ≠ '=') :
    ∀ d ∈ (hundredText n).toList, (d == c) = false := by
  intro d member
  rw [hundredText_toList] at member
  rcases List.mem_append.mp member with front | back
  · rcases List.mem_append.mp front with low | between
    · exact digits_without other d low
    · simp only [List.mem_cons, List.not_mem_nil, or_false] at between
      rcases between with rfl | rfl | rfl
      · exact beq_eq_false_iff_ne.mpr noDot.symm
      · exact beq_eq_false_iff_ne.mpr noDot.symm
      · exact beq_eq_false_iff_ne.mpr noSign.symm
  · exact digits_without other d back

theorem readRange_digits (n : Nat) : readRange (digits n) = some (n, n) := by
  rw [readRange, Text.splitWhere_eq_singleton (digits_without (by decide))]
  simp [readNumber_digits]

theorem readRange_hundred (n : Nat) : readRange (hundredText n).toList = some (100 * n, 100 * n + 99) := by
  have none {m : Nat} : ∀ c ∈ digits m, (c == '.') = false := digits_without (by decide)
  have last : ∀ c ∈ '=' :: digits (100 * n + 99), (c == '.') = false := by
    intro c member
    rcases List.mem_cons.mp member with rfl | digit
    · decide
    · exact none c digit
  have parts : Text.splitWhere (· == '.') (hundredText n).toList =
      [digits (100 * n), [], '=' :: digits (100 * n + 99)] := by
    rw [hundredText_toList, List.append_assoc, List.cons_append, List.cons_append, List.cons_append, List.nil_append,
      Text.splitWhere_append none (by decide), Text.splitWhere, if_pos (by decide), Text.splitWhere_eq_singleton last]
  rw [readRange, parts]
  simp [readNumber_digits]

private theorem hundred_ne_nil (n : Nat) : (hundredText n).toList ≠ [] := by
  simp [hundredText_toList]

private theorem head_digits (n : Nat) : ∃ c, (digits n).head? = some c ∧ c.isDigit = true := by
  have begins := List.head?_eq_some_head (digits_ne_nil n)
  exact ⟨_, begins, isDigit_of_mem_digits (List.mem_of_head? begins)⟩

private theorem head_hundred (n : Nat) : ∃ c, (hundredText n).toList.head? = some c ∧ c.isDigit = true := by
  obtain ⟨c, begins, digit⟩ := head_digits (100 * n)
  exact ⟨c, by simp [hundredText_toList, begins], digit⟩

private theorem isName_of_digit {text : List Char} (digit : ∃ c, text.head? = some c ∧ c.isDigit = true) :
    isName text = false := by
  obtain ⟨c, begins, digit⟩ := digit
  simp [isName, begins, digit]

private theorem readRanges_of_digit {text : List Char} (digit : ∃ c, text.head? = some c ∧ c.isDigit = true) :
    readRanges text = (readRange text).map fun range => [range] := by
  obtain ⟨c, begins, digit⟩ := digit
  have other : ¬ text.head? = some '(' := by
    rw [begins, Option.some.injEq]
    rintro rfl
    cases digit
  rw [readRanges, if_neg other]

private theorem readPattern_alone {text : List Char} {range : Nat × Nat}
    (digit : ∃ c, text.head? = some c ∧ c.isDigit = true) (none : ∀ c ∈ text, (c == '@') = false)
    (read : readRange text = some range) : readPattern text = some ⟨Option.none, some [range]⟩ := by
  rw [readPattern, Text.splitWhere_eq_singleton none]
  simp only [isName_of_digit digit, readRanges_of_digit digit, read]
  rfl

private def rangesText (first : Nat) (others : List Nat) : List Char :=
  [' ', '|', ' '].intercalate ((first :: others).map fun n => (hundredText n).toList)

private theorem mapM_ranges (first : Nat) (others : List Nat) {front : List Char} (blank : ∀ c ∈ front, c = ' ') :
    (Text.splitWhere (· == '|') (front ++ rangesText first others)).mapM (fun range => readRange (Text.trimChars range)) =
      some ((first :: others).map fun n => (100 * n, 100 * n + 99)) := by
  have blankFront : ∀ c ∈ front, Text.isBlank c = true := fun c member => blank c member ▸ by decide
  have noBar : ∀ c ∈ front, (c == '|') = false := fun c member => blank c member ▸ by decide
  have noBarInside (n : Nat) : ∀ c ∈ (hundredText n).toList, (c == '|') = false :=
    hundred_without (by decide) (by decide) (by decide)
  induction others generalizing first front with
  | nil =>
    have none : ∀ c ∈ front ++ (hundredText first).toList, (c == '|') = false := fun c member =>
      (List.mem_append.mp member).elim (noBar c) (noBarInside first c)
    have read : readRange (Text.trimChars (front ++ (hundredText first).toList)) = some (100 * first, 100 * first + 99) := by
      have trimmed : Text.trimChars (front ++ (hundredText first).toList ++ []) = (hundredText first).toList :=
        trimChars_padded blankFront (by simp) (tight_hundred first)
      rw [List.append_nil] at trimmed
      rw [trimmed, readRange_hundred]
    simp [rangesText, Text.splitWhere_eq_singleton none, read]
  | cons next others ih =>
    have rest : front ++ rangesText first (next :: others) =
        (front ++ (hundredText first).toList ++ [' ']) ++ '|' :: ([' '] ++ rangesText next others) := by
      simp [rangesText, List.intercalate_cons_cons]
    have none : ∀ c ∈ front ++ (hundredText first).toList ++ [' '], (c == '|') = false := by
      intro c member
      rcases List.mem_append.mp member with front | single
      · exact (List.mem_append.mp front).elim (noBar c) (noBarInside first c)
      · rw [List.mem_singleton.mp single]
        decide
    have read : readRange (Text.trimChars (front ++ (hundredText first).toList ++ [' '])) =
        some (100 * first, 100 * first + 99) := by
      rw [trimChars_padded blankFront (List.all_eq_true.mp (by decide)) (tight_hundred first), readRange_hundred]
    have space : ∀ c ∈ [' '], c = ' ' := fun c => List.mem_singleton.mp
    have later := ih next space (List.all_eq_true.mp (by decide)) (by simp)
    rw [rest, Text.splitWhere_append none (by decide), List.mapM_cons, read, later]
    rfl

private theorem rangesText_spec (first : Nat) (others : List Nat) :
    Tight (rangesText first others) ∧ rangesText first others ≠ [] ∧
      ∀ c ∈ rangesText first others, c ≠ '@' ∧ c ≠ '>' := by
  have noSign (n : Nat) : ∀ c ∈ (hundredText n).toList, c ≠ '@' ∧ c ≠ '>' := fun c member =>
    ⟨beq_eq_false_iff_ne.mp (hundred_without (by decide) (by decide) (by decide) c member),
      beq_eq_false_iff_ne.mp (hundred_without (by decide) (by decide) (by decide) c member)⟩
  induction others generalizing first with
  | nil =>
    simp only [rangesText, List.map_cons, List.map_nil, List.intercalate_singleton]
    exact ⟨tight_hundred first, hundred_ne_nil first, noSign first⟩
  | cons next others ih =>
    obtain ⟨tight, some, none⟩ := ih next
    have rest : rangesText first (next :: others) = (hundredText first).toList ++ [' ', '|', ' '] ++ rangesText next others := by
      simp [rangesText, List.intercalate_cons_cons]
    rw [rest]
    refine ⟨tight_append _ (tight_hundred first) tight (hundred_ne_nil first) some, by simp, fun c member => ?_⟩
    rcases List.mem_append.mp member with front | later
    · rcases List.mem_append.mp front with range | bar
      · exact noSign first c range
      · simp only [List.mem_cons, List.not_mem_nil, or_false] at bar
        rcases bar with rfl | rfl | rfl <;> decide
    · exact none c later

private def boundText (first : Nat) : List Nat → List Char
  | [] => (hundredText first).toList
  | others => '(' :: rangesText first others ++ [')']

private theorem hundreds_toList (first : Nat) (others : List Nat) :
    (Pattern.hundreds first others).text.toList = "status_code ".toList ++ '@' :: ' ' :: boundText first others := by
  cases others with
  | nil => simp [Pattern.text, boundText]
  | cons next others => simp [Pattern.text, boundText, rangesText, String.toList_intercalate, Function.comp_def]

private theorem boundText_spec (first : Nat) (others : List Nat) :
    Tight (boundText first others) ∧ boundText first others ≠ [] ∧ ∀ c ∈ boundText first others, c ≠ '@' ∧ c ≠ '>' := by
  cases others with
  | nil =>
    have ranges := rangesText_spec first []
    simpa only [boundText, rangesText, List.map_cons, List.map_nil, List.intercalate_singleton] using ranges
  | cons next others =>
    obtain ⟨-, -, none⟩ := rangesText_spec first (next :: others)
    have parts : boundText first (next :: others) = ['('] ++ rangesText first (next :: others) ++ [')'] := rfl
    rw [parts]
    refine ⟨tight_append _ ?_ ?_ (by simp) (by simp), by simp, fun c member => ?_⟩
    · exact tight_of_forall (by simp [Text.isBlank])
    · exact tight_of_forall (by simp [Text.isBlank])
    · simp only [List.mem_append, List.mem_singleton] at member
      rcases member with (rfl | inside) | rfl
      · decide
      · exact none c inside
      · decide

private theorem readRanges_bound (first : Nat) (others : List Nat) :
    readRanges (boundText first others) = some ((first :: others).map fun n => (100 * n, 100 * n + 99)) := by
  cases others with
  | nil => simp [boundText, readRanges_of_digit (head_hundred first), readRange_hundred]
  | cons next others =>
    have read := mapM_ranges first (next :: others) (fun c (none : c ∈ []) => absurd none (List.not_mem_nil))
    rw [List.nil_append] at read
    have parts : boundText first (next :: others) = ('(' :: rangesText first (next :: others)) ++ [')'] := rfl
    have inside : (boundText first (next :: others)).tail.dropLast = rangesText first (next :: others) := by
      rw [parts, List.cons_append, List.tail_cons, List.dropLast_concat]
    rw [readRanges, inside, parts, if_pos (by rfl), if_pos List.getLast?_concat, read]

theorem readPattern_text (pattern : Pattern) : readPattern pattern.text.toList = some pattern.reading := by
  cases pattern with
  | code n => exact readPattern_alone (head_digits n) (digits_without (by decide)) (readRange_digits n)
  | hundred n =>
    exact readPattern_alone (head_hundred n) (hundred_without (by decide) (by decide) (by decide)) (readRange_hundred n)
  | hundreds first others =>
    obtain ⟨tight, -, none⟩ := boundText_spec first others
    have name : ∀ c ∈ "status_code ".toList, (c == '@') = false := by simp
    have bound : ∀ c ∈ ' ' :: boundText first others, (c == '@') = false := by
      intro c member
      rcases List.mem_cons.mp member with rfl | inside
      · decide
      · exact beq_eq_false_iff_ne.mpr (none c inside).1
    have trimmed : Text.trimChars (' ' :: boundText first others) = boundText first others := by
      have padded : Text.trimChars ([' '] ++ boundText first others ++ []) = boundText first others :=
        trimChars_padded (List.all_eq_true.mp (by decide)) (by simp) tight
      rwa [List.append_nil] at padded
    have called : Text.trimChars "status_code ".toList = "status_code".toList := by decide
    rw [readPattern, hundreds_toList, Text.splitWhere_append name (by decide), Text.splitWhere_eq_singleton bound]
    simp only [called, trimmed, readRanges_bound]
    rfl
  | any => decide

private theorem pattern_spec (pattern : Pattern) : Tight pattern.text.toList ∧ ∀ c ∈ pattern.text.toList, c ≠ '>' := by
  cases pattern with
  | code n => exact ⟨tight_digits n, fun c member => beq_eq_false_iff_ne.mp (digits_without (by decide) c member)⟩
  | hundred n =>
    exact ⟨tight_hundred n, fun c member =>
      beq_eq_false_iff_ne.mp (hundred_without (by decide) (by decide) (by decide) c member)⟩
  | hundreds first others =>
    obtain ⟨tight, some, none⟩ := boundText_spec first others
    have parts : (Pattern.hundreds first others).text.toList =
        "status_code".toList ++ [' ', '@', ' '] ++ boundText first others := by
      rw [hundreds_toList]
      simp
    rw [parts]
    refine ⟨tight_append _ (tight_of_forall (by simp [Text.isBlank])) tight (by decide) some, fun c member => ?_⟩
    rcases List.mem_append.mp member with name | bound
    · have plain : ∀ c ∈ "status_code".toList ++ [' ', '@', ' '], c ≠ '>' := by simp
      exact plain c name
    · exact (none c bound).2
  | any => exact ⟨tight_of_forall (by simp [Pattern.text, Text.isBlank]), by simp [Pattern.text]⟩

def Arm.reading (type : String) (arm : Arm) : MatchArm :=
  ⟨arm.pattern.reading, "Ok(" ++ type ++ "::" ++ arm.variant ++ arm.payload.argument ++ ")"⟩

/-- An arm is cut at its arrow, of which the pattern has no part. -/
private theorem readArm_of_parts {line : String} {pattern value : List Char}
    (parts : line.toList = ("            ".toList ++ pattern ++ [' ', '=']) ++ '>' :: (' ' :: value ++ [',']))
    (tight : Tight pattern) (noArrow : ∀ c ∈ pattern, c ≠ '>') (tightValue : Tight (value ++ [','])) :
    readArm line = (readPattern pattern).map fun pattern => ⟨pattern, String.ofList value⟩ := by
  have plain : ∀ c ∈ "            ".toList ++ pattern ++ [' ', '='], (c != '>') = true := by
    intro c member
    refine bne_iff_ne.mpr ?_
    rcases List.mem_append.mp member with front | back
    · rcases List.mem_append.mp front with indent | inside
      · have spaces : ∀ c ∈ "            ".toList, c ≠ '>' := by simp
        exact spaces c indent
      · exact noArrow c inside
    · have signs : ∀ c ∈ [' ', '='], c ≠ '>' := by simp
      exact signs c back
  have before : line.toList.takeWhile (· != '>') = "            ".toList ++ pattern ++ [' ', '='] := by
    rw [parts, List.takeWhile_append_of_pos plain, List.takeWhile_cons_of_neg (by decide), List.append_nil]
  have behind : (line.toList.dropWhile (· != '>')).tail = [' '] ++ (value ++ [',']) ++ [] := by
    rw [parts, List.dropWhile_append_of_pos plain, List.dropWhile_cons_of_neg (by decide)]
    simp
  have arrow : ("            ".toList ++ pattern ++ [' ', '=']).getLast? = some '=' := by
    rw [List.getLast?_append]
    rfl
  have shorter : ("            ".toList ++ pattern ++ [' ', '=']).dropLast = "            ".toList ++ pattern ++ [' '] := by
    rw [List.dropLast_append_of_ne_nil (by decide)]
    rfl
  have trimmed : Text.trimChars ([' '] ++ (value ++ [',']) ++ []) = value ++ [','] :=
    trimChars_padded (List.all_eq_true.mp (by decide)) (by simp) tightValue
  have stripped : Text.trimChars ("            ".toList ++ pattern ++ [' ']) = pattern :=
    trimChars_padded (List.all_eq_true.mp (by decide)) (List.all_eq_true.mp (by decide)) tight
  simp only [readArm, before, behind, shorter, trimmed, stripped, arrow, List.getLast?_concat, List.dropLast_concat,
    and_self, if_true]

theorem readArm_text (type : String) (arm : Arm) :
    readArm ("            " ++ arm.text type) = some (arm.reading type) := by
  obtain ⟨tight, noArrow⟩ := pattern_spec arm.pattern
  let value := "Ok(" ++ type ++ "::" ++ arm.variant ++ arm.payload.argument ++ ")"
  have tightValue : Tight (value.toList ++ [',']) := by
    have parts : value.toList ++ [','] = ['O'] ++ value.toList.tail ++ [','] := by simp [value]
    rw [parts]
    exact tight_append _ (tight_of_forall (by simp [Text.isBlank])) (tight_of_forall (by simp [Text.isBlank])) (by decide)
      (by decide)
  have parts : ("            " ++ arm.text type).toList =
      ("            ".toList ++ arm.pattern.text.toList ++ [' ', '=']) ++ '>' :: (' ' :: value.toList ++ [',']) := by
    simp [Arm.text, value]
  rw [readArm_of_parts parts tight noArrow tightValue, readPattern_text, Option.map_some, String.ofList_toList]
  rfl

theorem readMatch_dispatchLines (family : Family) :
    readMatch (dispatchLines family) = some ((arms family).map (Arm.reading family.typeName)) := by
  have inside : (dispatchLines family).tail.dropLast =
      (arms family).map fun arm => "            " ++ arm.text family.typeName := by
    rw [dispatchLines, List.append_assoc, List.cons_append, List.nil_append, List.tail_cons, List.dropLast_concat]
  have first : (dispatchLines family).head? = some "        match response.status().as_u16() \x7b" := rfl
  have last : (dispatchLines family).getLast? = some "        \x7d" := List.getLast?_concat
  rw [readMatch, inside, first, last, if_pos (by decide +kernel)]
  generalize arms family = arms
  induction arms with
  | nil => rfl
  | cons arm arms ih => simp [readArm_text, ih]

end ClientForge.Source
