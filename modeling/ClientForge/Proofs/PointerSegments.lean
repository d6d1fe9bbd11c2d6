import ClientForge.Proofs.ComponentPointers
import ClientForge.Proofs.PercentEncoding

/-! Names as the last segments of references. The pointer has two escapes of its own and the URI its percent escapes, so
that neither a slash nor a mark of an escape in a name is taken for one of the reference: every component has a reference,
which leads to its name. -/

namespace ClientForge.Document
open Text

def escapeMark : Char → List Char
  | '~' => ['~', '0']
  | '/' => ['~', '1']
  | c => [c]

def isUnreserved (c : Char) : Bool := c.isAlphanum || c == '-' || c == '.' || c == '_' || c == '~'

def encodeSegment (name : String) : String :=
  String.ofList (percentEncode isUnreserved (name.toList.flatMap escapeMark))

/-- The reference to a component. -/
def componentLocation (part name : String) : String := "#/components/" ++ part ++ "/" ++ encodeSegment name

private theorem isAlphanum_capital {n : Nat} (small : n < 16) : (hexDigit n).toUpper.isAlphanum = true := by
  have all : ∀ n < 16, (hexDigit n).toUpper.isAlphanum = true := by decide
  exact all n small

private theorem mem_percentEncode {kept : Char → Bool} {text : List Char} {d : Char}
    (member : d ∈ percentEncode kept text) : d ∈ text ∧ kept d = true ∨ d = '%' ∨ d.isAlphanum = true := by
  obtain ⟨c, inside, written⟩ := List.mem_flatMap.mp member
  split at written
  next plain =>
    obtain rfl : d = c := List.mem_singleton.mp written
    exact .inl ⟨inside, plain⟩
  next =>
    obtain ⟨b, -, escape⟩ := List.mem_flatMap.mp written
    have small : b.toNat < 256 := b.toNat_lt
    simp only [escapeByte, List.mem_cons, List.not_mem_nil, or_false] at escape
    rcases escape with rfl | rfl | rfl
    · exact .inr (.inl rfl)
    · exact .inr (.inr (isAlphanum_capital (by omega)))
    · exact .inr (.inr (isAlphanum_capital (by omega)))

theorem slash_notMem_encodeSegment (name : String) : '/' ∉ (encodeSegment name).toList := by
  intro member
  rw [encodeSegment, String.toList_ofList] at member
  rcases mem_percentEncode member with ⟨-, plain⟩ | percent | letter
  · exact absurd plain (by decide)
  · exact absurd percent (by decide)
  · exact absurd letter (by decide)

private def isUnreservedOrSlash (c : Char) : Bool := isUnreserved c || c == '/'

private def escapeTilde (c : Char) : List Char := if c = '~' then ['~', '0'] else [c]

private theorem percentEncode_flatMap {kept : Char → Bool} {text : List Char} {escape : Char → List Char} :
    percentEncode kept (text.flatMap escape) = text.flatMap fun c => percentEncode kept (escape c) :=
  List.flatMap_assoc

private theorem tilde_notMem_percentEncode {kept : Char → Bool} {c : Char} (other : c ≠ '~') :
    '~' ∉ percentEncode kept [c] := by
  intro member
  rcases mem_percentEncode member with ⟨same, -⟩ | percent | letter
  · exact other (List.mem_singleton.mp same).symm
  · exact absurd percent (by decide)
  · exact absurd letter (by decide)

private theorem escapeMark_other {c : Char} (tilde : c ≠ '~') (slash : c ≠ '/') : escapeMark c = [c] := by
  unfold escapeMark
  split
  · contradiction
  · contradiction
  · rfl

/-- In the escape of a tilde begins no escape of a slash, whatever stands behind it. -/
private theorem replaceChars_slash (text : List Char) :
    replaceChars ['~', '1'] ['/'] (percentEncode isUnreserved (text.flatMap escapeMark)) =
      percentEncode isUnreservedOrSlash (text.flatMap escapeTilde) := by
  rw [percentEncode_flatMap, percentEncode_flatMap]
  apply replaceChars_flatMap
  intro c rest
  by_cases tilde : c = '~'
  · subst tilde
    have here : ¬ ['~', '1'] <+: '~' :: '0' :: rest := by simp
    have behind : ¬ ['~', '1'] <+: '0' :: rest := by simp
    exact (replaceChars_cons here).trans (congrArg _ (replaceChars_cons behind))
  · by_cases slash : c = '/'
    · subst slash
      exact replaceChars_occurrence (by simp)
    · have same : isUnreservedOrSlash c = isUnreserved c := by simp [isUnreservedOrSlash, slash]
      rw [escapeMark_other tilde slash, replaceChars_append_of_notMem (tilde_notMem_percentEncode tilde), escapeTilde,
        if_neg tilde, percentEncode, percentEncode, List.flatMap_singleton, List.flatMap_singleton, same]

private theorem replaceChars_tilde (text : List Char) :
    replaceChars ['~', '0'] ['~'] (percentEncode isUnreservedOrSlash (text.flatMap escapeTilde)) =
      percentEncode isUnreservedOrSlash text := by
  rw [percentEncode_flatMap, percentEncode]
  apply replaceChars_flatMap
  intro c rest
  by_cases tilde : c = '~'
  · subst tilde
    exact replaceChars_occurrence (by simp)
  · rw [escapeTilde, if_neg tilde, replaceChars_append_of_notMem (tilde_notMem_percentEncode tilde), percentEncode,
      List.flatMap_singleton]

theorem decodeSegment_encodeSegment (name : String) : decodeSegment (encodeSegment name) = name := by
  rw [decodeSegment, encodeSegment, String.toList_ofList, replaceChars_slash, replaceChars_tilde,
    percentDecode_percentEncode (by decide), String.ofList_toList]

/-- Every component has a reference that leads to its name, and to no other part of the components. -/
theorem componentName?_componentLocation {part name : String} (single : '/' ∉ part.toList) (named : name ≠ "")
    (other : String) :
    componentName? (componentLocation part name) other = if other = part then some name else none := by
  split
  next same =>
    subst same
    exact componentName?_eq_some_iff.mpr
      ⟨⟨_, rfl, slash_notMem_encodeSegment name, decodeSegment_encodeSegment name⟩, named, single⟩
  next different =>
    apply Option.eq_none_iff_forall_ne_some.mpr
    intro found points
    obtain ⟨⟨segment, place, plain, -⟩, -, singleOther⟩ := componentName?_eq_some_iff.mp points
    have chars := congrArg String.toList place
    simp only [componentLocation, String.toList_append, List.append_assoc] at chars
    have parts : part.toList ++ '/' :: (encodeSegment name).toList = other.toList ++ '/' :: segment.toList :=
      List.append_cancel_left chars
    have same := (List.append_cons_inj_of_notMem single (slash_notMem_encodeSegment name)).mp parts
    exact different (String.toList_inj.mp same.1.symm)

theorem componentName?_escapedName :
    '/' ∉ "schemas".toList ∧ "~1/%7E é" ≠ "" ∧
      componentLocation "schemas" "~1/%7E é" = "#/components/schemas/~01~1%257E%20%C3%A9" ∧
      componentName? (componentLocation "schemas" "~1/%7E é") "schemas" = some "~1/%7E é" ∧
      componentName? (componentLocation "schemas" "~1/%7E é") "responses" = none :=
  have single : '/' ∉ "schemas".toList := by decide
  have named : "~1/%7E é" ≠ "" := by decide
  ⟨single, named, by decide +kernel, componentName?_componentLocation single named "schemas",
    componentName?_componentLocation single named "responses"⟩

end ClientForge.Document
