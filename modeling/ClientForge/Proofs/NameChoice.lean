import ClientForge.Proofs.Numbering
import ClientForge.Proofs.TableEntries
import ClientForge.Resolve.Registry

/-! The name that an inline definition gets: the first candidate that no other definition holds, and behind
the candidates the least number that does. The search never ends at a name that another one holds. -/

namespace ClientForge.Resolve
open Api Document Proofs.Numbering

variable {components : Table String SchemaNode} {registry : Registry} {definition : Value}

variable (components registry definition) in
inductive Holds (name : String) : Holder → Prop where
  | itself {own : Value} (origin : registry.origins.get? name = some own) (same : own.same definition = true) :
      Holds name .itself
  | component {node : SchemaNode} {own : Value} (unrecorded : name ∉ registry.origins.keys)
      (declared : components.get? name = some node) (written : node.definition? = some own)
      (same : own.same definition = true) : Holds name .component
  | recorded {own : Value} (origin : registry.origins.get? name = some own)
      (different : own.same definition = false) : Holds name .other
  | declared {node : SchemaNode} (unrecorded : name ∉ registry.origins.keys)
      (declared : components.get? name = some node)
      (different : ∀ own, node.definition? = some own → own.same definition = false) : Holds name .other
  | resolved (unrecorded : name ∉ registry.origins.keys) (undeclared : name ∉ components.keys)
      (present : name ∈ registry.schemas.keys) : Holds name .other
  | nobody (unrecorded : name ∉ registry.origins.keys) (undeclared : name ∉ components.keys)
      (absent : name ∉ registry.schemas.keys) : Holds name .nobody

theorem holds_holder (components : Table String SchemaNode) (registry : Registry) (definition : Value)
    (name : String) : Holds components registry definition name (holder components registry definition name) := by
  unfold holder
  split
  next own origin =>
    by_cases same : own.same definition = true
    · rw [if_pos same]
      exact .itself origin same
    · rw [if_neg same]
      exact .recorded origin (Bool.eq_false_iff.mpr same)
  next unrecorded =>
    have unrecorded : name ∉ registry.origins.keys := Table.get?_eq_none.mp unrecorded
    split
    next node declared =>
      split
      next own written =>
        by_cases same : own.same definition = true
        · rw [if_pos same]
          exact .component unrecorded declared written same
        · rw [if_neg same]
          refine .declared unrecorded declared fun other again => ?_
          cases written.symm.trans again
          exact Bool.eq_false_iff.mpr same
      next unwritten =>
        refine .declared unrecorded declared fun other written => ?_
        cases unwritten.symm.trans written
    next undeclared =>
      have undeclared : name ∉ components.keys := Table.get?_eq_none.mp undeclared
      by_cases present : name ∈ registry.schemas.keys
      · rw [if_pos (Table.contains_iff.mpr present)]
        exact .resolved unrecorded undeclared present
      · rw [if_neg fun found => present (Table.contains_iff.mp found)]
        exact .nobody unrecorded undeclared present

private theorem listed_of_other {name : String} (other : holder components registry definition name = .other) :
    name ∈ registry.origins.keys ++ components.keys ++ registry.schemas.keys := by
  have holds := holds_holder components registry definition name
  rw [other] at holds
  simp only [List.mem_append]
  cases holds with
  | recorded origin => exact Or.inl (Or.inl (Table.mem_keys.mpr ⟨_, origin⟩))
  | declared _ declared => exact Or.inl (Or.inr (Table.mem_keys.mpr ⟨_, declared⟩))
  | resolved _ _ present => exact Or.inr present

namespace Candidates

variable {names : Candidates}

theorem allows_iff {name : String} :
    allows components registry definition name = true ↔ holder components registry definition name ≠ .other := by
  simp [allows]

private theorem firstNumbered_eq {isAllowed : String → Bool} {count start steps : Nat} (inside : steps ≤ count)
    (free : isAllowed (names.numbered (start + steps)) = true)
    (held : ∀ earlier < steps, ¬ isAllowed (names.numbered (start + earlier)) = true) :
    names.firstNumbered isAllowed count start = names.numbered (start + steps) := by
  refine search_eq names.numbered (isAllowed · = true) (names.firstNumbered isAllowed) (fun start => rfl) ?_ ?_
    inside free held
  · exact fun count start allowed => if_pos allowed
  · exact fun count start refused => if_neg refused

/-- The chosen name is the first of the candidates and then of the numbered names that no other
definition holds. -/
theorem choose_cases (names : Candidates) (components : Table String SchemaNode) (registry : Registry)
    (definition : Value) :
    (∃ before after, names.toList = before ++ names.choose components registry definition :: after ∧
      allows components registry definition (names.choose components registry definition) = true ∧
        ∀ name ∈ before, allows components registry definition name = false) ∨
    ((∀ name ∈ names.toList, allows components registry definition name = false) ∧
      ∃ n ≥ 2, names.choose components registry definition = names.numbered n ∧
        allows components registry definition (names.numbered n) = true ∧
          ∀ smaller, 2 ≤ smaller → smaller < n →
            allows components registry definition (names.numbered smaller) = false) := by
  unfold choose
  dsimp only
  split
  next name found =>
    obtain ⟨allowed, before, after, all, earlier⟩ := List.find?_eq_some_iff_append.mp found
    exact Or.inl ⟨before, after, all, allowed, fun other member => by simpa using earlier other member⟩
  next none =>
    right
    have listed : ∀ name, holder components registry definition name = .other →
        name ∈ registry.origins.keys ++ components.keys ++ registry.schemas.keys :=
      fun name other => listed_of_other other
    obtain ⟨steps, inside, free, held⟩ := exists_first_free (numbered_injective names.last) listed 2
    have counted : steps ≤ registry.origins.size + components.size + registry.schemas.size := by
      simpa [Table.keys, Table.size, Nat.add_assoc] using inside
    have allowed : allows components registry definition (names.numbered (2 + steps)) = true := allows_iff.mpr free
    have refused (earlier : Nat) (before : earlier < steps) :
        ¬ allows components registry definition (names.numbered (2 + earlier)) = true :=
      fun allowed => allows_iff.mp allowed (held earlier before)
    refine ⟨fun name member => by simpa using List.find?_eq_none.mp none name member, 2 + steps, by omega,
      firstNumbered_eq counted allowed refused, allowed, ?_⟩
    intro smaller least below
    have earlier := refused (smaller - 2) (by omega)
    rw [show 2 + (smaller - 2) = smaller by omega] at earlier
    exact Bool.eq_false_iff.mpr earlier

theorem holder_choose (names : Candidates) (components : Table String SchemaNode) (registry : Registry)
    (definition : Value) :
    holder components registry definition (names.choose components registry definition) ≠ .other := by
  rcases names.choose_cases components registry definition with ⟨_, _, _, allowed, _⟩ | ⟨_, n, _, same, allowed, _⟩
  · exact allows_iff.mp allowed
  · rw [same]
    exact allows_iff.mp allowed

end Candidates

end ClientForge.Resolve
