import Mathlib.Data.Nat.Find
import Mathlib.Logic.Function.Basic

/-! Numbered names. Candidates that differ in their number differ, so that of one more candidates
than there are names in use, one is free. A search upwards ends at the least free one. -/

namespace ClientForge.Proofs.Numbering

theorem isDigit_of_mem_toString {n : Nat} {c : Char} (member : c ∈ (toString n).toList) : c.isDigit = true := by
  have written : (toString n).toList = Nat.toDigits 10 n := Nat.toList_repr
  rw [written] at member
  exact Nat.isDigit_of_mem_toDigits (by decide) (by decide) member

theorem toString_ne_nil (n : Nat) : (toString n).toList ≠ [] := by
  have written : (toString n).toList = Nat.toDigits 10 n := Nat.toList_repr
  rw [written]
  exact Nat.toDigits_ne_nil

theorem numbered_injective (base : String) : Function.Injective fun n : Nat => base ++ toString n := by
  intro first second same
  have texts : first.repr = second.repr := (String.append_right_inj base).mp same
  have digits : Nat.toDigits 10 first = Nat.toDigits 10 second := by
    rw [← Nat.toList_repr, ← Nat.toList_repr, texts]
  simpa using congrArg (fun chars => Nat.ofDigitChars 10 chars 0) digits

private theorem exists_free {candidate : Nat → String} (distinct : Function.Injective candidate)
    (names : List String) (start : Nat) :
    ∃ steps ≤ names.length, candidate (start + steps) ∉ names := by
  by_contra none
  push Not at none
  have all : (List.range (names.length + 1)).map (fun steps => candidate (start + steps)) ⊆ names := by
    intro name member
    obtain ⟨steps, inside, rfl⟩ := List.mem_map.mp member
    exact none steps (Nat.lt_succ_iff.mp (List.mem_range.mp inside))
  have different : ((List.range (names.length + 1)).map fun steps => candidate (start + steps)).Nodup := by
    refine List.pairwise_map.mpr (List.nodup_range.imp ?_)
    intro first second other same
    exact other (Nat.add_left_cancel (distinct same))
  have bound := different.length_le_of_subset all
  rw [List.length_map, List.length_range] at bound
  omega

/-- Of the candidates from `start` on there is a first one that is not held, and no more than the
names in use come before it. -/
theorem exists_first_free {candidate : Nat → String} (distinct : Function.Injective candidate)
    {held : String → Prop} {names : List String} (listed : ∀ name, held name → name ∈ names)
    (start : Nat) :
    ∃ steps ≤ names.length, ¬ held (candidate (start + steps)) ∧
      ∀ earlier < steps, held (candidate (start + earlier)) := by
  classical
  obtain ⟨bound, inside, free⟩ := exists_free distinct names start
  have vacant : ¬ held (candidate (start + bound)) := fun taken => free (listed _ taken)
  have some : ∃ steps, ¬ held (candidate (start + steps)) := ⟨bound, vacant⟩
  refine ⟨Nat.find some, Nat.le_trans (Nat.find_min' some vacant) inside, Nat.find_spec some, ?_⟩
  intro earlier before
  exact not_not.mp (Nat.find_min some before)

/-- A search that counts upwards and stops at a free candidate finds the first one within its bound. -/
theorem search_eq (candidate : Nat → String) (free : String → Prop) (search : Nat → Nat → String)
    (last : ∀ start, search 0 start = candidate start)
    (take : ∀ count start, free (candidate start) → search (count + 1) start = candidate start)
    (skip : ∀ count start, ¬ free (candidate start) → search (count + 1) start = search count (start + 1))
    {count start steps : Nat} (inside : steps ≤ count) (vacant : free (candidate (start + steps)))
    (held : ∀ earlier < steps, ¬ free (candidate (start + earlier))) :
    search count start = candidate (start + steps) := by
  induction steps generalizing count start with
  | zero =>
    cases count with
    | zero => exact last start
    | succ count => exact take count start vacant
  | succ steps ih =>
    obtain ⟨count, rfl⟩ : ∃ smaller, count = smaller + 1 := ⟨count - 1, by omega⟩
    have next : start + (steps + 1) = start + 1 + steps := by omega
    rw [skip count start (held 0 (by omega)), next]
    apply ih (by omega)
    · rwa [next] at vacant
    · intro earlier before
      have moved := held (earlier + 1) (by omega)
      rwa [show start + (earlier + 1) = start + 1 + earlier by omega] at moved

end ClientForge.Proofs.Numbering
