import ClientForge.Ident.Scope
import ClientForge.Proofs.Numbering
import Mathlib.Data.List.Forall2

/-! What a scope hands out. An allocated name was not in use, so that the names of one scope differ
from each other and from every name reserved before. -/

namespace ClientForge.Ident.Scope
open Proofs.Numbering

theorem contains_iff (scope : Scope) (name : String) : scope.contains name = true ↔ name ∈ scope.taken := by
  simp [contains]

private theorem firstFree_eq (scope : Scope) (name : String) {count start steps : Nat} (inside : steps ≤ count)
    (free : scope.numbered name (start + steps) ∉ scope.taken)
    (held : ∀ earlier < steps, scope.numbered name (start + earlier) ∈ scope.taken) :
    scope.firstFree name count start = scope.numbered name (start + steps) := by
  refine search_eq (scope.numbered name) (· ∉ scope.taken) (scope.firstFree name) (fun start => rfl) ?_ ?_ inside free
    fun earlier before => not_not_intro (held earlier before)
  · intro count start vacant
    exact if_neg fun taken => vacant ((scope.contains_iff _).mp taken)
  · intro count start taken
    exact if_pos ((scope.contains_iff _).mpr (not_not.mp taken))

/-- A wished name is given as it is if it is free, and otherwise with the least free number. -/
theorem pick_cases (scope : Scope) (name : String) :
    name ∉ scope.taken ∧ scope.pick name = name ∨
      name ∈ scope.taken ∧ ∃ n ≥ 2, scope.pick name = scope.numbered name n ∧
        scope.numbered name n ∉ scope.taken ∧
          ∀ smaller, 2 ≤ smaller → smaller < n → scope.numbered name smaller ∈ scope.taken := by
  by_cases taken : name ∈ scope.taken
  · right
    have listed : ∀ other, other ∈ scope.taken → other ∈ scope.taken := fun _ member => member
    obtain ⟨steps, inside, free, held⟩ :=
      exists_first_free (numbered_injective (name ++ scope.separator)) listed 2
    refine ⟨taken, 2 + steps, by omega, ?_, free, ?_⟩
    · rw [pick, if_pos ((scope.contains_iff name).mpr taken)]
      exact firstFree_eq scope name inside free held
    · intro smaller least below
      have earlier := held (smaller - 2) (by omega)
      rwa [show 2 + (smaller - 2) = smaller by omega] at earlier
  · left
    refine ⟨taken, ?_⟩
    rw [pick, if_neg fun held => taken ((scope.contains_iff name).mp held)]

theorem pick_not_mem (scope : Scope) (name : String) : scope.pick name ∉ scope.taken := by
  rcases scope.pick_cases name with ⟨free, same⟩ | ⟨_, _, _, same, free, _⟩
  all_goals rw [same]; exact free

theorem pick_keeps {holds : String → Prop} (scope : Scope) {name : String} (wish : holds name)
    (numbered : ∀ name (n : Nat), holds name → holds (name ++ scope.separator ++ toString n)) : holds (scope.pick name) := by
  rcases scope.pick_cases name with ⟨_, same⟩ | ⟨_, n, _, same, _⟩
  · rwa [same]
  · rw [same]
    exact numbered name n wish

@[simp]
theorem separator_reserveAll (scope : Scope) (names : List String) :
    (scope.reserveAll names).separator = scope.separator := by
  unfold reserveAll
  induction names generalizing scope with
  | nil => rfl
  | cons name names ih => exact ih (scope.reserve name)

@[simp]
theorem taken_reserve (scope : Scope) (name : String) : (scope.reserve name).taken = name :: scope.taken := rfl

@[simp]
theorem mem_reserveAll {scope : Scope} {names : List String} {name : String} :
    name ∈ (scope.reserveAll names).taken ↔ name ∈ names ∨ name ∈ scope.taken := by
  unfold reserveAll
  induction names generalizing scope with
  | nil => simp
  | cons first names ih =>
    rw [List.foldl_cons, ih]
    simp only [taken_reserve, List.mem_cons, or_assoc]
    exact or_left_comm

theorem allocateAll_not_mem (scope : Scope) (names : List String) :
    ∀ name ∈ scope.allocateAll names, name ∉ scope.taken := by
  induction names generalizing scope with
  | nil => simp [allocateAll]
  | cons first names ih =>
    intro name member
    rcases List.mem_cons.mp member with rfl | later
    · exact scope.pick_not_mem first
    · have fresh := ih (scope.reserve (scope.pick first)) name later
      exact fun taken => fresh (List.mem_cons_of_mem _ taken)

theorem allocateAll_nodup (scope : Scope) (names : List String) : (scope.allocateAll names).Nodup := by
  induction names generalizing scope with
  | nil => simp [allocateAll]
  | cons first names ih =>
    refine List.nodup_cons.mpr ⟨?_, ih _⟩
    intro again
    exact allocateAll_not_mem (scope.reserve (scope.pick first)) names _ again (List.mem_cons_self ..)

/-- What comes later is allocated in a scope of the same kind. -/
theorem allocateAll_append (scope : Scope) (front back : List String) :
    ∃ later : Scope, later.separator = scope.separator ∧
      scope.allocateAll (front ++ back) = scope.allocateAll front ++ later.allocateAll back := by
  induction front generalizing scope with
  | nil => exact ⟨scope, rfl, rfl⟩
  | cons wish front ih =>
    obtain ⟨later, same, names⟩ := ih (scope.reserve (scope.pick wish))
    exact ⟨later, same, congrArg (scope.pick wish :: ·) names⟩

theorem mem_allocateAll {scope : Scope} {wishes : List String} {wish : String} (listed : wish ∈ wishes)
    (free : wish ∉ scope.taken) : wish ∈ scope.allocateAll wishes := by
  induction wishes generalizing scope with
  | nil => cases listed
  | cons first others ih =>
    by_cases given : wish = scope.pick first
    · exact given ▸ List.mem_cons_self ..
    · have later : wish ∈ others := by
        refine (List.mem_cons.mp listed).resolve_left fun same => given ?_
        rcases scope.pick_cases first with ⟨_, kept⟩ | ⟨taken, _⟩
        · exact same.trans kept.symm
        · exact absurd (same ▸ taken) free
      refine List.mem_cons_of_mem _ (ih later fun taken => ?_)
      exact (List.mem_cons.mp taken).elim given free

theorem allocateAll_named (scope : Scope) (wishes : List String) :
    List.Forall₂ (fun wish name => name = wish ∨ ∃ n, name = scope.numbered wish n) wishes (scope.allocateAll wishes) := by
  induction wishes generalizing scope with
  | nil => exact .nil
  | cons wish wishes ih =>
    refine .cons ?_ (ih (scope.reserve (scope.pick wish)))
    rcases scope.pick_cases wish with ⟨_, same⟩ | ⟨_, n, _, same, _⟩
    · exact Or.inl same
    · exact Or.inr ⟨n, same⟩

theorem allocateAll_keeps {holds : String → Prop} (scope : Scope) {wishes : List String}
    (each : ∀ wish ∈ wishes, holds wish)
    (numbered : ∀ name (n : Nat), holds name → holds (name ++ scope.separator ++ toString n)) :
    ∀ name ∈ scope.allocateAll wishes, holds name := by
  induction wishes generalizing scope with
  | nil => simp [allocateAll]
  | cons wish wishes ih =>
    obtain ⟨first, others⟩ := List.forall_mem_cons.mp each
    exact List.forall_mem_cons.mpr ⟨scope.pick_keeps first numbered, ih _ others numbered⟩

end ClientForge.Ident.Scope
