import ClientForge.Ident.Method
import ClientForge.Proofs.ScopeAllocation
import Mathlib.Data.List.Count
import Mathlib.Data.List.Nodup

/-! Names of methods. A kept stem belongs to one operation only, and every kept stem is in use before
the first name is allocated. Hence no name is given twice, and none that is reserved. An operation whose
stem is its own keeps it wherever it stands in the list. -/

namespace ClientForge.Ident
open Api

/-- A name that an endpoint can get: what it wishes to be called beside the others of its stem, or that
with a number from 2 on. -/
def NamedFor (endpoints : List Endpoint) (endpoint : Endpoint) (name : String) : Prop :=
  let wish := qualify (groupOf endpoints (stem endpoint)) endpoint
  name = wish ∨ ∃ n ≥ 2, name = wish ++ "_" ++ toString n

/-- The names of endpoints: one for each, in their order. -/
structure AssignsNames (endpoints : List Endpoint) (reserved names : List String) : Prop where
  each : List.Forall₂ (NamedFor endpoints) endpoints names
  distinct : names.Nodup
  free : ∀ name ∈ names, name ∉ reserved
  /-- A stem that no other endpoint has stays, whatever stands before it and after it. -/
  kept : ∀ before endpoint after, endpoints = before ++ endpoint :: after →
    (∀ other ∈ before ++ after, stem other ≠ stem endpoint) → stem endpoint ∉ reserved →
      names[before.length]? = some (stem endpoint)

private theorem kept_alone {endpoints : List Endpoint} {reserved : List String} {endpoint : Endpoint}
    (keeps : keepsStem endpoints reserved endpoint = true) :
    (endpoints.filter (stem · = stem endpoint)).length = 1 ∧ stem endpoint ∉ reserved := by
  obtain ⟨alone, free⟩ := Bool.and_eq_true_iff.mp keeps
  exact ⟨of_decide_eq_true alone, by simpa using free⟩

private theorem keeps_of_alone {before after : List Endpoint} {reserved : List String} {endpoint : Endpoint}
    (alone : ∀ other ∈ before ++ after, stem other ≠ stem endpoint) (free : stem endpoint ∉ reserved) :
    keepsStem (before ++ endpoint :: after) reserved endpoint = true := by
  have others : ∀ list ⊆ before ++ after, groupOf list (stem endpoint) = [] := by
    intro list inside
    exact List.filter_eq_nil_iff.mpr fun other member => by simpa using alone other (inside member)
  have group : groupOf (before ++ endpoint :: after) (stem endpoint) = [endpoint] := by
    have inFront := others before (List.subset_append_left ..)
    have behind := others after (List.subset_append_right ..)
    rw [groupOf] at inFront behind ⊢
    simp [List.filter_append, inFront, behind]
  simp [keepsStem, group, free]

theorem keptStems_nodup (endpoints : List Endpoint) (reserved : List String) :
    ((endpoints.filter (keepsStem endpoints reserved)).map stem).Nodup := by
  rw [List.nodup_iff_count_le_one]
  intro name
  by_cases member : name ∈ (endpoints.filter (keepsStem endpoints reserved)).map stem
  · obtain ⟨endpoint, kept, rfl⟩ := List.mem_map.mp member
    have alone := (kept_alone (List.mem_filter.mp kept).2).1
    rw [List.count_eq_length_filter, List.filter_map, List.length_map]
    refine Nat.le_trans (List.filter_sublist.filter _).length_le ?_
    simpa only [Function.comp_def, beq_eq_decide] using Nat.le_of_eq alone
  · exact Nat.le_trans (Nat.le_of_eq (List.count_eq_zero_of_not_mem member)) (Nat.zero_le 1)

/-- The scope holds every kept stem of the rest, so that an allocated name is none of them. -/
private theorem nameRest_distinct {all : List Endpoint} {reserved : List String} {scope : Scope}
    {rest : List Endpoint}
    (different : ((rest.filter (keepsStem all reserved)).map stem).Nodup)
    (held : ∀ name ∈ (rest.filter (keepsStem all reserved)).map stem, name ∈ scope.taken) :
    (nameRest all reserved scope rest).Nodup ∧
      ∀ name ∈ nameRest all reserved scope rest,
        name ∈ (rest.filter (keepsStem all reserved)).map stem ∨ name ∉ scope.taken := by
  induction rest generalizing scope with
  | nil => simp [nameRest]
  | cons endpoint rest ih =>
    by_cases keeps : keepsStem all reserved endpoint = true
    · simp only [List.filter_cons, keeps, if_true, List.map_cons, List.nodup_cons, List.mem_cons] at different held
      obtain ⟨distinct, origin⟩ := ih different.2 fun name member => held name (Or.inr member)
      simp only [nameRest, keeps, if_true, List.filter_cons, List.map_cons, List.nodup_cons, List.mem_cons]
      refine ⟨⟨?_, distinct⟩, ?_⟩
      · intro again
        rcases origin _ again with kept | fresh
        · exact different.1 kept
        · exact fresh (held _ (Or.inl rfl))
      · rintro name (rfl | later)
        · exact Or.inl (Or.inl rfl)
        · exact (origin name later).imp_left Or.inr
    · simp only [List.filter_cons, keeps, Bool.false_eq_true, if_false] at different held
      let wish := qualify (groupOf all (stem endpoint)) endpoint
      have fresh : scope.pick wish ∉ scope.taken := scope.pick_not_mem wish
      have heldAfter : ∀ name ∈ (rest.filter (keepsStem all reserved)).map stem,
          name ∈ (scope.reserve (scope.pick wish)).taken :=
        fun name member => List.mem_cons_of_mem _ (held name member)
      obtain ⟨distinct, origin⟩ := ih different heldAfter
      simp only [nameRest, keeps, Bool.false_eq_true, if_false, List.filter_cons, List.nodup_cons, List.mem_cons,
        Scope.allocate]
      refine ⟨⟨?_, distinct⟩, ?_⟩
      · intro again
        rcases origin _ again with kept | unused
        · exact fresh (held _ kept)
        · exact unused (List.mem_cons_self ..)
      · rintro name (rfl | later)
        · exact Or.inr fresh
        · exact (origin name later).imp_right fun unused taken => unused (List.mem_cons_of_mem _ taken)

private theorem methodNames_distinct (endpoints : List Endpoint) (reserved : List String) :
    (methodNames endpoints reserved).Nodup ∧
      ∀ name ∈ methodNames endpoints reserved,
        name ∈ (endpoints.filter (keepsStem endpoints reserved)).map stem ∨ name ∉ reserved := by
  have held : ∀ name ∈ (endpoints.filter (keepsStem endpoints reserved)).map stem,
      name ∈ ((Scope.snake.reserveAll reserved).reserveAll
        ((endpoints.filter (keepsStem endpoints reserved)).map stem)).taken :=
    fun name member => Scope.mem_reserveAll.mpr (Or.inl member)
  obtain ⟨distinct, origin⟩ := nameRest_distinct (keptStems_nodup endpoints reserved) held
  refine ⟨distinct, fun name member => (origin name member).imp_right ?_⟩
  intro unused inside
  exact unused (Scope.mem_reserveAll.mpr (Or.inr (Scope.mem_reserveAll.mpr (Or.inl inside))))

theorem methodNames_nodup (endpoints : List Endpoint) (reserved : List String) :
    (methodNames endpoints reserved).Nodup :=
  (methodNames_distinct endpoints reserved).1

theorem methodNames_not_reserved (endpoints : List Endpoint) (reserved : List String) :
    ∀ name ∈ methodNames endpoints reserved, name ∉ reserved := by
  intro name member
  rcases (methodNames_distinct endpoints reserved).2 name member with kept | unused
  · obtain ⟨endpoint, keeps, rfl⟩ := List.mem_map.mp kept
    exact (kept_alone (List.mem_filter.mp keeps).2).2
  · exact unused

private theorem nameRest_named (all : List Endpoint) (reserved : List String) {scope : Scope}
    (underscore : scope.separator = "_") (rest : List Endpoint) :
    List.Forall₂ (NamedFor all) rest (nameRest all reserved scope rest) := by
  induction rest generalizing scope with
  | nil => exact .nil
  | cons endpoint rest ih =>
    rw [nameRest]
    split
    · next keeps =>
      -- The wish of an endpoint that is alone with its stem is the stem.
      have alone : (groupOf all (stem endpoint)).length = 1 := (kept_alone keeps).1
      have wish : qualify (groupOf all (stem endpoint)) endpoint = stem endpoint := by
        rw [qualify, if_pos (by omega)]
      exact .cons (Or.inl wish.symm) (ih underscore)
    · refine .cons ?_ (ih underscore)
      rcases scope.pick_cases (qualify (groupOf all (stem endpoint)) endpoint) with ⟨_, same⟩ | ⟨_, n, least, same, _⟩
      · exact Or.inl same
      · refine Or.inr ⟨n, least, ?_⟩
        rw [Scope.numbered, underscore] at same
        exact same

theorem methodNames_named (endpoints : List Endpoint) (reserved : List String) :
    List.Forall₂ (NamedFor endpoints) endpoints (methodNames endpoints reserved) :=
  nameRest_named endpoints reserved (by simp [Scope.snake]) endpoints

private theorem nameRest_keeps {all : List Endpoint} {reserved : List String} {scope : Scope} {endpoint : Endpoint}
    (keeps : keepsStem all reserved endpoint = true) (before after : List Endpoint) :
    (nameRest all reserved scope (before ++ endpoint :: after))[before.length]? = some (stem endpoint) := by
  induction before generalizing scope with
  | nil => simp [nameRest, keeps]
  | cons first before ih =>
    rw [List.cons_append, nameRest, List.length_cons]
    split
    all_goals
      rw [List.getElem?_cons_succ]
      exact ih

/-- Every endpoint gets a name of its own that is not reserved, and keeps its stem if it can. -/
theorem methodNames_assign (endpoints : List Endpoint) (reserved : List String) :
    AssignsNames endpoints reserved (methodNames endpoints reserved) where
  each := methodNames_named endpoints reserved
  distinct := methodNames_nodup endpoints reserved
  free := methodNames_not_reserved endpoints reserved
  kept := by
    rintro before endpoint after rfl alone free
    exact nameRest_keeps (keeps_of_alone alone free) before after

/-- A name that a shared stem leads to gives way to an operation that has it as its own stem. -/
example : methodNames
    [⟨"/a/list", .get, some "list"⟩, ⟨"/b/list", .get, some "list"⟩, ⟨"/other", .get, some "list_a"⟩] [] =
      ["list_a_2", "list_b", "list_a"] := by
  decide +kernel

end ClientForge.Ident
