import Mathlib.Logic.Relation
import ClientForge.Plan.Reach
import ClientForge.Proofs.TableEntries

/-! The search for what names lead to finds every key at the end of a chain of edges, and nothing else. What
has been seen leads only to what has been seen or is still pending, until nothing is pending any more. This holds
in whatever order the pending names are taken up, and in none of the orders does the search go on for ever. -/

namespace ClientForge.Plan
open Relation

variable {α : Type} {graph : Table String α} {edges : α → List String}

variable (graph edges) in
def Edge (source target : String) : Prop :=
  ∃ value, graph.get? source = some value ∧ target ∈ edges value ∧ target ∈ graph.keys

theorem Edge.target_mem {source target : String} (edge : Edge graph edges source target) : target ∈ graph.keys := by
  obtain ⟨_, _, _, present⟩ := edge
  exact present

variable (graph edges) in
/-- A key that some name of `start` is or leads to. -/
def Leads (start : List String) (name : String) : Prop :=
  ∃ first ∈ start, first ∈ graph.keys ∧ ReflTransGen (Edge graph edges) first name

structure Search where
  pending : List String
  seen : List String

variable (graph edges) in
/-- One move of a search, whichever pending name it takes up. -/
inductive Moves : Search → Search → Prop where
  | leave {name : String} {pending rest seen : List String} (taken : pending.Perm (name :: rest))
      (settled : name ∈ graph.keys → name ∈ seen) : Moves ⟨pending, seen⟩ ⟨rest, seen⟩
  | follow {name : String} {value : α} {pending rest seen : List String} (taken : pending.Perm (name :: rest))
      (found : graph.get? name = some value) (fresh : name ∉ seen) :
      Moves ⟨pending, seen⟩ ⟨edges value ++ rest, name :: seen⟩

theorem closure_moves (pending seen : List String) :
    ReflTransGen (Moves graph edges) ⟨pending, seen⟩ ⟨[], closure graph edges pending seen⟩ := by
  fun_induction closure graph edges pending seen with
  | case1 seen => exact .refl
  | case2 seen name rest absent ih =>
    exact .head (.leave (.refl _) fun present => absurd present (Table.get?_eq_none.mp absent)) ih
  | case3 seen name rest value found again ih =>
    exact .head (.leave (.refl _) fun _ => List.contains_iff_mem.mp again) ih
  | case4 seen name rest value found fresh ih =>
    exact .head (.follow (.refl _) found fun member => fresh (List.contains_iff_mem.mpr member)) ih

variable (graph edges) in
/-- A search that was begun with `start`: it has lost nothing, and it has come upon nothing else. -/
structure Sought (start : List String) (search : Search) : Prop where
  begun : ∀ name ∈ start, name ∈ graph.keys → name ∈ search.seen ∨ name ∈ search.pending
  followed : ∀ name ∈ search.seen, ∀ next, Edge graph edges name next → next ∈ search.seen ∨ next ∈ search.pending
  seen : ∀ name ∈ search.seen, Leads graph edges start name
  pending : ∀ name ∈ search.pending, name ∈ graph.keys → Leads graph edges start name
  distinct : search.seen.Nodup

theorem Sought.begin (start : List String) : Sought graph edges start ⟨start, []⟩ where
  begun _ member _ := Or.inr member
  followed _ none := by cases none
  seen _ none := by cases none
  pending name member present := ⟨name, member, present, .refl⟩
  distinct := List.nodup_nil

theorem Leads.step {start : List String} {name next : String} (leads : Leads graph edges start name)
    (edge : Edge graph edges name next) : Leads graph edges start next := by
  obtain ⟨first, begins, inside, path⟩ := leads
  exact ⟨first, begins, inside, path.tail edge⟩

theorem Sought.move {start : List String} {before after : Search} (sought : Sought graph edges start before)
    (move : Moves graph edges before after) : Sought graph edges start after := by
  cases move with
  | @leave name pending rest seen taken settled =>
    -- A key that is left alone has been seen before.
    have kept {other : String} (present : other ∈ graph.keys) (covered : other ∈ seen ∨ other ∈ pending) :
        other ∈ seen ∨ other ∈ rest := by
      rcases covered with old | waiting
      · exact Or.inl old
      · rcases List.mem_cons.mp (taken.mem_iff.mp waiting) with rfl | later
        · exact Or.inl (settled present)
        · exact Or.inr later
    exact
      { begun := fun other member present => kept present (sought.begun other member present)
        followed := fun other member next edge => kept edge.target_mem (sought.followed other member next edge)
        seen := sought.seen
        pending := fun other later => sought.pending other (taken.mem_iff.mpr (List.mem_cons_of_mem _ later))
        distinct := sought.distinct }
  | @follow name value pending rest seen taken found fresh =>
    have kept {other : String} (covered : other ∈ seen ∨ other ∈ pending) :
        other ∈ name :: seen ∨ other ∈ edges value ++ rest := by
      rcases covered with old | waiting
      · exact Or.inl (List.mem_cons_of_mem _ old)
      · rcases List.mem_cons.mp (taken.mem_iff.mp waiting) with rfl | later
        · exact Or.inl (List.mem_cons_self ..)
        · exact Or.inr (List.mem_append_right _ later)
    have leads : Leads graph edges start name :=
      sought.pending name (taken.mem_iff.mpr (List.mem_cons_self ..)) (Table.mem_keys.mpr ⟨value, found⟩)
    refine
      { begun := fun other member present => kept (sought.begun other member present)
        followed := fun other member next edge => ?_
        seen := List.forall_mem_cons.mpr ⟨leads, sought.seen⟩
        pending := fun other member present => ?_
        distinct := List.nodup_cons.mpr ⟨fresh, sought.distinct⟩ }
    · rcases List.mem_cons.mp member with rfl | before
      · obtain ⟨again, same, inside, _⟩ := edge
        cases found.symm.trans same
        exact Or.inr (List.mem_append_left _ inside)
      · exact kept (sought.followed other before next edge)
    · rcases List.mem_append.mp member with edge | later
      · exact leads.step ⟨value, found, edge, present⟩
      · exact sought.pending other (taken.mem_iff.mpr (List.mem_cons_of_mem _ later)) present

/-- A search that has come to its end has seen the keys that its start leads to, each of them once. -/
theorem Sought.finished {start seen : List String} (sought : Sought graph edges start ⟨[], seen⟩) :
    seen.Nodup ∧ ∀ name, name ∈ seen ↔ Leads graph edges start name := by
  refine ⟨sought.distinct, fun name => ⟨sought.seen name, ?_⟩⟩
  rintro ⟨first, begins, present, path⟩
  induction path with
  | refl => exact (sought.begun first begins present).resolve_right List.not_mem_nil
  | tail _ edge ih => exact (sought.followed _ ih _ edge).resolve_right List.not_mem_nil

theorem Sought.run {start : List String} {before after : Search} (sought : Sought graph edges start before)
    (moves : ReflTransGen (Moves graph edges) before after) : Sought graph edges start after := by
  induction moves with
  | refl => exact sought
  | tail _ move ih => exact ih.move move

private theorem reach_sought (start : List String) : Sought graph edges start ⟨[], reach graph edges start⟩ :=
  (Sought.begin start).run (closure_moves start [])

theorem reach_nodup (start : List String) : (reach graph edges start).Nodup := (reach_sought start).finished.1

theorem mem_reach {start : List String} {name : String} :
    name ∈ reach graph edges start ↔ Leads graph edges start name := (reach_sought start).finished.2 name

end ClientForge.Plan
