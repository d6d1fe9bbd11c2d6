import ClientForge.Table

/-!
Which entries of a table lead to which. Edges may lead to names that the table does not have; they
lead nowhere.
-/

namespace ClientForge.Plan

/-- How many keys have not been seen. -/
def unseen (graph : Table String α) (seen : List String) : Nat :=
  (graph.keys.filter fun key => !seen.contains key).length

theorem filter_length_lt {keep keep' : β → Bool} {list : List β} {b : β} (member : b ∈ list)
    (kept : keep b = true) (dropped : keep' b = false) (implies : ∀ a, keep' a = true → keep a = true) :
    (list.filter keep').length < (list.filter keep).length := by
  induction list with
  | nil => exact absurd member (by simp)
  | cons a rest ih =>
    have shorter : (rest.filter keep').length ≤ (rest.filter keep).length := by
      simp only [← List.countP_eq_length_filter]
      exact List.countP_mono_left fun x _ h => implies x h
    rcases List.mem_cons.mp member with same | later
    · subst same
      simp [kept, dropped]
      omega
    · have := ih later
      by_cases h' : keep' a = true
      · simp [h', implies a h']
        omega
      · by_cases h : keep a = true <;> simp [h, h'] <;> omega

theorem unseen_lt {graph : Table String α} {seen : List String} {name : String} {a : α}
    (found : graph.get? name = some a) (fresh : seen.contains name = false) :
    unseen graph (name :: seen) < unseen graph seen :=
  filter_length_lt (Table.mem_keys.mpr ⟨a, found⟩) (by simp only [fresh, Bool.not_false]) (by simp)
    (by simp)

/-- The keys that have been seen once everything pending has been followed. -/
def closure (graph : Table String α) (edges : α → List String) (pending seen : List String) :
    List String :=
  match pending with
  | [] => seen
  | name :: rest =>
    match _found : graph.get? name with
    | none => closure graph edges rest seen
    | some a =>
      if _fresh : seen.contains name then closure graph edges rest seen
      else closure graph edges (edges a ++ rest) (name :: seen)
termination_by (unseen graph seen, pending.length)
decreasing_by
  · exact Prod.Lex.right _ (by simp)
  · exact Prod.Lex.right _ (by simp)
  · exact Prod.Lex.left _ _ (unseen_lt _found (by simpa using _fresh))

/-- The keys that some name of `start` leads to along any number of edges. -/
def reach (graph : Table String α) (edges : α → List String) (start : List String) : List String :=
  closure graph edges start []

end ClientForge.Plan
