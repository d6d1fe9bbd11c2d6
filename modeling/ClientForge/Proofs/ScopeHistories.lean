import ClientForge.Proofs.ScopeAllocation

/-! Histories of a scope. What a step of a scope answers depends on the names in use alone: on those that were reserved and
those that were given before it. The search for a number has no bound of its own, and ends. -/

namespace ClientForge.Ident.Scope

inductive Style where
  | snake
  | pascal
  deriving DecidableEq, Repr

def Style.separator : Style → String
  | snake => "_"
  | pascal => ""

def Style.fresh : Style → Scope
  | snake => Scope.snake
  | pascal => Scope.pascal

/-- What can be asked of a scope. -/
inductive Step where
  | reserve (name : String)
  | contains (name : String)
  | allocate (name : String)
  deriving DecidableEq, Repr

inductive Answer where
  | done
  | held (inUse : Bool)
  | given (name : String)
  deriving DecidableEq, Repr

/-- A step that has been answered. -/
structure Event where
  step : Step
  answer : Answer
  deriving DecidableEq, Repr

def answer (scope : Scope) : Step → Answer
  | .reserve _ => .done
  | .contains name => .held (scope.contains name)
  | .allocate name => .given (scope.allocate name).1

def after (scope : Scope) : Step → Scope
  | .reserve name => scope.reserve name
  | .contains _ => scope
  | .allocate name => (scope.allocate name).2

def run (scope : Scope) : List Step → List Event
  | [] => []
  | step :: steps => ⟨step, scope.answer step⟩ :: (scope.after step).run steps

def Event.name? : Event → Option String
  | ⟨.reserve name, _⟩ => some name
  | ⟨_, .given name⟩ => some name
  | _ => none

def used (history : List Event) : List String := history.filterMap Event.name?

/-- A search goes upwards from a number until a name is free, and ends at a number. -/
inductive Searches (separator : String) (inUse : List String) (name : String) : Nat → Nat → Prop where
  | found {n : Nat} (free : name ++ separator ++ toString n ∉ inUse) : Searches separator inUse name n n
  | next {n last : Nat} (taken : name ++ separator ++ toString n ∈ inUse)
      (later : Searches separator inUse name (n + 1) last) : Searches separator inUse name n last

/-- The answer that is due when these names are in use. -/
inductive Due (separator : String) (inUse : List String) : Step → Answer → Prop where
  | reserved {name : String} : Due separator inUse (.reserve name) .done
  | taken {name : String} (listed : name ∈ inUse) : Due separator inUse (.contains name) (.held true)
  | free {name : String} (unlisted : name ∉ inUse) : Due separator inUse (.contains name) (.held false)
  | wish {name : String} (free : name ∉ inUse) : Due separator inUse (.allocate name) (.given name)
  | numbered {name : String} {n : Nat} (taken : name ∈ inUse) (least : 2 ≤ n)
      (free : name ++ separator ++ toString n ∉ inUse)
      (smaller : ∀ m, 2 ≤ m → m < n → name ++ separator ++ toString m ∈ inUse)
      (ends : Searches separator inUse name 2 n) :
      Due separator inUse (.allocate name) (.given (name ++ separator ++ toString n))

/-- Every step is answered, in its turn and as is due after what came before it. What is given is not in use. -/
structure Faithful (separator : String) (steps : List Step) (history : List Event) : Prop where
  steps : history.map Event.step = steps
  due : ∀ before event behind, history = before ++ event :: behind →
    Due separator (used before) event.step event.answer
  fresh : ∀ before event behind, history = before ++ event :: behind →
    ∀ name, event.answer = .given name → name ∉ used before

variable {separator : String} {inUse : List String} {scope : Scope}

private theorem searches_of_smaller {name : String} {start n : Nat} (begins : start ≤ n)
    (free : name ++ separator ++ toString n ∉ inUse)
    (smaller : ∀ m, start ≤ m → m < n → name ++ separator ++ toString m ∈ inUse) :
    Searches separator inUse name start n := by
  induction begins using Nat.decreasingInduction with
  | self => exact .found free
  | of_succ m below ih =>
    refine .next (smaller m (Nat.le_refl m) below) (ih fun later least => ?_)
    exact smaller later (Nat.le_of_succ_le least)

/-- One step answers what is due. -/
theorem answer_due (same : ∀ name, name ∈ scope.taken ↔ name ∈ inUse) (step : Step) :
    Due scope.separator inUse step (scope.answer step) := by
  cases step with
  | reserve name => exact .reserved
  | contains name =>
    have holds : scope.contains name = decide (name ∈ inUse) := by
      rw [Bool.eq_iff_iff, contains_iff, same, decide_eq_true_iff]
    rw [answer, holds]
    by_cases listed : name ∈ inUse
    · rw [decide_eq_true listed]
      exact .taken listed
    · rw [decide_eq_false listed]
      exact .free listed
  | allocate name =>
    change Due scope.separator inUse (.allocate name) (.given (scope.pick name))
    rcases scope.pick_cases name with ⟨free, wish⟩ | ⟨taken, n, least, numbered, free, smaller⟩
    · rw [wish]
      exact .wish fun listed => free ((same name).mpr listed)
    · have unlisted : scope.numbered name n ∉ inUse := fun listed => free ((same _).mpr listed)
      have listed (m : Nat) (above : 2 ≤ m) (below : m < n) : scope.numbered name m ∈ inUse :=
        (same _).mp (smaller m above below)
      rw [numbered]
      exact .numbered ((same name).mp taken) least unlisted listed (searches_of_smaller least unlisted listed)

theorem mem_taken_after (same : ∀ name, name ∈ scope.taken ↔ name ∈ inUse) (step : Step) (name : String) :
    name ∈ (scope.after step).taken ↔ name ∈ inUse ++ (Event.name? ⟨step, scope.answer step⟩).toList := by
  cases step with
  | reserve other | allocate other => simp [after, allocate, answer, Event.name?, same, or_comm]
  | contains other => simp [after, answer, Event.name?, same]

theorem separator_after (scope : Scope) (step : Step) : (scope.after step).separator = scope.separator := by
  cases step <;> rfl

theorem Due.fresh {step : Step} {name : String} (due : Due separator inUse step (.given name)) : name ∉ inUse := by
  cases due with
  | wish free => exact free
  | numbered _ _ free => exact free

theorem run_steps (scope : Scope) (steps : List Step) : (scope.run steps).map Event.step = steps := by
  induction steps generalizing scope with
  | nil => rfl
  | cons step steps ih => rw [run, List.map_cons, ih]

theorem run_due (same : ∀ name, name ∈ scope.taken ↔ name ∈ inUse) {steps : List Step} {before behind : List Event}
    {event : Event} (whole : scope.run steps = before ++ event :: behind) :
    Due scope.separator (inUse ++ used before) event.step event.answer := by
  induction steps generalizing scope inUse before with
  | nil => simp [run] at whole
  | cons step steps ih =>
    cases before with
    | nil =>
      obtain ⟨rfl, -⟩ := List.cons.inj whole
      simpa [used] using answer_due same step
    | cons first before =>
      obtain ⟨rfl, later⟩ := List.cons.inj whole
      have due := ih (mem_taken_after same step) later
      rw [separator_after, List.append_assoc] at due
      have names : used (⟨step, scope.answer step⟩ :: before) =
          (Event.name? ⟨step, scope.answer step⟩).toList ++ used before := by
        cases found : Event.name? ⟨step, scope.answer step⟩ <;> simp [used, found]
      rwa [names]

/-- Whatever is asked of a new scope, it answers from the names that have been reserved and given so far. Every search for
a number ends, at the least one that is free, and no name is given that was reserved or given before. -/
theorem run_faithful (style : Style) (steps : List Step) : Faithful style.separator steps (style.fresh.run steps) := by
  have due {before behind : List Event} {event : Event} (whole : style.fresh.run steps = before ++ event :: behind) :
      Due style.separator (used before) event.step event.answer := by
    have nothing (name : String) : name ∈ style.fresh.taken ↔ name ∈ ([] : List String) := by
      cases style <;> rfl
    have same : style.fresh.separator = style.separator := by
      cases style <;> rfl
    simpa only [same, List.nil_append] using run_due nothing whole
  refine ⟨run_steps _ _, fun before event behind whole => due whole, ?_⟩
  intro before event behind whole name given
  have answered := due whole
  rw [given] at answered
  exact answered.fresh

example : (Scope.pascal.run [.allocate "Pet", .reserve "Pet2", .allocate "Pet", .contains "Pet3", .allocate "Pet3"]).map
    Event.answer = [.given "Pet", .done, .given "Pet3", .held true, .given "Pet32"] := by
  decide +kernel

end ClientForge.Ident.Scope
