/-!
Scopes. A scope holds the names in use at one place of the generated source. Allocating gives the
wished name if it is free, otherwise the name with the least number from 2 on that is free.
-/

namespace ClientForge.Ident

/-- The names in use, and what stands between a name and its number. -/
structure Scope where
  separator : String
  taken : List String
  deriving Repr, DecidableEq

namespace Scope

/-- A scope for `snake_case` names: `name`, `name_2`, … -/
def snake : Scope := ⟨"_", []⟩

/-- A scope for `PascalCase` names: `Name`, `Name2`, … -/
def pascal : Scope := ⟨"", []⟩

/-- Takes a name without allocating it. -/
def reserve (scope : Scope) (name : String) : Scope :=
  { scope with taken := name :: scope.taken }

def reserveAll (scope : Scope) (names : List String) : Scope :=
  names.foldl reserve scope

def contains (scope : Scope) (name : String) : Bool :=
  scope.taken.contains name

def numbered (scope : Scope) (name : String) (n : Nat) : String :=
  name ++ scope.separator ++ toString n

/-- The first free one among `count + 1` numbered names from `n` on; the last of them if all but it
are in use. -/
def firstFree (scope : Scope) (name : String) : Nat → Nat → String
  | 0, n => scope.numbered name n
  | count + 1, n =>
    if scope.contains (scope.numbered name n) then scope.firstFree name count (n + 1)
    else scope.numbered name n

/-- The name that an allocation gives. Of one more numbered names than there are names in use, one
is free. -/
def pick (scope : Scope) (name : String) : String :=
  if scope.contains name then scope.firstFree name scope.taken.length 2 else name

def allocate (scope : Scope) (name : String) : String × Scope :=
  let chosen := scope.pick name
  (chosen, scope.reserve chosen)

def allocateAll (scope : Scope) : List String → List String
  | [] => []
  | name :: names =>
    let (chosen, scope) := scope.allocate name
    chosen :: scope.allocateAll names

@[simp]
theorem length_allocateAll (scope : Scope) (names : List String) :
    (scope.allocateAll names).length = names.length := by
  induction names generalizing scope with
  | nil => rfl
  | cons name names ih => simp [allocateAll, allocate, ih]

end Scope

end ClientForge.Ident
