import ClientForge.Plan.Reach
import ClientForge.Proofs.NameChoice
import ClientForge.Proofs.ResolverGrowth

/-! What resolving does, rule by rule and without a bound on how far it goes. A rule says how a piece of work ends
if the pieces of work that it calls for end, and how they hand on the registry. Every run follows the rules: so
resolving ends from every registry, also where components come back to themselves, since a component that is
followed has its place from then on. The rules also keep a journal of the names that inline definitions get. -/

namespace ClientForge.Resolve
open Api Document

namespace Candidates

/-- The names that a definition may get, in the order in which they are tried. -/
def inOrder (names : Candidates) (position : Nat) : String :=
  match names.toList[position]? with
  | some name => name
  | none => names.numbered (position - names.toList.length + 2)

def First (names : Candidates) (allowed : String → Prop) (name : String) : Prop :=
  ∃ position, names.inOrder position = name ∧ allowed name ∧ ∀ earlier < position, ¬ allowed (names.inOrder earlier)

theorem inOrder_of_lt {names : Candidates} {position : Nat} (inside : position < names.toList.length) :
    names.inOrder position = names.toList[position] := by
  simp only [inOrder, List.getElem?_eq_getElem inside]

theorem inOrder_of_le {names : Candidates} {position : Nat} (behind : names.toList.length ≤ position) :
    names.inOrder position = names.numbered (position - names.toList.length + 2) := by
  simp only [inOrder, List.getElem?_eq_none behind]

theorem choose_first (names : Candidates) (components : Table String SchemaNode) (registry : Registry)
    (definition : Value) :
    names.First (fun name => holder components registry definition name ≠ .other)
      (names.choose components registry definition) := by
  have refused {name : String} (refused : allows components registry definition name = false) :
      ¬ holder components registry definition name ≠ .other := fun free => by
    rw [allows_iff.mpr free] at refused
    cases refused
  rcases names.choose_cases components registry definition with
    ⟨before, after, all, allowed, earlier⟩ | ⟨listed, n, least, same, allowed, smaller⟩
  · refine ⟨before.length, ?_, allows_iff.mp allowed, fun position inside => ?_⟩
    · rw [inOrder_of_lt (by simp [all])]
      simp [all]
    · rw [inOrder_of_lt (by simp [all]; omega)]
      exact refused (earlier _ (by simp [all, List.getElem_append_left inside]))
  · refine ⟨names.toList.length + (n - 2), ?_, ?_, fun position inside => ?_⟩
    · rw [inOrder_of_le (by omega), same]
      congr 1
      omega
    · rw [same]
      exact allows_iff.mp allowed
    · by_cases candidate : position < names.toList.length
      · rw [inOrder_of_lt candidate]
        exact refused (listed _ (List.getElem_mem candidate))
      · rw [inOrder_of_le (by omega)]
        exact refused (smaller _ (by omega) (by omega))

end Candidates

/-- The name that an inline definition got, with the registry in which it asked for one. -/
structure Answer where
  definition : Value
  names : Candidates
  asked : Registry
  name : String

inductive Work where
  | location (location : String)
  | component (name : String)
  | entry (name : String) (node : SchemaNode)
  | usage (node : SchemaNode) (names : Candidates)
  | properties (required : List String) (declared : List (String × SchemaNode))

/-- How a piece of work ends; properties end with the object that they make up. -/
abbrev Outcome := Except ReferenceFault Schema

namespace Registry

/-- An entry is filled with what it resolves to; behind a fault it stays as it is. -/
def settle (registry : Registry) (name : String) : Outcome → Registry
  | .ok schema => registry.write name schema
  | .error _ => registry

def enterOwner (registry : Registry) (name : String) : Registry :=
  { registry with owners := name :: registry.owners }

def leaveOwner (registry : Registry) : Registry := { registry with owners := registry.owners.tail }

end Registry

/-- The answers with one more, unless it was not given because of a fault. -/
def answered (answers : List Answer) (answer : Answer) : Outcome → List Answer
  | .ok _ => answers ++ [answer]
  | .error _ => answers

variable (components : Table String SchemaNode)

/-- How a piece of work, begun with a registry, ends, with the answers that are given in its course. -/
inductive Resolved : Work → Registry → List Answer → Outcome → Registry → Prop where
  | external (outside : componentName? location "schemas" = none) :
      Resolved (.location location) registry [] (.error (.externalSchema location)) registry
  | followed (names : componentName? location "schemas" = some name)
      (target : Resolved (.component name) before answers outcome after) :
      Resolved (.location location) before answers outcome after
  | known (present : name ∈ registry.schemas.keys) :
      Resolved (.component name) registry [] (.ok (.reference name)) registry
  | undeclared (absent : name ∉ registry.schemas.keys) (undeclared : name ∉ components.keys) :
      Resolved (.component name) registry [] (.error (.undefinedSchema name)) registry
  | declared (absent : name ∉ before.schemas.keys) (declared : components.get? name = some node)
      (body : Resolved (.entry name node) (before.write name .unknown) answers outcome after) :
      Resolved (.component name) before answers (outcome.map fun _ => .reference name) (after.settle name outcome)
  | aliasEntry {target : Reference} (follow : Resolved (.location target.location) before answers outcome after) :
      Resolved (.entry name (.ref target)) before answers outcome after
  | enumerationEntry {draft : Draft} (literal : StringEnum draft.keywords literals) :
      Resolved (.entry name draft.schema) registry [] (.ok (.enumeration literals)) registry
  | objectEntry {draft : Draft} (object : IsObject draft)
      (fields : Resolved (.properties draft.keywords.required draft.properties) (before.enterOwner name) answers
        outcome after) :
      Resolved (.entry name draft.schema) before answers outcome after.leaveOwner
  | usageEntry {draft : Draft} (inPlace : ¬ Hoisted draft)
      (usage : Resolved (.usage draft.schema ⟨name, []⟩) (before.enterOwner name) answers outcome after) :
      Resolved (.entry name draft.schema) before answers outcome after.leaveOwner
  | reference {target : Reference} (follow : Resolved (.location target.location) before answers outcome after) :
      Resolved (.usage (.ref target) names) before answers outcome after
  | again {draft : Draft} (hoisted : Hoisted draft)
      (first : names.First (fun name => holder components registry draft.schema.toValue name ≠ .other) name)
      (holds : Holds components registry draft.schema.toValue name .itself) :
      Resolved (.usage draft.schema names) registry [⟨draft.schema.toValue, names, registry, name⟩]
        (.ok (.reference name)) registry
  | equalComponent {draft : Draft} (hoisted : Hoisted draft)
      (first : names.First (fun name => holder components before draft.schema.toValue name ≠ .other) name)
      (holds : Holds components before draft.schema.toValue name .component)
      (follow : Resolved (.component name) before answers outcome after) :
      Resolved (.usage draft.schema names) before
        (answered answers ⟨draft.schema.toValue, names, before, name⟩ outcome) outcome after
  | new {draft : Draft} (hoisted : Hoisted draft)
      (first : names.First (fun name => holder components before draft.schema.toValue name ≠ .other) name)
      (holds : Holds components before draft.schema.toValue name .nobody)
      (body : Resolved (.entry name draft.schema)
        ((before.record name draft.schema.toValue).write name .unknown) answers outcome after) :
      Resolved (.usage draft.schema names) before
        (answered answers ⟨draft.schema.toValue, names, before, name⟩ outcome)
        (outcome.map fun _ => .reference name) (after.settle name outcome)
  | member (wraps : Wraps draft node) (inner : Resolved (.usage node names) before answers outcome after) :
      Resolved (.usage draft.schema names) before answers outcome after
  | combined (combined : Combined draft) :
      Resolved (.usage draft.schema names) registry [] (.ok .unknown) registry
  | array (plain : Plain draft) (type : primary? draft.keywords = some "array") (items : draft.items = some node)
      (inner : Resolved (.usage node (names.suffixed "Item")) before answers outcome after) :
      Resolved (.usage draft.schema names) before answers (outcome.map .array) after
  | anyArray (plain : Plain draft) (type : primary? draft.keywords = some "array") (items : draft.items = none) :
      Resolved (.usage draft.schema names) registry [] (.ok (.array .unknown)) registry
  | map (plain : Plain draft) (type : ObjectType draft.keywords) (values : draft.additional = some (.schema node))
      (inner : Resolved (.usage node (names.suffixed "Value")) before answers outcome after) :
      Resolved (.usage draft.schema names) before answers (outcome.map .map) after
  | free (plain : Plain draft) (type : ObjectType draft.keywords)
      (values : ∀ node, draft.additional ≠ some (.schema node)) :
      Resolved (.usage draft.schema names) registry [] (.ok .unknown) registry
  | scalar (plain : Plain draft) (type : primary? draft.keywords = some keyword)
      (known : Primitive.ofKeyword? keyword = some kind) :
      Resolved (.usage draft.schema names) registry [] (.ok (.primitive kind draft.keywords.format)) registry
  | unsupported (plain : Plain draft) (type : primary? draft.keywords = some keyword)
      (other : keyword ≠ "array" ∧ keyword ≠ "object") (unknown : Primitive.ofKeyword? keyword = none) :
      Resolved (.usage draft.schema names) registry [] (.ok .unknown) registry
  | noProperties : Resolved (.properties required []) registry [] (.ok (.object [])) registry
  | property (first : Resolved (.usage node (propertyNames before.owners.head? name)) before answers (.ok schema) middle)
      (rest : Resolved (.properties required declared) middle later (.ok (.object fields)) after) :
      Resolved (.properties required ((name, node) :: declared)) before (answers ++ later)
        (.ok (.object ((name, ⟨schema, required.contains name, (aboutNode node).1, (aboutNode node).2⟩) :: fields))) after
  | brokenProperty
      (first : Resolved (.usage node (propertyNames before.owners.head? name)) before answers (.error fault) after) :
      Resolved (.properties required ((name, node) :: declared)) before answers (.error fault) after
  | laterProperty
      (first : Resolved (.usage node (propertyNames before.owners.head? name)) before answers (.ok schema) middle)
      (rest : Resolved (.properties required declared) middle later (.error fault) after) :
      Resolved (.properties required ((name, node) :: declared)) before (answers ++ later) (.error fault) after

variable {components}

theorem Extends.settle {name : String} {before after : Registry} {outcome : Outcome}
    (fresh : name ∉ before.schemas.keys) (grows : Extends (before.write name .unknown) after) :
    Extends before (after.settle name outcome) := by
  cases outcome with
  | ok schema => exact .fill fresh grows
  | error fault => exact (Extends.write fresh).trans grows

theorem Resolved.extends {work : Work} {before after : Registry} {answers : List Answer} {outcome : Outcome}
    (resolved : Resolved components work before answers outcome after) : Extends before after := by
  induction resolved with
  | external | known | undeclared | enumerationEntry | again | combined | anyArray | free | scalar | unsupported
    | noProperties => exact .refl _
  | followed _ _ grows | aliasEntry _ grows | reference _ grows | equalComponent _ _ _ _ grows | member _ _ grows
    | array _ _ _ _ grows | map _ _ _ _ grows | brokenProperty _ grows => exact grows
  | declared absent _ _ grows => exact .settle absent grows
  | objectEntry _ _ grows | usageEntry _ _ grows => exact grows.leave
  | new _ _ holds _ grows =>
    cases holds with
    | nobody unrecorded _ absent => exact (Extends.record unrecorded).trans (.settle absent grows)
  | property _ _ first rest | laterProperty _ _ first rest => exact first.trans rest

end ClientForge.Resolve
