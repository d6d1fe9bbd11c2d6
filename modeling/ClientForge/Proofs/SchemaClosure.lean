import ClientForge.Proofs.Reachability
import ClientForge.Proofs.ResolverEnds

/-! References and entries. A reference is handed out only for a name that has its place; an entry is made only
for somebody who then holds a reference to it. So no reference ever dangles, and no entry is an orphan as long
as nothing fails: a failure forgets the references to what it leaves behind. -/

namespace ClientForge.Resolve
open Api Document Plan Relation

variable {components : Table String SchemaNode} {before middle after : Registry}

/-- Schemas that references in a list lead to. -/
abbrev Reached (registry : Registry) (start : List String) (name : String) : Prop :=
  Leads registry.schemas Schema.references start name

theorem Reached.extend {start more : List String} {name : String} (grows : Extends before after)
    (included : ∀ name ∈ start, name ∈ more) (reached : Reached before start name) : Reached after more name := by
  obtain ⟨first, begins, present, path⟩ := reached
  refine ⟨first, included first begins, grows.keeps.present first present, ReflTransGen.mono ?_ _ _ path⟩
  rintro source target ⟨schema, found, mentioned, inside⟩
  exact ⟨schema, Table.get?_of_prefix grows.schemas found, mentioned, grows.keeps.present target inside⟩

/-- While an entry is empty it leads nowhere; when it is filled, it leads to all that its schema leads to. -/
theorem Reached.fill {filled name : String} {schema : Schema}
    (empty : middle.schemas.get? filled = some .unknown) (reached : Reached middle schema.references name) :
    Reached (middle.write filled schema) [filled] name := by
  obtain ⟨first, begins, present, path⟩ := reached
  have written (other : String) : (middle.write filled schema).schemas.get? other =
      if other = filled then some schema else middle.schemas.get? other := Table.get?_insert
  have kept (other : String) (present : other ∈ middle.schemas.keys) :
      other ∈ (middle.write filled schema).schemas.keys := Table.mem_keys_insert.mpr (Or.inr present)
  have edge : Edge (middle.write filled schema).schemas Schema.references filled first :=
    ⟨schema, by rw [written, if_pos rfl], begins, kept first present⟩
  refine ⟨filled, List.mem_singleton.mpr rfl, Table.mem_keys_insert.mpr (Or.inl rfl), .head edge (ReflTransGen.mono ?_ _ _ path)⟩
  rintro source target ⟨value, found, mentioned, inside⟩
  refine ⟨value, ?_, mentioned, kept target inside⟩
  rw [written]
  split
  next same =>
    rw [same, empty] at found
    cases found
    simp [Schema.references] at mentioned
  next => exact found

/-- What is new after work that succeeded is reached from what it ended with. -/
def Traced (before : Registry) (outcome : Outcome) (after : Registry) : Prop :=
  ∀ schema, outcome = .ok schema → ∀ name ∈ after.schemas.keys,
    name ∈ before.schemas.keys ∨ Reached after schema.references name

theorem Traced.error {fault : ReferenceFault} : Traced before (.error fault) after := fun _ ended => by cases ended

theorem Traced.unchanged {schema : Schema} : Traced before (.ok schema) before :=
  fun _ _ _ present => Or.inl present

theorem Traced.trans {first second whole : Schema} (grows : Extends middle after)
    (begun : Traced before (.ok first) middle) (continued : Traced middle (.ok second) after)
    (includesFirst : ∀ name ∈ first.references, name ∈ whole.references)
    (includesSecond : ∀ name ∈ second.references, name ∈ whole.references) : Traced before (.ok whole) after := by
  rintro _ ⟨⟩ name present
  rcases continued second rfl name present with earlier | new
  · exact (begun first rfl name earlier).imp_right (Reached.extend grows includesFirst)
  · exact Or.inr (new.extend (.refl after) includesSecond)

theorem Traced.settle {name : String} {outcome : Outcome} (grows : Extends (before.write name .unknown) after)
    (traced : Traced (before.write name .unknown) outcome after) :
    Traced before (outcome.map fun _ => .reference name) (after.settle name outcome) := by
  cases outcome with
  | error fault => exact .error
  | ok schema =>
    rintro _ ⟨⟩ other present
    have filled : name ∈ (after.write name schema).schemas.keys := Table.mem_keys_insert.mpr (Or.inl rfl)
    have itself : Reached (after.write name schema) [name] name := ⟨name, List.mem_singleton.mpr rfl, filled, .refl⟩
    have empty : after.schemas.get? name = some .unknown :=
      Table.get?_of_prefix grows.schemas (Table.get?_insert.trans (if_pos rfl))
    rw [Schema.references]
    rcases Table.mem_keys_insert.mp present with rfl | present
    · exact Or.inr itself
    · rcases traced schema rfl other present with opened | reached
      · rcases Table.mem_keys_insert.mp opened with rfl | old
        · exact Or.inr itself
        · exact Or.inl old
      · exact Or.inr (reached.fill empty)

theorem Traced.map {outcome : Outcome} {change : Schema → Schema}
    (same : ∀ schema, (change schema).references = schema.references) (traced : Traced before outcome after) :
    Traced before (outcome.map change) after := by
  cases outcome with
  | error fault => exact .error
  | ok schema =>
    rintro _ ⟨⟩ name present
    rw [same]
    exact traced schema rfl name present

theorem Resolved.traced {work : Work} {answers : List Answer} {outcome : Outcome}
    (resolved : Resolved components work before answers outcome after) : Traced before outcome after := by
  induction resolved with
  | external | undeclared => exact .error
  | known | enumerationEntry | again | combined | anyArray | free | scalar | unsupported | noProperties =>
    exact .unchanged
  | followed _ _ traced | aliasEntry _ traced | reference _ traced | equalComponent _ _ _ _ traced
    | member _ _ traced | brokenProperty _ traced => exact traced
  | declared _ _ body traced => exact traced.settle body.extends
  -- Owners come and go without a change of the schemas.
  | objectEntry _ _ traced | usageEntry _ _ traced => exact traced
  | new _ _ _ body traced =>
    have settled := Traced.settle body.extends traced
    exact settled
  | array _ _ _ _ traced | map _ _ _ _ traced => exact traced.map fun _ => by rw [Schema.references]
  | property _ rest traced tracedRest =>
    refine traced.trans rest.extends tracedRest ?_ ?_
    · simp +contextual [Schema.references, Schema.propertyReferences]
    · simp +contextual [Schema.references, Schema.propertyReferences]
  | laterProperty => exact .error

variable {done : List (Call × Outcome)} {registry : Registry}

/-- The references of the schemas that calls were answered with. -/
def returned (done : List (Call × Outcome)) : List String :=
  done.flatMap fun step => match step.2 with
    | .ok schema => schema.references
    | .error _ => []

theorem mem_returned {name : String} :
    name ∈ returned done ↔ ∃ call schema, (call, .ok schema) ∈ done ∧ name ∈ schema.references := by
  rw [returned, List.mem_flatMap]
  constructor
  · rintro ⟨⟨call, _ | schema⟩, member, mentioned⟩
    · cases mentioned
    · exact ⟨call, schema, member, mentioned⟩
  · rintro ⟨call, schema, member, mentioned⟩
    exact ⟨_, member, mentioned⟩

private theorem Session.returned_present (session : Session components done registry) :
    ∀ name ∈ returned done, name ∈ registry.schemas.keys := by
  induction session with
  | start => exact fun name none => by cases none
  | @call done call result before after earlier ended ih =>
    intro name member
    obtain ⟨answers, resolved⟩ := call.run_resolved components before
    rw [ended] at resolved
    obtain ⟨asked, schema, listed, mentioned⟩ := mem_returned.mp member
    rcases List.mem_append.mp listed with old | last
    · exact resolved.extends.keeps.present name (ih name (mem_returned.mpr ⟨asked, schema, old, mentioned⟩))
    · cases List.mem_singleton.mp last
      obtain ⟨-, usage⟩ := (call.run_resolves components before earlier.coherent).of_ok ended
      exact usage.references_present name mentioned

private theorem Session.reached (session : Session components done registry)
    (succeeded : ∀ step ∈ done, ∃ schema, step.2 = .ok schema) :
    ∀ name ∈ registry.schemas.keys, Reached registry (returned done) name := by
  induction session with
  | start => exact fun name none => by cases none
  | @call done call result before after earlier ended ih =>
    intro name present
    obtain ⟨answers, resolved⟩ := call.run_resolved components before
    rw [ended] at resolved
    obtain ⟨schema, ok⟩ := succeeded (call, result) (by simp)
    cases ok
    rcases resolved.traced schema rfl name present with old | new
    · have before := ih (fun step member => succeeded step (List.mem_append_left _ member)) name old
      refine before.extend resolved.extends fun name member => ?_
      rw [returned, List.flatMap_append]
      exact List.mem_append_left _ member
    · refine new.extend (.refl after) fun name member => ?_
      exact mem_returned.mpr ⟨call, schema, by simp, member⟩

/-- In every state that calls lead to, every reference names an entry. When all calls succeeded, the entries are
those that references lead to from what was answered. -/
theorem session_closed (session : Session components done registry) :
    (∀ entry ∈ registry.schemas.entries, ∀ name ∈ entry.2.references, name ∈ registry.schemas.keys) ∧
      (∀ call schema, (call, .ok schema) ∈ done → ∀ name ∈ schema.references, name ∈ registry.schemas.keys) ∧
      ((∀ step ∈ done, ∃ schema, step.2 = .ok schema) →
        ∀ name, name ∈ registry.schemas.keys ↔ Leads registry.schemas Schema.references (returned done) name) := by
  refine ⟨session.coherent.closed, fun call schema answered name mentioned => ?_, fun succeeded name => ⟨?_, ?_⟩⟩
  · exact session.returned_present name (mem_returned.mpr ⟨call, schema, answered, mentioned⟩)
  · exact session.reached succeeded name
  · rintro ⟨first, -, present, path⟩
    cases path with
    | refl => exact present
    | tail _ edge =>
      obtain ⟨-, -, -, inside⟩ := edge
      exact inside

theorem tree_closed : ∃ schema registry, Session treeComponents [(treeCall, .ok schema)] registry ∧
    registry.schemas.keys = ["Tree", "Kind"] ∧
      Leads registry.schemas Schema.references (returned [(treeCall, .ok schema)]) "Kind" := by
  obtain ⟨answered, keys⟩ := treeCall_answered
  rcases ended : (treeCall.run treeComponents).run.run .empty with ⟨fault | schema, registry⟩
  · rw [ended] at answered
    cases answered
  · rw [ended] at keys
    have session : Session treeComponents [(treeCall, .ok schema)] registry := .call .start ended
    have succeeded : ∀ step ∈ [(treeCall, (.ok schema : Outcome))], ∃ schema, step.2 = .ok schema :=
      fun step member => ⟨schema, congrArg Prod.snd (List.mem_singleton.mp member)⟩
    have listed : "Kind" ∈ registry.schemas.keys := by
      rw [keys]
      decide
    exact ⟨schema, registry, session, keys, ((session_closed session).2.2 succeeded "Kind").mp listed⟩

end ClientForge.Resolve
