import ClientForge.Proofs.ResolverTranslation

/-! Sessions of a resolver: calls one after the other on one registry, failed ones included. After calls that
all succeeded, the schemas are a translation of the document. -/

namespace ClientForge.Resolve
open Api Document

/-- A call of the resolver. -/
inductive Call where
  | inContext (node : SchemaNode) (context : String)
  | owned (node : SchemaNode) (context : String) (owners : List String)
  | reference (location : String)

namespace Call

def run (components : Table String SchemaNode) : Call → Resolving Schema
  | .inContext node context => resolveAt components node context
  | .owned node context owners => resolveOwned components node context owners
  | .reference location => resolveReference components location

def node : Call → SchemaNode
  | .inContext node _ | .owned node _ _ => node
  | .reference location => .ref ⟨location, "", ""⟩

theorem run_resolves (components : Table String SchemaNode) (call : Call) :
    Resolves components (call.run components) fun schema after => UsageOf components after call.node schema := by
  cases call with
  | inContext node context =>
    exact .get_bind fun registry => usage_resolves (follow_follows components) (reads_ofNode node) _
  | owned node context owners => exact usage_resolves (follow_follows components) (reads_ofNode node) _
  | reference location =>
    refine (followReference_resolves (follow_follows components) location).mono ?_
    rintro schema after ⟨name, component, rfl, present⟩
    exact .reference component present

end Call

/-- Calls of a fresh resolver with what each ended with, and the registry that they leave. -/
inductive Session (components : Table String SchemaNode) :
    List (Call × Except ReferenceFault Schema) → Registry → Prop where
  | start : Session components [] .empty
  | call {done : List (Call × Except ReferenceFault Schema)} {call : Call}
      {result : Except ReferenceFault Schema} {before after : Registry} (earlier : Session components done before)
      (ended : (call.run components).run.run before = (result, after)) :
      Session components (done ++ [(call, result)]) after

variable {components : Table String SchemaNode} {registry : Registry}
  {done : List (Call × Except ReferenceFault Schema)}

theorem Session.coherent (session : Session components done registry) : Coherent components registry := by
  induction session with
  | start => exact .empty
  | @call _ call result before _ _ ended ih =>
    have run := call.run_resolves components before ih
    cases result with
    | ok schema => exact (run.of_ok ended).1.coherent
    | error fault => exact (run.of_error ended).2

private theorem session_entries (session : Session components done registry)
    (succeeded : ∀ step ∈ done, ∃ schema, step.2 = .ok schema) :
    (∀ entry ∈ registry.schemas.entries, Faithful components registry entry) ∧
      ∀ step ∈ done, ∀ schema, step.2 = .ok schema → UsageOf components registry step.1.node schema := by
  induction session with
  | start => exact ⟨fun _ member => (by cases member), fun _ member => (by cases member)⟩
  | @call done call result before after earlier ended ih =>
    obtain ⟨entries, answers⟩ := ih fun step member => succeeded step (List.mem_append_left _ member)
    obtain ⟨schema, ok⟩ := succeeded (call, result) (by simp)
    cases ok
    obtain ⟨grown, usage⟩ := (call.run_resolves components before earlier.coherent).of_ok ended
    constructor
    · intro entry member
      rcases grown.faithful entry member with old | new
      · exact (entries entry old).mono grown.keeps
      · exact new
    · intro step member answer answered
      rcases List.mem_append.mp member with before | last
      · exact (answers step before answer answered).mono grown.keeps
      · cases List.mem_singleton.mp last
        cases answered
        exact usage

/-- When all calls succeeded, every entry translates what it is for, one level deep; every name that a use
of a definition is translated to is that of an entry for the same definition; and every answer is the
translation of what was asked for. -/
theorem session_translates (session : Session components done registry)
    (succeeded : ∀ step ∈ done, ∃ schema, step.2 = .ok schema) :
    (∀ entry ∈ registry.schemas.entries, Faithful components registry entry) ∧
      (∀ name definition, EntryFor components registry definition name →
        ∃ node schema own, registry.schemas.get? name = some schema ∧ EntryOf components registry node schema ∧
          node.definition? = some own ∧ SameDefinition own definition) ∧
      ∀ step ∈ done, ∀ schema, step.2 = .ok schema → UsageOf components registry step.1.node schema := by
  obtain ⟨entries, answers⟩ := session_entries session succeeded
  exact ⟨entries, fun name definition entry => entry.translated entries, answers⟩

/-- A tree whose nodes say which kind they are of. -/
def treeSchema : SchemaNode :=
  .inline ⟨some (.one "object"), none, none, ["kind"], false, none⟩ none
    [("children", .inline ⟨some (.one "array"), none, none, [], false, none⟩
      (some (.ref ⟨"#/components/schemas/Tree", "", ""⟩)) [] none [] [] []),
     ("kind", .inline ⟨some (.one "string"), none, some [.string "leaf", .null, .string "fork"], [], true, none⟩
      none [] none [] [] [])]
    none [] [] []

def treeComponents : Table String SchemaNode := ⟨[("Tree", treeSchema)], by simp⟩

def treeCall : Call := .reference "#/components/schemas/Tree"

theorem treeCall_answered : ((treeCall.run treeComponents).run.run .empty).1.toBool = true ∧
    ((treeCall.run treeComponents).run.run .empty).2.schemas.keys = ["Tree", "Kind"] := by decide +kernel

theorem tree_translates : ∃ schema registry, Session treeComponents [(treeCall, .ok schema)] registry ∧
    registry.schemas.keys = ["Tree", "Kind"] ∧
      (∀ entry ∈ registry.schemas.entries, Faithful treeComponents registry entry) ∧
        UsageOf treeComponents registry treeCall.node schema := by
  obtain ⟨answered, keys⟩ := treeCall_answered
  rcases ended : (treeCall.run treeComponents).run.run .empty with ⟨fault | schema, registry⟩
  · rw [ended] at answered
    cases answered
  · rw [ended] at keys
    have session : Session treeComponents [(treeCall, .ok schema)] registry := .call .start ended
    have succeeded : ∀ step ∈ [(treeCall, (.ok schema : Except ReferenceFault Schema))],
        ∃ schema, step.2 = .ok schema := fun step member => ⟨_, congrArg Prod.snd (List.mem_singleton.mp member)⟩
    obtain ⟨entries, _, answers⟩ := session_translates session succeeded
    exact ⟨schema, registry, session, keys, entries, answers _ (List.mem_singleton.mpr rfl) _ rfl⟩

end ClientForge.Resolve
