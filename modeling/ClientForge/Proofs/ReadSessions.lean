import ClientForge.Proofs.DocumentKeys
import ClientForge.Proofs.ResolverFaults
import ClientForge.Proofs.SettledAnswers

/-! Resolving what has been read from a text. No schema of such a document has a key twice, neither among its components
nor where a call finds one, so that nothing has to be assumed about keys: names are given as everywhere, answers
stay, and a call fails for the same reasons. -/

namespace ClientForge.Resolve
open Api Document

def declaredSchemas (document : Document) : Table String SchemaNode := (document.components.getD .none).schemas

/-- A call for a schema of a document or for a reference, which may be any. -/
def Call.StandsIn (document : Document) : Call → Prop
  | .inContext node _ | .owned node _ _ => node ∈ document.nodes
  | .reference _ => True

variable {text : String} {document : Document} {registry : Registry} {done : List (Call × Outcome)}

theorem declaredSchemas_distinctKeys (read : parse text = .ok document) :
    ∀ entry ∈ (declaredSchemas document).entries, DistinctKeys entry.2 := by
  intro entry member
  cases given : document.components with
  | none =>
    rw [declaredSchemas, given] at member
    cases member
  | some components =>
    rw [declaredSchemas, given] at member
    have inside : AllDistinct components.nodes := fun node there => parse_distinctKeys read node
      (List.mem_append_right _ (List.mem_flatMap.mpr ⟨components, Option.mem_toList.mpr given, there⟩))
    exact (allDistinct_components.mp inside).1 entry.2 (List.mem_map.mpr ⟨entry, member, rfl⟩)

theorem Call.StandsIn.distinctKeys {call : Call} (stands : call.StandsIn document) (read : parse text = .ok document) :
    DistinctKeys call.node := by
  cases call with
  | inContext node | owned node => exact parse_distinctKeys read node stands
  | reference location => exact distinctKeys_ref _

private theorem asked_distinctKeys (read : parse text = .ok document) (asked : ∀ step ∈ done, step.1.StandsIn document) :
    ∀ step ∈ done, DistinctKeys step.1.node :=
  fun step member => (asked step member).distinctKeys read

/-- Each entry is a component's or that of a recorded definition, and answers are given names as in any session. -/
theorem read_names (read : parse text = .ok document) (session : Session (declaredSchemas document) done registry)
    (asked : ∀ step ∈ done, step.1.StandsIn document) :
    (∀ name ∈ registry.schemas.keys, Xor (name ∈ (declaredSchemas document).keys) (name ∈ registry.origins.keys)) ∧
      (∃ answers, Journal (declaredSchemas document) done answers registry) ∧
      ∀ answers, Journal (declaredSchemas document) done answers registry →
        (∀ call schema, (call, .ok schema) ∈ done → ∀ draft, call.node = draft.schema → Hoisted draft →
          ∃ answer ∈ answers, answer.definition = draft.schema.toValue ∧ schema = .reference answer.name) ∧
        (∀ answer ∈ answers, ∀ node, (declaredSchemas document).get? answer.name = some node →
          ∃ own, node.definition? = some own ∧ own.Same answer.definition) ∧
        (∀ first ∈ answers, ∀ second ∈ answers, first.name = second.name → first.definition.Same second.definition) ∧
        ∀ answer ∈ answers, answer.names.First
          (fun name => ¬ HeldByOther (declaredSchemas document) answer.asked answer.definition name) answer.name := by
  have declared := declaredSchemas_distinctKeys read
  have keys := asked_distinctKeys read asked
  refine ⟨(session.registered declared keys).one_owner, session.exists_journal, fun answers journal => ⟨?_, ?_, ?_, ?_⟩⟩
  · exact fun call schema answered draft asked hoisted => journal.answers_calls answered asked hoisted
  · exact journal.same_component declared keys
  · exact journal.same_name declared keys
  · exact fun answer member => ((journal.named declared keys).2 answer member).first

theorem read_stable (read : parse text = .ok document) (session : Session (declaredSchemas document) done registry)
    (asked : ∀ step ∈ done, step.1.StandsIn document) {call : Call} {schema : Schema} (answered : (call, .ok schema) ∈ done) :
    (call.run (declaredSchemas document)).run.run registry = (.ok schema, registry) := by
  have declared := declaredSchemas_distinctKeys read
  have keys := asked_distinctKeys read asked
  exact (session.settles declared keys answered).run_eq (session.registered declared keys)

/-- A first call ends, blames a reference that it needs if it fails, and fails exactly when nothing stands behind one. -/
theorem read_fails_iff (read : parse text = .ok document) {call : Call} (stands : call.StandsIn document) {result : Outcome}
    {after : Registry} (ended : (call.run (declaredSchemas document)).run.run .empty = (result, after)) :
    (∃ answers, Resolved (declaredSchemas document) (call.work none) .empty answers result after) ∧
      (∀ fault, result = .error fault → ∃ target, Needs (declaredSchemas document) call.node target ∧
        Blames (declaredSchemas document) after.schemas target.location fault) ∧
      ((∃ fault, result = .error fault) ↔ ∃ target, Needs (declaredSchemas document) call.node target ∧
        ∀ name, PointsTo target.location name → name ∉ (declaredSchemas document).keys ∧ name ∉ after.origins.keys) ∧
      ((∀ target name, Needs (declaredSchemas document) call.node target → PointsTo target.location name →
          name ∉ after.origins.keys) →
        ((∃ fault, result = .error fault) ↔ ∃ target, Needs (declaredSchemas document) call.node target ∧
          ∀ name, PointsTo target.location name → name ∉ (declaredSchemas document).keys)) := by
  have declared := declaredSchemas_distinctKeys read
  have keys := stands.distinctKeys read
  refine ⟨call_resolved ended, ?_, call_error_iff declared keys ended, call_error_iff_undeclared declared keys ended⟩
  rintro fault rfl
  exact call_broken declared ended

end ClientForge.Resolve
