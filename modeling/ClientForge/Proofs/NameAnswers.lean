import Mathlib.Logic.Basic
import ClientForge.Proofs.DefinitionReading
import ClientForge.Proofs.ResolverEnds

/-! Names and definitions. A name never changes hands: it is a component's from the start, or that of the first
inline definition that was recorded under it. So all that is answered with one name has one definition, in
every state that calls lead to, and also after calls that failed. -/

namespace ClientForge.Resolve
open Api Document

variable {components : Table String SchemaNode} {registry before middle after : Registry}

variable (components registry) in
/-- A name that a different definition holds. A component holds its name before it has an entry; one that is a
reference has no definition, and is different from all. -/
def HeldByOther (definition : Value) (name : String) : Prop :=
  (name ∈ components.keys ∨ name ∈ registry.origins.keys) ∧
    ∀ own, definitionAt components registry name = some own → ¬ own.Same definition

variable (components) in
/-- Every name is that of a component or of an inline definition. -/
structure Registered (registry : Registry) : Prop where
  recorded : ∀ name ∈ registry.origins.keys, name ∈ registry.schemas.keys
  apart : ∀ name ∈ registry.origins.keys, name ∉ components.keys
  named : ∀ name ∈ registry.schemas.keys, name ∈ components.keys ∨ name ∈ registry.origins.keys
  distinct : ∀ name own, registry.origins.get? name = some own → own.hasDistinctKeys = true

namespace Registered

theorem empty : Registered components .empty :=
  ⟨fun _ member => (by cases member), fun _ member => (by cases member), fun _ member => (by cases member),
    fun _ _ found => (by cases found)⟩

theorem write {name : String} {schema : Schema} (registered : Registered components registry)
    (belongs : name ∈ components.keys ∨ name ∈ registry.origins.keys) :
    Registered components (registry.write name schema) where
  recorded other member := Table.mem_keys_insert.mpr (Or.inr (registered.recorded other member))
  apart := registered.apart
  named other member := by
    rcases Table.mem_keys_insert.mp member with rfl | earlier
    · exact belongs
    · exact registered.named other earlier
  distinct := registered.distinct

theorem withOwners (registered : Registered components registry) (owners : List String) :
    Registered components { registry with owners } :=
  ⟨registered.recorded, registered.apart, registered.named, registered.distinct⟩

theorem record {name : String} {definition : Value} (registered : Registered components registry)
    (undeclared : name ∉ components.keys) (keys : definition.hasDistinctKeys = true) :
    Registered components ((registry.record name definition).write name .unknown) where
  recorded other member :=
    Table.mem_keys_insert.mpr ((Table.mem_keys_insert.mp member).imp_right (registered.recorded other))
  apart other member := by
    rcases Table.mem_keys_insert.mp member with rfl | earlier
    · exact undeclared
    · exact registered.apart other earlier
  named other member := by
    rcases Table.mem_keys_insert.mp member with rfl | earlier
    · exact Or.inr (Table.mem_keys_insert.mpr (Or.inl rfl))
    · exact (registered.named other earlier).imp_right fun recorded => Table.mem_keys_insert.mpr (Or.inr recorded)
  distinct other own found := by
    have written : (registry.origins.insert name definition).get? other = some own := found
    rw [Table.get?_insert] at written
    split at written
    · exact Option.some.inj written ▸ keys
    · exact registered.distinct other own written

theorem settle {name : String} {outcome : Outcome} (registered : Registered components registry)
    (present : name ∈ registry.schemas.keys) : Registered components (registry.settle name outcome) := by
  cases outcome with
  | ok schema => exact registered.write (registered.named name present)
  | error fault => exact registered

theorem holder_other (registered : Registered components registry) (definition : Value) (name : String) :
    holder components registry definition name = .other ↔ HeldByOther components registry definition name := by
  have holds := holds_holder components registry definition name
  generalize holder components registry definition name = who at holds
  unfold HeldByOther definitionAt
  cases holds with
  | @itself own origin same =>
    have recorded : name ∈ registry.origins.keys := Table.mem_keys.mpr ⟨own, origin⟩
    have undeclared := Table.get?_eq_none.mpr (registered.apart name recorded)
    simp [undeclared, origin, same]
  | @component node own _ declared written same => simp [declared, written, same]
  | @recorded own origin different =>
    have recorded : name ∈ registry.origins.keys := Table.mem_keys.mpr ⟨own, origin⟩
    have undeclared := Table.get?_eq_none.mpr (registered.apart name recorded)
    simp [undeclared, origin, different, recorded]
  | @declared node _ declared different =>
    have member : name ∈ components.keys := Table.mem_keys.mpr ⟨node, declared⟩
    simpa [declared, member] using different
  | resolved unrecorded undeclared present => exact absurd (registered.named name present) (by simp [unrecorded, undeclared])
  | nobody unrecorded undeclared => simp [unrecorded, undeclared]

theorem first {names : Candidates} {definition : Value} {name : String} (registered : Registered components registry)
    (first : names.First (fun name => holder components registry definition name ≠ .other) name) :
    names.First (fun name => ¬ HeldByOther components registry definition name) name := by
  obtain ⟨position, same, allowed, earlier⟩ := first
  refine ⟨position, same, mt (registered.holder_other definition name).mpr allowed, fun before less free => ?_⟩
  exact earlier before less (mt (registered.holder_other definition _).mp free)

end Registered

def Work.DistinctKeys : Work → Prop
  | .location _ | .component _ => True
  | .entry _ node | .usage node _ => Resolve.DistinctKeys node
  | .properties _ declared => ∀ entry ∈ declared, Resolve.DistinctKeys entry.2

variable (components registry) in
/-- An answer that was right when it was given, and that names an entry with the definition. -/
structure Named (answer : Answer) : Prop where
  entry : EntryFor components registry answer.definition answer.name
  first : answer.names.First (fun name => ¬ HeldByOther components answer.asked answer.definition name) answer.name

theorem Named.mono {answer : Answer} (keeps : Keeps before after) (named : Named components before answer) :
    Named components after answer := ⟨named.entry.mono keeps, named.first⟩

theorem named_append {answers later : List Answer} (keeps : Keeps before after)
    (named : ∀ answer ∈ answers, Named components before answer)
    (namedLater : ∀ answer ∈ later, Named components after answer) :
    ∀ answer ∈ answers ++ later, Named components after answer := by
  intro answer member
  rcases List.mem_append.mp member with earlier | new
  · exact (named answer earlier).mono keeps
  · exact namedLater answer new

theorem keeps_leaveOwner : Keeps registry registry.leaveOwner := ⟨fun _ present => present, List.prefix_rfl⟩

theorem keeps_settle {name : String} {outcome : Outcome} : Keeps registry (registry.settle name outcome) := by
  cases outcome with
  | ok schema => exact ⟨fun _ present => Table.mem_keys_insert.mpr (Or.inr present), List.prefix_rfl⟩
  | error fault => exact ⟨fun _ present => present, List.prefix_rfl⟩

theorem mem_answered {answers : List Answer} {answer other : Answer} {outcome : Outcome} :
    other ∈ answered answers answer outcome ↔ other ∈ answers ∨ other = answer ∧ ∃ schema, outcome = .ok schema := by
  cases outcome <;> simp [answered]

theorem Resolved.component_present {name : String} {answers : List Answer} {schema : Schema}
    (resolved : Resolved components (.component name) before answers (.ok schema) after) :
    schema = .reference name ∧ name ∈ after.schemas.keys := by
  generalize same : (.ok schema : Outcome) = outcome at resolved
  cases resolved with
  | known present =>
    cases same
    exact ⟨rfl, present⟩
  | undeclared => cases same
  | @declared _ _ _ outcome =>
    cases outcome with
    | ok inner =>
      cases same
      exact ⟨rfl, Table.mem_keys_insert.mpr (Or.inl rfl)⟩
    | error fault => cases same

/-- Work keeps names apart, and what it answers is right from then on. -/
theorem Resolved.named {work : Work} {answers : List Answer} {outcome : Outcome}
    (resolved : Resolved components work before answers outcome after)
    (declared : ∀ entry ∈ components.entries, DistinctKeys entry.2)
    (keys : work.DistinctKeys) (registered : Registered components before) :
    Registered components after ∧ ∀ answer ∈ answers, Named components after answer := by
  induction resolved with
  | external | known | undeclared | enumerationEntry | combined | anyArray | free | scalar | unsupported
    | noProperties => exact ⟨registered, fun _ none => by cases none⟩
  | followed _ _ ih | aliasEntry _ ih | reference _ ih => exact ih trivial registered
  | @declared name node _ _ _ _ absent found body ih =>
    have belongs : name ∈ components.keys := Table.mem_keys.mpr ⟨node, found⟩
    have nodeKeys : DistinctKeys node := declared _ (Table.get?_eq_some.mp found)
    obtain ⟨inner, named⟩ := ih nodeKeys (registered.write (Or.inl belongs))
    have present := body.extends.keeps.present name (Table.mem_keys_insert.mpr (Or.inl rfl))
    exact ⟨inner.settle present, fun answer member => (named answer member).mono keeps_settle⟩
  | @objectEntry _ _ _ _ _ draft _ _ ih =>
    have inside : ∀ entry ∈ draft.properties, DistinctKeys entry.2 :=
      fun entry listed => (Inside.property listed).distinctKeys keys
    obtain ⟨inner, named⟩ := ih inside (registered.withOwners _)
    exact ⟨inner.withOwners _, fun answer member => (named answer member).mono keeps_leaveOwner⟩
  | usageEntry _ _ ih =>
    obtain ⟨inner, named⟩ := ih keys (registered.withOwners _)
    exact ⟨inner.withOwners _, fun answer member => (named answer member).mono keeps_leaveOwner⟩
  | again _ first holds =>
    refine ⟨registered, fun answer member => ?_⟩
    cases List.mem_singleton.mp member
    cases holds with
    | @itself own origin same =>
      have recorded := Table.mem_keys.mpr ⟨own, origin⟩
      have undeclared := Table.get?_eq_none.mpr (registered.apart _ recorded)
      refine ⟨⟨registered.recorded _ recorded, own, ?_, Or.inr same⟩, registered.first first⟩
      simpa only [definitionAt, undeclared] using origin
  | equalComponent _ first holds follow ih =>
    obtain ⟨inner, named⟩ := ih trivial registered
    refine ⟨inner, fun answer member => ?_⟩
    rcases mem_answered.mp member with earlier | ⟨rfl, schema, rfl⟩
    · exact named answer earlier
    · cases holds with
      | @component node own _ found written same =>
        refine ⟨⟨follow.component_present.2, own, ?_, Or.inr same⟩, registered.first first⟩
        simpa only [definitionAt, found] using written
  | new _ first holds body ih =>
    cases holds with
    | nobody unrecorded undeclared absent =>
      obtain ⟨inner, named⟩ := ih keys (registered.record undeclared keys)
      have present := body.extends.keeps.present _ (Table.mem_keys_insert.mpr (Or.inl rfl))
      refine ⟨inner.settle present, fun answer member => ?_⟩
      rcases mem_answered.mp member with earlier | ⟨rfl, schema, rfl⟩
      · exact (named answer earlier).mono keeps_settle
      · refine ⟨⟨keeps_settle.present _ present, _, ?_, Or.inl rfl⟩, registered.first first⟩
        have none := Table.get?_eq_none.mpr undeclared
        have origin := Table.get?_of_prefix body.extends.origins (Table.get?_insert.trans (if_pos rfl))
        simp only [definitionAt, none]
        exact origin
  | member wraps _ ih =>
    have listed : _ ∈ _ := wraps.single ▸ List.mem_singleton.mpr rfl
    exact ih ((Inside.member listed).distinctKeys keys) registered
  | array _ _ items _ ih => exact ih ((Inside.items items).distinctKeys keys) registered
  | map _ _ values _ ih => exact ih ((Inside.values values).distinctKeys keys) registered
  | property _ rest firstNamed restNamed | laterProperty _ rest firstNamed restNamed =>
    obtain ⟨middle, named⟩ := firstNamed (keys _ (List.mem_cons_self ..)) registered
    obtain ⟨last, later⟩ := restNamed (fun entry listed => keys entry (List.mem_cons_of_mem _ listed)) middle
    exact ⟨last, named_append rest.extends.keeps named later⟩
  | brokenProperty _ ih => exact ih (keys _ (List.mem_cons_self ..)) registered

theorem Resolved.answers_hoisted {draft : Draft} {names : Candidates} {answers : List Answer} {schema : Schema}
    (hoisted : Hoisted draft) (resolved : Resolved components (.usage draft.schema names) before answers (.ok schema) after) :
    ∃ answer ∈ answers, answer.definition = draft.schema.toValue ∧ schema = .reference answer.name ∧
      answer.names = names ∧ answer.asked = before := by
  generalize work : Work.usage draft.schema names = usage at resolved
  generalize ended : (.ok schema : Outcome) = outcome at resolved
  cases resolved with
  | again =>
    cases ended
    obtain ⟨same, rfl⟩ := Work.usage.inj work
    cases schema_injective same
    exact ⟨_, List.mem_singleton.mpr rfl, rfl, rfl, rfl, rfl⟩
  | equalComponent _ _ _ follow =>
    cases ended
    obtain ⟨same, rfl⟩ := Work.usage.inj work
    cases schema_injective same
    exact ⟨_, mem_answered.mpr (Or.inr ⟨rfl, _, rfl⟩), rfl, follow.component_present.1, rfl, rfl⟩
  | @new _ _ _ inner =>
    obtain ⟨same, rfl⟩ := Work.usage.inj work
    cases schema_injective same
    cases inner with
    | ok inner =>
      cases ended
      exact ⟨_, mem_answered.mpr (Or.inr ⟨rfl, _, rfl⟩), rfl, rfl, rfl, rfl⟩
    | error fault => cases ended
  | member wraps => exact (wraps.inPlace (schema_injective (Work.usage.inj work).1 ▸ hoisted)).elim
  | combined combined => exact (combined.inPlace (schema_injective (Work.usage.inj work).1 ▸ hoisted)).elim
  | array plain | anyArray plain | map plain | free plain | scalar plain | unsupported plain =>
    exact (plain.inPlace (schema_injective (Work.usage.inj work).1 ▸ hoisted)).elim
  | reference => cases (Work.usage.inj work).1
  | _ => cases work

variable {done : List (Call × Outcome)} {answers : List Answer}

theorem Journal.named (journal : Journal components done answers registry)
    (declared : ∀ entry ∈ components.entries, DistinctKeys entry.2)
    (asked : ∀ step ∈ done, DistinctKeys step.1.node) :
    Registered components registry ∧ ∀ answer ∈ answers, Named components registry answer := by
  induction journal with
  | start => exact ⟨.empty, fun _ none => by cases none⟩
  | @call done _ _ call result before _ _ resolved ih =>
    obtain ⟨registered, named⟩ := ih fun step member => asked step (List.mem_append_left _ member)
    have node : DistinctKeys call.node := asked (call, result) (by simp)
    have keys : (call.work before.owners.head?).DistinctKeys := by
      cases call with
      | inContext | owned => exact node
      | reference => trivial
    obtain ⟨last, later⟩ := resolved.named declared keys registered
    exact ⟨last, named_append resolved.extends.keeps named later⟩

theorem Journal.answers_calls (journal : Journal components done answers registry) {call : Call} {schema : Schema}
    (answered : (call, .ok schema) ∈ done) {draft : Draft} (asked : call.node = draft.schema) (hoisted : Hoisted draft) :
    ∃ answer ∈ answers, answer.definition = draft.schema.toValue ∧ schema = .reference answer.name := by
  induction journal with
  | start => cases answered
  | @call _ _ _ last _ _ _ _ resolved ih =>
    rcases List.mem_append.mp answered with earlier | new
    · obtain ⟨answer, member, found⟩ := ih earlier
      exact ⟨answer, List.mem_append_left _ member, found⟩
    · cases List.mem_singleton.mp new
      cases call with
      | inContext node context | owned node context owners =>
        cases asked
        obtain ⟨answer, member, definition, found, -⟩ := resolved.answers_hoisted hoisted
        exact ⟨answer, List.mem_append_right _ member, definition, found⟩
      | reference location => cases asked

theorem Registered.definition_distinct (registered : Registered components registry)
    (declared : ∀ entry ∈ components.entries, DistinctKeys entry.2) {name : String} {own : Value}
    (found : definitionAt components registry name = some own) : own.hasDistinctKeys = true := by
  unfold definitionAt at found
  split at found
  next node component =>
    have keys := declared _ (Table.get?_eq_some.mp component)
    cases node with
    | ref target => cases found
    | inline => exact Option.some.inj found ▸ keys
  next => exact registered.distinct name own found

private theorem same_of_named (registered : Registered components registry)
    (declared : ∀ entry ∈ components.entries, DistinctKeys entry.2) {answer : Answer}
    (named : Named components registry answer) :
    ∃ own, definitionAt components registry answer.name = some own ∧ own.hasDistinctKeys = true ∧
      own.Same answer.definition := by
  obtain ⟨own, found, same⟩ := named.entry.same
  have keys := registered.definition_distinct declared found
  refine ⟨own, found, keys, ?_⟩
  rcases same with rfl | same
  · exact Value.same_refl keys
  · exact same

theorem Registered.one_owner (registered : Registered components registry) :
    ∀ name ∈ registry.schemas.keys, Xor (name ∈ components.keys) (name ∈ registry.origins.keys) := by
  intro name present
  rcases registered.named name present with component | recorded
  · exact Or.inl ⟨component, fun recorded => registered.apart name recorded component⟩
  · exact Or.inr ⟨recorded, registered.apart name recorded⟩

theorem Journal.same_component (journal : Journal components done answers registry)
    (declared : ∀ entry ∈ components.entries, DistinctKeys entry.2)
    (asked : ∀ step ∈ done, DistinctKeys step.1.node) :
    ∀ answer ∈ answers, ∀ node, components.get? answer.name = some node →
      ∃ own, node.definition? = some own ∧ own.Same answer.definition := by
  intro answer member node component
  obtain ⟨registered, named⟩ := journal.named declared asked
  obtain ⟨own, found, -, same⟩ := same_of_named registered declared (named answer member)
  rw [definitionAt, component] at found
  exact ⟨own, found, same⟩

theorem Journal.same_name (journal : Journal components done answers registry)
    (declared : ∀ entry ∈ components.entries, DistinctKeys entry.2)
    (asked : ∀ step ∈ done, DistinctKeys step.1.node) :
    ∀ first ∈ answers, ∀ second ∈ answers, first.name = second.name → first.definition.Same second.definition := by
  intro first listed second listedSecond shared
  obtain ⟨registered, named⟩ := journal.named declared asked
  obtain ⟨own, found, keys, same⟩ := same_of_named registered declared (named first listed)
  obtain ⟨other, foundOther, -, sameOther⟩ := same_of_named registered declared (named second listedSecond)
  rw [shared, foundOther] at found
  cases found
  exact Value.same_trans (Value.same_symm keys same) sameOther

/-- Names in every state that calls lead to. No definition has a key twice, as none has that is read from a text
(`parse_distinctKeys`). Each entry is a component's or that of a recorded definition, and not both. Calls for an
object or an enumeration are answered with names, and so are the ones that stand inside what is resolved: with a
component's name only if the component has the same definition; with one name only if the definitions are the same;
and with the first name that no different definition held when it was asked for. -/
theorem session_names (session : Session components done registry)
    (declared : ∀ entry ∈ components.entries, DistinctKeys entry.2)
    (asked : ∀ step ∈ done, DistinctKeys step.1.node) :
    (∀ name ∈ registry.schemas.keys, Xor (name ∈ components.keys) (name ∈ registry.origins.keys)) ∧
      (∃ answers, Journal components done answers registry) ∧
      ∀ answers, Journal components done answers registry →
        (∀ call schema, (call, .ok schema) ∈ done → ∀ draft, call.node = draft.schema → Hoisted draft →
          ∃ answer ∈ answers, answer.definition = draft.schema.toValue ∧ schema = .reference answer.name) ∧
        (∀ answer ∈ answers, ∀ node, components.get? answer.name = some node →
          ∃ own, node.definition? = some own ∧ own.Same answer.definition) ∧
        (∀ first ∈ answers, ∀ second ∈ answers, first.name = second.name → first.definition.Same second.definition) ∧
        ∀ answer ∈ answers,
          answer.names.First (fun name => ¬ HeldByOther components answer.asked answer.definition name) answer.name := by
  obtain ⟨answers, journal⟩ := session.exists_journal
  refine ⟨(journal.named declared asked).1.one_owner, ⟨answers, journal⟩, fun answers journal => ⟨?_, ?_, ?_, ?_⟩⟩
  · exact fun call schema answered draft asked hoisted => journal.answers_calls answered asked hoisted
  · exact journal.same_component declared asked
  · exact journal.same_name declared asked
  · exact fun answer member => ((journal.named declared asked).2 answer member).first

def kindSchema (literals : List String) : SchemaNode :=
  .inline ⟨some (.one "string"), none, some (literals.map .string), [], false, none⟩ none [] none [] [] []

def objectSchema (properties : List (String × SchemaNode)) : SchemaNode :=
  .inline ⟨some (.one "object"), none, none, [], false, none⟩ none properties none [] [] []

def kindComponents : Table String SchemaNode := ⟨[("Kind", kindSchema ["x"])], by simp⟩

/-- A body with a kind of its own, beside a component of that name. -/
def bodyCall : Call := .inContext (objectSchema [("kind", kindSchema ["a", "b"])]) "body"

theorem bodyCall_answered : ((bodyCall.run kindComponents).run.run .empty).2.schemas.keys = ["Body", "BodyKind"] := by
  decide +kernel

/-- The name of the component is passed over although the component has no entry. -/
theorem body_names : ∃ result registry, Session kindComponents [(bodyCall, result)] registry ∧
    registry.schemas.keys = ["Body", "BodyKind"] ∧
      (∀ name ∈ registry.schemas.keys, Xor (name ∈ kindComponents.keys) (name ∈ registry.origins.keys)) ∧
        ∃ answers, Journal kindComponents [(bodyCall, result)] answers registry ∧
          ∀ answer ∈ answers,
            answer.names.First (fun name => ¬ HeldByOther kindComponents answer.asked answer.definition name) answer.name := by
  have keys := bodyCall_answered
  rcases ended : (bodyCall.run kindComponents).run.run .empty with ⟨result, registry⟩
  rw [ended] at keys
  have session : Session kindComponents [(bodyCall, result)] registry := .call .start ended
  have declared : ∀ entry ∈ kindComponents.entries, DistinctKeys entry.2 := by
    intro entry member
    cases List.mem_singleton.mp member
    decide +kernel
  have asked : ∀ step ∈ [(bodyCall, result)], DistinctKeys step.1.node := by
    intro step member
    cases List.mem_singleton.mp member
    change DistinctKeys bodyCall.node
    decide +kernel
  obtain ⟨apart, ⟨answers, journal⟩, right⟩ := session_names session declared asked
  exact ⟨result, registry, session, keys, apart, answers, journal, (right answers journal).2.2.2⟩

end ClientForge.Resolve
