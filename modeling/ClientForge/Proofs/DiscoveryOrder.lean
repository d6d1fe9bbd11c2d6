import ClientForge.Proofs.NameAnswers

/-! The order of entries. Work that is begun with a registry leaves the entries of the registry where they are, and
puts what it discovers behind them: every entry in the place that it took when its name came up, right before what
was discovered while it was resolved. It does so also where it fails, and an entry that fails stays empty. -/

namespace ClientForge.Resolve
open Api Document

/-- An entry that is discovered, with what it holds when it is left and what is discovered inside it. -/
inductive Discovery where
  | entry (name : String) (schema : Schema) (inside : List Discovery)

mutual

/-- The entries of a discovery, a parent before what is discovered inside it. -/
def Discovery.entries : Discovery → List (String × Schema)
  | .entry name schema inside => (name, schema) :: discovered inside

def discovered : List Discovery → List (String × Schema)
  | [] => []
  | first :: rest => first.entries ++ discovered rest

end

theorem discovered_append (first rest : List Discovery) :
    discovered (first ++ rest) = discovered first ++ discovered rest := by
  induction first with
  | nil => simp [discovered]
  | cons found first ih => simp [discovered, ih]

def held : Outcome → Schema
  | .ok schema => schema
  | .error _ => .unknown

variable (components : Table String SchemaNode)

/-- What is discovered between two registries. Inside an entry stands all that its own work comes upon, from the
moment at which the entry took its place until it is left, and nothing else. -/
inductive Discovers : Registry → List Discovery → Registry → Prop where
  | nothing : Discovers registry [] registry
  | component (absent : name ∉ before.schemas.keys) (declared : components.get? name = some node)
      (body : Resolved components (.entry name node) (before.write name .unknown) answers outcome after)
      (inside : Discovers (before.write name .unknown) found after) :
      Discovers before [.entry name (held outcome) found] (after.settle name outcome)
  | inline (absent : name ∉ before.schemas.keys) (unrecorded : name ∉ before.origins.keys)
      (body : Resolved components (.entry name node) ((before.record name node.toValue).write name .unknown) answers
        outcome after)
      (inside : Discovers ((before.record name node.toValue).write name .unknown) found after) :
      Discovers before [.entry name (held outcome) found] (after.settle name outcome)
  | owned (inside : Discovers (before.enterOwner name) found after) : Discovers before found after.leaveOwner
  | inTurn (first : Discovers before found middle) (rest : Discovers middle later after) :
      Discovers before (found ++ later) after

variable {components} {registry before after : Registry}

theorem Resolved.discovers {work : Work} {answers : List Answer} {outcome : Outcome}
    (resolved : Resolved components work before answers outcome after) : ∃ found, Discovers components before found after := by
  induction resolved with
  | external | known | undeclared | enumerationEntry | again | combined | anyArray | free | scalar | unsupported
    | noProperties => exact ⟨[], .nothing⟩
  | followed _ _ discovers | aliasEntry _ discovers | reference _ discovers | equalComponent _ _ _ _ discovers
    | member _ _ discovers | array _ _ _ _ discovers | map _ _ _ _ discovers | brokenProperty _ discovers => exact discovers
  | declared absent declared body discovers =>
    obtain ⟨found, inside⟩ := discovers
    exact ⟨_, .component absent declared body inside⟩
  | objectEntry _ _ discovers | usageEntry _ _ discovers =>
    obtain ⟨found, inside⟩ := discovers
    exact ⟨found, .owned inside⟩
  | new _ _ holds body discovers =>
    obtain ⟨found, inside⟩ := discovers
    cases holds with
    | nobody unrecorded _ absent => exact ⟨_, .inline absent unrecorded body inside⟩
  | property _ _ first rest | laterProperty _ _ first rest =>
    obtain ⟨found, first⟩ := first
    obtain ⟨later, rest⟩ := rest
    exact ⟨found ++ later, .inTurn first rest⟩

private theorem entries_settle {name : String} {outcome : Outcome} {rest : List (String × Schema)}
    (absent : name ∉ before.schemas.keys)
    (entries : after.schemas.entries = (before.write name .unknown).schemas.entries ++ rest) :
    (after.settle name outcome).schemas.entries = before.schemas.entries ++ (name, held outcome) :: rest := by
  have opened : (before.write name .unknown).schemas.entries = before.schemas.entries ++ [(name, .unknown)] :=
    Table.entries_insert_new absent
  rw [opened, List.append_assoc, List.singleton_append] at entries
  cases outcome with
  | ok schema => exact Table.entries_insert_behind entries
  | error fault => exact entries

theorem Discovers.entries_eq {found : List Discovery} (discovers : Discovers components before found after) :
    after.schemas.entries = before.schemas.entries ++ discovered found := by
  induction discovers with
  | nothing => simp [discovered]
  | component absent _ _ _ ih | inline absent _ _ _ ih =>
    rw [discovered, discovered, List.append_nil, Discovery.entries]
    exact entries_settle absent ih
  | owned _ ih => exact ih
  | inTurn _ _ ih ihRest => rw [ihRest, ih, List.append_assoc, discovered_append]

variable {done : List (Call × Outcome)}

private theorem Session.eq_empty (session : Session components [] registry) : registry = .empty := by
  generalize none : [] = done at session
  cases session with
  | start => rfl
  | call => simp at none

private theorem Session.around (session : Session components done registry) {earlier later : List (Call × Outcome)}
    {call : Call} {result : Outcome} (parts : done = earlier ++ (call, result) :: later) :
    ∃ before after, Session components earlier before ∧ (call.run components).run.run before = (result, after) ∧
      Extends after registry := by
  induction session generalizing later with
  | start => simp at parts
  | @call done last lastResult previous final begun ended ih =>
    rcases List.eq_nil_or_concat later with rfl | ⟨front, step, rfl⟩
    · obtain ⟨rfl, same⟩ := List.append_inj' parts rfl
      cases same
      exact ⟨previous, final, begun, ended, .refl final⟩
    · rw [List.concat_eq_append, ← List.cons_append, ← List.append_assoc] at parts
      obtain ⟨rfl, -⟩ := List.append_inj' parts rfl
      obtain ⟨before, after, first, ran, grows⟩ := ih rfl
      exact ⟨before, after, first, ran, grows.trans (Call.run_extends ended)⟩

/-- Every call of a session, also one that fails, leaves every entry its place and its value, every recorded
definition, and the owners; and behind the entries that it finds it puts those that it discovers, in the order of
their discovery. What a name has come to hold when the call ends, it holds for the rest of the session. -/
theorem session_discovers (session : Session components done registry) {earlier later : List (Call × Outcome)}
    {call : Call} {result : Outcome} (parts : done = earlier ++ (call, result) :: later) :
    ∃ before after found, Session components earlier before ∧ (call.run components).run.run before = (result, after) ∧
      Extends before after ∧ Discovers components before found after ∧
      after.schemas.entries = before.schemas.entries ++ discovered found ∧
      Extends after registry ∧
      ∀ name schema, after.schemas.get? name = some schema → registry.schemas.get? name = some schema := by
  obtain ⟨before, after, begun, ended, grows⟩ := session.around parts
  obtain ⟨answers, resolved⟩ := call.run_resolved components before
  rw [ended] at resolved
  obtain ⟨found, discovers⟩ := resolved.discovers
  refine ⟨before, after, found, begun, ended, resolved.extends, discovers, discovers.entries_eq, grows, ?_⟩
  intro name schema holds
  exact Table.get?_of_prefix grows.schemas holds

/-- A forest has a season and trees, and a ranger who is declared nowhere. -/
def forestComponents : Table String SchemaNode :=
  ⟨[("Tree", treeSchema),
    ("Forest", objectSchema [("season", kindSchema ["dry", "wet"]), ("tree", .ref ⟨"#/components/schemas/Tree", "", ""⟩),
      ("ranger", .ref ⟨"#/components/schemas/Ranger", "", ""⟩)])], by simp⟩

def forestCall : Call := .reference "#/components/schemas/Forest"

theorem forestCall_failed : ((forestCall.run forestComponents).run.run .empty).1.toBool = false ∧
    ((forestCall.run forestComponents).run.run .empty).2.schemas.keys = ["Forest", "Season", "Tree", "Kind"] := by
  decide +kernel

/-- The call fails at the ranger, after the forest has come upon a season and a tree, and the tree upon its kind. All
of them are in their places when the tree is asked for. -/
theorem forest_discovers : ∃ fault result registry after found,
    Session forestComponents [(forestCall, .error fault), (treeCall, result)] registry ∧
      (forestCall.run forestComponents).run.run .empty = (.error fault, after) ∧
      after.schemas.keys = ["Forest", "Season", "Tree", "Kind"] ∧ Discovers forestComponents .empty found after ∧
      after.schemas.entries = discovered found ∧ Extends after registry := by
  obtain ⟨failed, keys⟩ := forestCall_failed
  rcases ended : (forestCall.run forestComponents).run.run .empty with ⟨fault | schema, middle⟩
  · rcases endedLater : (treeCall.run forestComponents).run.run middle with ⟨result, registry⟩
    have session : Session forestComponents [(forestCall, .error fault), (treeCall, result)] registry :=
      .call (.call .start ended) endedLater
    obtain ⟨before, after, found, begun, ran, -, discovers, entries, later, -⟩ :=
      session_discovers session (List.nil_append _).symm
    cases begun.eq_empty
    rw [ended] at ran keys
    cases ran
    exact ⟨fault, result, registry, middle, found, session, rfl, keys, discovers, entries, later⟩
  · rw [ended] at failed
    cases failed

end ClientForge.Resolve
