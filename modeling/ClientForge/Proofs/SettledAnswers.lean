import ClientForge.Proofs.NameAnswers

/-! Answers that stay. Once a call has succeeded, the name that it has answered with is in the registry, and each name
that was tried before it is held by another definition. Neither ever changes: what is recorded under a name stays
recorded, and a component has its definition from the start. So the call finds the same name again, and has nothing
left to do. -/

namespace ClientForge.Resolve
open Api Document

variable {components : Table String SchemaNode} {registry before after : Registry}

theorem Candidates.First.unique {names : Candidates} {allowed : String → Prop} {first second : String}
    (one : names.First allowed first) (two : names.First allowed second) : first = second := by
  obtain ⟨position, rfl, free, earlier⟩ := one
  obtain ⟨other, rfl, freeOther, earlierOther⟩ := two
  rcases Nat.lt_trichotomy position other with less | rfl | greater
  · exact absurd free (earlierOther position less)
  · rfl
  · exact absurd freeOther (earlier other greater)

theorem HeldByOther.later {definition : Value} {name : String} (grows : Extends before after)
    (held : HeldByOther components before definition name) : HeldByOther components after definition name := by
  obtain ⟨taken, different⟩ := held
  refine ⟨taken.imp_right fun recorded => Table.mem_keys_of_prefix grows.origins recorded, ?_⟩
  intro own found
  apply different
  unfold definitionAt at found ⊢
  split at found
  next => exact found
  next undeclared =>
    have recorded := taken.resolve_left (Table.get?_eq_none.mp undeclared)
    obtain ⟨old, origin⟩ := Table.mem_keys.mp recorded
    rwa [Table.get?_of_prefix grows.origins origin, ← origin] at found

theorem EntryFor.not_heldByOther {definition : Value} {name : String} (keys : definition.hasDistinctKeys = true)
    (entry : EntryFor components registry definition name) : ¬ HeldByOther components registry definition name := by
  obtain ⟨own, found, same⟩ := entry.same
  rintro ⟨-, different⟩
  rcases same with rfl | same
  · exact different own found (Value.same_refl keys)
  · exact different own found same

variable (components registry) in
/-- From this registry on, a program ends with this answer and leaves everything as it is. -/
def Settled (program : Resolving α) (answer : α) : Prop :=
  ∀ later, Extends registry later → Registered components later →
    Run program later (fun value after => value = answer ∧ after = later) fun _ _ => False

namespace Settled

variable {program : Resolving α} {answer : α}

theorem later (settled : Settled components before program answer) (grows : Extends before after) :
    Settled components after program answer :=
  fun last further registered => settled last (grows.trans further) registered

theorem pure : Settled components registry (Pure.pure answer) answer := fun _ _ _ => .pure ⟨rfl, rfl⟩

theorem run_eq (settled : Settled components registry program answer) (registered : Registered components registry) :
    program.run.run registry = (.ok answer, registry) := by
  have ends := settled registry (.refl registry) registered
  rcases ended : program.run.run registry with ⟨fault | value, after⟩
  · exact (ends.of_error ended).elim
  · obtain ⟨rfl, rfl⟩ := ends.of_ok ended
    rfl

theorem map {f : α → β} (settled : Settled components registry program answer) :
    Settled components registry (f <$> program) (f answer) := by
  intro last grows registered
  refine .map ((settled last grows registered).mono ?_ fun _ _ never => never)
  rintro value after ⟨rfl, rfl⟩
  exact ⟨rfl, rfl⟩

theorem follow {name : String} (present : name ∈ registry.schemas.keys) :
    Settled components registry (Resolve.follow components name) (.reference name) := by
  intro last grows _
  have known : last.schemas.contains name = true := Table.contains_iff.mpr (grows.keeps.present name present)
  unfold Resolve.follow
  rw [followWithin.eq_def]
  refine .get_bind ?_
  rw [if_pos known]
  exact .pure ⟨rfl, rfl⟩

theorem followReference {location name : String} (names : componentName? location "schemas" = some name)
    (present : name ∈ registry.schemas.keys) :
    Settled components registry (Resolve.followReference (Resolve.follow components) location) (.reference name) := by
  unfold Resolve.followReference
  rw [names]
  exact follow present

/-- A definition that has its entry asks for the same name again, and finds that the name is its own. -/
theorem enter {names : Candidates} {definition : Value} {name : String} {asked : Registry}
    {body : String → Resolving Schema} (keys : definition.hasDistinctKeys = true) (grows : Extends asked registry)
    (first : names.First (fun name => ¬ HeldByOther components asked definition name) name)
    (entry : EntryFor components registry definition name) :
    Settled components registry (Resolve.enter components (Resolve.follow components) names definition body)
      (.reference name) := by
  intro last further registered
  have still : EntryFor components last definition name := entry.mono further.keeps
  have same : names.choose components last definition = name := by
    obtain ⟨position, here, -, earlier⟩ := first
    refine (registered.first (names.choose_first components last definition)).unique
      ⟨position, here, still.not_heldByOther keys, fun before less free => ?_⟩
    exact earlier before less fun held => free (held.later (grows.trans further))
  have free := names.holder_choose components last definition
  have holds := holds_holder components last definition name
  rw [same] at free
  refine .get_bind ?_
  rw [same]
  dsimp only
  generalize holder components last definition name = who at free holds ⊢
  cases who with
  | itself => exact .pure ⟨rfl, rfl⟩
  | component => exact follow (further.keeps.present name entry.present) last (.refl last) registered
  | nobody =>
    cases holds with
    | nobody _ _ absent => exact absurd still.present absent
  | other => exact absurd rfl free

end Settled

private theorem hoisted_settles (declared : ∀ entry ∈ components.entries, DistinctKeys entry.2) {draft : Draft}
    {shape : Shape} (reads : Reads draft.schema shape) (hoisted : Hoisted draft) (keys : DistinctKeys draft.schema)
    (registered : Registered components before) (names : Candidates)
    (settled : ∀ after name, Extends before after →
      names.First (fun name => ¬ HeldByOther components before draft.schema.toValue name) name →
      EntryFor components after draft.schema.toValue name →
      Settled components after (usage components (follow components) shape names) (.reference name)) :
    Run (usage components (follow components) shape names) before
      (fun schema after => Settled components after (usage components (follow components) shape names) schema)
      fun _ _ => True := by
  refine (usage_resolved reads names before).mono ?_ fun _ _ _ => trivial
  rintro schema after ⟨answers, resolved⟩
  obtain ⟨answer, member, definition, rfl, rfl, rfl⟩ := resolved.answers_hoisted hoisted
  have named := (resolved.named declared keys registered).2 answer member
  rw [← definition] at settled
  exact settled after answer.name resolved.extends named.first named.entry

theorem usage_settles (declared : ∀ entry ∈ components.entries, DistinctKeys entry.2) {node : SchemaNode} {shape : Shape}
    (reads : Reads node shape) (keys : DistinctKeys node) (registered : Registered components before)
    (names : Candidates) :
    Run (usage components (follow components) shape names) before
      (fun schema after => Settled components after (usage components (follow components) shape names) schema)
      fun _ _ => True := by
  induction reads generalizing names with
  | @reference target =>
    simp only [usage]
    refine (reference_resolved target.location before).mono ?_ fun _ _ _ => trivial
    rintro schema after ⟨answers, resolved⟩
    cases resolved with
    | followed names component =>
      obtain ⟨rfl, present⟩ := component.component_present
      exact .followReference names present
  | enumeration literal =>
    refine hoisted_settles declared (.enumeration literal) (Or.inl ⟨_, literal⟩) keys registered names ?_
    intro after name grows first entry
    rw [usage]
    exact .enter keys grows first entry
  | object object fields =>
    refine hoisted_settles declared (.object object fields) (Or.inr object) keys registered names ?_
    intro after name grows first entry
    rw [usage]
    exact .enter keys grows first entry
  | member wraps _ ih =>
    have listed : _ ∈ _ := wraps.single ▸ List.mem_singleton.mpr rfl
    simp only [usage]
    exact ih ((Inside.member listed).distinctKeys keys) names
  | array _ _ items _ ih =>
    simp only [usage]
    exact .map ((ih ((Inside.items items).distinctKeys keys) _).mono (fun _ _ settled => settled.map) fun _ _ _ => trivial)
  | map _ _ values _ ih =>
    simp only [usage]
    exact .map ((ih ((Inside.values values).distinctKeys keys) _).mono (fun _ _ settled => settled.map) fun _ _ _ => trivial)
  | combined | anyArray | free | scalar | unsupported =>
    simp only [usage]
    exact .pure .pure

namespace Call

/-- A call of a resolver that owns nothing is answered for good, also if the resolver owns nothing later on. -/
theorem run_settles (declared : ∀ entry ∈ components.entries, DistinctKeys entry.2) {call : Call}
    (keys : DistinctKeys call.node) (registered : Registered components before) {schema : Schema}
    (ended : (call.run components).run.run before = (.ok schema, after)) :
    Settled components after (call.run components) schema := by
  have owners : after.owners = before.owners := (run_extends ended).owners
  cases call with
  | inContext node context =>
    intro last grows lastRegistered
    refine .get_bind ?_
    rw [grows.owners.trans owners]
    have used := usage_settles declared (reads_ofNode node) keys registered (propertyNames before.owners.head? context)
    exact used.of_ok ended last grows lastRegistered
  | owned node context owners =>
    exact (usage_settles declared (reads_ofNode node) keys registered _).of_ok ended
  | reference location =>
    have followed := usage_settles declared (@Reads.reference ⟨location, "", ""⟩) keys registered ⟨"", []⟩
    simp only [usage] at followed
    exact followed.of_ok ended

end Call

variable {done : List (Call × Outcome)}

theorem Session.registered (session : Session components done registry)
    (declared : ∀ entry ∈ components.entries, DistinctKeys entry.2)
    (asked : ∀ step ∈ done, DistinctKeys step.1.node) : Registered components registry := by
  obtain ⟨answers, journal⟩ := session.exists_journal
  exact (journal.named declared asked).1

theorem Session.settles (session : Session components done registry)
    (declared : ∀ entry ∈ components.entries, DistinctKeys entry.2)
    (asked : ∀ step ∈ done, DistinctKeys step.1.node) {call : Call} {schema : Schema}
    (answered : (call, .ok schema) ∈ done) : Settled components registry (call.run components) schema := by
  induction session with
  | start => cases answered
  | @call done last result before after earlier ended ih =>
    have askedBefore : ∀ step ∈ done, DistinctKeys step.1.node :=
      fun step member => asked step (List.mem_append_left _ member)
    rcases List.mem_append.mp answered with old | new
    · exact (ih askedBefore old).later (Call.run_extends ended)
    · cases List.mem_singleton.mp new
      exact call.run_settles declared (asked (call, .ok schema) answered) (earlier.registered declared askedBefore) ended

/-- Resolving is stable. A call that has succeeded anywhere in a session, repeated at its end, gives its answer again
and leaves the schemas, the recorded definitions and the owners as they are, whatever other calls have been made in
between, with success or without. No definition has a key twice, as none has that is read from a text
(`parse_distinctKeys`). -/
theorem session_stable (session : Session components done registry)
    (declared : ∀ entry ∈ components.entries, DistinctKeys entry.2)
    (asked : ∀ step ∈ done, DistinctKeys step.1.node) {call : Call} {schema : Schema}
    (answered : (call, .ok schema) ∈ done) : (call.run components).run.run registry = (.ok schema, registry) := by
  have settled := session.settles declared asked answered
  exact settled.run_eq (session.registered declared asked)

/-- Another body, which has a list of kinds and asks for a schema that is declared nowhere. -/
def orderCall : Call :=
  .inContext (objectSchema [
    ("kinds", .inline ⟨some (.one "array"), none, none, [], false, none⟩ (some (kindSchema ["c"])) [] none [] [] []),
    ("ranger", .ref ⟨"#/components/schemas/Ranger", "", ""⟩)]) "body"

theorem orderCall_failed : ((bodyCall.run kindComponents).run.run .empty).1.toBool = true ∧
    ((orderCall.run kindComponents).run.run ((bodyCall.run kindComponents).run.run .empty).2).1.toBool = false ∧
    ((orderCall.run kindComponents).run.run ((bodyCall.run kindComponents).run.run .empty).2).2.schemas.keys =
      ["Body", "BodyKind", "Body2", "KindsItem"] := by
  decide +kernel

/-- The second call takes the next free name for its body, and fails after that; the first one still has its own. -/
theorem bodyCall_stable : ∃ schema fault registry,
    Session kindComponents [(bodyCall, .ok schema), (orderCall, .error fault)] registry ∧
      registry.schemas.keys = ["Body", "BodyKind", "Body2", "KindsItem"] ∧
      (bodyCall.run kindComponents).run.run registry = (.ok schema, registry) := by
  obtain ⟨answered, failed, keys⟩ := orderCall_failed
  rcases first : (bodyCall.run kindComponents).run.run .empty with ⟨fault | schema, middle⟩
  · rw [first] at answered
    cases answered
  rw [first] at failed keys
  rcases second : (orderCall.run kindComponents).run.run middle with ⟨fault | other, registry⟩
  · rw [second] at keys
    have session : Session kindComponents [(bodyCall, .ok schema), (orderCall, .error fault)] registry :=
      .call (.call .start first) second
    have declared : ∀ entry ∈ kindComponents.entries, DistinctKeys entry.2 := by
      intro entry member
      cases List.mem_singleton.mp member
      decide +kernel
    have asked : ∀ step ∈ [(bodyCall, (.ok schema : Outcome)), (orderCall, .error fault)], DistinctKeys step.1.node := by
      rw [List.forall_mem_cons, List.forall_mem_singleton]
      change DistinctKeys bodyCall.node ∧ DistinctKeys orderCall.node
      decide +kernel
    exact ⟨schema, fault, registry, session, keys, session_stable session declared asked (List.mem_cons_self ..)⟩
  · rw [second] at failed
    cases failed

end ClientForge.Resolve
