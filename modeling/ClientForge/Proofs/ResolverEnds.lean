import ClientForge.Proofs.ResolverRules
import ClientForge.Proofs.ResolverSessions

/-! Every run of the resolver follows the rules. What stands inside a schema is shorter than the schema, and a
component takes its place before it is followed: so there are fewer components left each time, and no bound on
how many are resolved inside one another is ever felt. -/

namespace ClientForge.Resolve
open Api Document

variable {components : Table String SchemaNode} {before after : Registry} {budget : Nat}

variable (components) in
def pending (registry : Registry) : Nat := Plan.unseen components registry.schemas.keys

private theorem unseen_antitone {seen more : List String} (included : ∀ name ∈ seen, name ∈ more) :
    Plan.unseen components more ≤ Plan.unseen components seen := by
  unfold Plan.unseen
  rw [← List.countP_eq_length_filter, ← List.countP_eq_length_filter]
  apply List.countP_mono_left
  intro name _ fresh
  simp only [Bool.not_eq_true', List.contains_eq_mem, decide_eq_false_iff_not] at fresh ⊢
  exact fun member => fresh (included name member)

theorem pending_le_size (registry : Registry) : pending components registry ≤ components.size := by
  have counted := List.length_filter_le (fun name => !registry.schemas.keys.contains name) components.keys
  simpa [pending, Plan.unseen, Table.keys, Table.size] using counted

theorem Extends.pending_le (grows : Extends before after) : pending components after ≤ pending components before :=
  unseen_antitone fun _ present => grows.keeps.present _ present

private theorem pending_write_lt {name : String} {node : SchemaNode} (schema : Schema)
    (absent : name ∉ before.schemas.keys) (declared : components.get? name = some node) :
    pending components (before.write name schema) < pending components before := by
  have included : ∀ other ∈ name :: before.schemas.keys, other ∈ (before.write name schema).schemas.keys :=
    fun other member => Table.mem_keys_insert.mpr (List.mem_cons.mp member)
  have unlisted : before.schemas.keys.contains name = false := by simpa using absent
  exact Nat.lt_of_le_of_lt (unseen_antitone included) (Plan.unseen_lt declared unlisted)

variable (components) in
/-- While few enough components are left, the program does the work. -/
def Ends (budget : Nat) (work : Work) (program : Resolving α) (result : α → Schema) : Prop :=
  ∀ before, pending components before ≤ budget →
    Run program before (fun value after => ∃ answers, Resolved components work before answers (.ok (result value)) after)
      fun fault after => ∃ answers, Resolved components work before answers (.error fault) after

/-- Where a rule calls for one piece of work, the rule takes every end of that work to its own. -/
private theorem Ends.relay {work outer : Work} {program : Resolving α} {result : α → Schema} {start : Registry}
    {more : List Answer → Outcome → List Answer} {finish : Outcome → Outcome} {land : Registry → Outcome → Registry}
    (ends : Ends components budget work program result) (few : pending components start ≤ budget)
    (rule : ∀ {answers outcome after}, Resolved components work start answers outcome after →
      Resolved components outer before (more answers outcome) (finish outcome) (land after outcome)) :
    Run program start
      (fun value after => ∃ answers, Resolved components outer before answers (finish (.ok (result value)))
        (land after (.ok (result value))))
      fun fault after => ∃ answers, Resolved components outer before answers (finish (.error fault))
        (land after (.error fault)) := by
  apply (ends start few).mono
  · rintro value after ⟨answers, resolved⟩
    exact ⟨_, rule resolved⟩
  · rintro fault after ⟨answers, resolved⟩
    exact ⟨_, rule resolved⟩

variable {follow : String → Resolving Schema}

private theorem followReference_ends (follows : ∀ name, Ends components budget (.component name) (follow name) id)
    (location : String) : Ends components budget (.location location) (followReference follow location) id := by
  intro before few
  unfold followReference
  split
  next name names => exact ((follows name).relay few (Resolved.followed names) :)
  next outside => exact .throw ⟨_, .external outside⟩

private theorem enter_ends (follows : ∀ name, Ends components budget (.component name) (follow name) id)
    {draft : Draft} (hoisted : Hoisted draft) {body : String → Resolving Schema}
    (ends : ∀ name, Ends components budget (.entry name draft.schema) (body name) id) (names : Candidates) :
    Ends components budget (.usage draft.schema names)
      (enter components follow names draft.schema.toValue body) id := by
  intro before few
  refine .get_bind ?_
  have first := names.choose_first components before draft.schema.toValue
  have free := names.holder_choose components before draft.schema.toValue
  have holds := holds_holder components before draft.schema.toValue
    (names.choose components before draft.schema.toValue)
  generalize names.choose components before draft.schema.toValue = name at first free holds ⊢
  dsimp only
  generalize holder components before draft.schema.toValue name = who at free holds ⊢
  cases who with
  | itself => exact .pure ⟨_, .again hoisted first holds⟩
  | component => exact ((follows name).relay few (Resolved.equalComponent hoisted first holds) :)
  | nobody =>
    refine .modify_bind (.fill ?_)
    have fewer : pending components ((before.record name draft.schema.toValue).write name .unknown) ≤ budget := by
      cases holds with
      | nobody unrecorded _ absent =>
        have grows : Extends before ((before.record name draft.schema.toValue).write name .unknown) :=
          (Extends.record unrecorded).trans (.write absent)
        exact Nat.le_trans grows.pending_le few
    exact ((ends name).relay fewer (Resolved.new hoisted first holds) :)
  | other => exact absurd rfl free

private theorem properties_ends {required : List String} {declared : List (String × SchemaNode)}
    (ends : ∀ entry ∈ declared, ∀ names, Ends components budget (.usage entry.2 names)
      (usage components follow (Shape.ofNode entry.2) names) id) :
    Ends components budget (.properties required declared)
      (properties components follow (fieldsOf required declared)) .object := by
  induction declared with
  | nil =>
    intro before few
    rw [fieldsOf, properties]
    exact .pure ⟨_, .noProperties⟩
  | cons entry declared ih =>
    intro before few
    obtain ⟨name, node⟩ := entry
    rw [fieldsOf, properties]
    have begun := ends (name, node) (List.mem_cons_self ..) (propertyNames before.owners.head? name) before few
    refine .get_bind (.bind (begun.mono (fun _ _ held => held) ?_) ?_)
    · rintro fault after ⟨_, broken⟩
      exact ⟨_, .brokenProperty broken⟩
    · rintro schema middle ⟨_, resolved⟩
      have fewer : pending components middle ≤ budget := Nat.le_trans resolved.extends.pending_le few
      have later := ih (fun other member => ends other (List.mem_cons_of_mem _ member)) middle fewer
      refine .bind (later.mono (fun _ _ held => held) ?_) ?_
      · rintro fault after ⟨_, broken⟩
        exact ⟨_, .laterProperty resolved broken⟩
      · rintro fields after ⟨_, others⟩
        exact .pure ⟨_, .property resolved others⟩

private theorem usage_ends (follows : ∀ name, Ends components budget (.component name) (follow name) id)
    {node : SchemaNode} {shape : Shape} (reads : Reads node shape) (names : Candidates) :
    Ends components budget (.usage node names) (usage components follow shape names) id := by
  induction reads generalizing names with
  | @reference target =>
    rw [usage]
    intro before few
    exact ((followReference_ends follows target.location).relay few Resolved.reference :)
  | enumeration literal =>
    rw [usage]
    refine enter_ends follows (Or.inl ⟨_, literal⟩) (fun name before few => ?_) names
    exact .within (.pure ⟨_, .enumerationEntry literal⟩)
  | object object _ fields =>
    rw [usage]
    refine enter_ends follows (Or.inr object) (fun name before few => .within (.map ?_)) names
    have owned : pending components (before.enterOwner name) ≤ budget := few
    exact ((properties_ends fields).relay owned (Resolved.objectEntry object) :)
  | member wraps _ inner =>
    rw [usage]
    intro before few
    exact ((inner names).relay few (Resolved.member wraps) :)
  | combined combined =>
    rw [usage]
    exact fun _ _ => .pure ⟨_, .combined combined⟩
  | array plain type items _ inner =>
    rw [usage]
    intro before few
    exact .map ((inner _).relay few (Resolved.array plain type items) :)
  | anyArray plain type items =>
    rw [usage]
    exact fun _ _ => .pure ⟨_, .anyArray plain type items⟩
  | map plain type values _ inner =>
    rw [usage]
    intro before few
    exact .map ((inner _).relay few (Resolved.map plain type values) :)
  | free plain type values =>
    rw [usage]
    exact fun _ _ => .pure ⟨_, .free plain type values⟩
  | scalar plain type known =>
    rw [usage]
    exact fun _ _ => .pure ⟨_, .scalar plain type known⟩
  | unsupported plain type other unknown =>
    rw [usage]
    exact fun _ _ => .pure ⟨_, .unsupported plain type other unknown⟩

private theorem entry_ends (follows : ∀ name, Ends components budget (.component name) (follow name) id)
    {node : SchemaNode} {shape : Shape} (reads : Reads node shape) (name : String) :
    Ends components budget (.entry name node) (entry components follow name shape) id := by
  have used {draft : Draft} {shape : Shape} (reads : Reads draft.schema shape) (inPlace : ¬ Hoisted draft) :
      Ends components budget (.entry name draft.schema) (within name (usage components follow shape ⟨name, []⟩)) id := by
    intro before few
    have owned : pending components (before.enterOwner name) ≤ budget := few
    exact .within ((usage_ends follows reads _).relay owned (Resolved.usageEntry inPlace) :)
  cases reads with
  | @reference target =>
    intro before few
    exact ((followReference_ends follows target.location).relay few Resolved.aliasEntry :)
  | enumeration literal => exact fun _ _ => .within (.pure ⟨_, .enumerationEntry literal⟩)
  | object object fields =>
    intro before few
    have owned : pending components (before.enterOwner name) ≤ budget := few
    refine .within (.map ((properties_ends ?_).relay owned (Resolved.objectEntry object) :))
    intro entry member names
    exact usage_ends follows (fields entry member) names
  | member wraps inner => exact used (.member wraps inner) wraps.inPlace
  | combined combined => exact used (.combined combined) combined.inPlace
  | array plain type items inner => exact used (.array plain type items inner) plain.inPlace
  | anyArray plain type items => exact used (.anyArray plain type items) plain.inPlace
  | map plain type values inner => exact used (.map plain type values inner) plain.inPlace
  | free plain type values => exact used (.free plain type values) plain.inPlace
  | scalar plain type known => exact used (.scalar plain type known) plain.inPlace
  | unsupported plain type other unknown => exact used (.unsupported plain type other unknown) plain.inPlace

private theorem followWithin_endsStep
    (inner : ∀ smaller, budget = smaller + 1 → ∀ name,
      Ends components smaller (.component name) (followWithin components smaller name) id) (name : String) :
    Ends components budget (.component name) (followWithin components budget name) id := by
  intro before few
  rw [followWithin.eq_def]
  refine .get_bind ?_
  by_cases present : name ∈ before.schemas.keys
  · rw [if_pos (Table.contains_iff.mpr present)]
    exact .pure ⟨_, .known present⟩
  · rw [if_neg (mt Table.contains_iff.mp present)]
    split
    next node smaller declared =>
      have fewer := pending_write_lt .unknown present declared
      have left : pending components (before.write name .unknown) ≤ smaller := by omega
      have entry := entry_ends (inner smaller rfl) (reads_ofNode node) name
      exact .fill (entry.relay left (Resolved.declared present declared) :)
    next none =>
      -- A component without an entry is one that is left, so that the budget is not used up.
      have undeclared : name ∉ components.keys := by
        intro declared
        obtain ⟨node, declared⟩ := Table.mem_keys.mp declared
        have fewer := pending_write_lt .unknown present declared
        have positive := Nat.lt_of_lt_of_le (Nat.zero_lt_of_lt fewer) few
        obtain ⟨smaller, same⟩ := Nat.exists_eq_succ_of_ne_zero (Nat.ne_of_gt positive)
        exact none node smaller declared same
      exact .throw ⟨_, .undeclared present undeclared⟩

private theorem followWithin_ends (budget : Nat) (name : String) :
    Ends components budget (.component name) (followWithin components budget name) id := by
  induction budget generalizing name with
  | zero => exact followWithin_endsStep (fun smaller same => by cases same) name
  | succ budget ih => exact followWithin_endsStep (fun smaller same => by cases same; exact ih) name

theorem usage_resolved {node : SchemaNode} {shape : Shape} (reads : Reads node shape) (names : Candidates)
    (before : Registry) :
    Run (usage components (Resolve.follow components) shape names) before
      (fun schema after => ∃ answers, Resolved components (.usage node names) before answers (.ok schema) after)
      fun fault after => ∃ answers, Resolved components (.usage node names) before answers (.error fault) after :=
  usage_ends (followWithin_ends components.size) reads names before (pending_le_size before)

theorem reference_resolved (location : String) (before : Registry) :
    Run (followReference (Resolve.follow components) location) before
      (fun schema after => ∃ answers, Resolved components (.location location) before answers (.ok schema) after)
      fun fault after => ∃ answers, Resolved components (.location location) before answers (.error fault) after :=
  followReference_ends (followWithin_ends components.size) location before (pending_le_size before)

namespace Call

def work (owner : Option String) : Call → Work
  | .inContext node context => .usage node (propertyNames owner context)
  | .owned node context owners => .usage node (ownedNames owners context)
  | .reference location => .location location

theorem run_resolved (components : Table String SchemaNode) (call : Call) (before : Registry) :
    ∃ answers, Resolved components (call.work before.owners.head?) before answers
      ((call.run components).run.run before).1 ((call.run components).run.run before).2 := by
  have run : Run (call.run components) before
      (fun schema after => ∃ answers, Resolved components (call.work before.owners.head?) before answers (.ok schema) after)
      fun fault after => ∃ answers,
        Resolved components (call.work before.owners.head?) before answers (.error fault) after := by
    cases call with
    | inContext node context => exact .get_bind (usage_resolved (reads_ofNode node) _ before)
    | owned node context owners => exact usage_resolved (reads_ofNode node) _ before
    | reference location => exact reference_resolved location before
  rcases ended : (call.run components).run.run before with ⟨fault | schema, after⟩
  · exact run.of_error ended
  · exact run.of_ok ended

theorem run_extends {call : Call} {result : Outcome} (ended : (call.run components).run.run before = (result, after)) :
    Extends before after := by
  obtain ⟨answers, resolved⟩ := call.run_resolved components before
  rw [ended] at resolved
  exact resolved.extends

end Call

variable {done : List (Call × Outcome)} {answers : List Answer} {registry : Registry}

/-- The names that inline definitions get in a session, in the order in which their answers are given. -/
inductive Journal (components : Table String SchemaNode) : List (Call × Outcome) → List Answer → Registry → Prop where
  | start : Journal components [] [] .empty
  | call {done : List (Call × Outcome)} {answers later : List Answer} {call : Call} {result : Outcome}
      {before after : Registry} (earlier : Journal components done answers before)
      (resolved : Resolved components (call.work before.owners.head?) before later result after) :
      Journal components (done ++ [(call, result)]) (answers ++ later) after

theorem Session.exists_journal (session : Session components done registry) :
    ∃ answers, Journal components done answers registry := by
  induction session with
  | start => exact ⟨[], .start⟩
  | @call _ call _ before _ _ ended ih =>
    obtain ⟨answers, earlier⟩ := ih
    obtain ⟨later, resolved⟩ := call.run_resolved components before
    rw [ended] at resolved
    exact ⟨answers ++ later, .call earlier resolved⟩

end ClientForge.Resolve
