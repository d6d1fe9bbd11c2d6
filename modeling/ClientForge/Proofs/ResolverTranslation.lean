import ClientForge.Proofs.NameChoice
import ClientForge.Proofs.ResolverGrowth

/-! Resolving translates. By induction on how a schema reads, what a use of it resolves to is its translation
in the registry that resolving ends with. A component is followed to its entry, which need not be filled yet:
the induction over components is on how many of them may still be resolved inside one another. -/

namespace ClientForge.Resolve
open Api Document

variable {components : Table String SchemaNode} {follow : String → Resolving Schema}

def Follows (components : Table String SchemaNode) (follow : String → Resolving Schema) : Prop :=
  ∀ name, Resolves components (follow name) fun schema after =>
    schema = .reference name ∧ name ∈ after.schemas.keys

theorem followReference_resolves (follows : Follows components follow) (location : String) :
    Resolves components (followReference follow location) fun schema after =>
      ∃ name, componentName? location "schemas" = some name ∧
        schema = .reference name ∧ name ∈ after.schemas.keys := by
  unfold followReference
  split
  next name component => exact (follows name).mono fun schema after holds => ⟨name, component, holds⟩
  next => exact .throw

private theorem enter_resolves (follows : Follows components follow) {draft : Draft} (hoisted : Hoisted draft)
    {body : String → Resolving Schema}
    (resolves : ∀ name, Resolves components (body name) fun schema after => EntryOf components after draft.schema schema)
    (names : Candidates) :
    Resolves components (enter components follow names draft.schema.toValue body) fun schema after =>
      UsageOf components after draft.schema schema := by
  intro before coherent
  refine .get_bind ?_
  generalize chosen : names.choose components before draft.schema.toValue = name
  have free := names.holder_choose components before draft.schema.toValue
  have holds := holds_holder components before draft.schema.toValue name
  rw [chosen] at free
  dsimp only
  generalize holder components before draft.schema.toValue name = who at free holds ⊢
  cases holds with
  | @itself own origin same =>
    have recorded : name ∈ before.origins.keys := Table.mem_keys.mpr ⟨own, origin⟩
    have undeclared : components.get? name = none := Table.get?_eq_none.mpr (coherent.apart name recorded)
    refine .pure ⟨.refl coherent, .hoisted hoisted ⟨coherent.recorded name recorded, own, ?_, Or.inr same⟩⟩
    simpa only [definitionAt, undeclared] using origin
  | @component node own unrecorded declared written same =>
    refine ((follows name).mono ?_) before coherent
    rintro schema after ⟨rfl, present⟩
    refine .hoisted hoisted ⟨present, own, ?_, Or.inr same⟩
    simpa only [definitionAt, declared] using written
  | nobody unrecorded undeclared absent =>
    let recorded := before.record name draft.schema.toValue
    have origin : recorded.origins.get? name = some draft.schema.toValue := by
      simp only [recorded, Registry.record, Table.get?_insert, if_pos]
    have begins : Extends before recorded := .record unrecorded
    have fresh : name ∉ recorded.schemas.keys := absent
    have opened : Coherent components (recorded.write name .unknown) := coherent.record undeclared
    have declares : Declares components recorded name draft.schema := .recorded undeclared origin
    refine .modify_bind ((fill_run fresh opened declares (resolves name)).mono ?_ ?_)
    · rintro schema after ⟨grown, rfl, present⟩
      refine ⟨⟨begins.trans grown.toExtends, grown.coherent, grown.faithful⟩, .hoisted hoisted ⟨present, _, ?_, Or.inl rfl⟩⟩
      have none : components.get? name = none := Table.get?_eq_none.mpr undeclared
      simpa only [definitionAt, none] using Table.get?_of_prefix grown.origins origin
    · rintro fault after ⟨grows, coherentAfter⟩
      exact ⟨begins.trans grows, coherentAfter⟩
  | recorded | declared | resolved => exact absurd rfl free

private theorem usageOf_lasting (node : SchemaNode) (schema : Schema) :
    Lasting fun registry => UsageOf components registry node schema :=
  fun _ _ keeps usage => usage.mono keeps

theorem nullable_iff (node : SchemaNode) : (aboutNode node).1 = true ↔ AdmitsNull node := by
  cases node with
  | ref target => simp [aboutNode, AdmitsNull]
  | inline keywords =>
    cases type : keywords.type <;>
      simp [aboutNode, AdmitsNull, isNullable, type, TypeKeyword.allowsNull]

private theorem description_eq (node : SchemaNode) : (aboutNode node).2 = inlineDescription node := by
  cases node <;> rfl

private theorem properties_resolves {required : List String} {declared : List (String × SchemaNode)}
    (resolves : ∀ entry ∈ declared, ∀ names, Resolves components
      (usage components follow (Shape.ofNode entry.2) names)
      fun schema after => UsageOf components after entry.2 schema) :
    Resolves components (properties components follow (fieldsOf required declared)) fun fields after =>
      List.Forall₂ (FieldOf components after required) declared fields := by
  induction declared with
  | nil =>
    rw [fieldsOf, properties]
    exact .pure fun _ => .nil
  | cons entry declared ih =>
    obtain ⟨name, node⟩ := entry
    rw [fieldsOf, properties]
    refine .get_bind fun registry => ?_
    refine .bind (resolves _ (List.mem_cons_self ..) _) (usageOf_lasting node) fun schema => ?_
    refine .bind (ih fun other member => resolves other (List.mem_cons_of_mem _ member)) ?_ fun others => ?_
    · exact fun fields before after keeps each => each.imp fun _ _ field => field.mono keeps
    · refine .pure fun registry each usage => .cons ⟨rfl, usage, ?_, nullable_iff node, description_eq node⟩ each
      simp

/-- What a use of a schema resolves to is its translation. -/
theorem usage_resolves (follows : Follows components follow) {node : SchemaNode} {shape : Shape}
    (reads : Reads node shape) (names : Candidates) :
    Resolves components (usage components follow shape names) fun schema after =>
      UsageOf components after node schema := by
  induction reads generalizing names with
  | @reference target =>
    rw [usage]
    refine (followReference_resolves follows target.location).mono ?_
    rintro schema after ⟨name, component, rfl, present⟩
    exact .reference component present
  | enumeration literal =>
    rw [usage]
    refine enter_resolves follows (Or.inl ⟨_, literal⟩) (fun name => ?_) names
    exact .within (.pure fun _ => .enumeration literal) fun _ _ _ keeps entry => entry.mono keeps
  | object object _ fields =>
    rw [usage]
    refine enter_resolves follows (Or.inr object) (fun name => ?_) names
    refine .within (.map ?_) fun _ _ _ keeps entry => entry.mono keeps
    exact (properties_resolves fields).mono fun _ _ each => .object object each
  | member wraps _ inner =>
    rw [usage]
    exact (inner names).mono fun _ _ usage => .member wraps usage
  | combined combined =>
    rw [usage]
    exact .pure fun _ => .combined combined
  | array plain type items _ inner =>
    rw [usage]
    exact .map ((inner _).mono fun _ _ usage => .array plain type items usage)
  | anyArray plain type items =>
    rw [usage]
    exact .pure fun _ => .anyArray plain type items
  | map plain type values _ inner =>
    rw [usage]
    exact .map ((inner _).mono fun _ _ usage => .map plain type values usage)
  | free plain type values =>
    rw [usage]
    exact .pure fun _ => .free plain type values
  | scalar plain type known =>
    rw [usage]
    exact .pure fun _ => .scalar plain type known
  | unsupported plain type other unknown =>
    rw [usage]
    exact .pure fun _ => .unsupported plain type other unknown

private theorem entry_resolves (follows : Follows components follow) {node : SchemaNode} {shape : Shape}
    (reads : Reads node shape) (name : String) :
    Resolves components (entry components follow name shape) fun schema after =>
      EntryOf components after node schema := by
  have lasting (node : SchemaNode) (schema : Schema) :
      Lasting fun registry => EntryOf components registry node schema := fun _ _ keeps entry => entry.mono keeps
  have used {draft : Draft} {shape : Shape} (reads : Reads draft.schema shape) (inPlace : ¬ Hoisted draft) :
      Resolves components (within name (usage components follow shape ⟨name, []⟩)) fun schema after =>
        EntryOf components after draft.schema schema :=
    .within ((usage_resolves follows reads _).mono fun _ _ usage => .usage inPlace usage) (lasting _)
  cases reads with
  | @reference target =>
    refine (followReference_resolves follows target.location).mono ?_
    rintro schema after ⟨name, component, rfl, present⟩
    exact .reference component present
  | enumeration literal => exact .within (.pure fun _ => .enumeration literal) (lasting _)
  | object object fields =>
    refine .within (.map ?_) (lasting _)
    refine (properties_resolves ?_).mono fun _ _ each => .object object each
    exact fun entry member names => usage_resolves follows (fields entry member) names
  | member wraps inner => exact used (.member wraps inner) wraps.inPlace
  | combined combined => exact used (.combined combined) combined.inPlace
  | array plain type items inner => exact used (.array plain type items inner) plain.inPlace
  | anyArray plain type items => exact used (.anyArray plain type items) plain.inPlace
  | map plain type values inner => exact used (.map plain type values inner) plain.inPlace
  | free plain type values => exact used (.free plain type values) plain.inPlace
  | scalar plain type known => exact used (.scalar plain type known) plain.inPlace
  | unsupported plain type other unknown => exact used (.unsupported plain type other unknown) plain.inPlace

private theorem followWithin_step {budget : Nat}
    (inner : ∀ smaller, budget = smaller + 1 → Follows components (followWithin components smaller)) :
    Follows components (followWithin components budget) := by
  intro name before coherent
  rw [followWithin.eq_def]
  refine .get_bind ?_
  by_cases present : before.schemas.contains name = true
  · rw [if_pos present]
    exact .pure ⟨.refl coherent, rfl, Table.contains_iff.mp present⟩
  · rw [if_neg present]
    split
    next node smaller declared =>
      have absent : name ∉ before.schemas.keys := fun member => present (Table.contains_iff.mpr member)
      have opened : Coherent components (before.write name .unknown) :=
        coherent.write (Or.inl (Table.mem_keys.mpr ⟨node, declared⟩)) (by simp [Schema.references])
      exact fill_run absent opened (.component declared) (entry_resolves (inner smaller rfl) (reads_ofNode node) name)
    next => exact .throw ⟨.refl before, coherent⟩

private theorem followWithin_follows (budget : Nat) : Follows components (followWithin components budget) := by
  induction budget with
  | zero => exact followWithin_step fun smaller same => by cases same
  | succ budget ih => exact followWithin_step fun smaller same => by cases same; exact ih

theorem follow_follows (components : Table String SchemaNode) : Follows components (Resolve.follow components) :=
  followWithin_follows _

end ClientForge.Resolve
