import ClientForge.Proofs.NameAnswers
import ClientForge.Proofs.NeededReferences

/-! When resolving fails. A fault is always about a reference that is needed and that nothing stands behind. Where
there is no fault every reference that is needed names an entry: each schema that is needed has an equal
twin that has been translated, since a use that is answered with a name again has been followed before under
that name. The name need not be a component's. An inline definition may have got a name that a needed reference
points to without any component being declared under it; the reference is then answered with that definition. -/

namespace ClientForge.Resolve
open Api Document Relation

variable {components : Table String SchemaNode} {registry before after : Registry}

variable (components) in
/-- A fault about a location, when these schemas are there. -/
inductive Blames (schemas : Table String Schema) (location : String) : ReferenceFault → Prop where
  | external (nowhere : ∀ name, ¬ PointsTo location name) : Blames schemas location (.externalSchema location)
  | undefined {name : String} (points : PointsTo location name) (undeclared : name ∉ components.keys)
      (absent : name ∉ schemas.keys) : Blames schemas location (.undefinedSchema name)

theorem PointsTo.unique {location name other : String} (points : PointsTo location name)
    (again : PointsTo location other) : name = other :=
  Option.some.inj ((componentName?_eq_some.mpr points).symm.trans (componentName?_eq_some.mpr again))

theorem Blames.nothing_behind {schemas : Table String Schema} {location name : String} {fault : ReferenceFault}
    (blames : Blames components schemas location fault) (points : PointsTo location name) :
    name ∉ components.keys ∧ name ∉ schemas.keys := by
  cases blames with
  | external nowhere => exact absurd points (nowhere name)
  | undefined same undeclared absent =>
    cases points.unique same
    exact ⟨undeclared, absent⟩

variable (components) in
/-- The fault is about a reference that the schema needs. -/
def BrokenNode (schemas : Table String Schema) (fault : ReferenceFault) (node : SchemaNode) : Prop :=
  ∃ target, Needs components node target ∧ Blames components schemas target.location fault

variable (components) in
def BrokenWork (schemas : Table String Schema) (fault : ReferenceFault) : Work → Prop
  | .location location => ∀ target : Reference, target.location = location →
      BrokenNode components schemas fault (.ref target)
  | .component name =>
    (fault = .undefinedSchema name ∧ name ∉ components.keys ∧ name ∉ schemas.keys) ∨
      ∃ node, components.get? name = some node ∧ BrokenNode components schemas fault node
  | .entry _ node | .usage node _ => BrokenNode components schemas fault node
  | .properties _ declared => ∃ entry ∈ declared, BrokenNode components schemas fault entry.2

theorem BrokenNode.head {schemas : Table String Schema} {fault : ReferenceFault} {node inner : SchemaNode}
    (step : Step components node inner) (broken : BrokenNode components schemas fault inner) :
    BrokenNode components schemas fault node := by
  obtain ⟨target, needs, blames⟩ := broken
  exact ⟨target, needs.head step, blames⟩

private theorem map_eq_error {outcome : Outcome} {change : Schema → Schema} {fault : ReferenceFault} :
    outcome.map change = .error fault ↔ outcome = .error fault := by
  cases outcome <;> simp [Except.map]

/-- Work that fails leaves the schemas as they were at the fault. -/
theorem Resolved.broken {work : Work} {answers : List Answer} {outcome : Outcome}
    (resolved : Resolved components work before answers outcome after)
    (declared : ∀ entry ∈ components.entries, DistinctKeys entry.2) {fault : ReferenceFault}
    (failed : outcome = .error fault) : BrokenWork components after.schemas fault work := by
  induction resolved with
  | known | enumerationEntry | again | combined | anyArray | free | scalar | unsupported | noProperties | property =>
    cases failed
  | external outside =>
    cases failed
    rintro target rfl
    have nowhere : ∀ name, ¬ PointsTo target.location name := by
      intro name points
      simp [componentName?_eq_some.mpr points] at outside
    exact ⟨target, .refl, .external nowhere⟩
  | @followed location name _ _ _ _ names _ ih =>
    have points : PointsTo location name := componentName?_eq_some.mp names
    rintro target rfl
    rcases ih failed with ⟨rfl, undeclared, absent⟩ | ⟨node, found, broken⟩
    · exact ⟨target, .refl, .undefined points undeclared absent⟩
    · exact broken.head (.component points found)
  | undeclared absent undeclared =>
    cases failed
    exact Or.inl ⟨rfl, undeclared, absent⟩
  | declared _ found _ ih =>
    cases map_eq_error.mp failed
    exact Or.inr ⟨_, found, ih rfl⟩
  | aliasEntry _ ih | reference _ ih => exact ih failed _ rfl
  | objectEntry object _ ih =>
    obtain ⟨entry, listed, broken⟩ := ih failed
    exact broken.head (.property object listed)
  | usageEntry _ _ ih => exact ih failed
  | equalComponent _ _ holds _ ih =>
    cases holds with
    | @component node own _ found written same =>
      have nodeKeys := declared _ (Table.get?_eq_some.mp found)
      rcases ih failed with ⟨-, undeclared, -⟩ | ⟨other, again, target, needs, blames⟩
      · exact absurd (Table.mem_keys.mpr ⟨node, found⟩) undeclared
      · -- The component is what is followed; the schema needs the same references since it is equal to it.
        cases found.symm.trans again
        rw [← toValue_of_definition written] at same
        obtain ⟨twin, location, needs⟩ := needs.same declared nodeKeys same
        exact ⟨twin, needs, location ▸ blames⟩
  | new _ _ _ _ ih =>
    cases map_eq_error.mp failed
    exact ih rfl
  | member wraps _ ih => exact (ih failed).head (.member wraps)
  | array plain type items _ ih => exact BrokenNode.head (.items plain type items) (ih (map_eq_error.mp failed))
  | map plain type values _ ih => exact BrokenNode.head (.values plain type values) (ih (map_eq_error.mp failed))
  | brokenProperty _ ih => exact ⟨_, List.mem_cons_self .., ih failed⟩
  | laterProperty _ _ _ ih =>
    obtain ⟨entry, listed, broken⟩ := ih failed
    exact ⟨entry, List.mem_cons_of_mem _ listed, broken⟩

private theorem EntryOf.of_object {draft : Draft} {schema : Schema} (object : IsObject draft)
    (entry : EntryOf components registry draft.schema schema) :
    ∃ fields, List.Forall₂ (FieldOf components registry draft.keywords.required) draft.properties fields := by
  generalize same : draft.schema = node at entry
  cases entry with
  | reference => cases same
  | enumeration literal =>
    cases schema_injective same
    exact absurd ⟨_, literal⟩ object.noEnum
  | object _ each =>
    cases schema_injective same
    exact ⟨_, each⟩
  | usage inPlace =>
    cases schema_injective same
    exact absurd (Or.inr object) inPlace

private theorem EntryOf.of_inPlace {draft : Draft} {schema : Schema} (inPlace : ¬ Hoisted draft)
    (entry : EntryOf components registry draft.schema schema) : UsageOf components registry draft.schema schema := by
  generalize same : draft.schema = node at entry
  cases entry with
  | reference => cases same
  | enumeration literal =>
    cases schema_injective same
    exact absurd (Or.inl ⟨_, literal⟩) inPlace
  | object object =>
    cases schema_injective same
    exact absurd (Or.inr object) inPlace
  | usage _ usage => exact usage

private theorem UsageOf.of_wraps {draft : Draft} {node : SchemaNode} {schema : Schema} (wraps : Wraps draft node)
    (usage : UsageOf components registry draft.schema schema) : ∃ inner, UsageOf components registry node inner := by
  generalize same : draft.schema = whole at usage
  cases usage with
  | reference => cases same
  | hoisted hoisted =>
    cases schema_injective same
    exact absurd hoisted wraps.inPlace
  | member other inner =>
    cases schema_injective same
    cases wraps.single.symm.trans other.single
    exact ⟨_, inner⟩
  | combined combined =>
    cases schema_injective same
    exact absurd wraps (combined.noWrapper node)
  | array plain | anyArray plain | map plain | free plain | scalar plain | unsupported plain =>
    cases schema_injective same
    exact absurd (wraps.single.symm.trans plain.allOf) (List.cons_ne_nil _ _)

private theorem UsageOf.of_plain {draft : Draft} {schema : Schema} (plain : Plain draft)
    (usage : UsageOf components registry draft.schema schema) :
    (primary? draft.keywords = some "array" ∧
        ∀ node, draft.items = some node → ∃ inner, UsageOf components registry node inner) ∨
      (ObjectType draft.keywords ∧
        ∀ node, draft.additional = some (.schema node) → ∃ inner, UsageOf components registry node inner) ∨
      ∃ keyword, primary? draft.keywords = some keyword ∧ keyword ≠ "array" ∧ keyword ≠ "object" := by
  generalize same : draft.schema = whole at usage
  cases usage with
  | reference => cases same
  | hoisted hoisted =>
    cases schema_injective same
    exact absurd hoisted plain.inPlace
  | member wraps =>
    cases schema_injective same
    exact absurd (wraps.single.symm.trans plain.allOf) (List.cons_ne_nil _ _)
  | combined combined =>
    cases schema_injective same
    rcases combined.some with allOf | oneOf | anyOf
    · exact absurd plain.allOf allOf
    · exact absurd plain.oneOf oneOf
    · exact absurd plain.anyOf anyOf
  | array _ type items inner =>
    cases schema_injective same
    refine Or.inl ⟨type, fun node listed => ?_⟩
    cases items.symm.trans listed
    exact ⟨_, inner⟩
  | anyArray _ type items =>
    cases schema_injective same
    refine Or.inl ⟨type, fun node listed => ?_⟩
    cases items.symm.trans listed
  | map _ type values inner =>
    cases schema_injective same
    refine Or.inr (Or.inl ⟨type, fun node valued => ?_⟩)
    cases values.symm.trans valued
    exact ⟨_, inner⟩
  | free _ type none =>
    cases schema_injective same
    exact Or.inr (Or.inl ⟨type, fun node valued => absurd valued (none node)⟩)
  | scalar _ type known =>
    cases schema_injective same
    refine Or.inr (Or.inr ⟨_, type, ?_, ?_⟩)
    · rintro rfl
      cases known
    · rintro rfl
      cases known
  | unsupported _ type other =>
    cases schema_injective same
    exact Or.inr (Or.inr ⟨_, type, other⟩)

private theorem UsageOf.of_items {draft : Draft} {node : SchemaNode} {schema : Schema} (plain : Plain draft)
    (array : primary? draft.keywords = some "array") (listed : draft.items = some node)
    (usage : UsageOf components registry draft.schema schema) : ∃ inner, UsageOf components registry node inner := by
  rcases UsageOf.of_plain plain usage with ⟨-, inside⟩ | ⟨object, -⟩ | ⟨keyword, type, noArray, -⟩
  · exact inside node listed
  · simp [ObjectType, array] at object
  · exact absurd (Option.some.inj (type.symm.trans array)) noArray

private theorem UsageOf.of_values {draft : Draft} {node : SchemaNode} {schema : Schema} (plain : Plain draft)
    (object : ObjectType draft.keywords) (valued : draft.additional = some (.schema node))
    (usage : UsageOf components registry draft.schema schema) : ∃ inner, UsageOf components registry node inner := by
  rcases UsageOf.of_plain plain usage with ⟨array, -⟩ | ⟨-, inside⟩ | ⟨keyword, type, -, noObject⟩
  · simp [ObjectType, array] at object
  · exact inside node valued
  · simp [ObjectType, type, noObject] at object

variable (components) in
/-- A registry in which every name has its definition, and every entry has been translated. -/
structure Complete (registry : Registry) : Prop where
  declared : ∀ entry ∈ components.entries, DistinctKeys entry.2
  registered : Registered components registry
  faithful : ∀ entry ∈ registry.schemas.entries, Faithful components registry entry

variable (components registry) in
/-- An equal schema has been translated. -/
def Covered (node : SchemaNode) : Prop :=
  ∃ twin, SameSchema node twin ∧ ∃ schema, EntryOf components registry twin schema

private theorem covered_of_usage (complete : Complete components registry) {node twin : SchemaNode} {schema : Schema}
    (same : SameSchema node twin) (usage : UsageOf components registry twin schema) :
    Covered components registry node := by
  cases usage with
  | reference component present => exact ⟨_, same, _, .reference component present⟩
  | @hoisted draft name _ named =>
    obtain ⟨own, found, sameOwn⟩ := named.same
    obtain ⟨schema, written⟩ := Table.mem_keys.mp named.present
    obtain ⟨holder, declares, entry⟩ := complete.faithful _ (Table.get?_eq_some.mp written)
    have defined : holder.toValue = own := toValue_of_definition (declares.definition_eq.trans found)
    refine ⟨holder, ?_, schema, entry⟩
    rw [SameSchema, defined]
    rcases sameOwn with rfl | sameOwn
    · exact same
    · have keys := complete.registered.definition_distinct complete.declared found
      exact Value.same_trans same (Value.same_symm keys sameOwn)
  | member wraps inner => exact ⟨_, same, _, .usage wraps.inPlace (.member wraps inner)⟩
  | combined combined => exact ⟨_, same, _, .usage combined.inPlace (.combined combined)⟩
  | array plain type items inner => exact ⟨_, same, _, .usage plain.inPlace (.array plain type items inner)⟩
  | anyArray plain type items => exact ⟨_, same, _, .usage plain.inPlace (.anyArray plain type items)⟩
  | map plain type values inner => exact ⟨_, same, _, .usage plain.inPlace (.map plain type values inner)⟩
  | free plain type values => exact ⟨_, same, _, .usage plain.inPlace (.free plain type values)⟩
  | scalar plain type known => exact ⟨_, same, _, .usage plain.inPlace (.scalar plain type known)⟩
  | unsupported plain type other unknown =>
    exact ⟨_, same, _, .usage plain.inPlace (.unsupported plain type other unknown)⟩

private theorem entry_reference {target : Reference} {schema : Schema}
    (entry : EntryOf components registry (.ref target) schema) :
    ∃ name, PointsTo target.location name ∧ name ∈ registry.schemas.keys := by
  generalize same : SchemaNode.ref target = node at entry
  cases entry with
  | reference component present =>
    cases same
    exact ⟨_, componentName?_eq_some.mp component, present⟩
  | enumeration | object | usage => cases same

private theorem exists_usage {declared : List (String × SchemaNode)} {required : List String}
    {fields : List (String × Property Schema)}
    (each : List.Forall₂ (FieldOf components registry required) declared fields) {entry : String × SchemaNode}
    (listed : entry ∈ declared) : ∃ schema, UsageOf components registry entry.2 schema := by
  induction each with
  | nil => cases listed
  | cons field _ ih =>
    rcases List.mem_cons.mp listed with rfl | later
    · exact ⟨_, field.schema⟩
    · exact ih later

private theorem covered_step (complete : Complete components registry) {node inner : SchemaNode}
    (keys : DistinctKeys node) (covered : Covered components registry node) (step : Step components node inner) :
    Covered components registry inner := by
  obtain ⟨twin, same, schema, entry⟩ := covered
  obtain ⟨innerTwin, stepTwin, sameInner⟩ := step.same complete.declared keys same
  cases stepTwin with
  | component points found =>
    obtain ⟨other, again, present⟩ := entry_reference entry
    cases points.unique again
    obtain ⟨schema, written⟩ := Table.mem_keys.mp present
    obtain ⟨holder, declares, entry⟩ := complete.faithful _ (Table.get?_eq_some.mp written)
    cases declares with
    | component declared =>
      cases found.symm.trans declared
      exact ⟨_, sameInner, schema, entry⟩
    | recorded undeclared => exact absurd (Table.mem_keys.mpr ⟨_, found⟩) undeclared
  | property object listed =>
    obtain ⟨fields, each⟩ := EntryOf.of_object object entry
    obtain ⟨schema, usage⟩ := exists_usage each listed
    exact covered_of_usage complete sameInner usage
  | member wraps =>
    obtain ⟨schema, usage⟩ := UsageOf.of_wraps wraps (EntryOf.of_inPlace wraps.inPlace entry)
    exact covered_of_usage complete sameInner usage
  | items plain type items =>
    obtain ⟨schema, usage⟩ := UsageOf.of_items plain type items (EntryOf.of_inPlace plain.inPlace entry)
    exact covered_of_usage complete sameInner usage
  | values plain type values =>
    obtain ⟨schema, usage⟩ := UsageOf.of_values plain type values (EntryOf.of_inPlace plain.inPlace entry)
    exact covered_of_usage complete sameInner usage

private theorem covered_needs (complete : Complete components registry) {node : SchemaNode} {target : Reference}
    (keys : DistinctKeys node) (covered : Covered components registry node) (needs : Needs components node target) :
    ∃ name, PointsTo target.location name ∧ name ∈ registry.schemas.keys := by
  have along : ∀ last, ReflTransGen (Step components) node last → DistinctKeys last ∧ Covered components registry last := by
    intro last path
    induction path with
    | refl => exact ⟨keys, covered⟩
    | tail _ step ih => exact ⟨step.distinctKeys complete.declared ih.1, covered_step complete ih.1 ih.2 step⟩
  obtain ⟨-, twin, same, schema, entry⟩ := along _ needs
  obtain ⟨other, rfl, location⟩ := same_reference same
  obtain ⟨name, points, present⟩ := entry_reference entry
  exact ⟨name, location ▸ points, present⟩

private theorem call_needs {call : Call} {schema : Schema}
    (declared : ∀ entry ∈ components.entries, DistinctKeys entry.2) (asked : DistinctKeys call.node)
    (ended : (call.run components).run.run .empty = (.ok schema, after)) {target : Reference}
    (needs : Needs components call.node target) :
    ∃ name, PointsTo target.location name ∧ name ∈ after.schemas.keys := by
  have session : Session components [(call, .ok schema)] after := .call .start ended
  have succeeded : ∀ step ∈ [(call, (.ok schema : Outcome))], ∃ schema, step.2 = .ok schema :=
    fun step member => ⟨schema, congrArg Prod.snd (List.mem_singleton.mp member)⟩
  have keys : ∀ step ∈ [(call, (.ok schema : Outcome))], DistinctKeys step.1.node :=
    fun step member => congrArg Prod.fst (List.mem_singleton.mp member) ▸ asked
  obtain ⟨answers, journal⟩ := session.exists_journal
  obtain ⟨faithful, -, usages⟩ := session_translates session succeeded
  have complete : Complete components after := ⟨declared, (journal.named declared keys).1, faithful⟩
  have usage := usages (call, .ok schema) (List.mem_singleton.mpr rfl) schema rfl
  exact covered_needs complete asked (covered_of_usage complete (Value.same_refl asked) usage) needs

theorem call_resolved {call : Call} {result : Outcome} (ended : (call.run components).run.run .empty = (result, after)) :
    ∃ answers, Resolved components (call.work none) .empty answers result after := by
  obtain ⟨answers, resolved⟩ := call.run_resolved components .empty
  rw [ended] at resolved
  exact ⟨answers, resolved⟩

theorem call_broken {call : Call} {fault : ReferenceFault}
    (declared : ∀ entry ∈ components.entries, DistinctKeys entry.2)
    (ended : (call.run components).run.run .empty = (.error fault, after)) :
    BrokenNode components after.schemas fault call.node := by
  obtain ⟨answers, resolved⟩ := call_resolved ended
  have broken := resolved.broken declared rfl
  cases call with
  | inContext | owned => exact broken
  | reference location => exact broken _ rfl

theorem call_error_iff {call : Call} {result : Outcome}
    (declared : ∀ entry ∈ components.entries, DistinctKeys entry.2) (asked : DistinctKeys call.node)
    (ended : (call.run components).run.run .empty = (result, after)) :
    (∃ fault, result = .error fault) ↔ ∃ target, Needs components call.node target ∧
      ∀ name, PointsTo target.location name → name ∉ components.keys ∧ name ∉ after.origins.keys := by
  have coherent : Coherent components after := (Session.call .start ended).coherent
  constructor
  · rintro ⟨fault, rfl⟩
    obtain ⟨target, needs, blames⟩ := call_broken declared ended
    refine ⟨target, needs, fun name points => ?_⟩
    obtain ⟨undeclared, absent⟩ := blames.nothing_behind points
    exact ⟨undeclared, fun recorded => absent (coherent.recorded name recorded)⟩
  · rintro ⟨target, needs, nothing⟩
    cases result with
    | error fault => exact ⟨fault, rfl⟩
    | ok schema =>
      obtain ⟨name, points, present⟩ := call_needs declared asked ended needs
      obtain ⟨undeclared, unrecorded⟩ := nothing name points
      exact absurd (coherent.named name present) (not_or.mpr ⟨undeclared, unrecorded⟩)

/-- Where no inline definition gets the name in a needed reference, only components count. -/
theorem call_error_iff_undeclared {call : Call} {result : Outcome}
    (declared : ∀ entry ∈ components.entries, DistinctKeys entry.2) (asked : DistinctKeys call.node)
    (ended : (call.run components).run.run .empty = (result, after))
    (unrecorded : ∀ target name, Needs components call.node target → PointsTo target.location name →
      name ∉ after.origins.keys) :
    (∃ fault, result = .error fault) ↔ ∃ target, Needs components call.node target ∧
      ∀ name, PointsTo target.location name → name ∉ components.keys := by
  rw [call_error_iff declared asked ended]
  refine exists_congr fun target => and_congr_right fun needs => ?_
  refine forall_congr' fun name => imp_congr_right fun points => ?_
  exact and_iff_left (unrecorded target name needs points)

/-- A call of a fresh resolver ends, and a fault is about a reference that is needed; again no definition has a key
twice. The call fails exactly when a reference is needed whose location has not the right form, or has a name under
which neither a component is declared nor an inline definition has been recorded: so wherever no inline definition
gets the name in a needed reference, it fails exactly when that name is not declared. -/
theorem call_fails_iff {call : Call} {result : Outcome}
    (declared : ∀ entry ∈ components.entries, DistinctKeys entry.2) (asked : DistinctKeys call.node)
    (ended : (call.run components).run.run .empty = (result, after)) :
    (∃ answers, Resolved components (call.work none) .empty answers result after) ∧
      (∀ fault, result = .error fault →
        ∃ target, Needs components call.node target ∧ Blames components after.schemas target.location fault) ∧
      ((∃ fault, result = .error fault) ↔ ∃ target, Needs components call.node target ∧
        ∀ name, PointsTo target.location name → name ∉ components.keys ∧ name ∉ after.origins.keys) ∧
      ((∀ target name, Needs components call.node target → PointsTo target.location name → name ∉ after.origins.keys) →
        ((∃ fault, result = .error fault) ↔ ∃ target, Needs components call.node target ∧
          ∀ name, PointsTo target.location name → name ∉ components.keys)) := by
  refine ⟨call_resolved ended, ?_, call_error_iff declared asked ended, call_error_iff_undeclared declared asked ended⟩
  rintro fault rfl
  exact call_broken declared ended

def petComponents : Table String SchemaNode :=
  ⟨[("Pet", objectSchema [("owner", .ref ⟨"#/components/schemas/User", "", ""⟩)])], by simp⟩

def petCall : Call := .reference "#/components/schemas/Pet"

theorem petCall_fails : ((petCall.run petComponents).run.run .empty).1.toBool = false := by decide +kernel

theorem pet_needs_user : ∃ fault after, (petCall.run petComponents).run.run .empty = (.error fault, after) ∧
    ∃ target, Needs petComponents petCall.node target ∧
      ∀ name, PointsTo target.location name → name ∉ petComponents.keys ∧ name ∉ after.origins.keys := by
  have failed := petCall_fails
  rcases ended : (petCall.run petComponents).run.run .empty with ⟨fault | schema, after⟩
  · have declared : ∀ entry ∈ petComponents.entries, DistinctKeys entry.2 := by
      intro entry member
      cases List.mem_singleton.mp member
      decide +kernel
    have asked : DistinctKeys petCall.node := by decide +kernel
    exact ⟨fault, after, rfl, (call_fails_iff declared asked ended).2.2.1.mp ⟨fault, rfl⟩⟩
  · rw [ended] at failed
    cases failed

/-- An object whose first property gets the name that its second one points to. -/
def takenSchema : SchemaNode :=
  objectSchema [("kind", kindSchema ["a", "b"]), ("other", .ref ⟨"#/components/schemas/Kind", "", ""⟩)]

def takenCall : Call := .inContext takenSchema "body"

/-- No component is declared, and still the reference is accepted. -/
theorem takenCall_accepted : ((takenCall.run .empty).run.run .empty).1.toBool = true ∧
    ∃ target, Needs .empty takenCall.node target ∧
      ∀ name, PointsTo target.location name → name ∉ (Table.empty : Table String SchemaNode).keys := by
  have object : IsObject ⟨⟨some (.one "object"), none, none, [], false, none⟩, none,
      [("kind", kindSchema ["a", "b"]), ("other", .ref ⟨"#/components/schemas/Kind", "", ""⟩)], none, [], [], []⟩ :=
    ⟨by simp [IsEnum, StringEnum], Or.inr rfl, by simp⟩
  have step : Step .empty takenSchema (.ref ⟨"#/components/schemas/Kind", "", ""⟩) :=
    .property object (List.mem_cons_of_mem _ (List.mem_singleton.mpr rfl))
  refine ⟨by decide +kernel, _, Needs.head step .refl, fun name _ => ?_⟩
  simp

end ClientForge.Resolve
