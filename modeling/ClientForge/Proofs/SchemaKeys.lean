import ClientForge.Document.Read
import ClientForge.Proofs.DefinitionReading

/-! No object that is read from a text has a key twice: loading writes a key that comes again in the place of the
first one. A schema that is read from such data holds its keywords under keys of their own and its properties
under theirs, so that its definition has no key twice either. -/

namespace ClientForge.Value

inductive IsScalar : Value → Prop where
  | null : IsScalar .null
  | bool (b : Bool) : IsScalar (.bool b)
  | number (n : Number) : IsScalar (.number n)
  | string (s : String) : IsScalar (.string s)

attribute [simp] IsScalar.null IsScalar.bool IsScalar.number IsScalar.string

theorem IsScalar.distinctKeys {value : Value} (scalar : value.IsScalar) : value.hasDistinctKeys = true := by
  cases scalar <;> rfl

theorem hasDistinctKeys_put {key : String} {value : Value} {fields : List (String × Value)}
    (keys : (object fields).hasDistinctKeys = true) (inside : value.hasDistinctKeys = true) :
    (object (Table.put key value fields)).hasDistinctKeys = true := by
  obtain ⟨distinct, values⟩ := hasDistinctKeys_object.mp keys
  refine hasDistinctKeys_object.mpr ⟨Table.nodup_keys_put key value distinct, fun field member => ?_⟩
  rcases Table.mem_put member with rfl | earlier
  · exact inside
  · exact values field earlier

end ClientForge.Value

namespace ClientForge.Yaml

/-- Loading that does not fail ends with something good. -/
def Gives (program : Loading α) (good : α → Prop) : Prop :=
  ∀ steps value left, program.run steps = some (value, left) → good value

namespace Gives

variable {program : Loading α} {good : α → Prop}

theorem pure {value : α} (holds : good value) : Gives (Pure.pure value) good := by
  intro steps result left ended
  cases ended
  exact holds

theorem failure : Gives (Alternative.failure : Loading α) good := by
  intro steps result left ended
  cases ended

theorem any : Gives program fun _ => True := fun _ _ _ _ => trivial

theorem bind {next : α → Loading β} {better : β → Prop} (first : Gives program good)
    (rest : ∀ value, good value → Gives (next value) better) : Gives (program >>= next) better := by
  intro steps result left ended
  simp only [StateT.run_bind, Option.bind_eq_bind, Option.bind_eq_some_iff] at ended
  obtain ⟨⟨value, middle⟩, began, ended⟩ := ended
  exact rest value (first steps value middle began) middle result left ended

theorem mapM {read : β → Loading α} (each : ∀ item, Gives (read item) good) (items : List β) :
    Gives (items.mapM read) fun values => ∀ value ∈ values, good value := by
  induction items with
  | nil => exact .pure fun value none => absurd none List.not_mem_nil
  | cons item items ih =>
    rw [List.mapM_cons]
    refine (each item).bind fun value holds => ih.bind fun values all => .pure fun other member => ?_
    rcases List.mem_cons.mp member with rfl | later
    · exact holds
    · exact all other later

theorem foldlM {step : α → β → Loading α} (each : ∀ value item, good value → Gives (step value item) good)
    (items : List β) {start : α} (holds : good start) : Gives (items.foldlM step start) good := by
  induction items generalizing start with
  | nil => exact .pure holds
  | cons item items ih =>
    rw [List.foldlM_cons]
    exact (each start item holds).bind fun value holds => ih holds

end Gives

private theorem realOf_isScalar {text : List Char} : ∀ value ∈ realOf? text, value.IsScalar := by
  unfold realOf?
  repeat' split
  all_goals simp

private theorem plainValue_isScalar {text : List Char} : ∀ value ∈ plainValue? text, value.IsScalar := by
  have other : ((realOf? text).getD (.string (String.ofList text))).IsScalar := by
    cases real : realOf? text with
    | none => exact .string _
    | some value => exact realOf_isScalar value real
  unfold plainValue?
  dsimp only
  repeat' split
  all_goals simp [other]

private theorem scalar_isScalar {scalar : Scalar} : ∀ value ∈ scalar.value?, value.IsScalar := by
  have flag : ∀ value ∈ (boolOf? scalar.text.toList).map Value.bool, value.IsScalar := by
    intro value read
    obtain ⟨b, -, rfl⟩ := Option.map_eq_some_iff.mp read
    exact .bool b
  have real : ∀ value ∈ realOf? scalar.text.toList, value.IsScalar := realOf_isScalar
  have plain : ∀ value ∈ plainValue? scalar.text.toList, value.IsScalar := plainValue_isScalar
  unfold Scalar.value?
  dsimp only
  repeat' split
  all_goals first | assumption | simp

private theorem gives_scalar (scalar : Scalar) :
    Gives (StateT.lift scalar.value?) fun value => value.hasDistinctKeys = true := by
  intro steps value left ended
  obtain ⟨other, read, same⟩ := Option.bind_eq_some_iff.mp ended
  cases same
  exact (scalar_isScalar _ read).distinctKeys

theorem load_distinctKeys (anchored : List (Nat × Node)) (depth : Nat) (node : Node) :
    Gives (load anchored depth node) fun value => value.hasDistinctKeys = true := by
  induction depth generalizing node with
  | zero =>
    rw [load]
    refine Gives.any.bind fun node _ => ?_
    split
    next scalar => exact gives_scalar scalar
    next => exact .failure
  | succ depth ih =>
    rw [load]
    refine Gives.any.bind fun node _ => ?_
    split
    next scalar => exact gives_scalar scalar
    next tag items =>
      split
      next => exact .failure
      next =>
        refine (Gives.mapM ih items).bind fun values each => .pure ?_
        exact Value.hasDistinctKeys_array.mpr each
    next tag pairs =>
      split
      next => exact .failure
      next =>
        refine (Gives.foldlM ?_ pairs (by rfl)).bind fun fields keys => .pure keys
        rintro fields ⟨key, inside⟩ keys
        refine Gives.any.bind fun key _ => (ih inside).bind fun value inside => .pure ?_
        exact Value.hasDistinctKeys_put keys inside
    next => exact .failure

theorem valueOf_distinctKeys {text : String} {value : Value} (read : valueOf? text = some value) :
    value.hasDistinctKeys = true := by
  unfold valueOf? at read
  simp only [Option.bind_eq_bind, Option.bind_eq_some_iff] at read
  obtain ⟨tree, -, read⟩ := read
  cases tree with
  | none => cases read; rfl
  | some tree =>
    obtain ⟨⟨value, left⟩, ended, rfl⟩ := Option.map_eq_some_iff.mp read
    exact load_distinctKeys _ _ _ _ value left ended

end ClientForge.Yaml

namespace ClientForge.Resolve
open Document SchemaNode

private theorem keys_fields_sublist (entries : List (String × Option Value)) :
    ((entries.flatMap fun entry => fieldOf entry.1 entry.2).map Prod.fst).Sublist (entries.map Prod.fst) := by
  induction entries with
  | nil => exact List.Sublist.refl _
  | cons entry entries ih =>
    obtain ⟨key, value⟩ := entry
    rw [List.flatMap_cons, List.map_append, List.map_cons]
    cases value with
    | none => exact ih.cons key
    | some value => exact ih.cons_cons key

/-- No key is twice in what stands inside a schema. -/
structure Keyed (draft : Draft) : Prop where
  literals : ∀ literals, draft.keywords.literals = some literals → ∀ literal ∈ literals, literal.hasDistinctKeys = true
  items : ∀ node, draft.items = some node → DistinctKeys node
  names : (draft.properties.map Prod.fst).Nodup
  properties : ∀ entry ∈ draft.properties, DistinctKeys entry.2
  values : ∀ node, draft.additional = some (.schema node) → DistinctKeys node
  allOf : ∀ node ∈ draft.allOf, DistinctKeys node
  oneOf : ∀ node ∈ draft.oneOf, DistinctKeys node
  anyOf : ∀ node ∈ draft.anyOf, DistinctKeys node

private theorem strings_distinctKeys (texts : List String) : (Value.array (texts.map .string)).hasDistinctKeys = true := by
  refine Value.hasDistinctKeys_array.mpr fun item member => ?_
  obtain ⟨text, -, rfl⟩ := List.mem_map.mp member
  rfl

private theorem writtenList_distinctKeys {nodes : List SchemaNode} (each : ∀ node ∈ nodes, DistinctKeys node) :
    ∀ value ∈ writtenList nodes, value.hasDistinctKeys = true := by
  intro value written
  unfold writtenList at written
  split at written
  next => cases written
  next =>
    cases written
    refine Value.hasDistinctKeys_array.mpr fun item member => ?_
    obtain ⟨node, listed, rfl⟩ := List.mem_map.mp member
    exact each node listed

private theorem writtenProperties_distinctKeys {draft : Draft} (keyed : Keyed draft) :
    ∀ value ∈ writtenProperties draft.properties, value.hasDistinctKeys = true := by
  intro value written
  unfold writtenProperties at written
  split at written
  next => cases written
  next =>
    cases written
    refine Value.hasDistinctKeys_object.mpr ⟨?_, fun field member => ?_⟩
    · rw [List.map_map]
      exact keyed.names
    · obtain ⟨entry, listed, rfl⟩ := List.mem_map.mp member
      exact keyed.properties entry listed

private theorem Keyed.written {draft : Draft} (keyed : Keyed draft) :
    ∀ entry ∈ writtenFields draft, ∀ value ∈ entry.2, value.hasDistinctKeys = true := by
  intro entry member value written
  simp only [writtenFields, List.mem_cons, List.not_mem_nil, or_false] at member
  -- The keywords, in the order in which they are written.
  rcases member with rfl | rfl | rfl | rfl | rfl | rfl | rfl | rfl | rfl | rfl | rfl | rfl
  · obtain ⟨_ | names, -, rfl⟩ := Option.map_eq_some_iff.mp written
    · rfl
    · exact strings_distinctKeys names
  · obtain ⟨format, -, rfl⟩ := Option.map_eq_some_iff.mp written
    rfl
  · obtain ⟨literals, there, rfl⟩ := Option.map_eq_some_iff.mp written
    exact Value.hasDistinctKeys_array.mpr (keyed.literals literals there)
  · obtain ⟨node, there, rfl⟩ := Option.map_eq_some_iff.mp written
    exact keyed.items node there
  · exact writtenProperties_distinctKeys keyed value written
  · dsimp only at written
    split at written
    next => cases written
    next => cases written; exact strings_distinctKeys _
  · obtain ⟨_ | node, there, rfl⟩ := Option.map_eq_some_iff.mp written
    · rfl
    · exact keyed.values node there
  · exact writtenList_distinctKeys keyed.allOf value written
  · exact writtenList_distinctKeys keyed.oneOf value written
  · exact writtenList_distinctKeys keyed.anyOf value written
  · dsimp only at written
    split at written
    next => cases written; rfl
    next => cases written
  · obtain ⟨description, -, rfl⟩ := Option.map_eq_some_iff.mp written
    rfl

theorem Keyed.distinctKeys {draft : Draft} (keyed : Keyed draft) : DistinctKeys draft.schema := by
  rw [DistinctKeys, toValue_schema]
  refine Value.hasDistinctKeys_object.mpr ⟨?_, fun field member => ?_⟩
  · exact (writtenFields_distinct draft).sublist (keys_fields_sublist _)
  · obtain ⟨⟨key, value⟩, listed, member⟩ := List.mem_flatMap.mp member
    cases value with
    | none => cases member
    | some value =>
      cases List.mem_singleton.mp member
      exact keyed.written _ listed value rfl

private theorem Keyed.blank : Keyed .blank := by
  constructor <;> simp [Draft.blank]

/-- What is read from a value has no key twice, like the value, in any of the ways in which schemas are read. -/
private structure ReadsKeyed (value : Value) : Prop where
  distinct : value.hasDistinctKeys = true
  node : ∀ node ∈ ofValue? value, DistinctKeys node
  nodes : ∀ nodes ∈ nodes? value, ∀ node ∈ nodes, DistinctKeys node
  properties : ∀ declared ∈ properties? value, (declared.map Prod.fst).Nodup ∧ ∀ entry ∈ declared, DistinctKeys entry.2

/-- A keyword is read in one of the ways, or its value holds no schema. -/
private theorem ReadsKeyed.set {draft next : Draft} {key : String} {value : Value} (reads : ReadsKeyed value)
    (keyed : Keyed draft)
    (set : draft.set? key value (fun _ => ofValue? value) (fun _ => nodes? value) (fun _ => properties? value) =
      some next) : Keyed next := by
  unfold Draft.set? at set
  dsimp only at set
  split at set
  case h_1 =>
    split at set
    next => cases set; exact { keyed with }
    next =>
      obtain ⟨type, -, rfl⟩ := Option.map_eq_some_iff.mp set
      exact { keyed with }
  case h_2 =>
    split at set
    next => cases set; exact { keyed with }
    next =>
      obtain ⟨format, -, rfl⟩ := Option.map_eq_some_iff.mp set
      exact { keyed with }
  case h_3 =>
    split at set
    next => cases set; exact { keyed with literals := by simp }
    next literals =>
      cases set
      refine { keyed with literals := ?_ }
      rintro _ ⟨⟩
      exact Value.hasDistinctKeys_array.mp reads.distinct
    next => cases set
  case h_4 =>
    split at set
    next => cases set; exact { keyed with items := by simp }
    next =>
      obtain ⟨items, read, rfl⟩ := Option.map_eq_some_iff.mp set
      refine { keyed with items := ?_ }
      rintro _ ⟨⟩
      exact reads.node items read
  case h_5 =>
    obtain ⟨properties, read, rfl⟩ := Option.map_eq_some_iff.mp set
    obtain ⟨names, each⟩ := reads.properties properties read
    exact { keyed with names, properties := each }
  case h_6 =>
    split at set
    next =>
      obtain ⟨required, -, rfl⟩ := Option.map_eq_some_iff.mp set
      exact { keyed with }
    next => cases set
  case h_7 =>
    split at set
    next => cases set; exact { keyed with values := by simp }
    next => cases set; exact { keyed with values := by simp }
    next =>
      obtain ⟨values, read, rfl⟩ := Option.map_eq_some_iff.mp set
      refine { keyed with values := ?_ }
      rintro _ ⟨⟩
      exact reads.node values read
  case h_8 =>
    obtain ⟨members, read, rfl⟩ := Option.map_eq_some_iff.mp set
    exact { keyed with allOf := reads.nodes members read }
  case h_9 =>
    obtain ⟨members, read, rfl⟩ := Option.map_eq_some_iff.mp set
    exact { keyed with oneOf := reads.nodes members read }
  case h_10 =>
    obtain ⟨members, read, rfl⟩ := Option.map_eq_some_iff.mp set
    exact { keyed with anyOf := reads.nodes members read }
  case h_11 =>
    split at set
    next => cases set; exact { keyed with }
    next => cases set
  case h_12 =>
    split at set
    next => cases set; exact { keyed with }
    next =>
      obtain ⟨description, -, rfl⟩ := Option.map_eq_some_iff.mp set
      exact { keyed with }
  case h_13 => cases set; exact keyed

private theorem ofFields_keyed {fields : List (String × Value)} (reads : ∀ field ∈ fields, ReadsKeyed field.2)
    {draft last : Draft} (keyed : Keyed draft) (read : ofFields? fields draft = some last) : Keyed last := by
  induction fields generalizing draft with
  | nil =>
    rw [ofFields?] at read
    cases read
    exact keyed
  | cons field fields ih =>
    obtain ⟨key, value⟩ := field
    rw [ofFields?] at read
    split at read
    next next set =>
      have begun := (reads _ (List.mem_cons_self ..)).set keyed set
      exact ih (fun field member => reads field (List.mem_cons_of_mem _ member)) begun read
    next => cases read

private theorem ofItems_keyed {items : List Value} (reads : ∀ item ∈ items, ReadsKeyed item) {names : List String}
    {draft last : Draft} (keyed : Keyed draft) (read : ofItems? items names draft = some last) : Keyed last := by
  induction items generalizing draft names with
  | nil =>
    rw [ofItems?] at read
    · cases read
      exact keyed
    · rintro _ _ _ _ ⟨⟩
  | cons item items ih =>
    cases names with
    | nil =>
      rw [ofItems?] at read
      · cases read
        exact keyed
      · rintro _ _ _ _ - ⟨⟩
    | cons name names =>
      rw [ofItems?] at read
      split at read
      next next set =>
        have begun := (reads _ (List.mem_cons_self ..)).set keyed set
        exact ih (fun item member => reads item (List.mem_cons_of_mem _ member)) begun read
      next => cases read

private theorem allOfValues_keyed {items : List Value} (reads : ∀ item ∈ items, ReadsKeyed item) :
    ∀ nodes ∈ allOfValues? items, ∀ node ∈ nodes, DistinctKeys node := by
  induction items with
  | nil =>
    rintro _ ⟨⟩ node none
    cases none
  | cons item items ih =>
    intro nodes read
    rw [allOfValues?] at read
    split at read
    next first begun =>
      obtain ⟨rest, later, rfl⟩ := Option.map_eq_some_iff.mp read
      intro node member
      rcases List.mem_cons.mp member with rfl | behind
      · exact (reads _ (List.mem_cons_self ..)).node node begun
      · exact ih (fun item member => reads item (List.mem_cons_of_mem _ member)) rest later node behind
    next => cases read

private theorem propertiesOfFields_keyed {fields : List (String × Value)} (reads : ∀ field ∈ fields, ReadsKeyed field.2) :
    ∀ declared ∈ propertiesOfFields? fields,
      declared.map Prod.fst = fields.map Prod.fst ∧ ∀ entry ∈ declared, DistinctKeys entry.2 := by
  induction fields with
  | nil =>
    rintro _ ⟨⟩
    exact ⟨rfl, fun entry none => absurd none List.not_mem_nil⟩
  | cons field fields ih =>
    intro declared read
    obtain ⟨key, value⟩ := field
    rw [propertiesOfFields?] at read
    split at read
    next node begun =>
      obtain ⟨rest, later, rfl⟩ := Option.map_eq_some_iff.mp read
      obtain ⟨names, each⟩ := ih (fun field member => reads field (List.mem_cons_of_mem _ member)) rest later
      refine ⟨by rw [List.map_cons, List.map_cons, names], fun entry member => ?_⟩
      rcases List.mem_cons.mp member with rfl | behind
      · exact (reads _ (List.mem_cons_self ..)).node node begun
      · exact each entry behind
    next => cases read

theorem distinctKeys_ref (target : Reference) : DistinctKeys (.ref target) := by
  rw [DistinctKeys, toValue, Reference.toValue]
  refine Value.hasDistinctKeys_object.mpr ⟨?_, fun field member => ?_⟩
  · split <;> split <;> simp
  · simp only [List.mem_cons, List.mem_append] at member
    rcases member with rfl | described | summed
    · rfl
    · split at described
      next => cases described
      next => cases List.mem_singleton.mp described; rfl
    · split at summed
      next => cases summed
      next => cases List.mem_singleton.mp summed; rfl

private theorem reads_keyed {value : Value} (distinct : value.hasDistinctKeys = true) : ReadsKeyed value := by
  induction value using Value.induction with
  | null | bool | number | string => constructor <;> simp [ofValue?, nodes?, properties?, Value.hasDistinctKeys]
  | array items ih =>
    have reads : ∀ item ∈ items, ReadsKeyed item := fun item member =>
      ih item member (Value.hasDistinctKeys_array.mp distinct item member)
    refine ⟨distinct, fun node read => ?_, ?_, ?_⟩
    · rw [ofValue?] at read
      split at read
      next target _ => cases read; exact distinctKeys_ref target
      next =>
        split at read
        next =>
          obtain ⟨draft, found, rfl⟩ := Option.map_eq_some_iff.mp read
          exact (ofItems_keyed reads .blank found).distinctKeys
        next => cases read
    · rw [nodes?]
      exact allOfValues_keyed reads
    · simp [properties?]
  | object fields ih =>
    obtain ⟨names, each⟩ := Value.hasDistinctKeys_object.mp distinct
    have reads : ∀ field ∈ fields, ReadsKeyed field.2 := fun field member => ih field member (each field member)
    refine ⟨distinct, fun node read => ?_, ?_, fun declared read => ?_⟩
    · rw [ofValue?] at read
      split at read
      next target _ => cases read; exact distinctKeys_ref target
      next =>
        obtain ⟨draft, found, rfl⟩ := Option.map_eq_some_iff.mp read
        exact (ofFields_keyed reads .blank found).distinctKeys
    · simp [nodes?]
    · obtain ⟨same, inside⟩ := propertiesOfFields_keyed reads declared read
      exact ⟨same ▸ names, inside⟩

/-- A schema that is read from a value without a key that is there twice has no key twice. -/
theorem ofValue_distinctKeys {value : Value} {node : SchemaNode} (distinct : value.hasDistinctKeys = true)
    (read : ofValue? value = some node) : DistinctKeys node :=
  (reads_keyed distinct).node node read

end ClientForge.Resolve
