import ClientForge.Proofs.ResolverRuns
import ClientForge.Proofs.Translation

/-! What resolving does to the registry. Entries are only ever added, and every one that is added is faithful
when its program ends, although its place is held by an empty entry while what it holds is resolved. A program
that fails leaves such places behind; it still adds only, and every reference still names an entry. -/

namespace ClientForge.Resolve
open Api Document

variable {components : Table String SchemaNode} {registry before middle after : Registry}

/-- A later registry in which every entry has its place and its value, and every owner its turn. -/
structure Extends (before after : Registry) : Prop where
  schemas : before.schemas.entries <+: after.schemas.entries
  origins : before.origins.entries <+: after.origins.entries
  owners : after.owners = before.owners

theorem Extends.refl (registry : Registry) : Extends registry registry :=
  ⟨List.prefix_rfl, List.prefix_rfl, rfl⟩

theorem Extends.trans (first : Extends before middle) (second : Extends middle after) : Extends before after :=
  ⟨first.schemas.trans second.schemas, first.origins.trans second.origins, second.owners.trans first.owners⟩

theorem Extends.keeps (grows : Extends before after) : Keeps before after :=
  ⟨fun _ present => Table.mem_keys_of_prefix grows.schemas present, grows.origins⟩

theorem Extends.leave {name : String} (grows : Extends { before with owners := name :: before.owners } after) :
    Extends before { after with owners := after.owners.tail } :=
  ⟨grows.schemas, grows.origins, congrArg List.tail grows.owners⟩

theorem Extends.write {name : String} {schema : Schema} (fresh : name ∉ before.schemas.keys) :
    Extends before (before.write name schema) :=
  ⟨⟨_, (Table.entries_insert_new fresh).symm⟩, List.prefix_rfl, rfl⟩

theorem Extends.record {name : String} {definition : Value} (fresh : name ∉ before.origins.keys) :
    Extends before (before.record name definition) :=
  ⟨List.prefix_rfl, ⟨_, (Table.entries_insert_new fresh).symm⟩, rfl⟩

/-- A new entry is filled where it stands, right behind the entries that were there before it. -/
theorem Extends.fill {name : String} {old schema : Schema} (fresh : name ∉ before.schemas.keys)
    (grows : Extends (before.write name old) after) : Extends before (after.write name schema) := by
  obtain ⟨rest, entries⟩ := grows.schemas
  have opened : (before.write name old).schemas.entries = before.schemas.entries ++ [(name, old)] :=
    Table.entries_insert_new fresh
  rw [opened, List.append_assoc, List.singleton_append] at entries
  exact ⟨⟨_, (Table.entries_insert_behind entries.symm).symm⟩, grows.origins, grows.owners⟩

/-- Every reference of an entry names an entry. -/
def Closed (schemas : Table String Schema) : Prop :=
  ∀ entry ∈ schemas.entries, ∀ name ∈ entry.2.references, name ∈ schemas.keys

variable (components) in
/-- A registry that names of components and of inline definitions share without a clash. -/
structure Coherent (registry : Registry) : Prop where
  recorded : ∀ name ∈ registry.origins.keys, name ∈ registry.schemas.keys
  apart : ∀ name ∈ registry.origins.keys, name ∉ components.keys
  named : ∀ name ∈ registry.schemas.keys, name ∈ components.keys ∨ name ∈ registry.origins.keys
  closed : Closed registry.schemas

theorem Coherent.empty : Coherent components .empty :=
  ⟨fun _ member => (by cases member), fun _ member => (by cases member), fun _ member => (by cases member),
    fun _ member => (by cases member)⟩

theorem Coherent.withOwners (coherent : Coherent components registry) (owners : List String) :
    Coherent components { registry with owners } :=
  ⟨coherent.recorded, coherent.apart, coherent.named, coherent.closed⟩

private theorem Closed.insert {schemas : Table String Schema} {name : String} {schema : Schema}
    (closed : Closed schemas) (references : ∀ other ∈ schema.references, other ∈ schemas.keys) :
    Closed (schemas.insert name schema) := by
  intro entry member other mentioned
  have found : (schemas.insert name schema).get? entry.1 = some entry.2 := Table.get?_eq_some.mpr member
  rw [Table.get?_insert] at found
  refine Table.mem_keys_insert.mpr (Or.inr ?_)
  split at found
  · rw [← Option.some.inj found] at mentioned
    exact references other mentioned
  · exact closed entry (Table.get?_eq_some.mp found) other mentioned

theorem Coherent.write {name : String} {schema : Schema} (coherent : Coherent components registry)
    (belongs : name ∈ components.keys ∨ name ∈ registry.origins.keys)
    (references : ∀ other ∈ schema.references, other ∈ registry.schemas.keys) :
    Coherent components (registry.write name schema) where
  recorded other member := Table.mem_keys_insert.mpr (Or.inr (coherent.recorded other member))
  apart := coherent.apart
  named other member := by
    rcases Table.mem_keys_insert.mp member with rfl | earlier
    · exact belongs
    · exact coherent.named other earlier
  closed := coherent.closed.insert references

theorem Coherent.record {name : String} {definition : Value} (coherent : Coherent components registry)
    (undeclared : name ∉ components.keys) :
    Coherent components ((registry.record name definition).write name .unknown) where
  recorded other member := Table.mem_keys_insert.mpr ((Table.mem_keys_insert.mp member).imp_right (coherent.recorded other))
  apart other member := by
    rcases Table.mem_keys_insert.mp member with rfl | earlier
    · exact undeclared
    · exact coherent.apart other earlier
  named other member := by
    rcases Table.mem_keys_insert.mp member with rfl | earlier
    · exact Or.inr (Table.mem_keys_insert.mpr (Or.inl rfl))
    · exact (coherent.named other earlier).imp_right fun recorded => Table.mem_keys_insert.mpr (Or.inr recorded)
  closed := coherent.closed.insert (by simp [Schema.references])

variable (components) in
/-- An extension of which every new entry is faithful. -/
structure Grown (before after : Registry) : Prop extends Extends before after where
  coherent : Coherent components after
  faithful : ∀ entry ∈ after.schemas.entries, entry ∈ before.schemas.entries ∨ Faithful components after entry

theorem Grown.refl (coherent : Coherent components registry) : Grown components registry registry :=
  ⟨.refl registry, coherent, fun _ member => Or.inl member⟩

theorem Grown.trans (first : Grown components before middle) (second : Grown components middle after) :
    Grown components before after := by
  refine ⟨first.toExtends.trans second.toExtends, second.coherent, ?_⟩
  intro entry member
  rcases second.faithful entry member with earlier | faithful
  · exact (first.faithful entry earlier).imp_right fun faithful => faithful.mono second.keeps
  · exact Or.inr faithful

/-- What holds of a registry and of every later one. -/
def Lasting (holds : Registry → Prop) : Prop := ∀ before after, Keeps before after → holds before → holds after

theorem Lasting.each {ι : Type} {concerns : ι → Prop} {holds : ι → Registry → Prop}
    (lasting : ∀ item, Lasting (holds item)) : Lasting fun registry => ∀ item, concerns item → holds item registry :=
  fun before after keeps all item concerned => lasting item before after keeps (all item concerned)

variable (components) in
/-- A program that only adds to a coherent registry. If it succeeds, what it has added is faithful and its
result is as it should be. -/
def Resolves (program : Resolving α) (post : α → Registry → Prop) : Prop :=
  ∀ before, Coherent components before →
    Run program before (fun value after => Grown components before after ∧ post value after)
      (fun _ after => Extends before after ∧ Coherent components after)

namespace Resolves

variable {program : Resolving α} {post : α → Registry → Prop}

theorem mono {weaker : α → Registry → Prop} (resolves : Resolves components program post)
    (implies : ∀ value registry, post value registry → weaker value registry) :
    Resolves components program weaker := fun before coherent =>
  (resolves before coherent).mono (fun value after ⟨grown, holds⟩ => ⟨grown, implies value after holds⟩)
    fun _ _ failed => failed

theorem pure {value : α} (holds : ∀ registry, post value registry) :
    Resolves components (Pure.pure value) post := fun before coherent =>
  .pure ⟨.refl coherent, holds before⟩

theorem throw {fault : ReferenceFault} :
    Resolves components (MonadExcept.throw fault : Resolving α) post := fun before coherent =>
  .throw ⟨.refl before, coherent⟩

theorem ofExcept_bind {result : Except ReferenceFault β} {next : β → Resolving α}
    (rest : ∀ value, result = .ok value → Resolves components (next value) post) :
    Resolves components (MonadExcept.ofExcept result >>= next) post := by
  cases result with
  | ok value => exact rest value rfl
  | error fault => exact throw

theorem get_bind {next : Registry → Resolving α} (rest : ∀ registry, Resolves components (next registry) post) :
    Resolves components (get >>= next) post := fun before coherent =>
  .get_bind (rest before before coherent)

/-- What the first program ends with is still there when the second one ends. -/
theorem bind {next : α → Resolving β} {held : α → Registry → Prop} {post : β → Registry → Prop}
    (first : Resolves components program held) (lasting : ∀ value, Lasting (held value))
    (rest : ∀ value, Resolves components (next value) fun result after => held value after → post result after) :
    Resolves components (program >>= next) post := by
  intro before coherent
  have failing : Run program before (fun value middle => Grown components before middle ∧ held value middle)
      (fun _ after => Extends before after ∧ Coherent components after) := first before coherent
  refine failing.bind fun value middle ⟨grown, holds⟩ => ?_
  refine (rest value middle grown.coherent).mono ?_ ?_
  · rintro result after ⟨later, holdsAfter⟩
    exact ⟨grown.trans later, holdsAfter (lasting value middle after later.keeps holds)⟩
  · rintro fault after ⟨later, coherentAfter⟩
    exact ⟨grown.toExtends.trans later, coherentAfter⟩

theorem map {f : α → β} {post : β → Registry → Prop}
    (resolves : Resolves components program fun value after => post (f value) after) :
    Resolves components (f <$> program) post := fun before coherent => .map (resolves before coherent)

theorem within {name : String} (resolves : Resolves components program post)
    (lasting : ∀ value, Lasting (post value)) : Resolves components (within name program) post := by
  intro before coherent
  refine .within ((resolves _ (coherent.withOwners _)).mono ?_ ?_)
  · rintro value later ⟨grown, holds⟩
    have keeps : Keeps later { later with owners := later.owners.tail } :=
      ⟨fun _ present => present, List.prefix_rfl⟩
    refine ⟨⟨grown.toExtends.leave, grown.coherent.withOwners _, ?_⟩, lasting value later _ keeps holds⟩
    intro entry member
    exact (grown.faithful entry member).imp_right fun faithful => faithful.mono keeps
  · rintro fault later ⟨grows, coherentLater⟩
    exact ⟨grows.leave, coherentLater.withOwners _⟩

end Resolves

/-- An entry that is filled: its place is taken before what it holds is resolved, and what comes in between
finds the name there. -/
theorem fill_run {name : String} {node : SchemaNode} {body : Resolving Schema}
    (fresh : name ∉ before.schemas.keys) (opened : Coherent components (before.write name .unknown))
    (declares : Declares components before name node)
    (resolves : Resolves components body fun schema after => EntryOf components after node schema) :
    Run (fill name body) before
      (fun schema after => Grown components before after ∧ schema = .reference name ∧ name ∈ after.schemas.keys)
      (fun _ after => Extends before after ∧ Coherent components after) := by
  refine .fill ((resolves _ opened).mono ?_ ?_)
  · rintro schema middle ⟨grown, translated⟩
    have keeps : Keeps middle (middle.write name schema) :=
      ⟨fun _ present => Table.mem_keys_insert.mpr (Or.inr present), List.prefix_rfl⟩
    have closes : Extends before (middle.write name schema) := .fill fresh grown.toExtends
    refine ⟨⟨closes, ?_, ?_⟩, rfl, Table.mem_keys_insert.mpr (Or.inl rfl)⟩
    · have taken : name ∈ middle.schemas.keys := grown.keeps.present name (Table.mem_keys_insert.mpr (Or.inl rfl))
      exact grown.coherent.write (grown.coherent.named name taken) translated.references_present
    · intro entry member
      have found : (middle.schemas.insert name schema).get? entry.1 = some entry.2 := Table.get?_eq_some.mpr member
      rw [Table.get?_insert] at found
      split at found
      next same =>
        right
        rw [Faithful, same, ← Option.some.inj found]
        exact ⟨node, declares.mono closes.keeps, translated.mono keeps⟩
      next other =>
        rcases grown.faithful entry (Table.get?_eq_some.mp found) with earlier | faithful
        · left
          have opened : (before.write name .unknown).schemas.entries = before.schemas.entries ++ [(name, .unknown)] :=
            Table.entries_insert_new fresh
          rw [opened] at earlier
          rcases List.mem_append.mp earlier with old | placeholder
          · exact old
          · exact absurd (congrArg Prod.fst (List.mem_singleton.mp placeholder)) other
        · exact Or.inr (faithful.mono keeps)
  · rintro fault after ⟨grows, coherentAfter⟩
    exact ⟨(Extends.write fresh).trans grows, coherentAfter⟩

end ClientForge.Resolve
