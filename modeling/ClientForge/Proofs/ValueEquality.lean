import Mathlib.Data.List.Forall2
import Mathlib.Data.List.Perm.Subperm
import Mathlib.Data.Option.Basic
import ClientForge.Proofs.TableEntries
import ClientForge.Value.Basic

/-! Equality of values, where the order of an object's keys does not count. It is an equivalence as long as no
object has a key twice: the keys of one object are then those of the other as soon as there are as many. -/

namespace ClientForge

theorem Number.same_refl (n : Number) : n.same n = true := by
  cases n <;> simp [Number.same, Decimal.Binary64.same]

theorem Number.same_symm {m n : Number} (same : m.same n = true) : n.same m = true := by
  cases m <;> cases n <;> simp_all [Number.same, Decimal.Binary64.same]
  rcases same with rfl | ⟨first, second⟩
  · exact Or.inl rfl
  · exact Or.inr ⟨second, first⟩

theorem Number.same_trans {l m n : Number} (first : l.same m = true) (second : m.same n = true) :
    l.same n = true := by
  cases l <;> cases m <;> cases n <;> simp_all [Number.same, Decimal.Binary64.same]
  rcases first with rfl | ⟨zero, _⟩
  · exact second
  · rcases second with rfl | ⟨_, last⟩
    · exact Or.inr ⟨zero, by assumption⟩
    · exact Or.inr ⟨zero, last⟩

namespace Value

mutual

/-- Whether no object in a value has a key twice. -/
def hasDistinctKeys : Value → Bool
  | .array items => itemsHaveDistinctKeys items
  | .object fields => (fields.map Prod.fst).Nodup && fieldsHaveDistinctKeys fields
  | _ => true

def itemsHaveDistinctKeys : List Value → Bool
  | [] => true
  | item :: rest => hasDistinctKeys item && itemsHaveDistinctKeys rest

def fieldsHaveDistinctKeys : List (String × Value) → Bool
  | [] => true
  | (_, value) :: rest => hasDistinctKeys value && fieldsHaveDistinctKeys rest

end

theorem hasDistinctKeys_array {items : List Value} :
    (array items).hasDistinctKeys = true ↔ ∀ item ∈ items, item.hasDistinctKeys = true := by
  rw [hasDistinctKeys]
  induction items with
  | nil => simp [itemsHaveDistinctKeys]
  | cons item items ih => simp [itemsHaveDistinctKeys, ih]

theorem hasDistinctKeys_object {fields : List (String × Value)} :
    (object fields).hasDistinctKeys = true ↔
      (fields.map Prod.fst).Nodup ∧ ∀ field ∈ fields, field.2.hasDistinctKeys = true := by
  have each : fieldsHaveDistinctKeys fields = true ↔ ∀ field ∈ fields, field.2.hasDistinctKeys = true := by
    induction fields with
    | nil => simp [fieldsHaveDistinctKeys]
    | cons field fields ih => obtain ⟨key, value⟩ := field; simp [fieldsHaveDistinctKeys, ih]
  rw [hasDistinctKeys, Bool.and_eq_true, decide_eq_true_eq, each]

abbrev Same (x y : Value) : Prop := x.same y = true

theorem same_array {xs ys : List Value} : Same (.array xs) (.array ys) ↔ List.Forall₂ Same xs ys := by
  rw [Same, same]
  induction xs generalizing ys with
  | nil => cases ys <;> simp [sameItems]
  | cons x xs ih => cases ys <;> simp [sameItems, ih]

theorem same_object {xs ys : List (String × Value)} :
    Same (.object xs) (.object ys) ↔
      xs.length = ys.length ∧ ∀ field ∈ xs, ∃ value, ys.lookup field.1 = some value ∧ Same field.2 value := by
  have each : sameFields xs ys = true ↔
      ∀ field ∈ xs, ∃ value, ys.lookup field.1 = some value ∧ Same field.2 value := by
    induction xs with
    | nil => simp [sameFields]
    | cons field xs ih =>
      obtain ⟨key, x⟩ := field
      rw [sameFields, Bool.and_eq_true, ih, List.forall_mem_cons]
      cases ys.lookup key <;> simp
  rw [Same, same, Bool.and_eq_true, decide_eq_true_eq, each]

theorem same_string_left {text : String} {y : Value} : Same (.string text) y ↔ y = .string text := by
  cases y <;> simp [Same, same, eq_comm]

theorem same_string_right {text : String} {x : Value} : Same x (.string text) ↔ x = .string text := by
  cases x <;> simp [Same, same]

theorem same_array_left {xs : List Value} {y : Value} (same : Same (.array xs) y) :
    ∃ ys, y = .array ys ∧ List.Forall₂ Same xs ys := by
  cases y with
  | array ys => exact ⟨ys, rfl, same_array.mp same⟩
  | _ => simp [Same, Value.same] at same

theorem same_object_left {xs : List (String × Value)} {y : Value} (same : Same (.object xs) y) :
    ∃ ys, y = .object ys ∧ xs.length = ys.length ∧
      ∀ field ∈ xs, ∃ value, ys.lookup field.1 = some value ∧ Same field.2 value := by
  cases y with
  | object ys => exact ⟨ys, rfl, same_object.mp same⟩
  | _ => simp [Same, Value.same] at same

/-- What holds of a list or an object if it holds of all that it contains, and of the rest, holds of every value. -/
@[elab_as_elim]
theorem induction {motive : Value → Prop} (null : motive .null) (bool : ∀ b, motive (.bool b))
    (number : ∀ n, motive (.number n)) (string : ∀ s, motive (.string s))
    (array : ∀ items, (∀ item ∈ items, motive item) → motive (.array items))
    (object : ∀ fields : List (String × Value), (∀ field ∈ fields, motive field.2) → motive (.object fields)) :
    ∀ value, motive value
  | .null => null
  | .bool b => bool b
  | .number n => number n
  | .string s => string s
  | .array items => array items fun item member =>
    have : sizeOf item < sizeOf items := List.sizeOf_lt_of_mem member
    induction null bool number string array object item
  | .object fields => object fields fun field member => by
    have smaller : sizeOf field < sizeOf fields := List.sizeOf_lt_of_mem member
    have inside : sizeOf field.2 < sizeOf field := by cases field; simp only [Prod.mk.sizeOf_spec]; omega
    exact induction null bool number string array object field.2
termination_by value => sizeOf value

theorem same_refl {value : Value} (distinct : value.hasDistinctKeys = true) : Same value value := by
  induction value using Value.induction with
  | null | bool | string => simp [Same, same]
  | number n => exact Number.same_refl n
  | array items ih =>
    have items := hasDistinctKeys_array.mp distinct
    exact same_array.mpr (List.forall₂_same.mpr fun item member => ih item member (items item member))
  | object fields ih =>
    obtain ⟨keys, values⟩ := hasDistinctKeys_object.mp distinct
    refine same_object.mpr ⟨rfl, fun field member => ⟨field.2, ?_, ih field member (values field member)⟩⟩
    exact (Table.lookup_eq_some keys).mpr member

private theorem forall₂_trans {α : Type} {related : α → α → Prop} {xs ys zs : List α}
    (trans : ∀ x ∈ xs, ∀ {y z}, related x y → related y z → related x z)
    (first : List.Forall₂ related xs ys) (second : List.Forall₂ related ys zs) : List.Forall₂ related xs zs := by
  induction first generalizing zs with
  | nil => exact second
  | cons head _ ih =>
    cases second with
    | cons next rest =>
      exact .cons (trans _ (List.mem_cons_self ..) head next)
        (ih (fun x member => trans x (List.mem_cons_of_mem _ member)) rest)

private theorem forall₂_symm {α : Type} {related : α → α → Prop} {xs ys : List α}
    (symm : ∀ x ∈ xs, ∀ {y}, related x y → related y x) (all : List.Forall₂ related xs ys) :
    List.Forall₂ related ys xs := by
  induction all with
  | nil => exact .nil
  | cons head _ ih =>
    exact .cons (symm _ (List.mem_cons_self ..) head) (ih fun x member => symm x (List.mem_cons_of_mem _ member))

theorem mem_of_lookup {fields : List (String × Value)} {key : String} {value : Value}
    (found : fields.lookup key = some value) : (key, value) ∈ fields := by
  obtain ⟨before, after, split, _⟩ := List.lookup_eq_some_iff.mp found
  simp [split]

theorem same_trans {x y z : Value} (first : Same x y) (second : Same y z) : Same x z := by
  induction x using Value.induction generalizing y z with
  | null | bool | string => cases y <;> cases z <;> simp_all [Same, same]
  | number n =>
    cases y <;> cases z <;> simp_all only [Same, same, Bool.false_eq_true]
    exact Number.same_trans first second
  | array items ih =>
    obtain ⟨middle, rfl, each⟩ := same_array_left first
    obtain ⟨last, rfl, eachAfter⟩ := same_array_left second
    exact same_array.mpr (forall₂_trans ih each eachAfter)
  | object fields ih =>
    obtain ⟨middle, rfl, length, each⟩ := same_object_left first
    obtain ⟨last, rfl, lengthAfter, eachAfter⟩ := same_object_left second
    refine same_object.mpr ⟨length.trans lengthAfter, fun field member => ?_⟩
    obtain ⟨next, found, same⟩ := each field member
    obtain ⟨final, foundFinal, sameFinal⟩ := eachAfter _ (mem_of_lookup found)
    exact ⟨final, foundFinal, ih field member same sameFinal⟩

private theorem keys_perm {xs ys : List (String × Value)} (distinct : (xs.map Prod.fst).Nodup)
    (same : Same (.object xs) (.object ys)) : (xs.map Prod.fst).Perm (ys.map Prod.fst) := by
  obtain ⟨length, each⟩ := same_object.mp same
  have included : xs.map Prod.fst ⊆ ys.map Prod.fst := by
    intro key member
    obtain ⟨field, listed, rfl⟩ := List.mem_map.mp member
    obtain ⟨value, found, _⟩ := each field listed
    exact List.mem_map.mpr ⟨_, mem_of_lookup found, rfl⟩
  exact (distinct.subperm included).perm_of_length_le (by simp [length])

/-- Under each key, equal objects have equal values or none. -/
theorem lookup_same {xs ys : List (String × Value)} (distinct : (xs.map Prod.fst).Nodup)
    (same : Same (.object xs) (.object ys)) (key : String) : Option.Rel Same (xs.lookup key) (ys.lookup key) := by
  cases found : xs.lookup key with
  | some x =>
    obtain ⟨y, foundOther, same⟩ := (same_object.mp same).2 _ (mem_of_lookup found)
    rw [foundOther]
    exact .some same
  | none =>
    have absent : ys.lookup key = none := by
      refine Option.eq_none_iff_forall_ne_some.mpr fun y foundOther => ?_
      have listed : key ∈ xs.map Prod.fst :=
        (keys_perm distinct same).mem_iff.mpr (List.mem_map.mpr ⟨_, mem_of_lookup foundOther, rfl⟩)
      obtain ⟨⟨_, x⟩, member, rfl⟩ := List.mem_map.mp listed
      exact absurd ((Table.lookup_eq_some distinct).mpr member) (by simp [found])
    rw [absent]
    exact .none

theorem same_symm {x y : Value} (distinct : x.hasDistinctKeys = true) (same : Same x y) : Same y x := by
  induction x using Value.induction generalizing y with
  | null | bool | string => cases y <;> simp_all [Same, Value.same]
  | number n =>
    cases y <;> simp_all only [Same, Value.same, Bool.false_eq_true]
    exact Number.same_symm same
  | array items ih =>
    obtain ⟨others, rfl, all⟩ := same_array_left same
    have items := hasDistinctKeys_array.mp distinct
    exact same_array.mpr (forall₂_symm (fun item member => ih item member (items item member)) all)
  | object fields ih =>
    obtain ⟨others, rfl, -⟩ := same_object_left same
    obtain ⟨keys, values⟩ := hasDistinctKeys_object.mp distinct
    have keysOther : (others.map Prod.fst).Nodup := (keys_perm keys same).nodup_iff.mp keys
    refine same_object.mpr ⟨(same_object.mp same).1.symm, fun field member => ?_⟩
    have related := lookup_same keys same field.1
    rw [(Table.lookup_eq_some keysOther).mpr member] at related
    cases found : fields.lookup field.1 with
    | none => rw [found] at related; cases related
    | some x =>
      rw [found] at related
      cases related with
      | some same =>
        have listed := mem_of_lookup found
        exact ⟨x, rfl, ih _ listed (values _ listed) same⟩

end Value

end ClientForge
