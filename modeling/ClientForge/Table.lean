/-!
Tables that keep the order in which their keys first came. Writing a key again replaces its value
in place.
-/

namespace ClientForge

/-- Entries in order, each under its own key. -/
structure Table (κ α : Type) where
  entries : List (κ × α)
  distinct : (entries.map Prod.fst).Nodup

namespace Table

variable {κ α β : Type}

/-- Writes a key of a list of entries: in place if it is there, at the end if it is new. -/
def put [DecidableEq κ] (key : κ) (value : α) : List (κ × α) → List (κ × α)
  | [] => [(key, value)]
  | (k, v) :: rest => if k = key then (k, value) :: rest else (k, v) :: put key value rest

theorem keys_put [DecidableEq κ] (key : κ) (value : α) (entries : List (κ × α)) :
    (put key value entries).map Prod.fst =
      if key ∈ entries.map Prod.fst then entries.map Prod.fst else entries.map Prod.fst ++ [key] := by
  induction entries with
  | nil => simp [put]
  | cons entry rest ih =>
    obtain ⟨k, v⟩ := entry
    by_cases same : k = key
    · simp [put, same]
    · have other : key ≠ k := fun h => same h.symm
      simp only [put, if_neg same, List.map_cons, ih, List.mem_cons, other, false_or]
      split <;> rfl

theorem nodup_keys_put [DecidableEq κ] (key : κ) (value : α) {entries : List (κ × α)}
    (distinct : (entries.map Prod.fst).Nodup) : ((put key value entries).map Prod.fst).Nodup := by
  rw [keys_put]
  split
  · exact distinct
  · rename_i absent
    exact List.nodup_append.mpr
      ⟨distinct, by simp, fun a member b single => by
        rw [List.mem_singleton.mp single]
        exact fun same => absent (same ▸ member)⟩

def empty : Table κ α := ⟨[], by simp⟩

instance : Inhabited (Table κ α) := ⟨empty⟩

def keys (table : Table κ α) : List κ := table.entries.map Prod.fst

def values (table : Table κ α) : List α := table.entries.map Prod.snd

def size (table : Table κ α) : Nat := table.entries.length

def get? [DecidableEq κ] (table : Table κ α) (key : κ) : Option α := table.entries.lookup key

def contains [DecidableEq κ] (table : Table κ α) (key : κ) : Bool := (table.get? key).isSome

/-- Writes a key: in place if it is there, at the end if it is new. -/
def insert [DecidableEq κ] (table : Table κ α) (key : κ) (value : α) : Table κ α :=
  ⟨put key value table.entries, nodup_keys_put key value table.distinct⟩

/-- Writes the entries one after the other into the empty table. -/
def ofList [DecidableEq κ] (entries : List (κ × α)) : Table κ α :=
  entries.foldl (fun table (key, value) => table.insert key value) empty

def filter (keep : κ → α → Bool) (table : Table κ α) : Table κ α :=
  ⟨table.entries.filter fun (key, value) => keep key value,
    (List.filter_sublist.map Prod.fst).nodup table.distinct⟩

/-- Changes the values and keeps the keys. -/
def mapValues (change : α → β) (table : Table κ α) : Table κ β :=
  ⟨table.entries.map fun (key, value) => (key, change value), by
    rw [List.map_map]; exact table.distinct⟩

@[simp]
theorem keys_empty : (empty : Table κ α).keys = [] := rfl

theorem keys_insert [DecidableEq κ] (table : Table κ α) (key : κ) (value : α) :
    (table.insert key value).keys =
      if key ∈ table.keys then table.keys else table.keys ++ [key] :=
  keys_put key value table.entries

theorem lookup_eq_some [DecidableEq κ] {entries : List (κ × α)} (distinct : (entries.map Prod.fst).Nodup)
    {key : κ} {value : α} : entries.lookup key = some value ↔ (key, value) ∈ entries := by
  induction entries with
  | nil => simp
  | cons entry rest ih =>
    obtain ⟨k, v⟩ := entry
    obtain ⟨absent, distinct⟩ := List.nodup_cons.mp distinct
    rw [List.lookup_cons, List.mem_cons, Prod.mk.injEq]
    by_cases same : key = k
    · subst same
      have other : (key, value) ∉ rest := fun member => absent (List.mem_map.mpr ⟨_, member, rfl⟩)
      simp [other, eq_comm]
    · have differs : (key == k) = false := beq_eq_false_iff_ne.mpr same
      simp [differs, same, ih distinct]

theorem get?_eq_some [DecidableEq κ] {table : Table κ α} {key : κ} {value : α} :
    table.get? key = some value ↔ (key, value) ∈ table.entries :=
  lookup_eq_some table.distinct

theorem mem_keys [DecidableEq κ] {table : Table κ α} {key : κ} : key ∈ table.keys ↔ ∃ value, table.get? key = some value := by
  simp only [keys, get?_eq_some, List.mem_map, Prod.exists, exists_and_right, exists_eq_right]

end Table

end ClientForge
