import ClientForge.Table

/-! Looking up and writing keys of a table, in terms of its entries. Each key has one entry, so that
looking up is membership; a table that begins with the entries of another one knows all that it knows. -/

namespace ClientForge.Table

variable {κ α : Type} [DecidableEq κ]

theorem mem_values {table : Table κ α} {value : α} : value ∈ table.values ↔ ∃ key, table.get? key = some value := by
  simp only [values, get?_eq_some, List.mem_map, Prod.exists, exists_eq_right]

theorem get?_eq_none {table : Table κ α} {key : κ} : table.get? key = none ↔ key ∉ table.keys := by
  rw [mem_keys, Option.eq_none_iff_forall_ne_some, not_exists]

theorem contains_iff {table : Table κ α} {key : κ} : table.contains key = true ↔ key ∈ table.keys := by
  rw [contains, Option.isSome_iff_exists, mem_keys]

@[simp]
theorem mem_keys_insert {table : Table κ α} {key other : κ} {value : α} :
    other ∈ (table.insert key value).keys ↔ other = key ∨ other ∈ table.keys := by
  rw [keys_insert]
  split
  · rename_i present
    exact ⟨Or.inr, fun either => either.elim (fun same => same ▸ present) id⟩
  · rw [List.mem_append, List.mem_singleton, or_comm]

theorem mem_put {key : κ} {value : α} {entries : List (κ × α)} {entry : κ × α} (member : entry ∈ put key value entries) :
    entry = (key, value) ∨ entry ∈ entries := by
  induction entries with
  | nil => exact Or.inl (List.mem_singleton.mp member)
  | cons first rest ih =>
    obtain ⟨k, v⟩ := first
    rw [put] at member
    split at member
    next same =>
      rcases List.mem_cons.mp member with new | later
      · exact Or.inl (same ▸ new)
      · exact Or.inr (List.mem_cons_of_mem _ later)
    next =>
      rcases List.mem_cons.mp member with rfl | later
      · exact Or.inr (List.mem_cons_self ..)
      · exact (ih later).imp_right (List.mem_cons_of_mem _)

private theorem mem_writeAll {entries : List (κ × α)} {start : Table κ α} {entry : κ × α}
    (member : entry ∈ (entries.foldl (fun table (key, value) => table.insert key value) start).entries) :
    entry ∈ start.entries ∨ entry ∈ entries := by
  induction entries generalizing start with
  | nil => exact Or.inl member
  | cons first rest ih =>
    rcases ih member with written | later
    · exact (mem_put written).elim (fun same => Or.inr (same ▸ List.mem_cons_self ..)) Or.inl
    · exact Or.inr (List.mem_cons_of_mem _ later)

theorem mem_ofList {entries : List (κ × α)} {entry : κ × α} (member : entry ∈ (ofList entries).entries) :
    entry ∈ entries :=
  (mem_writeAll member).resolve_left List.not_mem_nil

private theorem put_append {key : κ} {value : α} {before rest : List (κ × α)}
    (absent : key ∉ before.map Prod.fst) : put key value (before ++ rest) = before ++ put key value rest := by
  induction before with
  | nil => rfl
  | cons entry before ih =>
    obtain ⟨k, v⟩ := entry
    obtain ⟨differs, absent⟩ := not_or.mp (mt List.mem_cons.mpr absent)
    rw [List.cons_append, put, if_neg (Ne.symm differs), ih absent, List.cons_append]

theorem entries_insert_new {table : Table κ α} {key : κ} {value : α} (fresh : key ∉ table.keys) :
    (table.insert key value).entries = table.entries ++ [(key, value)] := by
  have written : put key value (table.entries ++ []) = table.entries ++ put key value [] := put_append fresh
  rwa [List.append_nil] at written

/-- Writing a key that came right behind `before` changes its value in place. -/
theorem entries_insert_behind {table : Table κ α} {key : κ} {old value : α} {before rest : List (κ × α)}
    (split : table.entries = before ++ (key, old) :: rest) :
    (table.insert key value).entries = before ++ (key, value) :: rest := by
  have distinct := table.distinct
  rw [split, List.map_append, List.map_cons] at distinct
  have absent : key ∉ before.map Prod.fst := fun early =>
    (List.nodup_append.mp distinct).2.2 key early key (List.mem_cons_self ..) rfl
  change put key value table.entries = _
  rw [split, put_append absent, put, if_pos rfl]

private theorem lookup_put {key other : κ} {value : α} (entries : List (κ × α)) :
    (put key value entries).lookup other = if other = key then some value else entries.lookup other := by
  induction entries with
  | nil => simp only [put, List.lookup_cons, List.lookup_nil]; split <;> simp_all
  | cons entry rest ih =>
    obtain ⟨k, v⟩ := entry
    by_cases found : k = key
    · subst found
      simp only [put, if_true, List.lookup_cons]
      split <;> simp_all
    · simp only [put, found, if_false, List.lookup_cons, ih]
      split <;> simp_all

theorem get?_insert {table : Table κ α} {key other : κ} {value : α} :
    (table.insert key value).get? other = if other = key then some value else table.get? other :=
  lookup_put table.entries

theorem get?_of_prefix {before after : Table κ α} (grows : before.entries <+: after.entries) {key : κ}
    {value : α} (found : before.get? key = some value) : after.get? key = some value :=
  get?_eq_some.mpr (grows.subset (get?_eq_some.mp found))

theorem mem_keys_of_prefix {before after : Table κ α} (grows : before.entries <+: after.entries) {key : κ}
    (present : key ∈ before.keys) : key ∈ after.keys := by
  obtain ⟨value, found⟩ := mem_keys.mp present
  exact mem_keys.mpr ⟨value, get?_of_prefix grows found⟩

theorem get?_filter {table : Table κ α} {keep : κ → α → Bool} {key : κ} {value : α} :
    (table.filter keep).get? key = some value ↔ table.get? key = some value ∧ keep key value = true := by
  rw [get?_eq_some, get?_eq_some]
  exact List.mem_filter

theorem get?_mapValues {table : Table κ α} {β : Type} {change : α → β} {key : κ} {value : β} :
    (table.mapValues change).get? key = some value ↔ ∃ old, table.get? key = some old ∧ change old = value := by
  simp only [get?_eq_some, mapValues, List.mem_map, Prod.exists, Prod.mk.injEq]
  constructor
  · rintro ⟨_, old, member, rfl, rfl⟩
    exact ⟨old, member, rfl⟩
  · rintro ⟨old, member, rfl⟩
    exact ⟨key, old, member, rfl, rfl⟩

theorem values_eq (table : Table κ α) : table.values = table.keys.filterMap table.get? := by
  have found : table.keys.map table.get? = table.values.map some := by
    rw [keys, values, List.map_map, List.map_map]
    exact List.map_congr_left fun entry member => get?_eq_some.mpr member
  have each : table.keys.filterMap table.get? = (table.keys.map table.get?).filterMap id := by
    rw [List.filterMap_map, Function.id_comp]
  rw [each, found, List.filterMap_map, Function.id_comp, List.filterMap_some]

/-- Keeping what is new keeps everything once, at the place of its first use. -/
theorem foldl_new (kept items : List κ) :
    items.foldl (fun kept item => if item ∈ kept then kept else kept ++ [item]) kept =
      kept ++ (items.filter (· ∉ kept)).eraseDups := by
  induction items generalizing kept with
  | nil => simp
  | cons item items ih =>
    rw [List.foldl_cons, ih]
    by_cases again : item ∈ kept
    · simp [again]
    · have narrowed : (items.filter (· ∉ kept)).filter (fun other => !other == item) =
          items.filter (· ∉ kept ++ [item]) := by
        rw [List.filter_filter]
        apply List.filter_congr
        intro other _
        by_cases same : other = item <;> simp [same]
      rw [if_neg again, List.filter_cons_of_pos (by simpa using again), List.eraseDups_cons, narrowed,
        List.append_assoc, List.singleton_append]

/-- Writes, each of one key, leave the keys in the order of their first use. -/
theorem keys_foldl {ι : Type} {write : Table κ α → ι → Table κ α} {key : ι → κ}
    (writes : ∀ table item, (write table item).keys =
      if key item ∈ table.keys then table.keys else table.keys ++ [key item]) (items : List ι) :
    (items.foldl write .empty).keys = (items.map key).eraseDups := by
  have followed : (items.foldl write .empty).keys =
      (items.map key).foldl (fun kept item => if item ∈ kept then kept else kept ++ [item]) [] := by
    rw [List.foldl_map]
    exact (List.foldl_hom Table.keys fun table item => (writes table item).symm).symm
  rw [followed, foldl_new, List.nil_append, List.filter_eq_self.mpr (by simp)]

theorem keys_ofList (entries : List (κ × α)) : (ofList entries).keys = (entries.map Prod.fst).eraseDups :=
  keys_foldl (fun table entry => keys_insert table entry.1 entry.2) entries

theorem nodup_eraseDups (items : List κ) : items.eraseDups.Nodup := by
  have keys := keys_ofList (items.map fun item => (item, ()))
  rw [List.map_map] at keys
  simp only [Function.comp_def, List.map_id'] at keys
  exact keys ▸ (ofList _).distinct

private theorem get?_writeAll {entries : List (κ × α)} {start : Table κ α} {key : κ} :
    (entries.foldl (fun table (key, value) => table.insert key value) start).get? key =
      (entries.reverse.lookup key).or (start.get? key) := by
  induction entries generalizing start with
  | nil => rfl
  | cons entry rest ih =>
    obtain ⟨own, value⟩ := entry
    rw [List.foldl_cons, ih, get?_insert, List.reverse_cons, List.lookup_append, Option.or_assoc]
    congr 1
    by_cases same : key = own
    · simp [same]
    · simp [List.lookup_cons, same, beq_eq_false_iff_ne.mpr same]

/-- Of the entries with the same key the last one is kept. -/
theorem get?_ofList (entries : List (κ × α)) (key : κ) : (ofList entries).get? key = entries.reverse.lookup key := by
  rw [ofList, get?_writeAll]
  exact Option.or_none

theorem get?_ofList_map (key : α → κ) (items : List α) (sought : κ) :
    (ofList (items.map fun item => (key item, item))).get? sought = items.reverse.find? (key · = sought) := by
  rw [get?_ofList, ← List.map_reverse]
  induction items.reverse with
  | nil => rfl
  | cons item rest ih =>
    rw [List.map_cons, List.lookup_cons, List.find?_cons, ih]
    by_cases same : key item = sought
    · simp [same]
    · simp [same, beq_eq_false_iff_ne.mpr (Ne.symm same)]

private theorem entries_writeAll {entries : List (κ × α)} {start : Table κ α}
    (fresh : (entries.map Prod.fst).Nodup) (apart : ∀ key ∈ entries.map Prod.fst, key ∉ start.keys) :
    (entries.foldl (fun table (key, value) => table.insert key value) start).entries = start.entries ++ entries := by
  induction entries generalizing start with
  | nil => simp
  | cons entry rest ih =>
    obtain ⟨absent, fresh⟩ := List.nodup_cons.mp fresh
    obtain ⟨new, apart⟩ := List.forall_mem_cons.mp apart
    rw [List.foldl_cons, ih fresh, entries_insert_new new, List.append_assoc, List.singleton_append]
    intro key member present
    rcases mem_keys_insert.mp present with rfl | earlier
    · exact absent member
    · exact apart key member earlier

theorem entries_ofList {entries : List (κ × α)} (distinct : (entries.map Prod.fst).Nodup) :
    (ofList entries).entries = entries :=
  entries_writeAll distinct (by simp)

end ClientForge.Table
