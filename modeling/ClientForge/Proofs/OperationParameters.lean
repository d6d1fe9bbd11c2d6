import ClientForge.Proofs.OperationRuns
import ClientForge.Proofs.ResolverTranslation

/-! The parameters of an operation. Those of its path come first, then its own; what is declared again counts once, as it
is declared last. Resolving gives each of those that count and looks at no other. -/

namespace ClientForge.Resolve
open Document

/-- What tells the parameters of an operation apart. -/
def identity (parameter : Document.Parameter) : String × String := (parameter.name, parameter.location)

def supported : List String := ["path", "query", "header"]

/-- The parameters that count among those that are declared. Each name in a location that is supported has one, the last
that is declared, and it stands where the first is declared. -/
def effective (declared : List Document.Parameter) : List Document.Parameter :=
  ((declared.map identity).eraseDups.filter fun key => key.2 ∈ supported).filterMap fun key =>
    declared.reverse.find? fun parameter => identity parameter = key

private theorem identity_of_find {declared : List Document.Parameter} {key : String × String} {parameter : Document.Parameter}
    (found : declared.reverse.find? (fun parameter => identity parameter = key) = some parameter) :
    identity parameter = key := by
  simpa using List.find?_some found

private theorem keys_mergeParameters (declared : List Document.Parameter) :
    (mergeParameters declared).keys = (declared.map identity).eraseDups := by
  rw [mergeParameters, Table.keys_ofList, List.map_map]
  congr 1
  exact lawful_beq_subsingleton _ _

theorem filter_values_mergeParameters (declared : List Document.Parameter) :
    (mergeParameters declared).values.filter (·.location ∈ supported) = effective declared := by
  rw [Table.values_eq, keys_mergeParameters, effective, List.filter_filterMap, List.filterMap_filter]
  refine List.filterMap_congr fun key _ => ?_
  have last : (mergeParameters declared).get? key = declared.reverse.find? fun parameter => identity parameter = key :=
    Table.get?_ofList_map identity declared key
  rw [last]
  cases found : declared.reverse.find? fun parameter => identity parameter = key with
  | none => simp
  | some parameter =>
    have same := identity_of_find found
    subst same
    by_cases kept : parameter.location ∈ supported <;> simp [Option.filter, identity, kept]

theorem map_identity_effective (declared : List Document.Parameter) :
    (effective declared).map identity =
      (declared.map identity).eraseDups.filter fun key => key.2 ∈ supported := by
  have found (key : String × String) (member : key ∈ declared.map identity) :
      (declared.reverse.find? fun parameter => identity parameter = key).map identity = some key := by
    obtain ⟨parameter, listed, same⟩ := List.mem_map.mp member
    cases last : declared.reverse.find? fun parameter => identity parameter = key with
    | none => exact absurd (decide_eq_true same) (List.find?_eq_none.mp last parameter (List.mem_reverse.mpr listed))
    | some parameter => exact congrArg some (identity_of_find last)
  rw [effective, List.map_filterMap]
  refine (List.filterMap_congr fun key member => found key ?_).trans List.filterMap_some
  exact List.mem_eraseDups.mp (List.mem_filter.mp member).1

theorem values_mergeParameters_effective (declared : List Document.Parameter) :
    (mergeParameters (effective declared)).values = effective declared := by
  have distinct : ((effective declared).map identity).Nodup := by
    rw [map_identity_effective, ← keys_mergeParameters]
    exact (mergeParameters declared).distinct.filter _
  have entries : (mergeParameters (effective declared)).entries =
      (effective declared).map fun parameter => (identity parameter, parameter) :=
    Table.entries_ofList (by rwa [List.map_map])
  rw [Table.values, entries, List.map_map]
  exact List.map_id _

def keyword : Api.ParamLocation → String
  | .path => "path"
  | .query => "query"
  | .header => "header"

/-- A parameter of the model says what its declaration says; one in the path is required. -/
structure ParameterFor (components : Table String SchemaNode) (registry : Registry) (declared : Document.Parameter)
    (parameter : Api.Parameter) : Prop where
  name : parameter.name = declared.name
  location : keyword parameter.location = declared.location
  schema : ∀ node, declared.schema = some node → UsageOf components registry node parameter.schema
  noSchema : declared.schema = none → parameter.schema = .unknown
  required : parameter.required = true ↔ declared.required = true ∨ declared.location = "path"
  description : parameter.description = declared.description

variable {components : Components}

theorem ParameterFor.mono {before after : Registry} {declared : Document.Parameter} {parameter : Api.Parameter}
    (keeps : Keeps before after) (same : ParameterFor components.schemas before declared parameter) :
    ParameterFor components.schemas after declared parameter :=
  { same with schema := fun node written => (same.schema node written).mono keeps }

private theorem ofKeyword?_eq_some {text : String} {location : Api.ParamLocation} :
    Api.ParamLocation.ofKeyword? text = some location ↔ keyword location = text := by
  unfold Api.ParamLocation.ofKeyword?
  cases location <;> split <;> simp_all [keyword, eq_comm]

private theorem ofKeyword?_eq_none {declared : Document.Parameter} :
    Api.ParamLocation.ofKeyword? declared.location = none ↔ declared.location ∉ supported := by
  unfold Api.ParamLocation.ofKeyword? supported
  split <;> simp_all

private theorem lasting (declared : List Document.Parameter) (resolved : List Api.Parameter) :
    Lasting fun registry => List.Forall₂ (ParameterFor components.schemas registry) declared resolved :=
  fun _ _ keeps all => all.imp fun _ _ same => same.mono keeps

private theorem resolveParameter_for (owners : OperationOwners) (declared : Document.Parameter) :
    Resolves components.schemas (resolveParameter components owners declared) fun resolved after =>
      List.Forall₂ (ParameterFor components.schemas after) ([declared].filter (·.location ∈ supported)) resolved.toList := by
  unfold resolveParameter
  split
  next unsupported =>
    rw [List.filter_cons_of_neg (by simpa using ofKeyword?_eq_none.mp unsupported)]
    exact .pure fun _ => .nil
  next location known =>
    have written := ofKeyword?_eq_some.mp known
    have kept : declared.location ∈ supported := by
      rw [← written]
      cases location <;> decide
    have required : (declared.required || decide (location = .path)) = true ↔
        declared.required = true ∨ declared.location = "path" := by
      rw [← written]
      cases location <;> simp [keyword]
    rw [List.filter_cons_of_pos (by simpa using kept)]
    cases given : declared.schema with
    | none =>
      refine .pure fun registry => .cons ⟨rfl, written, ?_, fun _ => rfl, required, rfl⟩ .nil
      simp [given]
    | some node =>
      refine .bind (usage_resolves (follow_follows components.schemas) (reads_ofNode node) _) (fun _ => ?_) fun schema =>
        .pure fun registry usage => .cons ⟨rfl, written, ?_, ?_, required, rfl⟩ .nil
      · exact fun _ _ keeps usage => usage.mono keeps
      · simpa [given] using usage
      · simp [given]

theorem resolveParameters_for (owners : OperationOwners) (declared : List Document.Parameter) :
    Resolves components.schemas (resolveParameters components owners declared) fun resolved after =>
      List.Forall₂ (ParameterFor components.schemas after) (declared.filter (·.location ∈ supported)) resolved := by
  induction declared with
  | nil => exact .pure fun _ => .nil
  | cons first rest ih =>
    rw [resolveParameters]
    refine .bind (resolveParameter_for owners first) (fun _ => lasting _ _) fun resolved => ?_
    refine .bind ih (lasting _) fun others => .pure fun registry later own => ?_
    have both : List.Forall₂ (ParameterFor components.schemas registry)
        ([first].filter (·.location ∈ supported) ++ rest.filter (·.location ∈ supported)) (resolved.toList ++ others) :=
      List.rel_append own later
    rwa [← List.filter_append] at both

theorem mapM_eq_ok {ε α β : Type} {f : α → Except ε β} {items : List α} {values : List β} :
    items.mapM f = .ok values ↔ List.Forall₂ (fun item value => f item = .ok value) items values := by
  induction items generalizing values with
  | nil => simp [pure, Except.pure, eq_comm]
  | cons item items ih =>
    rw [List.mapM_cons, List.forall₂_cons_left_iff]
    cases first : f item with
    | error fault => simp [bind, Except.bind]
    | ok value =>
      have behind : (Except.ok value >>= fun value => items.mapM f >>= fun others => pure (value :: others)) = .ok values ↔
          ∃ others, items.mapM f = .ok others ∧ values = value :: others := by
        cases items.mapM f <;> simp [bind, Except.bind, pure, Except.pure, eq_comm]
      rw [behind]
      simp [ih]

variable (components) in
/-- The parameters of an operation that is declared with some, after all references have been followed. -/
def ParametersFor (registry : Registry) (items : List (RefOr Document.Parameter)) (parameters : List Api.Parameter) : Prop :=
  ∃ declared, List.Forall₂ (fun item parameter => chase "parameters" components.parameters maxChain item = .ok parameter)
      items declared ∧
    List.Forall₂ (ParameterFor components.schemas registry) (effective declared) parameters

theorem ParametersFor.mono {before after : Registry} {items : List (RefOr Document.Parameter)}
    {parameters : List Api.Parameter} (keeps : Keeps before after)
    (same : ParametersFor components before items parameters) : ParametersFor components after items parameters := by
  obtain ⟨declared, followed, all⟩ := same
  exact ⟨declared, followed, all.imp fun _ _ each => each.mono keeps⟩

theorem resolveParameters_filter (owners : OperationOwners) (declared : List Document.Parameter) :
    resolveParameters components owners (declared.filter (·.location ∈ supported)) =
      resolveParameters components owners declared := by
  induction declared with
  | nil => rfl
  | cons first rest ih =>
    by_cases kept : first.location ∈ supported
    · rw [List.filter_cons_of_pos (by simpa using kept), resolveParameters, ih, resolveParameters]
    · have left : resolveParameter components owners first = pure none := by
        rw [resolveParameter, ofKeyword?_eq_none.mpr kept]
      rw [List.filter_cons_of_neg (by simpa using kept), ih, resolveParameters, left]
      simp

end ClientForge.Resolve
