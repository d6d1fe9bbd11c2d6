import ClientForge.Plan.Build
import ClientForge.Proofs.ScopeAllocation

/-! The names that declarations carry. Each list of declarations is as long as what it is planned
from, so that its names are those that its scope allocated, all of them and in their order. -/

namespace ClientForge.Plan
open Api Ident

private theorem map_zip_first {items : List α} {first : List β} {second : List γ}
    (inside : first.length ≤ items.length) (same : second.length = first.length) :
    (items.zip (first.zip second)).map (fun entry => entry.2.1) = first := by
  calc (items.zip (first.zip second)).map (fun entry => entry.2.1)
      = ((items.zip (first.zip second)).map Prod.snd).map Prod.fst := by simp
    _ = (first.zip second).map Prod.fst := by rw [List.map_snd_zip (by simp; omega)]
    _ = first := List.map_fst_zip (by omega)

private theorem map_zip_second {items : List α} {first : List β} {second : List γ}
    (inside : first.length ≤ items.length) (same : second.length = first.length) :
    (items.zip (first.zip second)).map (fun entry => entry.2.2) = second := by
  calc (items.zip (first.zip second)).map (fun entry => entry.2.2)
      = ((items.zip (first.zip second)).map Prod.snd).map Prod.snd := by simp
    _ = (first.zip second).map Prod.snd := by rw [List.map_snd_zip (by simp; omega)]
    _ = second := List.map_snd_zip (by omega)

theorem params_idents (typeName : String → String) (parameters : List Parameter) :
    (params typeName parameters).map (·.ident) = (Scope.snake.reserveAll reservedLocals).allocateAll
      (parameters.map fun parameter => snakeIdent parameter.name) := by
  simp only [params, List.map_map, Function.comp_def]
  exact List.map_snd_zip (by simp)

theorem fields_idents (schemas : Table String Schema) (typeName : String → String) (name : String)
    (properties : List (String × Property Schema)) :
    (fields schemas typeName name properties).map (·.ident) =
      Scope.snake.allocateAll (properties.map fun (key, _) => snakeIdent key) := by
  simp only [fields, List.map_map, Function.comp_def]
  exact List.map_snd_zip (by simp)

theorem keyDecls_idents (schemes : List KeyScheme) :
    (keyDecls schemes).map (·.ident) =
      Scope.snake.allocateAll (schemes.map fun scheme => snakeIdent scheme.name) := by
  simp only [keyDecls, List.map_map, Function.comp_def]
  exact List.map_snd_zip (by simp)

/-- The members of an enumeration and its fallback share one scope. -/
theorem members_idents (literals : List String) (fallback : Option String) :
    (members literals fallback).1.map (·.ident) ++ (members literals fallback).2.toList =
      Scope.pascal.allocateAll ((literals ++ fallback.toList).map memberIdent) := by
  generalize allocated : Scope.pascal.allocateAll ((literals ++ fallback.toList).map memberIdent) = idents
  have size : idents.length = literals.length + fallback.toList.length := by simp [← allocated]
  have firsts : (literals.zip idents).map Prod.snd = idents.take literals.length := by
    rw [List.zip_eq_zip_take_min, Nat.min_eq_left (by omega)]
    exact List.map_snd_zip (by simp only [List.length_take]; omega)
  have rest : idents[literals.length]?.toList = idents.drop literals.length := by
    cases fallback with
    | none => simp at size; simp [size]
    | some fallback =>
      have inside : literals.length < idents.length := by simp [size]
      rw [List.drop_eq_getElem_cons inside, List.drop_of_length_le (by simp [size])]
      simp [inside]
  simp only [members, allocated, List.map_map, Function.comp_def, rest]
  rw [firsts, List.take_append_drop]

@[simp]
theorem length_typeNames (schemas : Table String Schema) :
    (typeNames schemas).length = schemas.entries.length := by
  simp [typeNames, Table.keys]

theorem modelDecls_typeNames (schemas : Table String Schema) (typeName : String → String)
    (settings : Settings) :
    (modelDecls schemas typeName settings).map (·.typeName) = typeNames schemas := by
  simp only [modelDecls, List.map_map, Function.comp_def]
  exact map_zip_first (by simp) (by simp)

theorem modelDecls_schemaNames (schemas : Table String Schema) (typeName : String → String)
    (settings : Settings) :
    (modelDecls schemas typeName settings).map (·.schemaName) = schemas.keys := by
  have entries : (schemas.entries.zip ((typeNames schemas).zip
      (Scope.snake.allocateAll ((typeNames schemas).map snakeIdent)))).map Prod.fst = schemas.entries :=
    List.map_fst_zip (by simp)
  rw [Table.keys]
  conv => rhs; rw [← entries]
  simp only [modelDecls, List.map_map, Function.comp_def]

theorem modelDecls_fileStems (schemas : Table String Schema) (typeName : String → String)
    (settings : Settings) :
    (modelDecls schemas typeName settings).map (·.fileStem) =
      Scope.snake.allocateAll ((typeNames schemas).map snakeIdent) := by
  simp only [modelDecls, List.map_map, Function.comp_def]
  exact map_zip_second (by simp) (by simp)

theorem clientDecls_typeNames (typeName : String → String) (groups : Table String (List Operation)) :
    (clientDecls typeName groups).map (·.typeName) =
      Scope.pascal.allocateAll (groups.keys.map clientTypeName) := by
  simp only [clientDecls, List.map_map, Function.comp_def]
  exact map_zip_first (by simp [Table.keys]) (by simp)

theorem clientDecls_moduleNames (typeName : String → String)
    (groups : Table String (List Operation)) :
    (clientDecls typeName groups).map (·.moduleName) =
      Scope.snake.allocateAll (groups.keys.map moduleIdent) := by
  simp only [clientDecls, List.map_map, Function.comp_def]
  exact map_zip_second (by simp [Table.keys]) (by simp)

theorem methods_names (typeName : String → String) (clientType : String)
    (operations : List Operation) :
    (methods typeName clientType operations).map (·.name) =
      methodNames (operations.map Operation.toEndpoint) reservedMethods := by
  simp only [methods, method, List.map_map, Function.comp_def]
  exact map_zip_first (by simp) (by simp)

theorem methods_familyTypes (typeName : String → String) (clientType : String)
    (operations : List Operation) :
    (methods typeName clientType operations).map (·.result.typeName) =
      (Scope.pascal.reserveAll [clientType, "ClientConfig"]).allocateAll
        ((methodNames (operations.map Operation.toEndpoint) reservedMethods).map familyName) := by
  simp only [methods, method, family, List.map_map, Function.comp_def]
  exact map_zip_second (by simp) (by simp)

end ClientForge.Plan
