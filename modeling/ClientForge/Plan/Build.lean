import ClientForge.Api.Model
import ClientForge.Config
import ClientForge.Plan.Method
import ClientForge.Plan.Model
import ClientForge.Plan.Reach

/-!
Planning a run: which operations it is about and which schemas they use, which declarations the
source has for them, and what each of these is called.
-/

namespace ClientForge.Plan

open Api Ident

/-- The wanted operations by tag; a tag without any is left out. -/
def wantedGroups (model : Model) (config : Config) : Table String (List Operation) :=
  (model.groups.mapValues fun operations => operations.filter fun operation =>
    config.allows operation.path).filter fun _ operations => !operations.isEmpty

/-- The names of the schemas that operations use, directly or through other schemas. -/
def reachable (model : Model) (operations : List Operation) : List String :=
  reach model.schemas Schema.references (operations.flatMap Operation.references)

/-- The schemas that the wanted operations use, in the order of the model. -/
def usedSchemas (model : Model) (config : Config) : Table String Schema :=
  let names := reachable model (wantedGroups model config).values.flatten
  model.schemas.filter fun name _ => names.contains name

def typeNames (schemas : Table String Schema) : List String :=
  Scope.pascal.allocateAll (schemas.keys.map typeIdent)

/-- The type name of a schema among those with a type name. -/
def typeNameOf (named : List (String × String)) (name : String) : String :=
  (named.lookup name).getD (typeIdent name)

def modelDecls (schemas : Table String Schema) (typeName : String → String) (settings : Settings) :
    List ModelDecl :=
  let names := typeNames schemas
  let stems := Scope.snake.allocateAll (names.map snakeIdent)
  (schemas.entries.zip (names.zip stems)).map fun ((schemaName, schema), name, fileStem) =>
    { schemaName
      typeName := name
      fileStem
      kind := modelKind schemas typeName settings schemaName schema }

def clientDecls (typeName : String → String) (groups : Table String (List Operation)) : List Client :=
  let types := Scope.pascal.allocateAll (groups.keys.map clientTypeName)
  let modules := Scope.snake.allocateAll (groups.keys.map moduleIdent)
  (groups.entries.zip (types.zip modules)).map fun ((tag, operations), clientType, moduleName) =>
    { tag
      moduleName
      typeName := clientType
      methods := methods typeName clientType operations }

def keyDecls (schemes : List KeyScheme) : List Key :=
  let idents := Scope.snake.allocateAll (schemes.map fun scheme => snakeIdent scheme.name)
  (schemes.zip idents).map fun (scheme, ident) =>
    { ident, schemeName := scheme.name, location := scheme.location, keyName := scheme.keyName }

def build (model : Model) (config : Config) (settings : Settings) : Plan :=
  let schemas := usedSchemas model config
  let typeName := typeNameOf (schemas.keys.zip (typeNames schemas))
  { package := config.packageSegments
    baseUrl := model.serverUrl
    keys := keyDecls model.keySchemes
    clients := clientDecls typeName (wantedGroups model config)
    models := modelDecls schemas typeName settings
    settings }

end ClientForge.Plan
