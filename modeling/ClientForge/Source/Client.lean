import ClientForge.Source.Dispatch
import ClientForge.Source.Url

/-!
The source of a client: its type, its methods and their outcomes.
-/

namespace ClientForge.Source

open Api Plan

/-- The documentation of a method: summary, description, and the request that it makes. -/
def methodDoc (method : Method) : String :=
  ((method.summary.map fun summary => Text.trim summary ++ "\n\n").getD "") ++
    ((method.description.map fun description => Text.trim description ++ "\n\n").getD "") ++
    "`" ++ method.httpMethod.token ++ " " ++ method.path ++ "`"

def argumentText (ident : String) (type : TypeRef) : String :=
  ident ++ ": " ++ type.text clientQualifier

def methodArguments (method : Method) : List String :=
  "&self" :: method.params.map (fun param => argumentText param.ident param.type) ++
    (method.body.map fun body => argumentText body.ident body.type).toList

/-- The statement that puts a parameter into the request; `value` is an expression for it. -/
def paramStatement (param : Param) (type : TypeRef) (value : String) : String :=
  let name := Text.quoted param.wireName
  match param.location, type with
  | .path, _ => ""
  | .query, .list _ =>
    "for item in " ++ value ++ " \x7b\n    request = request.query(&[(" ++ name ++ ", item)]);\n\x7d"
  | .query, _ => "request = request.query(&[(" ++ name ++ ", " ++ value ++ ")]);"
  | .header, .list _ =>
    "request = request.header(" ++ name ++ ", " ++ value ++
      ".iter().map(|item| item.to_string()).collect::<Vec<_>>().join(\",\"));"
  | .header, _ => "request = request.header(" ++ name ++ ", " ++ value ++ ".to_string());"

/-- The lines that put a parameter into the request. An optional one is put there if it is given,
and a path parameter stands in the URL already. -/
def paramLines (param : Param) : List String :=
  if param.location = .path then []
  else
    match param.type with
    | .optional type =>
      ["        if let Some(value) = &" ++ param.ident ++ " \x7b"] ++
        (Text.lines (paramStatement param type "value")).map ("            " ++ ·) ++
        ["        \x7d"]
    | type =>
      (Text.lines (paramStatement param type ("&" ++ param.ident))).map ("        " ++ ·)

/-- How a body of a content type is sent. -/
def bodyCall (contentType : String) : String :=
  if contentType = "application/x-www-form-urlencoded" then ".form" else ".json"

def bodyLines (body : Body) : List String :=
  if body.type.isOptional then
    ["        if let Some(value) = &" ++ body.ident ++ " \x7b",
      "            request = request" ++ bodyCall body.contentType ++ "(value);",
      "        \x7d"]
  else
    ["        request = request" ++ bodyCall body.contentType ++ "(&" ++ body.ident ++ ");"]

def methodLines (method : Method) : List String :=
  docComment "    " (some (methodDoc method)) ++
    (if method.deprecated then ["    #[deprecated]"] else []) ++
    ["    pub async fn " ++ method.name ++ "(" ++ ", ".intercalate (methodArguments method) ++
        ") -> Result<" ++ method.result.typeName ++ ", reqwest::Error> \x7b",
      "        let url = " ++ urlExpression method.params method.path ++ ";",
      "        let mut request = self.config.http.request(reqwest::Method::" ++
        method.httpMethod.token ++ ", url);",
      "        request = self.config.apply_security(request);"] ++
    method.params.flatMap paramLines ++
    (method.body.map bodyLines).getD [] ++
    ["        let response = match request.send().await \x7b",
      "            Ok(response) => response,",
      "            Err(error) => \x7b",
      "                self.config.log_error(&error);",
      "                return Err(error);",
      "            \x7d",
      "        \x7d;"] ++
    dispatchLines method.result ++
    ["    \x7d"]

def tagLine (tag : String) : String :=
  if tag = "" then "//! Operations without a tag." else "//! Operations tagged `" ++ tag ++ "`."

def clientLines (client : Client) : List String :=
  header ++
    [tagLine client.tag,
      "",
      "use super::super::config::ClientConfig;",
      "#[allow(unused_imports)]",
      "use super::super::models;",
      "",
      "/// Client for the `" ++ client.moduleName ++ "` operations.",
      "#[derive(Debug, Clone)]",
      "pub struct " ++ client.typeName ++ " \x7b",
      "    config: ClientConfig,",
      "\x7d",
      "",
      "impl " ++ client.typeName ++ " \x7b",
      "    /// Creates a client.",
      "    pub fn new(config: ClientConfig) -> Self \x7b",
      "        Self \x7b config \x7d",
      "    \x7d",
      "",
      "    /// Shared configuration.",
      "    pub fn config(&self) -> &ClientConfig \x7b",
      "        &self.config",
      "    \x7d"] ++
    client.methods.flatMap (fun method => "" :: methodLines method) ++
    ["\x7d"] ++
    client.methods.flatMap fun method =>
      "" :: familyLines method.result client.typeName method.name

end ClientForge.Source
