import ClientForge.Plan.Declaration
import ClientForge.Source.Basic
import ClientForge.Text.Quoted

/-!
The source of the configuration that all clients share.
-/

namespace ClientForge.Source

open Api Plan

def flagText (flag : Bool) : String := if flag then "true" else "false"

def keyPlace : KeyLocation → String
  | .header => "header"
  | .query => "query parameter"

def keyFieldLines (key : Key) : List String :=
  ["    /// `" ++ key.keyName ++ "` " ++ keyPlace key.location ++ " (scheme `" ++ key.schemeName ++
      "`).",
    "    pub " ++ key.ident ++ ": Option<String>,"]

def keyStatementLines (key : Key) : List String :=
  ["        if let Some(value) = &self.api_keys." ++ key.ident ++ " \x7b",
    match key.location with
    | .header => "            request = request.header(" ++ Text.quoted key.keyName ++ ", value);"
    | .query => "            request = request.query(&[(" ++ Text.quoted key.keyName ++ ", value)]);",
    "        \x7d"]

/-- The function that puts the API keys into a request. -/
def securityLines : List Key → List String
  | [] =>
    ["    pub fn apply_security(&self, request: reqwest::RequestBuilder) -> reqwest::RequestBuilder \x7b"]
  | keys =>
    "    pub fn apply_security(&self, mut request: reqwest::RequestBuilder) -> reqwest::RequestBuilder \x7b"
      :: keys.flatMap keyStatementLines

def configLines (plan : Plan) : List String :=
  header ++
    ["//! Client configuration.",
      "",
      "/// Base URL declared by the API description.",
      "pub const DEFAULT_BASE_URL: &str = " ++ Text.quoted plan.baseUrl ++ ";",
      "",
      "/// Whether models reject undeclared fields.",
      "pub const DENY_UNKNOWN_FIELDS: bool = " ++ flagText plan.settings.denyUnknownFields ++ ";",
      "",
      "/// Whether absent optional fields serialize as `null`.",
      "pub const EXPLICIT_NULLS: bool = " ++ flagText plan.settings.explicitNulls ++ ";",
      "",
      "/// API keys injected into every request.",
      "#[derive(Debug, Clone, Default)]",
      "pub struct ApiKeys \x7b"] ++
    plan.keys.flatMap keyFieldLines ++
    ["\x7d",
      "",
      "/// Connection settings shared by all clients.",
      "#[derive(Debug, Clone)]",
      "pub struct ClientConfig \x7b",
      "    /// Base URL requests are sent to.",
      "    pub base_url: String,",
      "    /// Transport engine.",
      "    pub http: reqwest::Client,",
      "    /// API keys.",
      "    pub api_keys: ApiKeys,",
      "\x7d",
      "",
      "impl Default for ClientConfig \x7b",
      "    fn default() -> Self \x7b",
      "        Self::new(DEFAULT_BASE_URL)",
      "    \x7d",
      "\x7d",
      "",
      "impl ClientConfig \x7b",
      "    /// Creates a configuration for `base_url` with a default transport.",
      "    pub fn new(base_url: impl Into<String>) -> Self \x7b",
      "        Self \x7b",
      "            base_url: base_url.into(),",
      "            http: reqwest::Client::new(),",
      "            api_keys: ApiKeys::default(),",
      "        \x7d",
      "    \x7d",
      "",
      "    /// Replaces the transport engine.",
      "    pub fn with_http_client(mut self, http: reqwest::Client) -> Self \x7b",
      "        self.http = http;",
      "        self",
      "    \x7d",
      "",
      "    /// Sets the API keys.",
      "    pub fn with_api_keys(mut self, api_keys: ApiKeys) -> Self \x7b",
      "        self.api_keys = api_keys;",
      "        self",
      "    \x7d",
      "",
      "    /// Joins the base URL with an expanded path template.",
      "    pub fn url(&self, path: &str) -> String \x7b",
      "        format!(\"\x7b\x7d\x7b\x7d\", self.base_url.trim_end_matches('/'), path)",
      "    \x7d",
      "",
      "    /// Injects the configured API keys."] ++
    securityLines plan.keys ++
    ["        request",
      "    \x7d",
      "",
      "    /// Called when a request fails before a response is received.",
      "    pub fn log_error(&self, error: &reqwest::Error) \x7b",
      match plan.settings.errorLog with
      | some statement => "        " ++ Text.trim statement
      | none => "        let _ = error;",
      "    \x7d",
      "\x7d"]

end ClientForge.Source
