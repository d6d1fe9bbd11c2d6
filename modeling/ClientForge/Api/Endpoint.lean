/-!
Endpoints: an HTTP method at a path template, perhaps with a declared id.
-/

namespace ClientForge.Api

/-- The HTTP methods that a path can have operations for, in the order in which they are visited. -/
inductive HttpMethod where
  | get
  | put
  | post
  | delete
  | options
  | head
  | patch
  | trace
  deriving DecidableEq, Repr

namespace HttpMethod

def all : List HttpMethod := [get, put, post, delete, options, head, patch, trace]

def token : HttpMethod → String
  | get => "GET"
  | put => "PUT"
  | post => "POST"
  | delete => "DELETE"
  | options => "OPTIONS"
  | head => "HEAD"
  | patch => "PATCH"
  | trace => "TRACE"

/-- The key of a path item that holds the operation. -/
def key : HttpMethod → String
  | get => "get"
  | put => "put"
  | post => "post"
  | delete => "delete"
  | options => "options"
  | head => "head"
  | patch => "patch"
  | trace => "trace"

end HttpMethod

/-- Where an operation is found. -/
structure Endpoint where
  path : String
  method : HttpMethod
  operationId : Option String
  deriving DecidableEq, Repr

end ClientForge.Api
