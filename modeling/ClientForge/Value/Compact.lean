import ClientForge.Decimal.Shortest
import ClientForge.Text.Quoted
import ClientForge.Value.Basic

/-!
Values as JSON on one line without blanks.
-/

namespace ClientForge

def Number.text : Number → String
  | .integer n => toString n
  | .real x => x.text

namespace Value

/-- A character inside a JSON string. -/
def jsonChar (c : Char) : List Char :=
  if c == '"' then ['\\', '"']
  else if c == '\\' then ['\\', '\\']
  else if c == '\x08' then ['\\', 'b']
  else if c == '\x0c' then ['\\', 'f']
  else if c == '\n' then ['\\', 'n']
  else if c == '\r' then ['\\', 'r']
  else if c == '\t' then ['\\', 't']
  else if c.toNat < 0x20 then
    ['\\', 'u', '0', '0', Text.hexDigit (c.toNat / 16), Text.hexDigit (c.toNat % 16)]
  else [c]

def jsonString (text : String) : String :=
  String.ofList ('"' :: (text.toList.flatMap jsonChar ++ ['"']))

mutual

def compact : Value → String
  | .null => "null"
  | .bool b => if b then "true" else "false"
  | .number n => n.text
  | .string s => jsonString s
  | .array items => "[" ++ ",".intercalate (compactItems items) ++ "]"
  | .object fields => "\x7b" ++ ",".intercalate (compactFields fields) ++ "\x7d"

def compactItems : List Value → List String
  | [] => []
  | item :: items => compact item :: compactItems items

def compactFields : List (String × Value) → List String
  | [] => []
  | (key, value) :: fields => (jsonString key ++ ":" ++ compact value) :: compactFields fields

end

end Value

end ClientForge
