import ClientForge.Decimal.Binary64
import ClientForge.Table

/-!
The data of a document: numbers and texts in lists and in objects, whose keys keep their order.
-/

namespace ClientForge

/-- A number of a document. An integer is never equal to a number with a point. -/
inductive Number where
  | integer (n : Int)
  | real (x : Decimal.Binary64)
  deriving DecidableEq, Repr

def Number.same : Number → Number → Bool
  | .integer m, .integer n => m = n
  | .real x, .real y => x.same y
  | _, _ => false

inductive Value where
  | null
  | bool (b : Bool)
  | number (n : Number)
  | string (s : String)
  | array (items : List Value)
  | object (fields : List (String × Value))
  deriving Repr

namespace Value

instance : Inhabited Value := ⟨.null⟩

mutual

/-- Whether two values are equal. The order of an object's keys does not matter. -/
def same : Value → Value → Bool
  | .null, .null => true
  | .bool a, .bool b => a = b
  | .number m, .number n => m.same n
  | .string s, .string t => s = t
  | .array xs, .array ys => sameItems xs ys
  | .object xs, .object ys => xs.length = ys.length && sameFields xs ys
  | _, _ => false

def sameItems : List Value → List Value → Bool
  | [], [] => true
  | x :: xs, y :: ys => same x y && sameItems xs ys
  | _, _ => false

/-- Whether every field of the first object has an equal one in the second. -/
def sameFields : List (String × Value) → List (String × Value) → Bool
  | [], _ => true
  | (key, x) :: xs, ys =>
    (match ys.lookup key with
      | some y => same x y
      | none => false) && sameFields xs ys

end

def field? (key : String) : Value → Option Value
  | .object fields => fields.lookup key
  | _ => none

def string? : Value → Option String
  | .string s => some s
  | _ => none

def isNull : Value → Bool
  | .null => true
  | _ => false

end Value

end ClientForge
