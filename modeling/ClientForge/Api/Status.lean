import ClientForge.Text.Split

/-!
Status keys of documented responses: one code (`200`), a class of codes (`4XX`), or all the others
(`default`).
-/

namespace ClientForge.Api

/-- Which responses a documented outcome is for. -/
inductive Status where
  | exact (code : Nat)
  | range (hundred : Nat)
  | default
  deriving DecidableEq, Repr

namespace Status

/-- The number that decimal digits denote, perhaps after a plus sign. -/
def number? (chars : List Char) : Option Nat :=
  let digits := if chars.head? = some '+' then chars.tail else chars
  if digits.isEmpty || !digits.all Char.isDigit then none
  else some (digits.foldl (fun n c => 10 * n + (c.toNat - '0'.toNat)) 0)

/-- The class that a digit and two letters `X` denote. -/
def hundred? : List Char → Option Nat
  | [digit, 'X', 'X'] => if '1' ≤ digit && digit ≤ '5' then some (digit.toNat - '0'.toNat) else none
  | _ => none

def parse (key : String) : Option Status :=
  let chars := Text.trimChars key.toList
  if chars.map Char.toLower = "default".toList then some .default
  else match hundred? (chars.map Char.toUpper) with
    | some hundred => some (.range hundred)
    | none =>
      match number? chars with
      | some code => if 100 ≤ code && code ≤ 599 then some (.exact code) else none
      | none => none

def isSuccess : Status → Bool
  | exact code => 200 ≤ code && code < 300
  | range hundred => hundred = 2
  | default => false

/-- Whether an outcome is for one code of success. -/
def isExactSuccess : Status → Bool
  | exact code => 200 ≤ code && code < 300
  | _ => false

/-- How the outcome is called where an inline body is named after it. -/
def label : Status → String
  | exact code => toString code
  | range hundred => toString hundred ++ "xx"
  | default => "Default"

/-- The variant that stands for every status that is not documented. -/
def unknownFailure : String := "UnknownFailure"

/-- The variant for a documented status, where `successes` counts the documented codes of success: a
lone one is plainly `Success`. -/
def variantName (successes : Nat) : Status → String
  | exact code =>
    if code / 100 = 2 then
      if successes = 1 then "Success" else "Success" ++ toString code
    else if code / 100 = 4 || code / 100 = 5 then "Failure" ++ toString code
    else "Status" ++ toString code
  | range hundred =>
    if hundred = 2 then "Success2xx"
    else if hundred = 4 || hundred = 5 then "Failure" ++ toString hundred ++ "xx"
    else "Status" ++ toString hundred ++ "xx"
  | default => "Failure"

end Status

end ClientForge.Api
