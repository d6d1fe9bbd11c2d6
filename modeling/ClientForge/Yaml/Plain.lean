import ClientForge.Text.Utf8
import ClientForge.Value.Basic

/-!
What plain scalars denote: nothing, truth values, numbers, and otherwise texts. Digits behind a zero
are no number.
-/

namespace ClientForge.Yaml

def isNullWord (text : List Char) : Bool :=
  ["~", "null", "Null", "NULL"].contains (String.ofList text)

def boolOf? (text : List Char) : Option Bool :=
  if ["true", "True", "TRUE"].contains (String.ofList text) then some true
  else if ["false", "False", "FALSE"].contains (String.ofList text) then some false
  else none

/-- The number that digits of a base denote. -/
def digitsOf? (base : Nat) (digits : List Char) : Option Nat :=
  if digits = [] then none
  else digits.foldlM (fun n c =>
    match Text.hexValue? c with
    | some d => if d < base then some (base * n + d) else none
    | none => none) 0

def withoutPlus : List Char → List Char
  | '+' :: rest => rest
  | text => text

def isSigned : List Char → Bool
  | '+' :: _ => true
  | '-' :: _ => true
  | _ => false

/-- Whether a text is digits behind a zero, perhaps with a sign. -/
def isPaddedDigits (text : List Char) : Bool :=
  match (if isSigned text then text.tail else text) with
  | '0' :: d :: rest => (d :: rest).all Char.isDigit
  | _ => false

/-- The number that a text with a base before its digits denotes. -/
def basedDigits? : List Char → Option Nat
  | '0' :: 'x' :: digits => digitsOf? 16 digits
  | '0' :: 'o' :: digits => digitsOf? 8 digits
  | '0' :: 'b' :: digits => digitsOf? 2 digits
  | _ => none

def integerOf? (text : List Char) : Option Int :=
  match text with
  | '-' :: rest =>
    match basedDigits? rest with
    | some n => some (-n)
    | none => if isPaddedDigits text then none else (digitsOf? 10 rest).map fun n => -n
  | _ =>
    match basedDigits? (withoutPlus text) with
    | some n => some n
    | none =>
      if isPaddedDigits text then none else (digitsOf? 10 (withoutPlus text)).map fun n => n

/-- The exponent of a decimal: `e` and digits, perhaps with a sign. -/
def exponentOf? : List Char → Option Int
  | [] => some 0
  | e :: rest =>
    if e == 'e' || e == 'E' then
      match rest with
      | '-' :: digits => (digitsOf? 10 digits).map fun n => -n
      | _ => (digitsOf? 10 (withoutPlus rest)).map fun n => n
    else none

/-- The finite number that a decimal without a plus sign denotes: digits with a point among, before
or behind them, and perhaps an exponent. -/
def decimalOf? (text : List Char) : Option Decimal.Binary64 :=
  let negative := text.head? = some '-'
  let text := if negative then text.tail else text
  let whole := text.takeWhile Char.isDigit
  let rest := text.drop whole.length
  let (fraction, rest) := match rest with
    | '.' :: rest =>
      let fraction := rest.takeWhile Char.isDigit
      (fraction, rest.drop fraction.length)
    | _ => ([], rest)
  match digitsOf? 10 (whole ++ fraction), exponentOf? rest with
  | some digits, some exponent =>
    Decimal.Binary64.ofDecimal? negative digits (exponent - fraction.length)
  | _, _ => none

/-- What a number with a point denotes; the infinite ones and what is no number are nothing. -/
def realOf? (text : List Char) : Option Value :=
  if text.head? = some '+' && isSigned text.tail then none
  else if [".inf", ".Inf", ".INF"].contains (String.ofList (withoutPlus text)) then some .null
  else if ["-.inf", "-.Inf", "-.INF", ".nan", ".NaN", ".NAN"].contains (String.ofList text) then
    some .null
  else (decimalOf? (withoutPlus text)).map fun x => .number (.real x)

/-- What an integer is: a number if it has 64 bits, nothing that data can hold if it has up to 128,
and no integer beyond. -/
inductive IntegerSize where
  | number
  | unrepresentable
  | none
  deriving DecidableEq, Repr

def IntegerSize.of (n : Int) : IntegerSize :=
  if -0x8000000000000000 ≤ n && n < 0x10000000000000000 then .number
  else if -0x80000000000000000000000000000000 ≤ n && n < 0x100000000000000000000000000000000 then
    .unrepresentable
  else .none

/-- The value of a plain scalar, unless data cannot hold it. -/
def plainValue? (text : List Char) : Option Value :=
  let other := fun (_ : Unit) =>
    if isPaddedDigits text then Value.string (String.ofList text)
    else (realOf? text).getD (.string (String.ofList text))
  if text = [] || isNullWord text then some .null
  else
    match boolOf? text with
    | some b => some (.bool b)
    | none =>
      match integerOf? text with
      | none => some (other ())
      | some n =>
        match IntegerSize.of n with
        | .number => some (.number (.integer n))
        | .unrepresentable => none
        | .none => some (other ())

end ClientForge.Yaml
