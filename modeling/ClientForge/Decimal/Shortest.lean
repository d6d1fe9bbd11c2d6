import ClientForge.Decimal.Binary64

/-!
The text of a binary number: the fewest digits that read back as it, and of those the nearest to it.
-/

namespace ClientForge.Decimal

/-- The number `digits · 10 ^ exponent`. -/
structure Digits where
  digits : Nat
  exponent : Int
  deriving DecidableEq, Repr

def binaryLe (a : Nat) (p : Int) (b : Nat) (q : Int) : Bool :=
  a * twos p.toNat * tens (-q).toNat ≤ b * tens q.toNat * twos (-p).toNat

def decimalLe (b : Nat) (q : Int) (a : Nat) (p : Int) : Bool :=
  b * tens q.toNat * twos (-p).toNat ≤ a * twos p.toNat * tens (-q).toNat

/-- Whether a decimal reads as the number `mantissa · 2 ^ exponent`: it lies between the middles to
the neighbours, which count if the mantissa is even. -/
def readsBack (mantissa : Nat) (exponent : Int) (d : Digits) : Bool :=
  let narrow := mantissa = twos (Binary64.precision - 1) && Binary64.minExponent < exponent
  let low := if narrow then 4 * mantissa - 1 else 4 * mantissa - 2
  let high := 4 * mantissa + 2
  let place := exponent - 2
  if mantissa % 2 = 0 then
    binaryLe low place d.digits d.exponent && decimalLe d.digits d.exponent high place
  else
    !decimalLe d.digits d.exponent low place && !binaryLe high place d.digits d.exponent

/-- The digits of `mantissa · 2 ^ exponent` above the place `10 ^ place`. -/
def floorAt (mantissa : Nat) (exponent : Int) (place : Int) : Nat :=
  (mantissa * twos exponent.toNat * tens (-place).toNat) / (tens place.toNat * twos (-exponent).toNat)

/-- Whether the middle of the grid points `down` and `down + 1` lies above `mantissa · 2 ^ exponent`,
or on it and `down` is even. -/
def prefersDown (mantissa : Nat) (exponent : Int) (down : Nat) (place : Int) : Bool :=
  if down % 2 = 0 then binaryLe (2 * mantissa) exponent (2 * down + 1) place
  else !decimalLe (2 * down + 1) place (2 * mantissa) exponent

/-- The neighbour on the grid of the place `10 ^ place` that reads back; of two, the nearer. -/
def atPlace? (mantissa : Nat) (exponent : Int) (place : Int) : Option Digits :=
  let down : Digits := ⟨floorAt mantissa exponent place, place⟩
  let up : Digits := ⟨down.digits + 1, place⟩
  match readsBack mantissa exponent down, readsBack mantissa exponent up with
  | true, true => some (if prefersDown mantissa exponent down.digits place then down else up)
  | true, false => some down
  | false, true => some up
  | false, false => none

/-- The first place from `place` downwards whose grid has a point that reads back; `count` bounds the
places that are tried. -/
def firstPlace (mantissa : Nat) (exponent : Int) : Nat → Int → Digits
  | 0, place => ⟨floorAt mantissa exponent place, place⟩
  | count + 1, place =>
    match atPlace? mantissa exponent place with
    | some d => d
    | none => firstPlace mantissa exponent count (place - 1)

def dropZeros : Nat → Digits → Digits
  | 0, d => d
  | count + 1, d =>
    if d.digits % 10 = 0 && d.digits ≠ 0 then dropZeros count ⟨d.digits / 10, d.exponent + 1⟩ else d

/-- The shortest digits of a positive number. -/
def shortest (mantissa : Nat) (exponent : Int) : Digits :=
  let size : Int := (Nat.log2 mantissa : Int) + exponent
  let place := if size < 0 then -((-size) * 3 / 10) + 1 else size * 4 / 10 + 1
  dropZeros 20 (firstPlace mantissa exponent 400 place)

/-- A place value in a run of digits: digits before the point and after it. -/
def positional (digits : List Char) (point : Int) : List Char :=
  if point ≤ 0 then ['0', '.'] ++ List.replicate (-point).toNat '0' ++ digits
  else if point < digits.length then digits.take point.toNat ++ ['.'] ++ digits.drop point.toNat
  else digits ++ List.replicate (point - digits.length).toNat '0' ++ ['.', '0']

/-- The digits with one of them before the point, and the power of ten, which always has a sign. -/
def scientific (digits : List Char) (point : Int) : List Char :=
  let front := match digits with
    | [] => []
    | [d] => [d]
    | d :: rest => d :: '.' :: rest
  front ++ (if 0 < point then ['e', '+'] else ['e']) ++ (toString (point - 1)).toList

/-- The text of a number: positional from `1e-5` up to `1e16`, and always with a point there. -/
def Binary64.text (x : Binary64) : String :=
  let sign := if x.negative then ['-'] else []
  if x.mantissa = 0 then String.ofList (sign ++ "0.0".toList)
  else
    let d := shortest x.mantissa x.exponent
    let digits := (toString d.digits).toList
    let point : Int := digits.length + d.exponent
    let body := if -5 < point && point ≤ 16 then positional digits point else scientific digits point
    String.ofList (sign ++ body)

end ClientForge.Decimal
