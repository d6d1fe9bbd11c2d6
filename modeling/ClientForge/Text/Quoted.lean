import ClientForge.Text.Shown

/-!
String literals: a text between double quotes, with escapes for the quote, the backslash, a few
controls, and by number for every other character that is not shown as it is.
-/

namespace ClientForge.Text

def hexDigit (n : Nat) : Char :=
  if n < 10 then Char.ofNat ('0'.toNat + n) else Char.ofNat ('a'.toNat + (n - 10))

/-- The hexadecimal digits of a number, most significant first and without leading zeros; `fuel`
bounds their count. -/
def hexDigitsWithin : Nat → Nat → List Char
  | 0, _ => []
  | fuel + 1, n => if n < 16 then [hexDigit n] else hexDigitsWithin fuel (n / 16) ++ [hexDigit (n % 16)]

def hexDigits (c : Char) : List Char := hexDigitsWithin 6 c.toNat

def escapeChar (c : Char) : List Char :=
  if c == '"' then ['\\', '"']
  else if c == '\\' then ['\\', '\\']
  else if c == '\x00' then ['\\', '0']
  else if c == '\t' then ['\\', 't']
  else if c == '\n' then ['\\', 'n']
  else if c == '\r' then ['\\', 'r']
  else if isShown c then [c]
  else ['\\', 'u', '\x7b'] ++ hexDigits c ++ ['\x7d']

/-- The literal that denotes a text. -/
def quoted (text : String) : String :=
  String.ofList ('"' :: (text.toList.flatMap escapeChar ++ ['"']))

end ClientForge.Text
