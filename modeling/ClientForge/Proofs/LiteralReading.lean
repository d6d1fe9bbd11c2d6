import ClientForge.Text.Quoted
import ClientForge.Yaml.Token.Quoted
import Mathlib.Algebra.Group.Nat.Defs
import Mathlib.Tactic.SplitIfs

/-! String literals as they read: an escape is a backslash with a letter, or with `u` and a code point between
braces, and what else stands in front of the closing quote stands for itself. The reader knows nothing of how a
literal has been written. It reads every quoted text back, and goes no further than its closing quote. -/

namespace ClientForge.Text
open Yaml

/-- Where in a literal a reader is; among the digits of a code point it remembers those behind it. -/
inductive LiteralState where
  | between
  | escape
  | braced
  | digits (before : List Char)
  deriving DecidableEq, Repr

def escapedChar? : Char → Option Char
  | '"' => some '"'
  | '\'' => some '\''
  | '\\' => some '\\'
  | '0' => some '\x00'
  | 't' => some '\t'
  | 'n' => some '\n'
  | 'r' => some '\r'
  | _ => none

/-- The character of a code point, which has one digit at least and six at most. -/
def codePoint? (digits : List Char) : Option Char :=
  if digits ≠ [] ∧ digits.length ≤ 6 then (hexNumber? digits).bind charOfCode? else none

def readBefore (c : Char) : Option (List Char × List Char) → Option (List Char × List Char) :=
  Option.map fun (text, behind) => (c :: text, behind)

/-- Reads a literal on from behind its first quote. Gives its text and what stands behind its last quote. -/
def readLiteral : LiteralState → List Char → Option (List Char × List Char)
  | _, [] => none
  | .between, c :: rest =>
    if c = '"' then some ([], rest)
    else if c = '\\' then readLiteral .escape rest
    else if c = '\r' then none
    else readBefore c (readLiteral .between rest)
  | .escape, c :: rest =>
    if c = 'u' then readLiteral .braced rest
    else (escapedChar? c).bind fun d => readBefore d (readLiteral .between rest)
  | .braced, c :: rest => if c = '\x7b' then readLiteral (.digits []) rest else none
  | .digits before, c :: rest =>
    if c = '\x7d' then (codePoint? before).bind fun d => readBefore d (readLiteral .between rest)
    else readLiteral (.digits (before ++ [c])) rest

private theorem hexValue?_hexDigit {n : Nat} (small : n < 16) : hexValue? (hexDigit n) = some n := by
  have all : ∀ n < 16, hexValue? (hexDigit n) = some n := by decide
  exact all n small

private theorem hexNumber?_append_hexDigit (digits : List Char) {n : Nat} (small : n < 16) :
    hexNumber? (digits ++ [hexDigit n]) = (hexNumber? digits).map fun high => 16 * high + n := by
  rw [hexNumber?, hexNumber?, List.foldlM_append, Option.map_eq_bind]
  simp only [List.foldlM_cons, List.foldlM_nil, hexValue?_hexDigit small, Option.map_some, bind_pure]
  rfl

theorem hexNumber?_hexDigitsWithin {fuel n : Nat} (bound : n < 16 ^ fuel) :
    hexNumber? (hexDigitsWithin fuel n) = some n := by
  induction fuel generalizing n with
  | zero =>
    obtain rfl : n = 0 := by simpa using bound
    rfl
  | succ fuel ih =>
    rw [hexDigitsWithin]
    split
    · next small => simpa [hexNumber?] using hexNumber?_append_hexDigit [] small
    · have higher : n / 16 < 16 ^ fuel := Nat.div_lt_of_lt_mul (by rwa [← Nat.pow_succ'])
      rw [hexNumber?_append_hexDigit _ (Nat.mod_lt n (by decide)), ih higher, Option.map_some, Nat.div_add_mod]

private theorem length_hexDigitsWithin (fuel n : Nat) : (hexDigitsWithin fuel n).length ≤ fuel := by
  induction fuel generalizing n with
  | zero => exact Nat.le_refl 0
  | succ fuel ih =>
    rw [hexDigitsWithin]
    split
    · simp
    · simpa using ih (n / 16)

private theorem not_brace_of_mem_hexDigitsWithin {fuel n : Nat} {c : Char} (member : c ∈ hexDigitsWithin fuel n) :
    c ≠ '\x7d' := by
  have digit : ∀ n < 16, hexDigit n ≠ '\x7d' := by decide
  induction fuel generalizing n with
  | zero => cases member
  | succ fuel ih =>
    rw [hexDigitsWithin] at member
    split at member
    · next small => exact List.mem_singleton.mp member ▸ digit n small
    · rcases List.mem_append.mp member with higher | last
      · exact ih higher
      · exact List.mem_singleton.mp last ▸ digit (n % 16) (Nat.mod_lt n (by decide))

private theorem charOfCode?_toNat (c : Char) : charOfCode? c.toNat = some c := by
  have valid : c.toNat < 0xd800 ∨ 0xdfff < c.toNat ∧ c.toNat < 0x110000 := c.valid
  have scalar : ((0xd800 ≤ c.toNat && c.toNat ≤ 0xdfff) || 0x10ffff < c.toNat) = false := by
    simp only [Bool.or_eq_false_iff, Bool.and_eq_false_iff, decide_eq_false_iff_not]
    omega
  rw [charOfCode?, scalar, if_neg (by decide), Char.ofNat_toNat]

theorem codePoint?_hexDigits (c : Char) : codePoint? (hexDigits c) = some c := by
  have bound : c.toNat < 16 ^ 6 := by
    have valid : c.toNat < 0xd800 ∨ 0xdfff < c.toNat ∧ c.toNat < 0x110000 := c.valid
    omega
  have some : hexDigits c ≠ [] := by
    rw [hexDigits, hexDigitsWithin]
    split <;> simp
  rw [codePoint?, if_pos ⟨some, length_hexDigitsWithin 6 _⟩, hexDigits, hexNumber?_hexDigitsWithin bound,
    Option.bind_some, charOfCode?_toNat]

private theorem readLiteral_digits (before : List Char) {digits : List Char} (rest : List Char)
    (inside : ∀ c ∈ digits, c ≠ '\x7d') :
    readLiteral (.digits before) (digits ++ '\x7d' :: rest) =
      (codePoint? (before ++ digits)).bind fun c => readBefore c (readLiteral .between rest) := by
  induction digits generalizing before with
  | nil => simp [readLiteral]
  | cons c digits ih =>
    obtain ⟨other, others⟩ := List.forall_mem_cons.mp inside
    rw [List.cons_append, readLiteral, if_neg other, ih _ others, List.append_assoc, List.singleton_append]

private theorem readLiteral_escapeChar (c : Char) (rest : List Char) :
    readLiteral .between (escapeChar c ++ rest) = readBefore c (readLiteral .between rest) := by
  unfold escapeChar
  split_ifs with quote backslash zero tab newline carriage shown
  · obtain rfl := beq_iff_eq.mp quote
    rfl
  · obtain rfl := beq_iff_eq.mp backslash
    rfl
  · obtain rfl := beq_iff_eq.mp zero
    rfl
  · obtain rfl := beq_iff_eq.mp tab
    rfl
  · obtain rfl := beq_iff_eq.mp newline
    rfl
  · obtain rfl := beq_iff_eq.mp carriage
    rfl
  · rw [beq_iff_eq] at quote backslash carriage
    rw [List.singleton_append, readLiteral, if_neg quote, if_neg backslash, if_neg carriage]
  · have digits := readLiteral_digits [] rest fun d (member : d ∈ hexDigits c) => not_brace_of_mem_hexDigitsWithin member
    rw [List.nil_append, codePoint?_hexDigits, Option.bind_some] at digits
    simpa [readLiteral] using digits

private theorem readLiteral_escaped (text rest : List Char) :
    readLiteral .between (text.flatMap escapeChar ++ '"' :: rest) = some (text, rest) := by
  induction text with
  | nil => rfl
  | cons c text ih => rw [List.flatMap_cons, List.append_assoc, readLiteral_escapeChar, ih]; rfl

def readQuoted : List Char → Option (List Char × List Char)
  | '"' :: rest => readLiteral .between rest
  | _ => none

/-- A quoted text reads back, whatever stands behind it. -/
theorem readQuoted_quoted (text : String) (rest : List Char) :
    readQuoted ((quoted text).toList ++ rest) = some (text.toList, rest) := by
  have literal := readLiteral_escaped text.toList rest
  simpa [quoted, readQuoted] using literal

end ClientForge.Text
