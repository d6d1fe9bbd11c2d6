import Mathlib.Data.List.Forall2
import Mathlib.Data.List.Induction
import Mathlib.Tactic.IntervalCases
import ClientForge.Api.Status
import ClientForge.Proofs.DispatchReading

/-! Keys of responses and what they are read as. A code is three digits, a class of codes is a digit and two letters,
all the others are one word, and case does not count. Codes are read more freely than that: a plus sign in front
and leading zeros do not count either. -/

namespace ClientForge.Api.Status
open Source

/-- A word in lower case, with any of its letters in upper case. -/
def AnyCase (word text : List Char) : Prop := List.Forall₂ (fun letter c => c = letter ∨ c = letter.toUpper) word text

/-- How a status is written. -/
inductive IsKey : List Char → Status → Prop
  | exact {code : Nat} (least : 100 ≤ code) (most : code ≤ 599) : IsKey (digits code) (.exact code)
  | range {hundred : Nat} {letters : List Char} (least : 1 ≤ hundred) (most : hundred ≤ 5)
      (word : AnyCase "xx".toList letters) : IsKey (digits hundred ++ letters) (.range hundred)
  | default {text : List Char} (word : AnyCase "default".toList text) : IsKey text .default

/-- A code of a status behind a plus sign, leading zeros or both. -/
structure IsPadded (text : List Char) (code : Nat) : Prop where
  least : 100 ≤ code
  most : code ≤ 599
  written : ∃ sign zeros, (sign = [] ∨ sign = ['+']) ∧ text = sign ++ List.replicate zeros '0' ++ digits code
  padded : text ≠ digits code

/-- A text is read as the status that it is the key of, or as a code behind what does not count. -/
def IsRead (text : List Char) (status : Status) : Prop :=
  IsKey text status ∨ ∃ code, status = .exact code ∧ IsPadded text code

/-- What is left of a key without the blanks around it. -/
def Stripped (key text : List Char) : Prop :=
  ∃ front back, key = front ++ text ++ back ∧ (∀ c ∈ front ++ back, Text.isBlank c = true) ∧ Tight text

private theorem isAlpha_of_isLower {c : Char} (lower : c.isLower = true) : c.isAlpha = true :=
  Bool.or_eq_true_iff.mpr (Or.inr lower)

private theorem isAlpha_toUpper {c : Char} (lower : c.isLower = true) : c.toUpper.isAlpha = true :=
  Bool.or_eq_true_iff.mpr (Or.inl (Ident.isUpper_toUpper lower))

private theorem ne_of_isUpper {c letter : Char} (upper : c.isUpper = true) (lower : letter.isLower = true) : c ≠ letter := by
  rintro rfl
  rw [Ident.isUpper_iff] at upper
  rw [Ident.isLower_iff] at lower
  omega

private theorem toLower_eq_iff {letter : Char} (lower : letter.isLower = true) (c : Char) :
    c.toLower = letter.toLower ↔ c = letter ∨ c = letter.toUpper := by
  have own : letter.toLower = letter :=
    Ident.toLower_of_not_isUpper (Bool.eq_false_iff.mpr fun upper => ne_of_isUpper upper lower rfl)
  rw [own]
  cases upper : c.isUpper with
  | true =>
    have least := (Ident.isLower_iff.mp lower).1
    rw [or_iff_right (ne_of_isUpper upper lower), ← Char.toNat_inj, ← Char.toNat_inj, Ident.toNat_toLower upper,
      Ident.toNat_toUpper lower]
    omega
  | false =>
    have other : c ≠ letter.toUpper := by
      rintro rfl
      rw [Ident.isUpper_toUpper lower] at upper
      cases upper
    rw [Ident.toLower_of_not_isUpper upper, or_iff_left other]

private theorem toUpper_eq_iff {letter : Char} (lower : letter.isLower = true) (c : Char) :
    c.toUpper = letter.toUpper ↔ c = letter ∨ c = letter.toUpper := by
  cases small : c.isLower with
  | true =>
    have least := (Ident.isLower_iff.mp lower).1
    have leastOther := (Ident.isLower_iff.mp small).1
    rw [or_iff_left (ne_of_isUpper (Ident.isUpper_toUpper lower) small).symm, ← Char.toNat_inj, ← Char.toNat_inj,
      Ident.toNat_toUpper small, Ident.toNat_toUpper lower]
    omega
  | false =>
    have other : c ≠ letter := by
      rintro rfl
      rw [lower] at small
      cases small
    rw [Ident.toUpper_of_not_isLower small, or_iff_right other]

private theorem not_digit_of_isAlpha {c : Char} (letter : c.isAlpha = true) : c.isDigit = false ∧ c ≠ '+' := by
  constructor
  · exact (Bool.or_eq_true_iff.mp letter).elim Ident.not_isDigit_of_isUpper Ident.not_isDigit_of_isLower
  · rintro rfl
    cases letter

private theorem anyCase_iff {change : Char → Char} (word : List Char) {text : List Char}
    (alike : ∀ letter ∈ word, ∀ c, change c = change letter ↔ c = letter ∨ c = letter.toUpper) :
    text.map change = word.map change ↔ AnyCase word text := by
  induction word generalizing text with
  | nil => simp [AnyCase]
  | cons letter word ih =>
    obtain ⟨first, others⟩ := List.forall_mem_cons.mp alike
    cases text with
    | nil => simp [AnyCase]
    | cons c text =>
      rw [List.map_cons, List.map_cons, List.cons.injEq, AnyCase, List.forall₂_cons, first]
      exact and_congr_right' (ih others)

private theorem anyCase_default {text : List Char} : text.map Char.toLower = "default".toList ↔ AnyCase "default".toList text := by
  have lower : ∀ letter ∈ "default".toList, letter.isLower = true := List.all_eq_true.mp (by decide)
  exact anyCase_iff "default".toList fun letter member => toLower_eq_iff (lower letter member)

private theorem anyCase_xx {text : List Char} : text.map Char.toUpper = ['X', 'X'] ↔ AnyCase "xx".toList text := by
  have lower : ∀ letter ∈ "xx".toList, letter.isLower = true := List.all_eq_true.mp (by decide)
  exact anyCase_iff "xx".toList fun letter member => toUpper_eq_iff (lower letter member)

private theorem upper_default {text : List Char} (cased : AnyCase "default".toList text) :
    text.map Char.toUpper = "DEFAULT".toList := by
  have lower : ∀ letter ∈ "default".toList, letter.isLower = true := List.all_eq_true.mp (by decide)
  exact (anyCase_iff "default".toList fun letter member => toUpper_eq_iff (lower letter member)).mpr cased

private theorem toDigits_digit {c : Char} (digit : c.isDigit = true) : Nat.toDigits 10 (c.toNat - '0'.toNat) = [c] := by
  have spec := Ident.of_isNameChar (fun c => !c.isDigit || Nat.toDigits 10 (c.toNat - '0'.toNat) == [c]) (by decide +kernel)
    (Ident.isNameChar_of_isAlphanum (Ident.isAlphanum_of_isDigit digit))
  simpa [digit] using spec

/-- Digits are zeros and then the digits of their value, of which there are none if it is zero. -/
private theorem zeros_append {text : List Char} (digit : ∀ c ∈ text, c.isDigit = true) :
    ∃ zeros, text = List.replicate zeros '0' ++
      if Nat.ofDigitChars 10 text 0 = 0 then [] else Nat.toDigits 10 (Nat.ofDigitChars 10 text 0) := by
  induction text using List.reverseRecOn with
  | nil => exact ⟨0, rfl⟩
  | append_singleton text c ih =>
    obtain ⟨front, last⟩ := List.forall_mem_append.mp digit
    obtain ⟨zeros, whole⟩ := ih front
    have single := toDigits_digit (last c (List.mem_singleton_self c))
    have small : c.toNat - '0'.toNat < 10 := by
      have bounds := Char.isDigit_iff_toNat.mp (last c (List.mem_singleton_self c))
      simp only [Char.reduceToNat] at bounds ⊢
      omega
    rw [Nat.ofDigitChars_append, Nat.ofDigitChars_cons, Nat.ofDigitChars_nil]
    generalize Nat.ofDigitChars 10 text 0 = value at whole ⊢
    generalize c.toNat - '0'.toNat = unit at single small ⊢
    by_cases nothing : value = 0
    · subst nothing
      rw [if_pos rfl, List.append_nil] at whole
      rw [Nat.mul_zero, Nat.zero_add, whole, ← single]
      by_cases zero : unit = 0
      · subst zero
        exact ⟨zeros + 1, by rw [if_pos rfl, Nat.toDigits_zero, List.append_nil, List.replicate_succ']⟩
      · exact ⟨zeros, by rw [if_neg zero]⟩
    · refine ⟨zeros, ?_⟩
      rw [if_neg nothing] at whole
      rw [if_neg (by omega), ← Nat.toDigits_append_toDigits (by decide) (Nat.pos_of_ne_zero nothing) small, single,
        ← List.append_assoc, ← whole]

private theorem digit_of_mem_zeros {zeros n : Nat} : ∀ c ∈ List.replicate zeros '0' ++ digits n, c.isDigit = true := by
  intro c member
  rcases List.mem_append.mp member with zero | digit
  · rw [List.eq_of_mem_replicate zero]
    rfl
  · exact isDigit_of_mem_digits digit

private theorem value_iff {text : List Char} {n : Nat} (positive : 0 < n) :
    text ≠ [] ∧ (∀ c ∈ text, c.isDigit = true) ∧ Nat.ofDigitChars 10 text 0 = n ↔
      ∃ zeros, text = List.replicate zeros '0' ++ digits n := by
  have written : digits n = Nat.toDigits 10 n := Nat.toList_repr
  constructor
  · rintro ⟨-, digit, rfl⟩
    obtain ⟨zeros, whole⟩ := zeros_append digit
    exact ⟨zeros, by rwa [if_neg (by omega), ← written] at whole⟩
  · rintro ⟨zeros, rfl⟩
    refine ⟨by simp [written, Nat.toDigits_ne_nil], digit_of_mem_zeros, ?_⟩
    rw [Nat.ofDigitChars_append, Nat.ofDigitChars_replicate_zero, Nat.mul_zero, written,
      Nat.ofDigitChars_toDigits (by decide) (by decide)]

private theorem unsigned_iff {text : List Char} {n : Nat} (positive : 0 < n) :
    (if text.isEmpty || !text.all Char.isDigit then none
      else some (text.foldl (fun n c => 10 * n + (c.toNat - '0'.toNat)) 0)) = some n ↔
      ∃ zeros, text = List.replicate zeros '0' ++ digits n := by
  rw [← value_iff positive, ← Nat.ofDigitChars_eq_foldl]
  simp only [Bool.or_eq_true, List.isEmpty_iff, Bool.not_eq_true', List.all_eq_false, Option.ite_none_left_eq_some,
    not_or, Option.some.injEq, not_exists, not_and, Bool.not_eq_true, Bool.not_eq_false, and_assoc, ne_eq]

theorem number?_eq_some {text : List Char} {n : Nat} (positive : 0 < n) :
    number? text = some n ↔
      ∃ sign zeros, (sign = [] ∨ sign = ['+']) ∧ text = sign ++ List.replicate zeros '0' ++ digits n := by
  rw [number?]
  by_cases signed : text.head? = some '+'
  · obtain ⟨rest, rfl⟩ := List.head?_eq_some_iff.mp signed
    rw [if_pos signed, List.tail_cons, unsigned_iff positive]
    constructor
    · rintro ⟨zeros, rfl⟩
      exact ⟨['+'], zeros, Or.inr rfl, rfl⟩
    · rintro ⟨sign, zeros, rfl | rfl, whole⟩
      · have front : '+' ∈ List.replicate zeros '0' ++ digits n := whole ▸ List.mem_cons_self ..
        cases digit_of_mem_zeros '+' front
      · exact ⟨zeros, by simpa using whole⟩
  · rw [if_neg signed, unsigned_iff positive]
    constructor
    · rintro ⟨zeros, rfl⟩
      exact ⟨[], zeros, Or.inl rfl, rfl⟩
    · rintro ⟨sign, zeros, rfl | rfl, rfl⟩
      · exact ⟨zeros, rfl⟩
      · exact absurd rfl signed

private theorem eq_of_toUpper_digit {c : Char} (digit : c.toUpper.isDigit = true) : c.toUpper = c := by
  cases lower : c.isLower with
  | true =>
    rw [(not_digit_of_isAlpha (isAlpha_toUpper lower)).1] at digit
    cases digit
  | false => exact Ident.toUpper_of_not_isLower lower

theorem hundred?_eq_some {text : List Char} {hundred : Nat} :
    hundred? (text.map Char.toUpper) = some hundred ↔
      (1 ≤ hundred ∧ hundred ≤ 5) ∧ ∃ letters, AnyCase "xx".toList letters ∧ text = digits hundred ++ letters := by
  constructor
  · intro found
    unfold hundred? at found
    split at found
    next digit shape =>
      obtain ⟨c, letters, rfl, upper, word⟩ := List.map_eq_cons_iff.mp shape
      simp only [Option.ite_none_right_eq_some, Option.some.injEq, Bool.and_eq_true, decide_eq_true_eq, Char.le_def,
        UInt32.le_iff_toNat_le] at found
      obtain ⟨⟨least, most⟩, rfl⟩ := found
      have bounds : 49 ≤ digit.toNat ∧ digit.toNat ≤ 53 := ⟨least, most⟩
      have isDigit : digit.isDigit = true := by
        rw [Char.isDigit_iff_toNat]
        simp only [Char.reduceToNat]
        omega
      obtain rfl : digit = c := upper.symm.trans (eq_of_toUpper_digit (upper ▸ isDigit))
      have written : digits (digit.toNat - '0'.toNat) = [digit] := Nat.toList_repr.trans (toDigits_digit isDigit)
      refine ⟨?_, letters, anyCase_xx.mp word, by rw [written]; rfl⟩
      simp only [Char.reduceToNat]
      omega
    next => cases found
  · rintro ⟨⟨least, most⟩, letters, word, rfl⟩
    rw [List.map_append, anyCase_xx.mpr word]
    interval_cases hundred <;> rfl

private theorem head?_dropWhile {text : List Char} {c : Char} (first : (text.dropWhile Text.isBlank).head? = some c) :
    Text.isBlank c = false := by
  have spec := List.head?_dropWhile_not Text.isBlank text
  rw [first] at spec
  simpa using spec

private theorem stripped_trimChars (key : List Char) : Stripped key (Text.trimChars key) := by
  let rest := key.dropWhile Text.isBlank
  let back := (rest.reverse.takeWhile Text.isBlank).reverse
  have whole : Text.trimChars key ++ back = rest := by
    rw [Text.trimChars, Text.trimRight, ← List.reverse_append, List.takeWhile_append_dropWhile, List.reverse_reverse]
  refine ⟨key.takeWhile Text.isBlank, back, ?_, fun c member => ?_, fun c first => ?_, fun c last => ?_⟩
  · rw [List.append_assoc, whole, List.takeWhile_append_dropWhile]
  · rcases List.mem_append.mp member with front | behind
    · exact List.mem_takeWhile_imp front
    · exact List.mem_takeWhile_imp (List.mem_reverse.mp behind)
  · have begins : rest.head? = some c := by rw [← whole, List.head?_append, first, Option.some_or]
    exact head?_dropWhile begins
  · rw [Text.trimChars, Text.trimRight, List.getLast?_reverse] at last
    exact head?_dropWhile last

theorem stripped_iff {key text : List Char} : Stripped key text ↔ Text.trimChars key = text := by
  constructor
  · rintro ⟨front, back, rfl, blank, tight⟩
    exact trimChars_padded (fun c member => blank c (List.mem_append_left _ member))
      (fun c member => blank c (List.mem_append_right _ member)) tight
  · rintro rfl
    exact stripped_trimChars key

private theorem isRead_default {text : List Char} : IsRead text .default ↔ AnyCase "default".toList text := by
  constructor
  · rintro (written | ⟨code, same, -⟩)
    · cases written
      assumption
    · cases same
  · exact fun word => Or.inl (.default word)

private theorem isRead_range {text : List Char} {hundred : Nat} :
    IsRead text (.range hundred) ↔ hundred? (text.map Char.toUpper) = some hundred := by
  rw [hundred?_eq_some]
  constructor
  · rintro (written | ⟨code, same, -⟩)
    · cases written with
      | range least most word => exact ⟨⟨least, most⟩, _, word, rfl⟩
    · cases same
  · rintro ⟨⟨least, most⟩, letters, word, rfl⟩
    exact Or.inl (.range least most word)

private theorem isRead_exact {text : List Char} {code : Nat} :
    IsRead text (.exact code) ↔ (100 ≤ code ∧ code ≤ 599) ∧ number? text = some code := by
  constructor
  · rintro (written | ⟨code, same, padded⟩)
    · cases written with
      | exact least most =>
        exact ⟨⟨least, most⟩, (number?_eq_some (by omega)).mpr ⟨[], 0, Or.inl rfl, rfl⟩⟩
    · cases same
      exact ⟨⟨padded.least, padded.most⟩, (number?_eq_some (by have := padded.least; omega)).mpr padded.written⟩
  · rintro ⟨⟨least, most⟩, number⟩
    have written := (number?_eq_some (by omega)).mp number
    by_cases plain : text = digits code
    · exact Or.inl (plain ▸ .exact least most)
    · exact Or.inr ⟨code, rfl, least, most, written, plain⟩

private theorem AnyCase.not_number {letter : Char} {word text : List Char} {n : Nat} (cased : AnyCase (letter :: word) text)
    (lower : letter.isLower = true) (positive : 0 < n) (front : List Char) : number? (front ++ text) ≠ some n := by
  intro found
  obtain ⟨c, rest, same, -, rfl⟩ := List.forall₂_cons_left_iff.mp cased
  have notDigit : c.isDigit = false ∧ c ≠ '+' := by
    rcases same with rfl | rfl
    · exact not_digit_of_isAlpha (isAlpha_of_isLower lower)
    · exact not_digit_of_isAlpha (isAlpha_toUpper lower)
  obtain ⟨sign, zeros, signed, whole⟩ := (number?_eq_some positive).mp found
  have member : c ∈ sign ++ List.replicate zeros '0' ++ digits n := by simp [← whole]
  rw [List.append_assoc] at member
  rcases List.mem_append.mp member with plus | digit
  · rcases signed with rfl | rfl
    · cases plus
    · exact notDigit.2 (List.mem_singleton.mp plus)
  · rw [digit_of_mem_zeros c digit] at notDigit
    cases notDigit.1

private theorem not_isRead_exact {text : List Char} {code : Nat} (lettered : AnyCase "default".toList text ∨
    ∃ hundred, hundred? (text.map Char.toUpper) = some hundred) : ¬ IsRead text (.exact code) := by
  rw [isRead_exact]
  rintro ⟨⟨least, -⟩, number⟩
  rcases lettered with cased | ⟨hundred, found⟩
  · exact cased.not_number rfl (by omega) [] number
  · obtain ⟨-, letters, cased, rfl⟩ := hundred?_eq_some.mp found
    exact cased.not_number rfl (by omega) _ number

theorem parse_eq_some {key : String} {status : Status} :
    parse key = some status ↔ IsRead (Text.trimChars key.toList) status := by
  rw [parse]
  generalize Text.trimChars key.toList = text
  by_cases word : text.map Char.toLower = "default".toList
  · rw [if_pos word]
    have cased := anyCase_default.mp word
    cases status with
    | default => simpa using isRead_default.mpr cased
    | range hundred => simp [isRead_range, upper_default cased, hundred?]
    | exact code => simp [not_isRead_exact (.inl cased)]
  · rw [if_neg word]
    have other : ¬ IsRead text .default := fun read => word (anyCase_default.mpr (isRead_default.mp read))
    cases found : hundred? (text.map Char.toUpper) with
    | some hundred =>
      cases status with
      | default => simp [other]
      | range hundred => simp [isRead_range, found]
      | exact code => simp [not_isRead_exact (.inr ⟨hundred, found⟩)]
    | none =>
      cases status with
      | default =>
        refine iff_of_false ?_ other
        cases number? text <;> simp
      | range hundred =>
        rw [isRead_range, found]
        cases number? text <;> simp
      | exact code =>
        rw [isRead_exact]
        cases number? text with
        | none => simp
        | some number =>
          simp only [Option.ite_none_right_eq_some, Option.some.injEq, Bool.and_eq_true, decide_eq_true_eq, exact.injEq]
          exact and_congr_left (by rintro rfl; rfl)

theorem IsPadded.not_isKey {text : List Char} {code : Nat} (padded : IsPadded text code) (status : Status) :
    ¬ IsKey text status := by
  have positive : 0 < code := Nat.lt_of_lt_of_le (by decide) padded.least
  have number := (number?_eq_some positive).mpr padded.written
  intro written
  cases written with
  | @exact other least most =>
    have plain : number? (digits other) = some other := (number?_eq_some (by omega)).mpr ⟨[], 0, Or.inl rfl, rfl⟩
    obtain rfl : other = code := Option.some.inj (plain.symm.trans number)
    exact padded.padded rfl
  | range least most word => exact word.not_number rfl positive _ number
  | default word => exact word.not_number rfl positive [] number

/-- A key is read as the status that it denotes once the blanks around it are gone, where a code may have a plus sign and
zeros in front. So all that is read is how a status is written, unless it is a code with such a front. -/
theorem parse_reads (key : String) :
    (∀ status, parse key = some status ↔ ∃ text, Stripped key.toList text ∧ IsRead text status) ∧
      ((∀ status, parse key = some status ↔ ∃ text, Stripped key.toList text ∧ IsKey text status) ↔
        ∀ text, Stripped key.toList text → ∀ code, ¬ IsPadded text code) := by
  have read (status : Status) : parse key = some status ↔ ∃ text, Stripped key.toList text ∧ IsRead text status := by
    simp only [parse_eq_some, stripped_iff, exists_eq_left']
  refine ⟨read, ?_⟩
  simp only [read, stripped_iff, exists_eq_left', forall_eq']
  constructor
  · intro same code padded
    exact padded.not_isKey _ ((same (.exact code)).mp (Or.inr ⟨code, rfl, padded⟩))
  · intro plain status
    exact or_iff_left fun ⟨code, _, padded⟩ => plain code padded

/-- A code with a sign and a code with a zero in front are read, and neither is how a status is written. -/
theorem paddedKeys_accepted :
    (parse "+200" = some (.exact 200) ∧ ∀ text status, Stripped "+200".toList text → ¬ IsKey text status) ∧
      (parse "0200" = some (.exact 200) ∧ ∀ text status, Stripped "0200".toList text → ¬ IsKey text status) := by
  have signed : IsPadded "+200".toList 200 := ⟨by decide, by decide, ⟨['+'], 0, Or.inr rfl, rfl⟩, by decide⟩
  have zeros : IsPadded "0200".toList 200 := ⟨by decide, by decide, ⟨[], 1, Or.inl rfl, rfl⟩, by decide⟩
  refine ⟨⟨by rfl, fun text status stripped => ?_⟩, by rfl, fun text status stripped => ?_⟩
  · obtain rfl : "+200".toList = text := stripped_iff.mp stripped
    exact signed.not_isKey status
  · obtain rfl : "0200".toList = text := stripped_iff.mp stripped
    exact zeros.not_isKey status

end ClientForge.Api.Status
