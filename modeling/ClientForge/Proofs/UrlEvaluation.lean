import ClientForge.Proofs.DispatchReading
import ClientForge.Proofs.LiteralReading
import ClientForge.Proofs.PlanCollisions
import ClientForge.Proofs.PlanIdentifiers
import ClientForge.Source.Url

/-! The URL of a request as its expression reads: a literal that is the path itself, or a format string with an
argument for each of its places. What the expression denotes is compared with the path in which the values of the
parameters have taken the place of their placeholders. -/

namespace ClientForge.Source
open Ident Plan

variable {params : List Param} {value : Param → String}

/-- The text begins with a placeholder, and `behind` stands behind it. -/
structure Placeholder (text name behind : List Char) : Prop where
  written : text = '\x7b' :: name ++ '\x7d' :: behind
  nonempty : name ≠ []
  plain : ∀ c ∈ name, c ≠ '\x7b' ∧ c ≠ '\x7d'

/-- The parameter is the first one of the path with the name. -/
def FirstNamed (params : List Param) (name : List Char) (param : Param) : Prop :=
  (param.location = .path ∧ param.wireName.toList = name) ∧
    ∃ before after, params = before ++ param :: after ∧
      ∀ other ∈ before, other.location = .path → other.wireName.toList ≠ name

/-- A path, from left to right, with the values of the parameters that its placeholders name. -/
inductive Expands (params : List Param) (value : Param → String) : List Char → List Char → Prop
  | done : Expands params value [] []
  | filled {text name behind out : List Char} {param : Param} (placed : Placeholder text name behind)
      (first : FirstNamed params name param) (later : Expands params value behind out) :
      Expands params value text ((value param).toList ++ out)
  | kept {c : Char} {rest out : List Char}
      (none : ∀ name behind param, Placeholder (c :: rest) name behind → ¬ FirstNamed params name param)
      (later : Expands params value rest out) : Expands params value (c :: rest) (c :: out)

theorem Placeholder.found {c : Char} {rest name behind : List Char} (placed : Placeholder (c :: rest) name behind) :
    c = '\x7b' ∧ placeholderName? rest = some name ∧ rest.drop (name.length + 1) = behind := by
  obtain ⟨written, nonempty, plain⟩ := placed
  rw [List.cons_append, List.cons.injEq] at written
  obtain ⟨rfl, rfl⟩ := written
  have inside : ∀ c ∈ name, (!isBrace c) = true := by simpa [isBrace] using plain
  have taken : (name ++ '\x7d' :: behind).takeWhile (!isBrace ·) = name := by
    rw [List.takeWhile_append_of_pos inside, List.takeWhile_cons_of_neg (by decide), List.append_nil]
  refine ⟨rfl, ?_, ?_⟩
  · simp [placeholderName?, taken, nonempty]
  · rw [← List.drop_drop, List.drop_left, List.drop_one, List.tail_cons]

theorem placeholder_of_found {rest name : List Char} (found : placeholderName? rest = some name) :
    Placeholder ('\x7b' :: rest) name (rest.drop (name.length + 1)) := by
  simp only [placeholderName?, Option.ite_none_right_eq_some, Option.some.injEq, Bool.and_eq_true, decide_eq_true_eq]
    at found
  obtain ⟨⟨nonempty, closed⟩, taken⟩ := found
  have parts := List.prefix_iff_eq_append.mp (List.takeWhile_prefix (!isBrace ·) (l := rest))
  rw [taken] at nonempty closed parts
  obtain ⟨behind, dropped⟩ := List.head?_eq_some_iff.mp closed
  refine ⟨?_, nonempty, fun c member => ?_⟩
  · rw [← List.drop_drop, dropped, List.drop_one, List.tail_cons, List.cons_append, ← dropped, parts]
  · rw [← taken] at member
    simpa [isBrace] using List.mem_takeWhile_imp member

theorem Placeholder.unique {text name behind other rest : List Char} (placed : Placeholder text name behind)
    (again : Placeholder text other rest) : name = other ∧ behind = rest := by
  cases text with
  | nil => cases placed.written
  | cons c text =>
    obtain ⟨-, found, dropped⟩ := placed.found
    obtain ⟨-, foundAgain, droppedAgain⟩ := again.found
    obtain rfl := Option.some.inj (found.symm.trans foundAgain)
    exact ⟨rfl, dropped.symm.trans droppedAgain⟩

theorem pathParam?_eq_some {name : List Char} {param : Param} :
    pathParam? params name = some param ↔ FirstNamed params name param := by
  simp only [pathParam?, List.find?_eq_some_iff_append, FirstNamed, Bool.and_eq_true, decide_eq_true_eq,
    Bool.not_eq_true', Bool.and_eq_false_imp, decide_eq_false_iff_not, ne_eq]

theorem FirstNamed.unique {name : List Char} {param other : Param} (first : FirstNamed params name param)
    (again : FirstNamed params name other) : param = other :=
  Option.some.inj ((pathParam?_eq_some.mpr first).symm.trans (pathParam?_eq_some.mpr again))

theorem Expands.unique {path first second : List Char} (left : Expands params value path first)
    (right : Expands params value path second) : first = second := by
  induction left generalizing second with
  | done =>
    cases right with
    | done => rfl
    | filled placed _ _ => cases placed.written
  | filled placed named later ih =>
    cases right with
    | done => cases placed.written
    | filled again same rest =>
      obtain ⟨rfl, rfl⟩ := placed.unique again
      rw [named.unique same, ih rest]
    | kept none rest => exact absurd named (none _ _ _ placed)
  | kept none later ih =>
    cases right with
    | filled placed named rest => exact absurd named (none _ _ _ placed)
    | kept _ rest => rw [ih rest]

def PathPart.text : PathPart → List Char
  | .char c => [c]
  | .placeholder name => '\x7b' :: name ++ ['\x7d']

theorem flatMap_text_partsFrom (skip : Nat) (text : List Char) :
    (partsFrom skip text).flatMap PathPart.text = text.drop skip := by
  fun_induction partsFrom skip text with
  | case1 skip => simp
  | case2 skip c rest ih => exact ih
  | case3 rest name found ih =>
    rw [List.flatMap_cons, ih, List.drop_zero, (placeholder_of_found found).written]
    simp [PathPart.text]
  | case4 rest none ih => rw [List.flatMap_cons, ih]; rfl
  | case5 c rest other ih => rw [List.flatMap_cons, ih]; rfl

def partValue (params : List Param) (value : Param → String) : PathPart → List Char
  | .char c => [c]
  | .placeholder name =>
    match pathParam? params name with
    | some param => (value param).toList
    | none => (PathPart.placeholder name).text

private theorem Expands.keep {text rest out : List Char} (plain : ∀ c ∈ text, c ≠ '\x7b')
    (later : Expands params value rest out) : Expands params value (text ++ rest) (text ++ out) := by
  induction text with
  | nil => exact later
  | cons c text ih =>
    obtain ⟨other, others⟩ := List.forall_mem_cons.mp plain
    exact .kept (fun _ _ _ placed => absurd placed.found.1 other) (ih others)

/-- A placeholder that names no parameter stays, for no other placeholder begins inside it. -/
private theorem Expands.unnamed {text name behind out : List Char} (placed : Placeholder text name behind)
    (named : pathParam? params name = none) (later : Expands params value behind out) :
    Expands params value text ((PathPart.placeholder name).text ++ out) := by
  have outer : ∀ other rest param, Placeholder text other rest → ¬ FirstNamed params other param := by
    intro other rest param again first
    obtain ⟨rfl, -⟩ := placed.unique again
    rw [pathParam?_eq_some.mpr first] at named
    cases named
  have inner : ∀ c ∈ name ++ ['\x7d'], c ≠ '\x7b' := by
    intro c member
    rcases List.mem_append.mp member with inside | last
    · exact (placed.plain c inside).1
    · exact List.mem_singleton.mp last ▸ by decide
  have whole : text = '\x7b' :: (name ++ ['\x7d'] ++ behind) := by
    rw [placed.written, List.append_assoc]
    rfl
  rw [whole] at outer ⊢
  exact .kept outer (.keep inner later)

theorem expands_partsFrom (params : List Param) (value : Param → String) (skip : Nat) (text : List Char) :
    Expands params value (text.drop skip) ((partsFrom skip text).flatMap (partValue params value)) := by
  fun_induction partsFrom skip text with
  | case1 skip => simpa using Expands.done
  | case2 skip c rest ih => exact ih
  | case3 rest name found ih =>
    have placed := placeholder_of_found found
    rw [List.flatMap_cons, List.drop_zero]
    cases named : pathParam? params name with
    | some param =>
      simp only [partValue, named]
      exact .filled placed (pathParam?_eq_some.mp named) ih
    | none =>
      simp only [partValue, named]
      exact .unnamed placed named ih
  | case4 rest none ih =>
    refine .kept (fun name behind param placed => ?_) ih
    rw [placed.found.2.1] at none
    cases none
  | case5 c rest other ih =>
    exact .kept (fun name behind param placed => absurd placed.found.1 other) ih

/-- A piece of a format string: a character, or a place for an argument. -/
inductive Piece where
  | char (c : Char)
  | place
  deriving DecidableEq, Repr

/-- Reads a format string: a brace that is text stands twice, and a place for the next argument is a pair of braces. -/
def readPieces : List Char → Option (List Piece)
  | [] => some []
  | '\x7b' :: '\x7b' :: rest => (readPieces rest).map (.char '\x7b' :: ·)
  | '\x7d' :: '\x7d' :: rest => (readPieces rest).map (.char '\x7d' :: ·)
  | '\x7b' :: '\x7d' :: rest => (readPieces rest).map (.place :: ·)
  | c :: rest => if isBrace c then none else (readPieces rest).map (.char c :: ·)

/-- The text of a format string with values at its places. There has to be one for each place. -/
def fill : List Piece → List String → Option (List Char)
  | [], [] => some []
  | .char c :: pieces, values => (fill pieces values).map (c :: ·)
  | .place :: pieces, value :: values => (fill pieces values).map (value.toList ++ ·)
  | _, _ => none

def piecesOf (params : List Param) : PathPart → List Piece
  | .char c => [.char c]
  | .placeholder name =>
    match pathParam? params name with
    | some _ => [.place]
    | none => (PathPart.placeholder name).text.map .char

private theorem readPieces_formatChar (c : Char) (rest : List Char) :
    readPieces (formatChar c ++ rest) = (readPieces rest).map (.char c :: ·) := by
  by_cases opening : c = '\x7b'
  · subst opening
    rfl
  by_cases closing : c = '\x7d'
  · subst closing
    rfl
  have plain : isBrace c = false := by simp [isBrace, opening, closing]
  simp [formatChar, plain, readPieces, opening, closing]

private theorem readPieces_formatChars (text rest : List Char) :
    readPieces (text.flatMap formatChar ++ rest) = (readPieces rest).map (text.map Piece.char ++ ·) := by
  induction text with
  | nil => simp
  | cons c text ih =>
    rw [List.flatMap_cons, List.append_assoc, readPieces_formatChar, ih, Option.map_map]
    rfl

theorem readPieces_formatPart (params : List Param) (part : PathPart) (rest : List Char) :
    readPieces (formatPart params part ++ rest) = (readPieces rest).map (piecesOf params part ++ ·) := by
  cases part with
  | char c => exact readPieces_formatChar c rest
  | placeholder name =>
    simp only [formatPart, piecesOf]
    cases pathParam? params name with
    | some param => rfl
    | none => exact readPieces_formatChars _ rest

theorem readPieces_formatParts (params : List Param) (parts : List PathPart) :
    readPieces (parts.flatMap (formatPart params)) = some (parts.flatMap (piecesOf params)) := by
  induction parts with
  | nil => rfl
  | cons part parts ih => rw [List.flatMap_cons, readPieces_formatPart, ih, List.flatMap_cons, Option.map_some]

private theorem fill_chars (text : List Char) (pieces : List Piece) (values : List String) :
    fill (text.map .char ++ pieces) values = (fill pieces values).map (text ++ ·) := by
  induction text with
  | nil => simp
  | cons c text ih =>
    rw [List.map_cons, List.cons_append, fill, ih, Option.map_map]
    rfl

theorem count_place_piecesOf (params : List Param) (parts : List PathPart) :
    (parts.flatMap (piecesOf params)).count .place = (parts.filterMap (formatArgument? params)).length := by
  induction parts with
  | nil => rfl
  | cons part parts ih =>
    rw [List.flatMap_cons, List.count_append, ih]
    cases part with
    | char c => simp [piecesOf, formatArgument?, List.filterMap_cons]
    | placeholder name =>
      cases named : pathParam? params name with
      | some param => simp [piecesOf, formatArgument?, named, Nat.add_comm]
      | none =>
        have noPlace : ((PathPart.placeholder name).text.map Piece.char).count .place = 0 := List.count_eq_zero.mpr (by simp)
        simp [piecesOf, formatArgument?, named, noPlace]

theorem fill_formatArguments {bound : String → Option String}
    (own : ∀ param ∈ params, bound param.ident = some (value param)) (parts : List PathPart) :
    ∃ values, (parts.filterMap (formatArgument? params)).mapM bound = some values ∧
      fill (parts.flatMap (piecesOf params)) values = some (parts.flatMap (partValue params value)) := by
  induction parts with
  | nil => exact ⟨[], rfl, rfl⟩
  | cons part parts ih =>
    obtain ⟨values, looked, filled⟩ := ih
    rw [List.flatMap_cons, List.flatMap_cons]
    cases part with
    | char c => exact ⟨values, looked, by simp [piecesOf, partValue, fill, filled]⟩
    | placeholder name =>
      cases named : pathParam? params name with
      | none =>
        refine ⟨values, by simpa [formatArgument?, named] using looked, ?_⟩
        simp only [piecesOf, partValue, named]
        rw [fill_chars, filled, Option.map_some]
      | some param =>
        have member : param ∈ params := List.mem_of_find?_eq_some named
        refine ⟨value param :: values, ?_, ?_⟩
        · simp [formatArgument?, named, own param member, looked]
        · simp [piecesOf, partValue, named, fill, filled]

def readArgument (text : List Char) : Option String :=
  if isName (Text.trimChars text) then some (String.ofList (Text.trimChars text)) else none

def readArguments (text : List Char) : Option (List String) :=
  match Text.splitWhere (· == ',') text with
  | [] :: arguments => arguments.mapM readArgument
  | _ => none

/-- The path that a request is given: a text, or a format string with arguments. -/
inductive PathReading where
  | plain (path : List Char)
  | format (pieces : List Piece) (arguments : List String)
  deriving DecidableEq, Repr

namespace PathReading

def places : PathReading → Nat
  | plain _ => 0
  | format pieces _ => pieces.count .place

def arguments : PathReading → List String
  | plain _ => []
  | format _ arguments => arguments

def text (bound : String → Option String) : PathReading → Option (List Char)
  | plain path => some path
  | format pieces arguments => (arguments.mapM bound).bind (fill pieces)

end PathReading

def readPlain (text : List Char) : Option PathReading :=
  (Text.readQuoted text).bind fun (path, rest) => if rest = [')'] then some (.plain path) else none

def readFormat (text : List Char) : Option PathReading := do
  let template ← text.dropPrefix? "&format!(".toList
  let (format, rest) ← Text.readQuoted template
  let pieces ← readPieces format
  let arguments ← (rest.dropSuffix? [')', ')']).bind readArguments
  some (.format pieces arguments)

def readUrl (text : String) : Option PathReading := do
  let inside ← text.toList.dropPrefix? "self.config.url(".toList
  (readPlain inside).or (readFormat inside)

private theorem readArgument_ident {ident : String} (valid : IsValueName ident) :
    readArgument (' ' :: ident.toList) = some ident := by
  have trimmed : Text.trimChars ([' '] ++ ident.toList ++ []) = ident.toList :=
    trimChars_padded (List.all_eq_true.mp (by decide)) (by simp) (tight_of_forall (noBlank_of_chars valid.chars))
  rw [List.append_nil, List.singleton_append] at trimmed
  rw [readArgument, trimmed, if_pos (isName_of_valid valid), String.ofList_toList]

private theorem noComma_of_ident {ident : String} (valid : IsValueName ident) : ∀ c ∈ ' ' :: ident.toList, c ≠ ',' := by
  refine List.forall_mem_cons.mpr ⟨by decide, fun c member => ?_⟩
  simpa using of_isNameChar (fun c => c != ',') (by decide +kernel) (valid.chars c member)

private theorem arguments_toList {arguments : List String} (nonempty : arguments ≠ []) :
    (", " ++ ", ".intercalate arguments).toList = arguments.flatMap fun ident => ',' :: ' ' :: ident.toList := by
  induction arguments with
  | nil => exact absurd rfl nonempty
  | cons ident arguments ih =>
    cases arguments with
    | nil => simp
    | cons next arguments =>
      have later := ih (by simp)
      rw [List.flatMap_cons, ← later, String.intercalate_cons_cons]
      simp

private theorem splitWhere_arguments {arguments : List String} (valid : ∀ ident ∈ arguments, IsValueName ident)
    {front : List Char} (apart : ∀ c ∈ front, (c == ',') = false) :
    Text.splitWhere (· == ',') (front ++ arguments.flatMap fun ident => ',' :: ' ' :: ident.toList) =
      front :: arguments.map fun ident => ' ' :: ident.toList := by
  induction arguments generalizing front with
  | nil => simpa using Text.splitWhere_eq_singleton apart
  | cons ident arguments ih =>
    obtain ⟨first, others⟩ := List.forall_mem_cons.mp valid
    have inside : ∀ c ∈ ' ' :: ident.toList, (c == ',') = false := fun c member =>
      beq_eq_false_iff_ne.mpr (noComma_of_ident first c member)
    rw [List.flatMap_cons, List.cons_append, Text.splitWhere_append apart (by decide), ih others inside, List.map_cons]

private theorem mapM_readArgument {arguments : List String} (valid : ∀ ident ∈ arguments, IsValueName ident) :
    (arguments.map fun ident => ' ' :: ident.toList).mapM readArgument = some arguments := by
  induction arguments with
  | nil => rfl
  | cons ident arguments ih =>
    obtain ⟨first, others⟩ := List.forall_mem_cons.mp valid
    rw [List.map_cons, List.mapM_cons, readArgument_ident first, ih others]
    rfl

private theorem readArguments_idents {arguments : List String} (valid : ∀ ident ∈ arguments, IsValueName ident) :
    readArguments (arguments.flatMap fun ident => ',' :: ' ' :: ident.toList) = some arguments := by
  have parts := splitWhere_arguments valid (fun c (none : c ∈ []) => absurd none List.not_mem_nil)
  rw [List.nil_append] at parts
  rw [readArguments, parts]
  exact mapM_readArgument valid

private theorem readUrl_begins (text : List Char) :
    readUrl (String.ofList ("self.config.url(".toList ++ text)) = (readPlain text).or (readFormat text) := by
  rw [readUrl, String.toList_ofList, List.dropPrefix?_append_of_beq _ (by decide)]
  rfl

theorem readUrl_plain (path : String) :
    readUrl ("self.config.url(" ++ Text.quoted path ++ ")") = some (.plain path.toList) := by
  have chars : "self.config.url(" ++ Text.quoted path ++ ")" =
      String.ofList ("self.config.url(".toList ++ ((Text.quoted path).toList ++ [')'])) := by
    rw [← String.toList_inj]
    simp
  have plain : readPlain ((Text.quoted path).toList ++ [')']) = some (.plain path.toList) := by
    rw [readPlain, Text.readQuoted_quoted]
    rfl
  rw [chars, readUrl_begins, plain, Option.some_or]

theorem readUrl_format {format : String} {pieces : List Piece} {arguments : List String}
    (read : readPieces format.toList = some pieces) (nonempty : arguments ≠ [])
    (valid : ∀ ident ∈ arguments, IsValueName ident) :
    readUrl ("self.config.url(&format!(" ++ Text.quoted format ++ ", " ++ ", ".intercalate arguments ++ "))") =
      some (.format pieces arguments) := by
  let behind := (arguments.flatMap fun ident => ',' :: ' ' :: ident.toList) ++ [')', ')']
  have chars : "self.config.url(&format!(" ++ Text.quoted format ++ ", " ++ ", ".intercalate arguments ++ "))" =
      String.ofList ("self.config.url(".toList ++ ("&format!(".toList ++ ((Text.quoted format).toList ++ behind))) := by
    have begins : "self.config.url(&format!(".toList = "self.config.url(".toList ++ "&format!(".toList := by decide
    rw [← String.toList_inj]
    simp only [String.toList_append, String.toList_ofList, behind, ← arguments_toList nonempty, begins, List.append_assoc]
    rfl
  have closed : behind.dropSuffix? [')', ')'] = some (arguments.flatMap fun ident => ',' :: ' ' :: ident.toList) :=
    List.dropSuffix?_eq_some_iff.mpr ⟨[')', ')'], rfl, by decide⟩
  have formatted : readFormat ("&format!(".toList ++ ((Text.quoted format).toList ++ behind)) =
      some (.format pieces arguments) := by
    rw [readFormat, List.dropPrefix?_append_of_beq _ (by decide)]
    simp [Text.readQuoted_quoted, read, closed, readArguments_idents valid]
  rw [chars, readUrl_begins, formatted]
  rfl

def boundTo (params : List Param) (value : Param → String) (name : String) : Option String :=
  (params.find? (·.ident = name)).map value

theorem boundTo_ident (distinct : (params.map (·.ident)).Nodup) {param : Param} (member : param ∈ params) :
    boundTo params value param.ident = some (value param) := by
  cases found : params.find? (·.ident = param.ident) with
  | none => simpa using List.find?_eq_none.mp found param member
  | some other =>
    have same : other.ident = param.ident := by simpa using List.find?_some found
    have only : other = param := List.inj_on_of_nodup_map distinct (List.mem_of_find?_eq_some found) member same
    rw [boundTo, found, only, Option.map_some]

/-- Parameters that a method can have. -/
structure Callable (params : List Param) : Prop where
  spelled : ∀ param ∈ params, IsValueName param.ident
  distinct : (params.map (·.ident)).Nodup

/-- The expression for a URL has an argument for each place, and denotes the path with the values of its parameters. -/
def DenotesPath (params : List Param) (path : String) : Prop :=
  ∃ reading, readUrl (urlExpression params path) = some reading ∧ reading.places = reading.arguments.length ∧
    ∀ value, ∃ text, reading.text (boundTo params value) = some text ∧
      ∀ expanded, Expands params value path.toList expanded ↔ expanded = text

private theorem expands_iff (path : String) (expanded : List Char) :
    Expands params value path.toList expanded ↔ expanded = (pathParts path).flatMap (partValue params value) := by
  have whole : Expands params value path.toList ((pathParts path).flatMap (partValue params value)) :=
    expands_partsFrom params value 0 path.toList
  exact ⟨fun expands => expands.unique whole, fun same => same ▸ whole⟩

private theorem partValue_of_noArguments {path : String} (empty : formatArguments params path = []) :
    (pathParts path).flatMap (partValue params value) = path.toList := by
  have texts : ∀ part ∈ pathParts path, partValue params value part = part.text := by
    intro part member
    have unnamed := List.filterMap_eq_nil_iff.mp empty part member
    cases part with
    | char c => rfl
    | placeholder name =>
      have noParam : pathParam? params name = none := by simpa [formatArgument?] using unnamed
      simp only [partValue, noParam, PathPart.text]
  rw [List.flatMap_congr texts, pathParts, flatMap_text_partsFrom, List.drop_zero]

private theorem formatArguments_valid (spelled : ∀ param ∈ params, IsValueName param.ident) (path : String) :
    ∀ ident ∈ formatArguments params path, IsValueName ident := by
  intro ident member
  obtain ⟨part, -, named⟩ := List.mem_filterMap.mp member
  cases part with
  | char c => cases named
  | placeholder name =>
    obtain ⟨param, found, rfl⟩ := Option.map_eq_some_iff.mp named
    exact spelled param (List.mem_of_find?_eq_some found)

private theorem urlExpression_of_arguments {path : String} (nonempty : formatArguments params path ≠ []) :
    urlExpression params path = "self.config.url(&format!(" ++ Text.quoted (formatString params path) ++ ", " ++
      ", ".intercalate (formatArguments params path) ++ "))" := by
  rw [urlExpression]
  split
  · next empty => exact absurd empty nonempty
  · rfl

theorem urlExpression_denotes (callable : Callable params) (path : String) : DenotesPath params path := by
  by_cases empty : formatArguments params path = []
  · refine ⟨.plain path.toList, ?_, rfl, fun value => ⟨path.toList, rfl, fun expanded => ?_⟩⟩
    · rw [urlExpression, empty]
      exact readUrl_plain path
    · rw [expands_iff, partValue_of_noArguments empty]
  · have pieces : readPieces (formatString params path).toList = some ((pathParts path).flatMap (piecesOf params)) := by
      rw [formatString, String.toList_ofList]
      exact readPieces_formatParts params (pathParts path)
    refine ⟨.format ((pathParts path).flatMap (piecesOf params)) (formatArguments params path), ?_, ?_, fun value => ?_⟩
    · rw [urlExpression_of_arguments empty]
      exact readUrl_format pieces empty (formatArguments_valid callable.spelled path)
    · exact count_place_piecesOf params (pathParts path)
    · have own : ∀ param ∈ params, boundTo params value param.ident = some (value param) :=
        fun param member => boundTo_ident callable.distinct member
      obtain ⟨values, looked, filled⟩ := fill_formatArguments own (pathParts path)
      refine ⟨(pathParts path).flatMap (partValue params value), ?_, expands_iff path⟩
      rw [PathReading.text, formatArguments, looked, Option.bind_some, filled]

theorem build_callable (model : Api.Model) (config : Config) (settings : Settings) :
    ∀ client ∈ (build model config settings).clients, ∀ method ∈ client.methods, Callable method.params := by
  simp only [build]
  intro client member method inside
  exact
    { spelled := ((clientDecls_spelled _ _ client member).methods method inside).params
      distinct := ((clientDecls_distinct _ _ client member).methods method inside).params }

/-- Whatever the path and the parameters that a method can have, the expression for the URL denotes the path with the
values of the parameters; so it does in every method of every plan. -/
theorem urls_denote :
    (∀ params path, Callable params → DenotesPath params path) ∧
      ∀ model config settings, ∀ client ∈ (build model config settings).clients, ∀ method ∈ client.methods,
        DenotesPath method.params method.path := by
  constructor
  · intro params path callable
    exact urlExpression_denotes callable path
  · intro model config settings client member method inside
    have callable := build_callable model config settings client member method inside
    exact urlExpression_denotes callable method.path

/-- Two parameters of the path, and one of the query with the wire name of the first. -/
def toyParams : List Param :=
  [⟨"pet_id", "petId", .query, .unknown, none⟩, ⟨"pet_id_2", "petId", .path, .unknown, none⟩,
    ⟨"toy_id", "toyId", .path, .unknown, none⟩]

/-- Doubled braces stand around a placeholder, and another one names no parameter. -/
def toyPath : String := "/pets/\x7bpetId\x7d/\x7b\x7btoyId\x7d\x7d/\x7bname\x7d\x7b\x7d"

theorem toyPath_denotes :
    Callable toyParams ∧ DenotesPath toyParams toyPath ∧
      (readUrl (urlExpression toyParams toyPath)).bind (PathReading.text (boundTo toyParams (·.ident.toUpper))) =
        some "/pets/PET_ID_2/\x7bTOY_ID\x7d/\x7bname\x7d\x7b\x7d".toList := by
  have callable : Callable toyParams :=
    { spelled := by
        have spelled : ∀ ident ∈ ["pet_id", "pet_id_2", "toy_id"], IsValueName ident := by
          intro ident member
          simp only [List.mem_cons, List.not_mem_nil, or_false] at member
          rcases member with rfl | rfl | rfl <;> exact ⟨spells_of_check rfl (by decide), by decide +kernel⟩
        exact fun param member => spelled param.ident (List.mem_map_of_mem member)
      distinct := by decide }
  exact ⟨callable, urls_denote.1 toyParams toyPath callable, by decide +kernel⟩

end ClientForge.Source
