import ClientForge.Proofs.SourceLines
import ClientForge.Source.File

/-! Files without their comments. A text falls into lines at its line feeds, wherever they come from: a comment that is
put together of several pieces stays one as long as every line behind a line feed in it begins as a comment, too. -/

namespace ClientForge.Source

def beginsWith (mark line : String) : Bool := mark.toList.isPrefixOf (line.toList.dropWhile Text.isBlank)

/-- The lines of a text, without those that begin with a mark. -/
def without (mark contents : String) : List String := (Text.splitAt '\n' contents).filter (!beginsWith mark ·)

def File.without (mark : String) (file : File) : List String × List String :=
  (file.path, Source.without mark file.contents)

/-- What lines put into a file besides those that begin with a mark. -/
def code (mark : String) (lines : List String) : List String := lines.flatMap (without mark)

variable {mark : String}

@[simp]
theorem code_nil : code mark [] = [] := rfl

@[simp]
theorem code_cons (line : String) (lines : List String) :
    code mark (line :: lines) = without mark line ++ code mark lines := by
  simp only [code, List.flatMap_cons]

@[simp]
theorem code_append (first rest : List String) : code mark (first ++ rest) = code mark first ++ code mark rest := by
  simp [code]

theorem code_flatMap {α : Type} (items : List α) (lines : α → List String) :
    code mark (items.flatMap lines) = items.flatMap fun item => code mark (lines item) := by
  simp [code, List.flatMap_assoc]

private theorem splitAt_text (lines : List String) :
    Text.splitAt '\n' (text lines) = lines.flatMap (Text.splitAt '\n') ++ [""] := by
  induction lines with
  | nil => rfl
  | cons line lines ih =>
    rw [Text.splitAt] at ih
    rw [Text.splitAt, text_toList_cons, Text.splitWhere_append_cons _ _ (by decide), List.map_append, ih, List.flatMap_cons,
      List.append_assoc, Text.splitAt]

theorem without_text (lines : List String) : without mark (text lines) = code mark lines ++ without mark "" := by
  have last : Text.splitAt '\n' "" = [""] := rfl
  rw [without, splitAt_text, List.filter_append, List.filter_flatMap, without, last]
  rfl

theorem File.without_eq_iff {path lines others : List String} :
    File.without mark ⟨path, lines⟩ = File.without mark ⟨path, others⟩ ↔ code mark lines = code mark others := by
  simp only [File.without, File.contents, without_text, Prod.mk.injEq, true_and, List.append_left_inj]

variable (mark) in
/-- Every line of a text begins with a mark. -/
def Commented (line : String) : Prop := ∀ part ∈ Text.splitAt '\n' line, beginsWith mark part = true

variable (mark) in
/-- Every line of a text but the first one begins with a mark. -/
def StaysInside (piece : String) : Prop := ∀ part ∈ (Text.splitAt '\n' piece).tail, beginsWith mark part = true

instance (mark line : String) : Decidable (Commented mark line) := inferInstanceAs (Decidable (∀ _ ∈ _, _))

instance (mark piece : String) : Decidable (StaysInside mark piece) := inferInstanceAs (Decidable (∀ _ ∈ _, _))

theorem without_eq_nil_iff {line : String} : without mark line = [] ↔ Commented mark line := by
  simp only [without, List.filter_eq_nil_iff, Bool.not_eq_true', Bool.not_eq_false, Commented]

private theorem splitWhere_of_line {line : String} (whole : '\n' ∉ line.toList) :
    Text.splitWhere (· == '\n') line.toList = [line.toList] := by
  apply Text.splitWhere_eq_singleton
  intro c member
  rw [beq_eq_false_iff_ne]
  exact fun same => whole (same ▸ member)

theorem StaysInside.of_line {line : String} (whole : '\n' ∉ line.toList) : StaysInside mark line := by
  intro part member
  rw [Text.splitAt, splitWhere_of_line whole] at member
  cases member

private theorem splitWhere_ends {α : Type} (isSeparator : α → Bool) (list : List α) :
    ∃ front last, Text.splitWhere isSeparator list = front ++ [last] :=
  ⟨_, _, (List.dropLast_concat_getLast (Text.splitWhere_ne_nil isSeparator list)).symm⟩

/-- Where two texts meet, the last part of the first one and the first part of the second one are one part. -/
private theorem splitWhere_meet {α : Type} {isSeparator : α → Bool} {list more last first : List α}
    {front rest : List (List α)} (ends : Text.splitWhere isSeparator list = front ++ [last])
    (begins : Text.splitWhere isSeparator more = first :: rest) :
    Text.splitWhere isSeparator (list ++ more) = front ++ (last ++ first) :: rest := by
  induction list generalizing front last with
  | nil =>
    have single : [[]] = front ++ [last] := ends
    cases front with
    | nil =>
      cases single
      exact begins
    | cons part front => simp at single
  | cons a list ih =>
    obtain ⟨parts, final, found⟩ := splitWhere_ends isSeparator list
    have later := ih found
    rw [Text.splitWhere, found] at ends
    rw [List.cons_append, Text.splitWhere, later]
    -- A character before the rest opens a part of its own or joins the first one, which may be the last one, too.
    split at ends
    next separates =>
      rw [← List.cons_append] at ends
      obtain ⟨rfl, same⟩ := List.append_inj' ends rfl
      cases same
      rw [if_pos separates]
      rfl
    next inside =>
      rw [if_neg inside]
      cases parts with
      | nil =>
        have single : [] ++ [a :: final] = front ++ [last] := ends
        obtain ⟨rfl, same⟩ := List.append_inj' single rfl
        cases same
        rfl
      | cons part parts =>
        have split : ((a :: part) :: parts) ++ [final] = front ++ [last] := ends
        obtain ⟨rfl, same⟩ := List.append_inj' split rfl
        cases same
        rfl

private theorem beginsWith_append {front : String} (begins : beginsWith mark front = true) (nonempty : mark ≠ "")
    (back : String) : beginsWith mark (front ++ back) = true := by
  obtain ⟨rest, same⟩ := List.isPrefixOf_iff_prefix.mp begins
  have shown : front.toList.dropWhile Text.isBlank ≠ [] := by
    rw [← same]
    simp [nonempty]
  have dropped : (front ++ back).toList.dropWhile Text.isBlank = front.toList.dropWhile Text.isBlank ++ back.toList := by
    rw [String.toList_append, List.dropWhile_append, if_neg (by simpa using shown)]
  apply List.isPrefixOf_iff_prefix.mpr
  rw [dropped, ← same, List.append_assoc]
  exact List.prefix_append _ _

theorem Commented.append_iff {line piece : String} (commented : Commented mark line) (nonempty : mark ≠ "") :
    Commented mark (line ++ piece) ↔ StaysInside mark piece := by
  obtain ⟨front, last, ends⟩ := splitWhere_ends (· == '\n') line.toList
  obtain ⟨first, rest, begins⟩ := List.exists_cons_of_ne_nil (Text.splitWhere_ne_nil (· == '\n') piece.toList)
  have parts : Text.splitAt '\n' (line ++ piece) =
      front.map String.ofList ++ String.ofList (last ++ first) :: rest.map String.ofList := by
    rw [Text.splitAt, String.toList_append, splitWhere_meet ends begins, List.map_append, List.map_cons]
  simp only [Commented, Text.splitAt, ends, List.map_append, List.map_cons, List.map_nil, List.mem_append,
    List.mem_singleton] at commented
  simp only [StaysInside, Text.splitAt, begins, List.map_cons, List.tail_cons]
  constructor
  · intro all part member
    apply all
    rw [parts]
    exact List.mem_append_right _ (List.mem_cons_of_mem _ member)
  · intro stays part member
    rw [parts] at member
    rcases List.mem_append.mp member with before | behind
    · exact commented part (.inl before)
    · rcases List.mem_cons.mp behind with rfl | later
      · rw [String.ofList_append]
        exact beginsWith_append (commented _ (.inr rfl)) nonempty _
      · exact stays part later

private theorem beginsWith_closed {mark part close : String} {c : Char} {rest : List Char} (closes : close.toList = c :: rest)
    (shown : Text.isBlank c = false) (other : c ∉ mark.toList) : beginsWith mark (part ++ close) = beginsWith mark part := by
  have dropped : (part ++ close).toList.dropWhile Text.isBlank = part.toList.dropWhile Text.isBlank ++ c :: rest := by
    rw [String.toList_append, closes, List.dropWhile_append]
    split
    next blank => simp [shown, List.isEmpty_iff.mp blank]
    next => rfl
  rw [Bool.eq_iff_iff, beginsWith, beginsWith, dropped, List.isPrefixOf_iff_prefix, List.isPrefixOf_iff_prefix]
  constructor
  · intro begins
    -- A mark that went beyond the part would hold the first character of what closes it.
    rcases List.prefix_or_prefix_of_prefix begins (List.prefix_append _ (c :: rest)) with inside | ⟨more, longer⟩
    · exact inside
    · rw [← longer, List.prefix_append_right_inj] at begins
      cases more with
      | nil =>
        rw [List.append_nil] at longer
        exact longer ▸ List.prefix_rfl
      | cons d more =>
        obtain ⟨rfl, -⟩ := List.cons_prefix_cons.mp begins
        exact absurd (longer ▸ List.mem_append_right _ (List.mem_cons_self ..)) other
  · intro begins
    exact begins.trans (List.prefix_append _ _)

theorem StaysInside.append_iff {piece close : String} {c : Char} {rest : List Char} (closes : close.toList = c :: rest)
    (shown : Text.isBlank c = false) (other : c ∉ mark.toList) (whole : '\n' ∉ close.toList) :
    StaysInside mark (piece ++ close) ↔ StaysInside mark piece := by
  obtain ⟨front, last, ends⟩ := splitWhere_ends (· == '\n') piece.toList
  have single := splitWhere_of_line whole
  have joined : beginsWith mark (String.ofList (last ++ close.toList)) = beginsWith mark (String.ofList last) := by
    rw [String.ofList_append, String.ofList_toList, beginsWith_closed closes shown other]
  simp only [StaysInside, Text.splitAt, String.toList_append, splitWhere_meet ends single, ends, List.map_append,
    List.map_cons, List.map_nil]
  cases front with
  | nil => rfl
  | cons first front =>
    simp only [List.map_cons, List.cons_append, List.tail_cons, List.forall_mem_append, List.forall_mem_singleton, joined]

private theorem mem_dropReturn {line : List Char} {c : Char} (member : c ∈ Text.dropReturn line) : c ∈ line := by
  rw [Text.dropReturn] at member
  split at member
  next front reversed =>
    apply List.mem_reverse.mp
    rw [reversed]
    exact List.mem_cons_of_mem _ (List.mem_reverse.mp member)
  next => exact member

private theorem mem_of_lineParts {parts : List (List Char)} {line : List Char} (member : line ∈ Text.lineParts parts) :
    ∃ part ∈ parts, ∀ c ∈ line, c ∈ part := by
  fun_induction Text.lineParts parts with
  | case1 => cases member
  | case2 last empty => cases member
  | case3 last shown => exact ⟨last, List.mem_cons_self .., fun c inside => List.mem_singleton.mp member ▸ inside⟩
  | case4 part parts _ ih =>
    rcases List.mem_cons.mp member with rfl | later
    · exact ⟨part, List.mem_cons_self .., fun c inside => mem_dropReturn inside⟩
    · obtain ⟨other, listed, inside⟩ := ih later
      exact ⟨other, List.mem_cons_of_mem _ listed, inside⟩

theorem newline_not_mem_lines {contents line : String} (member : line ∈ Text.lines contents) : '\n' ∉ line.toList := by
  obtain ⟨chars, listed, rfl⟩ := List.mem_map.mp member
  obtain ⟨part, cut, inside⟩ := mem_of_lineParts listed
  intro feed
  rw [String.toList_ofList] at feed
  have ordinary := Text.not_separator_of_mem cut '\n' (inside '\n' feed)
  cases ordinary

private theorem mem_of_trimEnd {line : String} {c : Char} (member : c ∈ (Text.trimEnd line).toList) : c ∈ line.toList := by
  rw [Text.trimEnd, Text.trimRight, String.toList_ofList] at member
  have dropped := (List.dropWhile_sublist Text.isBlank).mem (List.mem_reverse.mp member)
  exact List.mem_reverse.mp dropped

theorem code_docComment (description : Option String) : code "///" (docComment "    " description) = [] := by
  rw [code, List.flatMap_eq_nil_iff]
  intro line member
  obtain ⟨said, listed, rfl⟩ := List.mem_map.mp member
  apply without_eq_nil_iff.mpr
  dsimp only
  split
  · decide
  · have opened : Commented "///" ("    " ++ "/// ") := by decide
    apply (opened.append_iff (by decide)).mpr
    apply StaysInside.of_line
    exact fun feed => newline_not_mem_lines listed (mem_of_trimEnd feed)

private theorem map_without_eq_iff {α : Type} {items : List α} (path : α → List String) (lines changed : α → List String) :
    items.map (fun item => File.without mark ⟨path item, changed item⟩) =
        items.map (fun item => File.without mark ⟨path item, lines item⟩) ↔
      ∀ item ∈ items, code mark (changed item) = code mark (lines item) := by
  simp only [List.map_inj_left, File.without_eq_iff]

/-- Where a plan is changed without touching the places and names of its clients and models, its files are the same
without comments if each source is. -/
theorem files_changed_iff {plan changed : Plan} {client : Plan.Client → Plan.Client}
    {model : Plan.ModelDecl → Plan.ModelDecl} (package : changed.package = plan.package)
    (settings : changed.settings = plan.settings) (clients : changed.clients = plan.clients.map client)
    (models : changed.models = plan.models.map model)
    (clientNames : ∀ old, (client old).moduleName = old.moduleName ∧ (client old).typeName = old.typeName)
    (modelNames : ∀ old, (model old).fileStem = old.fileStem ∧ (model old).typeName = old.typeName) :
    (files changed).map (File.without mark) = (files plan).map (File.without mark) ↔
      code mark (configLines changed) = code mark (configLines plan) ∧
        (∀ old ∈ plan.clients, code mark (clientLines (client old)) = code mark (clientLines old)) ∧
        ∀ old ∈ plan.models,
          code mark (modelLines plan.settings (model old)) = code mark (modelLines plan.settings old) := by
  simp only [files, package, settings, clients, models, clientNames, modelNames, List.map_append, List.map_cons,
    List.map_nil, List.map_map, Function.comp_def]
  constructor
  · intro same
    obtain ⟨same, modelFiles⟩ := List.append_inj' same (by simp only [List.length_map])
    obtain ⟨same, -⟩ := List.append_inj' same rfl
    obtain ⟨same, clientFiles⟩ := List.append_inj' same (by simp only [List.length_map])
    have config := List.append_cancel_left same
    simp only [List.cons.injEq, File.without_eq_iff, and_true, true_and] at config
    exact ⟨config, (map_without_eq_iff _ _ _).mp clientFiles, (map_without_eq_iff _ _ _).mp modelFiles⟩
  · rintro ⟨config, clientSources, modelSources⟩
    rw [(map_without_eq_iff _ _ _).mpr clientSources, (map_without_eq_iff _ _ _).mpr modelSources,
      File.without_eq_iff.mpr config]

end ClientForge.Source
