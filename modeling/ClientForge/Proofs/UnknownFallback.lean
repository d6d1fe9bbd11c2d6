import ClientForge.Proofs.EnumerationReading
import ClientForge.Proofs.FinalNames
import ClientForge.Proofs.ModelNames
import ClientForge.Proofs.PlanCorrespondence

/-! The member of an enumeration for literals that it does not know. Its name is one that the same text as a literal would
wish for. Were there such a literal, the name would be in use before the fallback is named: hence nothing that is declared is
written or shown as the fallback is. -/

namespace ClientForge.Ident

theorem memberIdent_eq_self {name : String} {c : Char} {rest : List Char} (chars : name.toList = c :: rest)
    (capital : c.isUpper = true) (small : ∀ d ∈ rest, (d.isLower || d.isDigit) = true) (free : name ≠ "Self") :
    memberIdent name = name := by
  have spec (d : Char) (member : d ∈ rest) := small_spec (small d member)
  have letters : ∀ d ∈ name.toList, d.isAlphanum = true := by
    rw [chars]
    exact List.forall_mem_cons.mpr ⟨isAlphanum_of_isUpper capital, fun d member => (spec d member).1⟩
  have noSmall : c.isLower = false := by
    rw [isUpper_iff] at capital
    rw [Bool.eq_false_iff, ne_eq, isLower_iff]
    omega
  have whole : pascal name = name := by
    rw [pascal, words_single chars letters fun d member => (spec d member).2.1, List.flatMap_singleton, chars, titleWord,
      toUpper_of_not_isLower noSmall, map_toLower_of_small small, ← chars, String.ofList_toList]
  have nonempty : name ≠ "" := by
    rintro rfl
    cases chars
  have letter : startsWithDigit name = false := by
    rw [startsWithDigit, chars]
    exact not_isDigit_of_isUpper capital
  simp only [memberIdent, whole, if_neg nonempty, letter, Bool.false_eq_true, if_false, if_neg free]

end ClientForge.Ident

namespace ClientForge.Plan
open Api Ident

theorem enumFallback_settings {extensions : List Extension} (on : .unknownEnumFallback ∈ extensions) :
    (Extension.settings extensions).enumFallback = some "Unknown" := by
  have run {extensions : List Extension} {settings : Settings}
      (either : .unknownEnumFallback ∈ extensions ∨ settings.enumFallback = some "Unknown") :
      (extensions.foldl Extension.configure settings).enumFallback = some "Unknown" := by
    induction extensions generalizing settings with
    | nil => exact either.resolve_left List.not_mem_nil
    | cons extension extensions ih =>
      refine ih ?_
      cases extension with
      | unknownEnumFallback => exact Or.inr rfl
      | errorLogging | strictCodec => simpa [Extension.configure] using either
  exact run (Or.inl on)

private theorem fallback_final {name : String} (given : name = "Unknown" ∨ ∃ n : Nat, name = "Unknown" ++ "" ++ toString n) :
    memberIdent name = name := by
  rcases given with rfl | ⟨n, rfl⟩
  · decide +kernel
  · have chars : ("Unknown" ++ "" ++ toString n).toList = 'U' :: ("nknown".toList ++ (toString n).toList) := by
      simp
    have word : ∀ d ∈ "nknown".toList, (d.isLower || d.isDigit) = true := List.all_eq_true.mp (by decide)
    have digits : ∀ d ∈ (toString n).toList, (d.isLower || d.isDigit) = true := fun d member => by
      rw [Proofs.Numbering.isDigit_of_mem_toString member, Bool.or_true]
    refine memberIdent_eq_self chars (by decide) (List.forall_mem_append.mpr ⟨word, digits⟩) fun same => ?_
    rw [same] at chars
    cases chars

/-- The fallback is no identifier of another member, and no literal. -/
theorem members_fallback (literals : List String) :
    ∃ fallback, (members literals (some "Unknown")).2 = some fallback ∧
      fallback ∉ (members literals (some "Unknown")).1.map (·.ident) ∧ fallback ∉ literals := by
  obtain ⟨fallback, planned⟩ := Option.isSome_iff_exists.mp (members_correspond literals (some "Unknown")).2
  have wishes : (literals ++ (some "Unknown").toList).map memberIdent = literals.map memberIdent ++ ["Unknown"] := by
    have final : memberIdent "Unknown" = "Unknown" := fallback_final (Or.inl rfl)
    simp [final]
  obtain ⟨later, kind, names⟩ := Scope.pascal.allocateAll_append (literals.map memberIdent) ["Unknown"]
  have idents := members_idents literals (some "Unknown")
  rw [planned, wishes, names] at idents
  obtain ⟨own, last⟩ := List.append_inj' idents rfl
  have given : fallback = later.pick "Unknown" := List.singleton_inj.mp last
  have apart : fallback ∉ (members literals (some "Unknown")).1.map (·.ident) := by
    have distinct := Scope.pascal.allocateAll_nodup (literals.map memberIdent ++ ["Unknown"])
    rw [names, ← idents, List.nodup_append] at distinct
    exact fun among => distinct.2.2 fallback among fallback (List.mem_singleton_self _) rfl
  refine ⟨fallback, planned, apart, fun literal => apart ?_⟩
  -- A literal of this text wishes for this text, which is free when the scope is new.
  have final : memberIdent fallback = fallback := by
    refine fallback_final ?_
    rcases later.pick_cases "Unknown" with ⟨-, same⟩ | ⟨-, n, -, same, -⟩
    · exact Or.inl (given.trans same)
    · refine Or.inr ⟨n, ?_⟩
      rw [given, same, Scope.numbered, kind]
      rfl
  have wish : fallback ∈ literals.map memberIdent := List.mem_map.mpr ⟨fallback, literal, final⟩
  rw [own]
  exact Scope.mem_allocateAll wish List.not_mem_nil

example : members ["unknown", "Unknown2", "UNKNOWN"] (some "Unknown") =
    ([⟨"Unknown", "unknown"⟩, ⟨"Unknown2", "Unknown2"⟩, ⟨"Unknown3", "UNKNOWN"⟩], some "Unknown4") := by
  decide +kernel

end ClientForge.Plan

namespace ClientForge.Source
open Api Ident Plan

/-- An enumeration whose source gives every literal a member of its own, and all other texts a member that neither is one of
those nor is written or shown as one. -/
structure FallsBack (lines : List String) (literals : List String) (members : List Member) (fallback : String) : Prop where
  declared : members.map (·.literal) = literals
  apart : fallback ∉ members.map (·.ident)
  undeclared : fallback ∉ literals
  wires : wireVariants lines =
    members.map (fun member => ⟨member.ident, member.literal, false⟩) ++ [⟨fallback, fallback, true⟩]
  texts : shownTexts lines = members.map (fun member => (member.ident, member.literal)) ++ [(fallback, fallback)]

/-- With the module on, every enumeration of a plan falls back, whatever its literals are. -/
theorem build_fallsBack {extensions : List Extension} (on : .unknownEnumFallback ∈ extensions) (model : Model) (config : Config) :
    ∀ decl ∈ (build model config (Extension.settings extensions)).models, ∀ literals,
      model.schemas.get? decl.schemaName = some (.enumeration literals) →
        ∃ members fallback, decl.kind = .enumeration members (some fallback) ∧
          FallsBack (modelLines (Extension.settings extensions) decl) literals members fallback := by
  intro decl member literals declared
  obtain ⟨schema, used, kind⟩ := schema_of_model member
  obtain rfl := Option.some.inj ((usedSchemas_get?.mp used).1.symm.trans declared)
  obtain ⟨fallback, planned, apart, undeclared⟩ := members_fallback literals
  have enumeration : decl.kind = .enumeration (Plan.members literals (some "Unknown")).1 (some fallback) := by
    rw [kind, modelKind, enumFallback_settings on, ← planned]
  have spelled := ((build_spelled model config (Extension.settings extensions)).models decl member).members
  refine ⟨_, fallback, enumeration, (members_correspond literals _).1, apart, undeclared, ?_, ?_⟩
  · exact wireVariants_enumeration (Extension.settings extensions) enumeration spelled
  · exact shownTexts_enumeration (Extension.settings extensions) enumeration spelled

/-- A model with one enumeration, whose literals all ask for names that the fallback asks for. -/
def stateModel : Model :=
  let response : Response := ⟨some (.reference "State"), none⟩
  let operation : Operation :=
    ⟨⟨"/state", .get, none⟩, none, none, [], false, [], none, ⟨[(.exact 200, response)], by simp⟩⟩
  ⟨"http://localhost:8080/", ⟨[("", [operation])], by simp⟩,
    ⟨[("State", .enumeration ["unknown", "Unknown2", "UNKNOWN"])], by simp⟩, []⟩

theorem stateModel_fallsBack :
    ∃ decl ∈ (build stateModel .standard (Extension.settings [.unknownEnumFallback])).models, ∃ members fallback,
      decl.kind = .enumeration members (some fallback) ∧
        FallsBack (modelLines (Extension.settings [.unknownEnumFallback]) decl) ["unknown", "Unknown2", "UNKNOWN"] members
          fallback := by
  have mentioned : "State" ∈ (wantedGroups stateModel .standard).values.flatten.flatMap Operation.references := by
    decide +kernel
  have used : "State" ∈ (usedSchemas stateModel .standard).keys :=
    mem_usedSchemas.mpr ⟨"State", mentioned, by decide, .refl⟩
  obtain ⟨decl, member, named⟩ := model_of_used used (Extension.settings [.unknownEnumFallback])
  have declared : stateModel.schemas.get? decl.schemaName = some (.enumeration ["unknown", "Unknown2", "UNKNOWN"]) := by
    rw [named]
    rfl
  exact ⟨decl, member, build_fallsBack (by decide) stateModel .standard decl member _ declared⟩

end ClientForge.Source
