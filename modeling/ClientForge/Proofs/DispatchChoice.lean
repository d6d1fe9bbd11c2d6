import Mathlib.Data.List.Nodup
import ClientForge.Plan.Method
import ClientForge.Proofs.DispatchReading

/-! The outcome that a status gets. The arms come in three groups, for single codes, for classes and for the
failures that are left, and a last one for the rest; within a group no two arms take the same status. So the first
arm that takes a status is found group by group. What an arm builds has been declared in the same shape. -/

namespace ClientForge.Source
open Api Plan

variable {family : Family} {variants : List Variant}

/-- What the value of an arm makes: a variant, the status in it if there is a field for one, and whether the body
of the response is decoded for it. -/
structure Built where
  variant : String
  statusCode : Option Nat
  decodesBody : Bool

/-- What an arm of a `match` on a status makes of `code`. The field for the status gets what the pattern has
called the status. -/
inductive Builds (type : String) (code : Nat) : MatchArm → Built → Prop where
  | unit {pattern : MatchPattern} {name : String} :
      Builds type code ⟨pattern, "Ok(" ++ type ++ "::" ++ name ++ ")"⟩ ⟨name, none, false⟩
  | tuple {pattern : MatchPattern} {name : String} :
      Builds type code ⟨pattern, "Ok(" ++ type ++ "::" ++ name ++ "(response.json().await?))"⟩ ⟨name, none, true⟩
  | status {pattern : MatchPattern} {name : String} (bound : pattern.binding = some "status_code") :
      Builds type code ⟨pattern, "Ok(" ++ type ++ "::" ++ name ++ " \x7b status_code \x7d)"⟩ ⟨name, some code, false⟩
  | statusAndBody {pattern : MatchPattern} {name : String} (bound : pattern.binding = some "status_code") :
      Builds type code
        ⟨pattern, "Ok(" ++ type ++ "::" ++ name ++ " \x7b status_code, body: response.json().await? \x7d)"⟩
        ⟨name, some code, true⟩

/-- A variant as it is declared: whether it has a field for the status, and whether it has a body. -/
structure Declared where
  variant : String
  hasStatus : Bool
  hasBody : Bool

inductive Declares : List String → Declared → Prop where
  | unit {name : String} : Declares ["    " ++ name ++ ","] ⟨name, false, false⟩
  | tuple {name type : String} : Declares ["    " ++ name ++ "(" ++ type ++ "),"] ⟨name, false, true⟩
  | status {name : String} :
      Declares ["    " ++ name ++ " \x7b", "        /// Received status code.", "        status_code: u16,", "    \x7d,"]
        ⟨name, true, false⟩
  | statusAndBody {name type : String} :
      Declares ["    " ++ name ++ " \x7b", "        /// Received status code.", "        status_code: u16,",
        "        /// Decoded payload.", "        body: " ++ type ++ ",", "    \x7d,"] ⟨name, true, true⟩

namespace Payload

def hasStatus : Payload → Bool
  | status | statusAndBody => true
  | nothing | body => false

def hasBody : Payload → Bool
  | body | statusAndBody => true
  | nothing | status => false

theorem declares (name type : String) (payload : Payload) :
    Declares (payloadLines name type payload) ⟨name, payload.hasStatus, payload.hasBody⟩ := by
  cases payload with
  | nothing => exact .unit
  | body => exact .tuple
  | status => exact .status
  | statusAndBody => exact .statusAndBody

theorem builds (type : String) (code : Nat) (arm : Arm)
    (bound : arm.payload.hasStatus = true → arm.pattern.reading.binding = some "status_code") :
    Builds type code (arm.reading type)
      ⟨arm.variant, if arm.payload.hasStatus then some code else none, arm.payload.hasBody⟩ := by
  obtain ⟨pattern, name, payload⟩ := arm
  cases payload with
  | nothing =>
    rw [Arm.reading, argument, String.append_empty]
    exact .unit
  | body =>
    rw [Arm.reading, argument, String.append_assoc]
    exact .tuple
  | status =>
    rw [Arm.reading, argument, String.append_assoc]
    exact .status (bound rfl)
  | statusAndBody =>
    rw [Arm.reading, argument, String.append_assoc]
    exact .statusAndBody (bound rfl)

theorem hasStatus_payload (variant : Variant) : (payload variant).hasStatus = decide (variant.status = .default) := by
  unfold payload
  cases variant.status <;> cases variant.body <;> rfl

theorem hasBody_payload (variant : Variant) : (payload variant).hasBody = variant.body.isSome := by
  unfold payload
  cases variant.status <;> cases variant.body <;> rfl

end Payload

def Arm.takes (arm : Arm) (code : Nat) : Bool := arm.pattern.reading.covers code

/-- A status that an outcome is documented for, apart from the default one. -/
def Covers (status : Status) (code : Nat) : Prop := status = .exact code ∨ status = .range (code / 100)

private theorem takes_hundreds {first code : Nat} {others : List Nat} {name : String} {payload : Payload} :
    (Arm.mk (.hundreds first others) name payload).takes code = true ↔ code / 100 ∈ first :: others := by
  have each (n : Nat) : (100 * n ≤ code ∧ code ≤ 100 * n + 99) ↔ code / 100 = n := by omega
  simp [Arm.takes, Pattern.reading, MatchPattern.covers, each]

theorem documentedArm?_eq_some {variant : Variant} {arm : Arm} (documented : documentedArm? variant = some arm) :
    arm.variant = variant.name ∧ arm.payload = payload variant ∧ ∀ code, arm.takes code = true ↔ Covers variant.status code := by
  unfold documentedArm? at documented
  unfold Covers
  cases status : variant.status with
  | exact n =>
    rw [status] at documented
    cases documented
    refine ⟨rfl, rfl, fun code => ?_⟩
    have inside : (n ≤ code ∧ code ≤ n) ↔ n = code := by omega
    simp [Arm.takes, Pattern.reading, MatchPattern.covers, inside]
  | range n =>
    rw [status] at documented
    cases documented
    refine ⟨rfl, rfl, fun code => ?_⟩
    have inside : (100 * n ≤ code ∧ code ≤ 100 * n + 99) ↔ n = code / 100 := by omega
    simp [Arm.takes, Pattern.reading, MatchPattern.covers, inside]
  | default =>
    rw [status] at documented
    cases documented

def documentedArms (keep : Variant → Bool) (variants : List Variant) : List Arm :=
  (variants.filter keep).filterMap documentedArm?

theorem arms_eq (family : Family) : arms family =
    documentedArms isExact family.variants ++ (documentedArms isRange family.variants ++
      ((defaultArm? family.variants).toList ++ [⟨.any, family.unknownFailure, .status⟩])) := by
  simp [arms, documentedArms]

theorem mem_documentedArms {keep : Variant → Bool} {arm : Arm} : arm ∈ documentedArms keep variants ↔
    ∃ variant ∈ variants, keep variant = true ∧ documentedArm? variant = some arm := by
  simp [documentedArms, and_assoc]

private theorem variant_eq (distinct : (variants.map Variant.status).Nodup) {first second : Variant}
    (listed : first ∈ variants) (listedSecond : second ∈ variants) (same : first.status = second.status) : first = second :=
  List.inj_on_of_nodup_map distinct listed listedSecond same

private theorem find?_documentedArms (distinct : (variants.map Variant.status).Nodup) {keep : Variant → Bool}
    {variant : Variant} {code : Nat} (listed : variant ∈ variants) (kept : keep variant = true)
    (covers : Covers variant.status code)
    (only : ∀ other : Variant, keep other = true → Covers other.status code → other.status = variant.status) :
    ∃ arm, documentedArm? variant = some arm ∧
      (documentedArms keep variants).find? (·.takes code) = some arm := by
  obtain ⟨arm, documented⟩ : ∃ arm, documentedArm? variant = some arm := by
    rcases covers with exact | range
    · exact ⟨_, by rw [documentedArm?, exact]⟩
    · exact ⟨_, by rw [documentedArm?, range]⟩
  refine ⟨arm, documented, ?_⟩
  have member : arm ∈ documentedArms keep variants := mem_documentedArms.mpr ⟨variant, listed, kept, documented⟩
  have takes : arm.takes code = true := ((documentedArm?_eq_some documented).2.2 code).mpr covers
  cases found : (documentedArms keep variants).find? (·.takes code) with
  | none => exact absurd takes (List.find?_eq_none.mp found arm member)
  | some other =>
    obtain ⟨rival, listedRival, keptRival, documentedRival⟩ := mem_documentedArms.mp (List.mem_of_find?_eq_some found)
    have takesRival : other.takes code = true := List.find?_some (p := fun arm : Arm => arm.takes code) found
    have coversRival := ((documentedArm?_eq_some documentedRival).2.2 code).mp takesRival
    cases variant_eq distinct listedRival listed (only rival keptRival coversRival)
    exact documentedRival.symm.trans documented

private theorem find?_documentedArms_none {keep : Variant → Bool} {code : Nat}
    (none : ∀ variant ∈ variants, keep variant = true → ¬ Covers variant.status code) :
    (documentedArms keep variants).find? (·.takes code) = Option.none := by
  refine List.find?_eq_none.mpr fun arm member takes => ?_
  obtain ⟨variant, listed, kept, documented⟩ := mem_documentedArms.mp member
  exact none variant listed kept (((documentedArm?_eq_some documented).2.2 code).mp takes)

private theorem covers_of_isExact {variant : Variant} {code : Nat} (exact : isExact variant = true)
    (covers : Covers variant.status code) : variant.status = .exact code := by
  rcases covers with same | range
  · exact same
  · simp [isExact, range] at exact

private theorem covers_of_isRange {variant : Variant} {code : Nat} (range : isRange variant = true)
    (covers : Covers variant.status code) : variant.status = .range (code / 100) := by
  rcases covers with exact | same
  · simp [isRange, exact] at range
  · exact same

theorem mem_openFailures {n : Nat} :
    n ∈ openFailures variants ↔ (n = 4 ∨ n = 5) ∧ ∀ variant ∈ variants, variant.status ≠ .range n := by
  simp [openFailures]

theorem defaultArm?_eq_some {arm : Arm} : defaultArm? variants = some arm ↔
    ∃ variant first others, variants.find? (·.status = .default) = some variant ∧
      openFailures variants = first :: others ∧ arm = ⟨.hundreds first others, variant.name, payload variant⟩ := by
  unfold defaultArm?
  constructor
  · intro made
    split at made
    next variant first others found failures =>
      exact ⟨variant, first, others, found, failures, (Option.some.inj made).symm⟩
    next => cases made
  · rintro ⟨variant, first, others, found, failures, rfl⟩
    rw [found, failures]

/-- The first arm that takes a status, and what it makes of it. -/
def Selects (type : String) (arms : List MatchArm) (code : Nat) (built : Built) : Prop :=
  ∃ arm, arms.find? (·.pattern.covers code) = some arm ∧ Builds type code arm built

private theorem selects_of_find {code : Nat} {arm : Arm} (found : (arms family).find? (·.takes code) = some arm)
    (bound : arm.payload.hasStatus = true → arm.pattern.reading.binding = some "status_code") :
    Selects family.typeName ((arms family).map (Arm.reading family.typeName)) code
      ⟨arm.variant, if arm.payload.hasStatus then some code else none, arm.payload.hasBody⟩ := by
  refine ⟨arm.reading family.typeName, ?_, Payload.builds _ _ arm bound⟩
  rw [List.find?_map]
  have same : ((·.pattern.covers code) ∘ Arm.reading family.typeName) = fun arm => arm.takes code := rfl
  rw [same, found, Option.map_some]

private theorem selects_documented {code : Nat} {variant : Variant} {arm : Arm}
    (documented : documentedArm? variant = some arm) (covers : Covers variant.status code)
    (found : (arms family).find? (·.takes code) = some arm) :
    Selects family.typeName ((arms family).map (Arm.reading family.typeName)) code
      ⟨variant.name, none, variant.body.isSome⟩ := by
  obtain ⟨name, carries, -⟩ := documentedArm?_eq_some documented
  have noStatus : arm.payload.hasStatus = false := by
    rw [carries, Payload.hasStatus_payload, decide_eq_false_iff_not]
    intro default
    simp [Covers, default] at covers
  have selects := selects_of_find found (fun status => by simp [noStatus] at status)
  rwa [noStatus, name, carries, Payload.hasBody_payload] at selects

private theorem selects_default {code : Nat} {variant : Variant} {first : Nat} {others : List Nat}
    (default : variant.status = .default)
    (found : (arms family).find? (·.takes code) = some ⟨.hundreds first others, variant.name, payload variant⟩) :
    Selects family.typeName ((arms family).map (Arm.reading family.typeName)) code
      ⟨variant.name, some code, variant.body.isSome⟩ := by
  have selects := selects_of_find found fun _ => rfl
  simpa [Payload.hasStatus_payload, Payload.hasBody_payload, default] using selects

/-- What the choice by status makes of `code`. -/
structure Chooses (family : Family) (arms : List MatchArm) (code : Nat) : Prop where
  exact : ∀ variant ∈ family.variants, variant.status = .exact code →
    Selects family.typeName arms code ⟨variant.name, none, variant.body.isSome⟩
  range : (∀ variant ∈ family.variants, variant.status ≠ .exact code) →
    ∀ variant ∈ family.variants, variant.status = .range (code / 100) →
      Selects family.typeName arms code ⟨variant.name, none, variant.body.isSome⟩
  default : (∀ variant ∈ family.variants, variant.status ≠ .exact code ∧ variant.status ≠ .range (code / 100)) →
    400 ≤ code → code ≤ 599 → ∀ variant ∈ family.variants, variant.status = .default →
      Selects family.typeName arms code ⟨variant.name, some code, variant.body.isSome⟩
  unknown : (∀ variant ∈ family.variants, variant.status ≠ .exact code ∧ variant.status ≠ .range (code / 100)) →
    (code < 400 ∨ 599 < code ∨ ∀ variant ∈ family.variants, variant.status ≠ .default) →
      Selects family.typeName arms code ⟨family.unknownFailure, some code, false⟩

private theorem find?_undocumented {code : Nat}
    (undocumented : ∀ variant ∈ family.variants, variant.status ≠ .exact code ∧ variant.status ≠ .range (code / 100)) :
    (arms family).find? (·.takes code) =
      ((defaultArm? family.variants).toList ++ [Arm.mk .any family.unknownFailure .status]).find? (·.takes code) := by
  have documented (keep : Variant → Bool) : (documentedArms keep family.variants).find? (·.takes code) = none :=
    find?_documentedArms_none fun other member _ covers =>
      covers.elim (undocumented other member).1 (undocumented other member).2
  rw [arms_eq, List.find?_append, documented, Option.none_or, List.find?_append, documented, Option.none_or]

private theorem chooses (distinct : (family.variants.map Variant.status).Nodup) (code : Nat) :
    Chooses family ((arms family).map (Arm.reading family.typeName)) code where
  exact variant listed exact := by
    have only (other : Variant) (kept : isExact other = true) (covers : Covers other.status code) :
        other.status = variant.status := (covers_of_isExact kept covers).trans exact.symm
    obtain ⟨arm, documented, found⟩ :=
      find?_documentedArms distinct listed (by rw [isExact, exact]) (Or.inl exact) only
    refine selects_documented documented (Or.inl exact) ?_
    rw [arms_eq, List.find?_append, found, Option.some_or]
  range noExact variant listed range := by
    have only (other : Variant) (kept : isRange other = true) (covers : Covers other.status code) :
        other.status = variant.status := (covers_of_isRange kept covers).trans range.symm
    obtain ⟨arm, documented, found⟩ :=
      find?_documentedArms distinct listed (by rw [isRange, range]) (Or.inr range) only
    have exacts := find?_documentedArms_none fun other member kept covers =>
      noExact other member (covers_of_isExact kept covers)
    refine selects_documented documented (Or.inr range) ?_
    rw [arms_eq, List.find?_append, exacts, Option.none_or, List.find?_append, found, Option.some_or]
  default undocumented least most variant listed default := by
    have first : family.variants.find? (·.status = .default) = some variant := by
      cases found : family.variants.find? (·.status = .default) with
      | none => exact absurd default (by simpa using List.find?_eq_none.mp found variant listed)
      | some other =>
        have same : other.status = .default := by simpa using List.find?_some found
        rw [variant_eq distinct (List.mem_of_find?_eq_some found) listed (same.trans default.symm)]
    have failure : code / 100 ∈ openFailures family.variants :=
      mem_openFailures.mpr ⟨by omega, fun other member => (undocumented other member).2⟩
    cases failures : openFailures family.variants with
    | nil => simp [failures] at failure
    | cons hundred others =>
      rw [failures] at failure
      have made := defaultArm?_eq_some.mpr ⟨variant, hundred, others, first, failures, rfl⟩
      have takes : (Arm.mk (.hundreds hundred others) variant.name (payload variant)).takes code = true :=
        takes_hundreds.mpr failure
      have found : (arms family).find? (·.takes code) =
          some ⟨.hundreds hundred others, variant.name, payload variant⟩ := by
        rw [find?_undocumented undocumented, made, Option.toList_some, List.singleton_append, List.find?_cons, takes]
      exact selects_default default found
  unknown undocumented outside := by
    have noDefault : (defaultArm? family.variants).toList.find? (·.takes code) = none := by
      refine List.find?_eq_none.mpr fun arm member takes => ?_
      obtain ⟨variant, hundred, others, found, failures, rfl⟩ := defaultArm?_eq_some.mp (Option.mem_toList.mp member)
      have failure := takes_hundreds.mp takes
      rw [← failures, mem_openFailures] at failure
      rcases outside with low | high | none
      · omega
      · omega
      · exact none variant (List.mem_of_find?_eq_some found) (by simpa using List.find?_some found)
    have found : (arms family).find? (·.takes code) = some ⟨.any, family.unknownFailure, .status⟩ := by
      rw [find?_undocumented undocumented, List.find?_append, noDefault, Option.none_or]
      rfl
    exact selects_of_find found fun _ => rfl

def declarations (family : Family) : List String :=
  family.variants.flatMap variantLines ++ ["    /// A status code the API description does not document."] ++
    payloadLines family.unknownFailure "" .status

private theorem declared_variant {variant : Variant} (listed : variant ∈ family.variants) :
    ∃ lines, lines <:+: declarations family ∧
      Declares lines ⟨variant.name, (payload variant).hasStatus, (payload variant).hasBody⟩ := by
  refine ⟨_, ?_, Payload.declares variant.name ((variant.body.map (TypeRef.text clientQualifier)).getD "") _⟩
  obtain ⟨before, after, all⟩ := List.append_of_mem listed
  refine ⟨before.flatMap variantLines ++ docComment "    " variant.description,
    after.flatMap variantLines ++ ["    /// A status code the API description does not document."] ++
      payloadLines family.unknownFailure "" .status, ?_⟩
  simp [declarations, all, variantLines]

private theorem declared_arm {arm : Arm} (member : arm ∈ arms family) :
    (arm.payload.hasStatus = true → arm.pattern.reading.binding = some "status_code") ∧
      ∃ lines, lines <:+: declarations family ∧
        Declares lines ⟨arm.variant, arm.payload.hasStatus, arm.payload.hasBody⟩ := by
  have ofDocumented {keep : Variant → Bool} (listed : arm ∈ documentedArms keep family.variants) :
      (arm.payload.hasStatus = true → arm.pattern.reading.binding = some "status_code") ∧
        ∃ lines, lines <:+: declarations family ∧
          Declares lines ⟨arm.variant, arm.payload.hasStatus, arm.payload.hasBody⟩ := by
    obtain ⟨variant, inside, -, documented⟩ := mem_documentedArms.mp listed
    obtain ⟨name, carries, -⟩ := documentedArm?_eq_some documented
    rw [name, carries]
    refine ⟨fun status => ?_, declared_variant inside⟩
    rw [Payload.hasStatus_payload, decide_eq_true_eq] at status
    simp [documentedArm?, status] at documented
  rw [arms_eq] at member
  rcases List.mem_append.mp member with exact | rest
  · exact ofDocumented exact
  rcases List.mem_append.mp rest with range | rest
  · exact ofDocumented range
  rcases List.mem_append.mp rest with default | unknown
  · obtain ⟨variant, hundred, others, found, -, rfl⟩ := defaultArm?_eq_some.mp (Option.mem_toList.mp default)
    exact ⟨fun _ => rfl, declared_variant (List.mem_of_find?_eq_some found)⟩
  · cases List.mem_singleton.mp unknown
    exact ⟨fun _ => rfl, _, (List.suffix_append _ _).isInfix, Payload.declares family.unknownFailure "" .status⟩

private theorem variants_statuses (typeName : String → String) (method : String) (successes : Nat) (seen : List String)
    (responses : List (Status × Response)) :
    ((Plan.variants typeName method successes seen responses).map Variant.status).Sublist (responses.map Prod.fst) := by
  induction responses generalizing seen with
  | nil => simp [Plan.variants]
  | cons response responses ih =>
    obtain ⟨status, response⟩ := response
    rw [Plan.variants]
    split
    · exact (ih seen).cons _
    · exact (ih _).cons_cons _

theorem family_statuses (typeName : String → String) (operation : Operation) (method familyType : String) :
    ((Plan.family typeName operation method familyType).variants.map Variant.status).Nodup :=
  (variants_statuses typeName method _ [] operation.responses.entries).nodup operation.responses.distinct

/-- The choice by status. Planned families have each status once; for every such family the lines of the choice
read as arms of which the first one that takes a status makes of it the outcome that is documented for it, for its
class or, among failures, by default, and else the unknown failure with the status. Each arm builds a variant
that the type of the outcomes declares in the same shape, and decodes the body if the variant has one. -/
theorem dispatch_chooses :
    (∀ (typeName : String → String) (operation : Operation) (method familyType : String),
      ((Plan.family typeName operation method familyType).variants.map Variant.status).Nodup) ∧
    ∀ (family : Family) (clientType method : String), (family.variants.map Variant.status).Nodup →
      ∃ arms lines head, readMatch (dispatchLines family) = some arms ∧ (∀ code, Chooses family arms code) ∧
        familyLines family clientType method = head ++ ["pub enum " ++ family.typeName ++ " \x7b"] ++ lines ++ ["\x7d"] ∧
        ∀ arm ∈ arms, ∃ declaration declared, declaration <:+: lines ∧ Declares declaration declared ∧
          ∀ code, Builds family.typeName code arm
            ⟨declared.variant, if declared.hasStatus then some code else none, declared.hasBody⟩ := by
  refine ⟨family_statuses, fun family clientType method distinct => ?_⟩
  refine ⟨(arms family).map (Arm.reading family.typeName), declarations family,
    ["/// Outcomes of [`" ++ clientType ++ "::" ++ method ++ "`].", "#[derive(Debug, Clone, PartialEq)]"],
    readMatch_dispatchLines family, chooses distinct, ?_, fun arm member => ?_⟩
  · simp [familyLines, declarations]
  · obtain ⟨arm, listed, rfl⟩ := List.mem_map.mp member
    obtain ⟨bound, declaration, inside, declares⟩ := declared_arm listed
    exact ⟨declaration, _, inside, declares, fun code => Payload.builds _ _ arm bound⟩

def petFamily : Family :=
  ⟨"GetPetResult",
    [⟨"Failure", .default, some (.scalar .string), none⟩, ⟨"Failure4xx", .range 4, none, none⟩,
      ⟨"Success", .exact 200, some (.scalar .string), none⟩],
    "UnknownFailure"⟩

theorem petFamily_chooses : (petFamily.variants.map Variant.status).Nodup ∧
    ∃ arms, readMatch (dispatchLines petFamily) = some arms ∧
      Selects "GetPetResult" arms 200 ⟨"Success", none, true⟩ ∧ Selects "GetPetResult" arms 404 ⟨"Failure4xx", none, false⟩ ∧
        Selects "GetPetResult" arms 503 ⟨"Failure", some 503, true⟩ ∧
          Selects "GetPetResult" arms 302 ⟨"UnknownFailure", some 302, false⟩ := by
  have distinct : (petFamily.variants.map Variant.status).Nodup := by decide
  obtain ⟨arms, lines, head, read, chooses, -⟩ := dispatch_chooses.2 petFamily "PetClient" "get_pet" distinct
  refine ⟨distinct, arms, read, ?_, ?_, ?_, ?_⟩
  · exact (chooses 200).exact ⟨"Success", .exact 200, some (.scalar .string), none⟩ (by decide) rfl
  · exact (chooses 404).range (by decide) ⟨"Failure4xx", .range 4, none, none⟩ (by decide) rfl
  · exact (chooses 503).default (by decide) (by decide) (by decide)
      ⟨"Failure", .default, some (.scalar .string), none⟩ (by decide) rfl
  · exact (chooses 302).unknown (by decide) (Or.inl (by decide))

end ClientForge.Source
