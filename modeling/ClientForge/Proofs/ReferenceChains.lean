import ClientForge.Proofs.ComponentPointers
import ClientForge.Proofs.Numbering
import ClientForge.Proofs.TableEntries
import ClientForge.Resolve.Operation
import Mathlib.Data.List.Nodup

/-! Chains of references among the components of one part. A chain ends at an item, at a reference that leads nowhere, or
not at all. Following one finds the end if fewer things than the bound come before it, and a fault otherwise. -/

namespace ClientForge.Resolve
open Document

section Chains

variable {α : Type} (part : String) (table : Table String (RefOr α))

/-- A number of references lead from one to the next, each of them to an entry that is declared. -/
inductive Leads : Nat → RefOr α → RefOr α → Prop
  | here (item : RefOr α) : Leads 0 item item
  | step {n : Nat} {target : Reference} {name : String} {next last : RefOr α}
      (points : PointsInto part target.location name) (declared : (name, next) ∈ table.entries)
      (later : Leads n next last) : Leads (n + 1) (.ref target) last

/-- A reference leads nowhere, and the fault says why. -/
inductive Breaks : Reference → ReferenceFault → Prop
  | external {target : Reference} (nowhere : ∀ name, ¬ PointsInto part target.location name) :
      Breaks target (.external target.location)
  | undefined {target : Reference} {name : String} (points : PointsInto part target.location name)
      (undeclared : name ∉ table.keys) : Breaks target (.undefined part name)

end Chains

variable {α : Type} {part : String} {table : Table String (RefOr α)}

private theorem Breaks.chase {target : Reference} {fault : ReferenceFault} (breaks : Breaks part table target fault)
    (steps : Nat) : chase part table (steps + 1) (.ref target) = .error fault := by
  rw [Resolve.chase]
  cases breaks with
  | external nowhere =>
    have none : componentName? target.location part = none :=
      Option.eq_none_iff_forall_ne_some.mpr fun name found => nowhere name (componentName?_eq_some_iff.mp found)
    rw [none]
  | undefined points undeclared =>
    rw [componentName?_eq_some_iff.mpr points]
    simp only [Table.get?_eq_none.mpr undeclared]

private theorem Leads.chase {n : Nat} {item last : RefOr α} (leads : Leads part table n item last) (steps : Nat) :
    chase part table (steps + n) item = chase part table steps last := by
  induction leads with
  | here => rfl
  | step points declared _ ih =>
    rw [← Nat.add_assoc, Resolve.chase, componentName?_eq_some_iff.mpr points]
    simp only [Table.get?_eq_some.mpr declared, ih]

variable (part table) in
private theorem leads_or_breaks (target : Reference) :
    (∃ next, Leads part table 1 (.ref target) next) ∨ ∃ fault, Breaks part table target fault := by
  by_cases points : ∃ name, PointsInto part target.location name
  · obtain ⟨name, points⟩ := points
    cases found : table.get? name with
    | some next => exact Or.inl ⟨next, .step points (Table.get?_eq_some.mp found) (.here next)⟩
    | none => exact Or.inr ⟨_, .undefined points (Table.get?_eq_none.mp found)⟩
  · exact Or.inr ⟨_, .external (not_exists.mp points)⟩

private theorem Leads.trans {n m : Nat} {item middle last : RefOr α} (first : Leads part table n item middle)
    (second : Leads part table m middle last) : Leads part table (n + m) item last := by
  induction first with
  | here => rwa [Nat.zero_add]
  | step points declared _ ih =>
    rw [Nat.succ_add]
    exact .step points declared (ih second)

variable (part table) in
private theorem leads_or_ends (steps : Nat) (item : RefOr α) :
    (∃ last, Leads part table steps item last) ∨ ∃ n < steps, (∃ value, Leads part table n item (.inline value)) ∨
      ∃ target fault, Leads part table n item (.ref target) ∧ Breaks part table target fault := by
  induction steps with
  | zero => exact Or.inl ⟨item, .here item⟩
  | succ steps ih =>
    rcases ih with ⟨last, leads⟩ | ⟨n, before, ends⟩
    · cases last with
      | inline value => exact Or.inr ⟨steps, by omega, Or.inl ⟨value, leads⟩⟩
      | ref target =>
        rcases leads_or_breaks part table target with ⟨next, on⟩ | ⟨fault, breaks⟩
        · exact Or.inl ⟨next, leads.trans on⟩
        · exact Or.inr ⟨steps, by omega, Or.inr ⟨target, fault, leads, breaks⟩⟩
    · exact Or.inr ⟨n, by omega, ends⟩

private theorem chase_inline {steps n : Nat} {item : RefOr α} {value : α} (before : n < steps)
    (leads : Leads part table n item (.inline value)) : chase part table steps item = .ok value := by
  obtain ⟨left, rfl⟩ : ∃ left, steps = left + 1 + n := ⟨steps - 1 - n, by omega⟩
  rw [leads.chase, chase]

private theorem chase_broken {steps n : Nat} {item : RefOr α} {target : Reference} {fault : ReferenceFault}
    (before : n < steps) (leads : Leads part table n item (.ref target)) (breaks : Breaks part table target fault) :
    chase part table steps item = .error fault := by
  obtain ⟨left, rfl⟩ : ∃ left, steps = left + 1 + n := ⟨steps - 1 - n, by omega⟩
  rw [leads.chase, breaks.chase]

private theorem chase_long {steps : Nat} {item last : RefOr α} (leads : Leads part table steps item last) :
    chase part table steps item = .error (.tooDeep part) := by
  have spent := leads.chase 0
  rwa [Nat.zero_add, chase] at spent

theorem chase_eq_ok {steps : Nat} {item : RefOr α} {value : α} :
    chase part table steps item = .ok value ↔ ∃ n < steps, Leads part table n item (.inline value) := by
  constructor
  · intro found
    rcases leads_or_ends part table steps item with
      ⟨last, leads⟩ | ⟨n, before, ⟨other, leads⟩ | ⟨target, fault, leads, breaks⟩⟩
    · cases (chase_long leads).symm.trans found
    · cases (chase_inline before leads).symm.trans found
      exact ⟨n, before, leads⟩
    · cases (chase_broken before leads breaks).symm.trans found
  · rintro ⟨n, before, leads⟩
    exact chase_inline before leads

theorem chase_eq_error {steps : Nat} {item : RefOr α} {fault : ReferenceFault} :
    chase part table steps item = .error fault ↔
      (∃ n < steps, ∃ target, Leads part table n item (.ref target) ∧ Breaks part table target fault) ∨
        fault = .tooDeep part ∧ ∃ last, Leads part table steps item last := by
  constructor
  · intro failed
    rcases leads_or_ends part table steps item with
      ⟨last, leads⟩ | ⟨n, before, ⟨value, leads⟩ | ⟨target, other, leads, breaks⟩⟩
    · cases (chase_long leads).symm.trans failed
      exact Or.inr ⟨rfl, last, leads⟩
    · cases (chase_inline before leads).symm.trans failed
    · cases (chase_broken before leads breaks).symm.trans failed
      exact Or.inl ⟨n, before, target, leads, breaks⟩
  · rintro (⟨n, before, target, leads, breaks⟩ | ⟨rfl, last, leads⟩)
    · exact chase_broken before leads breaks
    · exact chase_long leads

/-- Following ends at what stands at the end of the chain if fewer references than the bound lead there. Every other chain
is a fault: it comes to a reference that leads nowhere, or as many references as the bound follow each other. So a chain
with exactly as many references as the bound is too long, even where something stands at its end. -/
theorem chase_follows (item : RefOr α) :
    (∀ value, chase part table maxChain item = .ok value ↔ ∃ n < maxChain, Leads part table n item (.inline value)) ∧
      (∀ fault, chase part table maxChain item = .error fault ↔
        (∃ n < maxChain, ∃ target, Leads part table n item (.ref target) ∧ Breaks part table target fault) ∨
          fault = .tooDeep part ∧ ∃ last, Leads part table maxChain item last) ∧
      ((∀ value, chase part table maxChain item = .ok value ↔ ∃ n ≤ maxChain, Leads part table n item (.inline value)) ↔
        ∀ value, ¬ Leads part table maxChain item (.inline value)) := by
  refine ⟨fun value => chase_eq_ok, fun fault => chase_eq_error, fun same value leads => ?_, fun none value => ?_⟩
  · cases (chase_long leads).symm.trans ((same value).mpr ⟨maxChain, Nat.le_refl _, leads⟩)
  · rw [chase_eq_ok]
    refine exists_congr fun n => and_congr_left fun leads => ⟨Nat.le_of_lt, fun upTo => ?_⟩
    exact Nat.lt_of_le_of_ne upTo fun last => none value (last ▸ leads)

/-- What stands under a number: the reference to the next one, and a response in the end. -/
def relay (n : Nat) : RefOr Response :=
  if n < maxChain then .ref ⟨"#/components/responses/R" ++ toString (n + 1), "", ""⟩ else .inline ⟨some "pets", .empty⟩

def relays : Table String (RefOr Response) where
  entries := (List.range' 1 maxChain).map fun n => ("R" ++ toString n, relay n)
  distinct := by
    rw [List.map_map]
    exact List.Nodup.map (Proofs.Numbering.numbered_injective "R") List.nodup_range'

private theorem relay_points {n : Nat} (inside : n ≤ maxChain) :
    PointsInto "responses" ("#/components/responses/R" ++ toString n) ("R" ++ toString n) := by
  have named : ∀ n : Fin (maxChain + 1), componentName? ("#/components/responses/R" ++ toString n.val) "responses" =
      some ("R" ++ toString n.val) := by decide +kernel
  exact componentName?_eq_some_iff.mp (named ⟨n, Nat.lt_succ_of_le inside⟩)

private theorem relays_lead {n : Nat} (inside : n ≤ maxChain) :
    Leads "responses" relays n (relay (maxChain - n)) (relay maxChain) := by
  induction n with
  | zero => exact .here _
  | succ n ih =>
    have next : maxChain - (n + 1) + 1 = maxChain - n := by omega
    have declared : ("R" ++ toString (maxChain - n), relay (maxChain - n)) ∈ relays.entries :=
      List.mem_map_of_mem (List.mem_range'_1.mpr ⟨by omega, by omega⟩)
    rw [relay, if_pos (by omega), next]
    exact .step (relay_points (Nat.sub_le ..)) declared (ih (by omega))

/-- Sixteen references lead to a response, and it is not found. -/
theorem sixteenReferences_refused : Leads "responses" relays 16 (relay 0) (.inline ⟨some "pets", .empty⟩) ∧
    chase "responses" relays maxChain (relay 0) = .error (.tooDeep "responses") := by
  have leads := relays_lead (Nat.le_refl maxChain)
  exact ⟨leads, chase_long leads⟩

end ClientForge.Resolve
