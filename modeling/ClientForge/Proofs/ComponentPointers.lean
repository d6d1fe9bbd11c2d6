import ClientForge.Document.Pointer
import Mathlib.Data.List.Basic

/-! Where a reference into the components points: into one part of them, to the name that its last segment is once its
escapes are gone. -/

namespace ClientForge.Document

/-- The form of a location: a segment behind the place of a part, with a name in it once it is decoded. -/
structure PointsInto (part location name : String) : Prop where
  place : ∃ segment : String, location = "#/components/" ++ part ++ "/" ++ segment ∧ '/' ∉ segment.toList ∧
    decodeSegment segment = name
  named : name ≠ ""
  single : '/' ∉ part.toList

private theorem splitAt_eq_three {text root owner segment : String} :
    Text.splitAt '/' text = [root, owner, segment] ↔
      text = root ++ "/" ++ owner ++ "/" ++ segment ∧ '/' ∉ root.toList ∧ '/' ∉ owner.toList ∧ '/' ∉ segment.toList := by
  have parts : Text.splitAt '/' text = [root, owner, segment] ↔
      Text.splitWhere (· == '/') text.toList = [root.toList, owner.toList, segment.toList] := by
    rw [Text.splitAt, ← List.map_injective_iff.mpr (fun _ _ => String.ofList_inj.mp) |>.eq_iff]
    simp
  have noSlash (part : String) : (∀ c ∈ part.toList, (c == '/') = false) ↔ '/' ∉ part.toList := by
    simp only [beq_eq_false_iff_ne]
    exact List.forall_mem_ne'
  rw [parts, Text.splitWhere_eq_cons]
  simp only [Text.splitWhere_eq_cons, Text.splitWhere_eq_one, noSlash]
  constructor
  · rintro ⟨first, c, rest, slash, whole, second, d, last, again, rfl, rfl, third⟩
    cases beq_iff_eq.mp slash
    cases beq_iff_eq.mp again
    exact ⟨String.toList_inj.mp (by simp [whole]), first, second, third⟩
  · rintro ⟨rfl, first, second, third⟩
    exact ⟨first, '/', _, by simp, by simp, second, '/', _, by simp, rfl, rfl, third⟩

theorem componentName?_eq_some_iff {location part name : String} :
    componentName? location part = some name ↔ PointsInto part location name := by
  constructor
  · intro found
    unfold componentName? afterStart? at found
    split at found
    next => cases found
    next pointer behind =>
      split at behind
      next starts =>
        cases behind
        obtain ⟨rest, whole⟩ := List.isPrefixOf_iff_prefix.mp starts
        rw [← whole, List.drop_left] at found
        split at found
        next root owner segment parts =>
          split at found
          next kept =>
            simp only [Bool.and_eq_true, decide_eq_true_eq, ne_eq] at kept
            obtain ⟨⟨rfl, rfl⟩, named⟩ := kept
            obtain ⟨text, -, single, none⟩ := splitAt_eq_three.mp parts
            have same : decodeSegment segment = name := Option.some.inj found
            refine ⟨⟨segment, String.toList_inj.mp ?_, none, same⟩, same ▸ named, single⟩
            have chars := congrArg String.toList text
            rw [String.toList_ofList] at chars
            rw [← whole, chars]
            simp
          next => cases found
        next => cases found
      next => cases behind
  · rintro ⟨⟨segment, rfl, none, rfl⟩, named, single⟩
    have parts : Text.splitAt '/' ("components/" ++ part ++ "/" ++ segment) = ["components", part, segment] :=
      splitAt_eq_three.mpr ⟨by rfl, by decide, single, none⟩
    have behind : afterStart? ['#', '/'] ("#/components/" ++ part ++ "/" ++ segment).toList =
        some ("components/" ++ part ++ "/" ++ segment).toList := by simp [afterStart?]
    simp only [componentName?, behind, String.ofList_toList, parts]
    simp [named]

end ClientForge.Document
