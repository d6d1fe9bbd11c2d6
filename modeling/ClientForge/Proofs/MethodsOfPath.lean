import ClientForge.Proofs.JoinedNames
import ClientForge.Proofs.MethodNaming

/-! Operations with one stem at one path. If all the segments of the path are shared by the operations with that stem, the
HTTP method tells them apart. If not, the segments are all that their names say, and a number tells them apart. -/

namespace ClientForge.Ident
open Api

/-- A name is another one with a number behind it. -/
def IsNumbered (name other : String) : Prop := ∃ n : Nat, name = other ++ "_" ++ toString n

/-- What is given for a wish: the wish, or the wish with a number from 2 on. -/
def GivenFor (wish name : String) : Prop := name = wish ∨ ∃ n ≥ 2, name = wish ++ "_" ++ toString n

/-- Every operation with the stem has all the segments of the path in its own. -/
def SharesPath (endpoints : List Endpoint) (endpoint : Endpoint) : Prop :=
  ∀ other ∈ endpoints, stem other = stem endpoint → pathSegments endpoint.path ⊆ pathSegments other.path

private theorem digits_plain (n : Nat) : '_' ∉ (toString n).toList := fun member => by
  cases Proofs.Numbering.isDigit_of_mem_toString member

theorem GivenFor.isNumbered {wish name : String} (given : GivenFor wish name) : name = wish ∨ IsNumbered name wish :=
  given.imp_right fun ⟨n, _, same⟩ => ⟨n, same⟩

private theorem IsNumbered.length_lt {name other : String} (numbered : IsNumbered name other) : other.length < name.length := by
  obtain ⟨n, rfl⟩ := numbered
  have one : "_".length = 1 := rfl
  simp only [String.length_append]
  omega

private theorem isNumbered_iff {wish name other : String} (given : GivenFor wish name) (givenToo : GivenFor wish other)
    (apart : name ≠ other) : IsNumbered name other ↔ other = wish := by
  constructor
  · intro numbered
    refine givenToo.isNumbered.resolve_right fun further => ?_
    rcases given with rfl | ⟨k, -, rfl⟩
    · exact absurd numbered.length_lt (Nat.lt_asymm further.length_lt)
    · obtain ⟨n, same⟩ := numbered
      obtain ⟨rfl, -⟩ := append_underscore_inj (digits_plain k) (digits_plain n) same
      exact absurd further.length_lt (Nat.lt_irrefl _)
  · rintro rfl
    exact given.isNumbered.resolve_left apart

private theorem key_spec (method : HttpMethod) :
    words method.token = [method.token.toList] ∧ String.ofList (method.token.toList.map Char.toLower) = method.key ∧
      '_' ∉ method.key.toList ∧ method.key.toList.all Char.isDigit = false := by
  cases method <;> decide +kernel

private theorem key_ne_digits (method : HttpMethod) (n : Nat) : method.key ≠ toString n := by
  obtain ⟨-, -, -, letters⟩ := key_spec method
  have digits : (toString n).toList.all Char.isDigit = true :=
    List.all_eq_true.mpr fun c member => Proofs.Numbering.isDigit_of_mem_toString member
  intro same
  rw [same, digits] at letters
  cases letters

private theorem key_injective {method other : HttpMethod} (same : method.key = other.key) : method = other := by
  revert same
  cases method <;> cases other <;> decide

/-- A method at the end of a name, perhaps with a number behind it, is no other method with a number. -/
private theorem not_isNumbered_of_methods {front name other : String} {method last : HttpMethod} (different : method ≠ last)
    (given : GivenFor (front ++ "_" ++ method.key) name) (givenToo : GivenFor (front ++ "_" ++ last.key) other) :
    ¬ IsNumbered name other := by
  obtain ⟨-, -, plain, -⟩ := key_spec method
  obtain ⟨-, -, plainToo, -⟩ := key_spec last
  rintro ⟨n, same⟩
  rcases given with rfl | ⟨k, -, rfl⟩
  · exact key_ne_digits method n (append_underscore_inj plain (digits_plain n) same).2
  · obtain ⟨rfl, -⟩ := append_underscore_inj (digits_plain k) (digits_plain n) same
    rcases givenToo with whole | ⟨m, -, whole⟩
    · exact different (key_injective (append_underscore_inj plain plainToo whole).2)
    · exact key_ne_digits method m (append_underscore_inj plain (digits_plain m) whole).2

variable {endpoints : List Endpoint} {first second : Endpoint}

private theorem sharesPath_iff : SharesPath endpoints first ↔ distinguishing (groupOf endpoints (stem first)) first = [] := by
  have segments (segment : String) (listed : segment ∈ pathSegments first.path) :
      (¬ (!(groupOf endpoints (stem first)).all fun other => (pathSegments other.path).contains segment) = true) ↔
        ∀ other ∈ endpoints, stem other = stem first → segment ∈ pathSegments other.path := by
    simp [groupOf]
  rw [distinguishing, List.filter_eq_nil_iff]
  constructor
  · intro shares segment listed
    exact (segments segment listed).mpr fun other member same => shares other member same listed
  · intro none other member same segment listed
    exact (segments segment listed).mp (none segment listed) other member same

private theorem two_le_group (member : first ∈ endpoints) (memberToo : second ∈ endpoints) (stems : stem first = stem second)
    (different : first ≠ second) : ¬ (groupOf endpoints (stem first)).length < 2 := by
  have inside : first ∈ groupOf endpoints (stem first) := List.mem_filter.mpr ⟨member, by simp⟩
  have insideToo : second ∈ groupOf endpoints (stem first) := List.mem_filter.mpr ⟨memberToo, by simp [stems]⟩
  intro few
  generalize groupOf endpoints (stem first) = group at *
  match group with
  | [] => cases inside
  | [only] => exact different ((List.mem_singleton.mp inside).trans (List.mem_singleton.mp insideToo).symm)

private theorem qualify_method (member : first ∈ endpoints) (memberToo : second ∈ endpoints) (stems : stem first = stem second)
    (methods : first.method ≠ second.method) (shares : SharesPath endpoints first) :
    qualify (groupOf endpoints (stem first)) first = led (snake (stem first)) ++ "_" ++ first.method.key := by
  have several := two_le_group member memberToo stems fun same => methods (congrArg Endpoint.method same)
  have others : (groupOf endpoints (stem first)).all (·.method = first.method) = false :=
    List.all_eq_false.mpr ⟨second, List.mem_filter.mpr ⟨memberToo, by simp [stems]⟩, by simpa using methods.symm⟩
  obtain ⟨single, lower, -⟩ := key_spec first.method
  rw [qualify, if_neg several]
  simp only [sharesPath_iff.mp shares, ne_eq, not_true_eq_false, if_false, others]
  rw [if_neg (by decide), snakeIdent_append (words_ne_nil (stem_valid first)) single, lower]

private theorem qualify_path (member : first ∈ endpoints) (memberToo : second ∈ endpoints) (stems : stem first = stem second)
    (paths : first.path = second.path) (methods : first.method ≠ second.method) (lacks : ¬ SharesPath endpoints first) :
    qualify (groupOf endpoints (stem second)) second = qualify (groupOf endpoints (stem first)) first := by
  have several := two_le_group member memberToo stems fun same => methods (congrArg Endpoint.method same)
  have segments : distinguishing (groupOf endpoints (stem first)) first ≠ [] := fun none => lacks (sharesPath_iff.mpr none)
  have same : distinguishing (groupOf endpoints (stem first)) second = distinguishing (groupOf endpoints (stem first)) first := by
    rw [distinguishing, distinguishing, paths]
  rw [← stems, qualify, qualify, if_neg several, if_neg several]
  simp only [same, segments, ne_eq, not_false_eq_true, if_true]
  rw [stems]

private theorem named_at (reserved : List String) {i : Nat} {endpoint : Endpoint} (place : endpoints[i]? = some endpoint) :
    ∃ name, (methodNames endpoints reserved)[i]? = some name ∧
      GivenFor (qualify (groupOf endpoints (stem endpoint)) endpoint) name := by
  obtain ⟨inside, rfl⟩ := List.getElem?_eq_some_iff.mp place
  have insideToo : i < (methodNames endpoints reserved).length := by rwa [length_methodNames]
  exact ⟨_, List.getElem?_eq_getElem insideToo, (methodNames_named endpoints reserved).get inside insideToo⟩

/-- Two operations with one stem and one path, but not one method. If all operations with the stem have the segments of the
path, both names say the method behind the same front, and so neither is the other with a number. If not, both are given for
one wish, which says the segments only. Then one of them is the other with a number, unless the wish is taken by a third. -/
theorem methodNames_ofPath (reserved : List String) {i j : Nat} (one : endpoints[i]? = some first)
    (two : endpoints[j]? = some second) (stems : stem first = stem second) (paths : first.path = second.path)
    (methods : first.method ≠ second.method) :
    ∃ name other, (methodNames endpoints reserved)[i]? = some name ∧ (methodNames endpoints reserved)[j]? = some other ∧
      name ≠ other ∧
      (SharesPath endpoints first → ∃ front, GivenFor (front ++ "_" ++ first.method.key) name ∧
        GivenFor (front ++ "_" ++ second.method.key) other) ∧
      (¬ SharesPath endpoints first → ∀ given ∈ [name, other], GivenFor (qualify (groupOf endpoints (stem first)) first) given) ∧
      ((¬ IsNumbered name other ∧ ¬ IsNumbered other name) ↔ SharesPath endpoints first ∨
        ∀ given ∈ [name, other], given ≠ qualify (groupOf endpoints (stem first)) first) := by
  have member := List.mem_of_getElem? one
  have memberToo := List.mem_of_getElem? two
  obtain ⟨name, at_i, given⟩ := named_at reserved one
  obtain ⟨other, at_j, givenToo⟩ := named_at reserved two
  have apart : name ≠ other := by
    rintro rfl
    have inside := (List.getElem?_eq_some_iff.mp at_i).1
    obtain rfl : i = j :=
      (List.getElem?_inj inside (methodNames_nodup endpoints reserved)).mp (at_i.trans at_j.symm)
    exact methods (congrArg Endpoint.method (Option.some.inj (one.symm.trans two)))
  refine ⟨name, other, at_i, at_j, apart, ?_⟩
  by_cases shares : SharesPath endpoints first
  case pos =>
    have sharesToo : SharesPath endpoints second := fun third listed same =>
      paths ▸ shares third listed (same.trans stems.symm)
    rw [qualify_method member memberToo stems methods shares] at given
    rw [qualify_method memberToo member stems.symm methods.symm sharesToo, ← stems] at givenToo
    exact ⟨fun _ => ⟨_, given, givenToo⟩, (absurd shares ·), iff_of_true
      ⟨not_isNumbered_of_methods methods given givenToo, not_isNumbered_of_methods methods.symm givenToo given⟩ (.inl shares)⟩
  case neg =>
    rw [qualify_path member memberToo stems paths methods shares] at givenToo
    refine ⟨(absurd · shares), fun _ => by simpa using ⟨given, givenToo⟩, ?_⟩
    rw [isNumbered_iff given givenToo apart, isNumbered_iff givenToo given apart.symm]
    simp [shares, and_comm]

/-- Two operations at one path, a third one below it, and a name that is taken already. -/
def petMethods : List Endpoint :=
  [⟨"/pets", .get, some "pets"⟩, ⟨"/pets", .post, some "pets"⟩, ⟨"/pets/mine", .get, some "pets"⟩]

theorem petMethods_ofPath : stem ⟨"/pets", .get, some "pets"⟩ = stem ⟨"/pets", .post, some "pets"⟩ ∧
    (methodNames petMethods ["pets_get"])[0]? = some "pets_get_2" ∧
    (methodNames petMethods ["pets_get"])[1]? = some "pets_post" ∧
    ¬ IsNumbered "pets_get_2" "pets_post" ∧ ¬ IsNumbered "pets_post" "pets_get_2" := by
  have stems : stem ⟨"/pets", .get, some "pets"⟩ = stem ⟨"/pets", .post, some "pets"⟩ := by decide +kernel
  have shares : SharesPath petMethods ⟨"/pets", .get, some "pets"⟩ := by unfold SharesPath; decide +kernel
  have named : methodNames petMethods ["pets_get"] = ["pets_get_2", "pets_post", "pets_mine"] := by decide +kernel
  have one : petMethods[0]? = some ⟨"/pets", .get, some "pets"⟩ := rfl
  have two : petMethods[1]? = some ⟨"/pets", .post, some "pets"⟩ := rfl
  obtain ⟨name, other, at_name, at_other, -, -, -, numbers⟩ :=
    methodNames_ofPath ["pets_get"] one two stems rfl (by decide)
  rw [named] at at_name at_other ⊢
  obtain rfl := Option.some.inj at_name
  obtain rfl := Option.some.inj at_other
  exact ⟨stems, rfl, rfl, numbers.mpr (.inl shares)⟩

def searchMethods : List Endpoint :=
  [⟨"/pets", .get, some "search"⟩, ⟨"/pets", .post, some "search"⟩, ⟨"/dogs", .get, some "search"⟩]

/-- With the third operation the path is told first, and then only a number tells the two apart. -/
theorem searchMethods_numbered : (searchMethods.map fun endpoint => (endpoint.path, endpoint.method)).Nodup ∧
    stem ⟨"/pets", .get, some "search"⟩ = stem ⟨"/pets", .post, some "search"⟩ ∧
    methodNames searchMethods [] = ["search_pets", "search_pets_2", "search_dogs"] ∧
    IsNumbered "search_pets_2" "search_pets" ∧
    methodNames (searchMethods.take 2) [] = ["search_get", "search_post"] :=
  ⟨by decide +kernel, by decide +kernel, by decide +kernel, ⟨2, by decide +kernel⟩, by decide +kernel⟩

end ClientForge.Ident
