import ClientForge.FileTree

/-! Where paths lead. The place at the end of a path hangs on its names only: what the tree holds decides
whether it can be reached. Names that are plain lead down, one step each. -/

namespace ClientForge.FileTree

def arrive : List String → List String → List String
  | place, [] => place
  | place, name :: rest =>
    if staysAt name then arrive place rest
    else if name = ".." then arrive place.dropLast rest
    else arrive (place ++ [name]) rest

/-- A name that leads to what is called so in a directory. -/
structure IsPlain (name : String) : Prop where
  moves : staysAt name = false
  down : name ≠ ".."
  whole : ∀ c ∈ name.toList, c ≠ '/' ∧ c ≠ '\\' ∧ c ≠ '\x00'

variable {tree : FileTree} {place there : List String} {route : List String}

theorem child_eq_ok {name : String} :
    child place name = .ok there ↔ name.utf8ByteSize ≤ longestName ∧ there = place ++ [name] := by
  rw [child]
  split
  next long => simp [Nat.not_le.mpr long]
  next short => simp [Nat.not_lt.mp short, eq_comm]

theorem follow_arrives (found : tree.follow place route = .ok there) : there = arrive place route := by
  induction route generalizing place with
  | nil => exact (Except.ok.inj found).symm
  | cons name rest ih =>
    rw [follow] at found
    rw [arrive]
    split at found
    next stays =>
      rw [if_pos stays]
      exact ih found
    next moves =>
      rw [if_neg moves]
      split at found
      next up =>
        rw [if_pos up]
        exact ih found
      next down =>
        rw [if_neg down]
        cases step : child place name with
        | error fault =>
          rw [step] at found
          cases found
        | ok next =>
          rw [step] at found
          obtain ⟨-, rfl⟩ := child_eq_ok.mp step
          simp only [bind, Except.bind] at found
          split at found
          · exact ih found
          · exact (Except.ok.inj found).symm
          · cases found
          · cases found

theorem arrive_append (place front back : List String) : arrive place (front ++ back) = arrive (arrive place front) back := by
  induction front generalizing place with
  | nil => rfl
  | cons name front ih =>
    rw [List.cons_append, arrive, arrive]
    split
    · exact ih place
    · split
      · exact ih _
      · exact ih _

theorem arrive_plain (place : List String) (plain : ∀ name ∈ route, IsPlain name) : arrive place route = place ++ route := by
  induction route generalizing place with
  | nil => rw [arrive, List.append_nil]
  | cons name route ih =>
    obtain ⟨first, rest⟩ := List.forall_mem_cons.mp plain
    rw [arrive, if_neg (by simp [first.moves]), if_neg first.down, ih _ rest, List.append_assoc, List.singleton_append]

theorem arrive_filter (place route : List String) : arrive place (route.filter (!staysAt ·)) = arrive place route := by
  induction route generalizing place with
  | nil => rfl
  | cons name route ih =>
    by_cases stays : staysAt name = true
    · rw [List.filter_cons_of_neg (by simp [stays]), ih, arrive, if_pos stays]
    · rw [List.filter_cons_of_pos (by simp [stays]), arrive, arrive, if_neg stays, if_neg stays, ih, ih]

variable {path segment : String}

theorem names_segment (plain : IsPlain segment) : names segment = [segment] := by
  have whole : ∀ c ∈ segment.toList, (c == '/') = false := fun c member => beq_eq_false_iff_ne.mpr (plain.whole c member).1
  rw [names, Text.splitAt, Text.splitWhere_eq_singleton whole, List.map_singleton, String.ofList_toList]

private theorem names_append (front back : String) : names (front ++ "/" ++ back) = names front ++ names back := by
  have chars : (front ++ "/" ++ back).toList = front.toList ++ '/' :: back.toList := by
    simp [String.toList_append]
  rw [names, names, names, Text.splitAt, chars, Text.splitWhere_append_cons _ _ (by decide), List.map_append]
  rfl

private theorem isPrefixOf_segment (plain : IsPlain segment) : ['/'].isPrefixOf segment.toList = false := by
  cases chars : segment.toList with
  | nil => rfl
  | cons c rest =>
    have other := (plain.whole c (by simp [chars])).1
    simp [List.isPrefixOf, other.symm]

theorem names_pushSegment (path : String) (plain : IsPlain segment) :
    ∃ front, names (Text.pushSegment path segment) = front ++ [segment] ∧
      front.filter (!staysAt ·) = (names path).filter (!staysAt ·) := by
  simp only [Text.pushSegment, isPrefixOf_segment plain, Bool.false_eq_true, if_false, Bool.or_eq_true, decide_eq_true_eq]
  -- A path that is empty or ends with a slash has an empty last name, which stays where it is.
  split
  next ends =>
    rcases ends with rfl | slash
    · exact ⟨[], by simp [names_segment plain], by decide⟩
    · obtain ⟨front, chars⟩ := List.isSuffixOf_iff_suffix.mp slash
      obtain rfl : path = String.ofList front ++ "/" ++ "" := by
        apply String.toList_injective
        simp [String.toList_append, chars]
      refine ⟨names (String.ofList front), ?_, ?_⟩
      · rw [String.append_empty, names_append, names_segment plain]
      · rw [names_append, List.filter_append, show (names "").filter (!staysAt ·) = [] by decide, List.append_nil]
  next => exact ⟨names path, by rw [names_append, names_segment plain], rfl⟩

theorem joinPath_append (path : String) (front back : List String) :
    Text.joinPath path (front ++ back) = Text.joinPath (Text.joinPath path front) back :=
  List.foldl_append ..

private theorem filter_joinPath (path : String) {segments : List String} (plain : ∀ segment ∈ segments, IsPlain segment) :
    (names (Text.joinPath path segments)).filter (!staysAt ·) = (names path).filter (!staysAt ·) ++ segments := by
  induction segments generalizing path with
  | nil => exact (List.append_nil _).symm
  | cons segment segments ih =>
    obtain ⟨first, rest⟩ := List.forall_mem_cons.mp plain
    obtain ⟨front, same, before⟩ := names_pushSegment path first
    have later := ih (Text.pushSegment path segment) rest
    rw [same, List.filter_append, before] at later
    simpa [first.moves, Text.joinPath] using later

theorem arrive_joinPath (place : List String) (path : String) {segments : List String}
    (plain : ∀ segment ∈ segments, IsPlain segment) :
    arrive place (names (Text.joinPath path segments)) = arrive place (names path) ++ segments := by
  rw [← arrive_filter, filter_joinPath path plain, arrive_append, arrive_filter, arrive_plain _ plain]

/-- The names of a path with segments behind it: the segments come last, behind what leads where the path does. -/
theorem names_joinPath (path : String) {segments : List String} {last : String}
    (plain : ∀ segment ∈ segments ++ [last], IsPlain segment) :
    ∃ front, names (Text.joinPath path (segments ++ [last])) = front ++ [last] ∧
      front.filter (!staysAt ·) = (names path ++ segments).filter (!staysAt ·) := by
  obtain ⟨before, final⟩ := List.forall_mem_append.mp plain
  obtain ⟨front, same, kept⟩ := names_pushSegment (Text.joinPath path segments) (final last (List.mem_singleton.mpr rfl))
  refine ⟨front, ?_, ?_⟩
  · rw [joinPath_append]
    exact same
  · have all : segments.filter (!staysAt ·) = segments :=
      List.filter_eq_self.mpr fun segment member => by simp [(before segment member).moves]
    rw [kept, filter_joinPath path before, List.filter_append, all]

private theorem toList_ne_nil (plain : IsPlain segment) : segment.toList ≠ [] := by
  intro nothing
  have empty : segment = "" := String.toList_injective nothing
  have stays := plain.moves
  simp [empty, staysAt] at stays

private theorem startsFromRoot_append {front : String} (nonempty : front ≠ "") (back : String) :
    startsFromRoot (front ++ back) = startsFromRoot front := by
  obtain ⟨c, rest, chars⟩ := List.exists_cons_of_ne_nil fun nothing => nonempty (String.toList_injective nothing)
  rw [startsFromRoot, startsFromRoot, String.toList_append, chars]
  rfl

private theorem startsFromRoot_pushSegment (path : String) (plain : IsPlain segment) :
    startsFromRoot (Text.pushSegment path segment) = startsFromRoot path := by
  simp only [Text.pushSegment, isPrefixOf_segment plain, Bool.false_eq_true, if_false, Bool.or_eq_true, decide_eq_true_eq]
  by_cases nothing : path = ""
  · subst nothing
    obtain ⟨c, rest, chars⟩ := List.exists_cons_of_ne_nil (toList_ne_nil plain)
    have other := (plain.whole c (by simp [chars])).1
    simp [startsFromRoot, chars, other]
  · split
    · exact startsFromRoot_append nothing _
    · rw [String.append_assoc, startsFromRoot_append nothing]

theorem startsFromRoot_joinPath (path : String) {segments : List String} (plain : ∀ segment ∈ segments, IsPlain segment) :
    startsFromRoot (Text.joinPath path segments) = startsFromRoot path := by
  induction segments generalizing path with
  | nil => rfl
  | cons segment segments ih =>
    obtain ⟨first, rest⟩ := List.forall_mem_cons.mp plain
    exact (ih _ rest).trans (startsFromRoot_pushSegment path first)

private theorem pushSegment_open {last : Char} (ends : path.toList.getLast? = some last) (other : last ≠ '/')
    (plain : IsPlain segment) : Text.pushSegment path segment = path ++ "/" ++ segment := by
  have some : path ≠ "" := by
    rintro rfl
    cases ends
  have noSlash : ['/'].isSuffixOf path.toList = false := by
    rw [Bool.eq_false_iff]
    intro slash
    obtain ⟨front, chars⟩ := List.isSuffixOf_iff_suffix.mp slash
    rw [← chars, List.getLast?_concat] at ends
    exact other (Option.some.inj ends).symm
  simp [Text.pushSegment, isPrefixOf_segment plain, some, noSlash]

private theorem names_joinPath_open {path : String} {last : Char} (ends : path.toList.getLast? = some last)
    (other : last ≠ '/') {segments : List String} (plain : ∀ segment ∈ segments, IsPlain segment) :
    names (Text.joinPath path segments) = names path ++ segments := by
  induction segments generalizing path last with
  | nil => exact (List.append_nil _).symm
  | cons segment segments ih =>
    obtain ⟨first, rest⟩ := List.forall_mem_cons.mp plain
    obtain ⟨c, final⟩ := Option.isSome_iff_exists.mp (List.getLast?_isSome.mpr (toList_ne_nil first))
    have last : (path ++ "/" ++ segment).toList.getLast? = some c := by
      rw [String.toList_append, List.getLast?_append, final, Option.some_or]
    calc names (Text.joinPath path (segment :: segments))
        = names (Text.joinPath (path ++ "/" ++ segment) segments) := by
          rw [← pushSegment_open ends other first]
          rfl
      _ = names (path ++ "/" ++ segment) ++ segments := ih last (first.whole c (List.mem_of_getLast? final)).1 rest
      _ = names path ++ segment :: segments := by
          rw [names_append, names_segment first, List.append_assoc, List.singleton_append]

theorem names_relative {segments : List String} (nonempty : segments ≠ []) (plain : ∀ segment ∈ segments, IsPlain segment) :
    names (Text.joinPath "" segments) = segments := by
  obtain ⟨segment, segments, rfl⟩ := List.exists_cons_of_ne_nil nonempty
  obtain ⟨first, rest⟩ := List.forall_mem_cons.mp plain
  obtain ⟨c, final⟩ := Option.isSome_iff_exists.mp (List.getLast?_isSome.mpr (toList_ne_nil first))
  have pushed : Text.pushSegment "" segment = segment := by
    simp [Text.pushSegment, isPrefixOf_segment first]
  calc names (Text.joinPath "" (segment :: segments))
      = names (Text.joinPath segment segments) := by
        rw [Text.joinPath, List.foldl_cons, pushed]
        rfl
    _ = names segment ++ segments := names_joinPath_open final (first.whole c (List.mem_of_getLast? final)).1 rest
    _ = segment :: segments := by rw [names_segment first, List.singleton_append]

end ClientForge.FileTree
