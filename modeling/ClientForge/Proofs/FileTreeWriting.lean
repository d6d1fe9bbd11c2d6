import Mathlib.Data.List.Basic
import ClientForge.Proofs.PathNames
import ClientForge.Proofs.TableEntries

/-! What saving a file does to the tree. Whether it succeeds or not, it makes directories and touches no file but
the one that it writes; if it succeeds, the file is read back. -/

namespace ClientForge.FileTree

/-- Files are written at these places at most, and no directory is lost. -/
structure Keeps (written : List (List String)) (before after : FileTree) : Prop where
  working : after.working = before.working
  directories : ∀ place, before.get? place = some .directory → after.get? place = some .directory
  others : ∀ place ∉ written, after.get? place = before.get? place ∨
    before.get? place = none ∧ after.get? place = some .directory

def fileAt (tree : FileTree) (place : List String) : Option ByteArray :=
  match tree.get? place with
  | some (.file bytes) => some bytes
  | _ => none

/-- Names that lead through directories, which are all there. -/
inductive Opens (tree : FileTree) : List String → List String → Prop where
  | here {place} : Opens tree place []
  | stays {place name rest} (nowhere : staysAt name = true) (next : Opens tree place rest) : Opens tree place (name :: rest)
  | up {place rest} (next : Opens tree place.dropLast rest) : Opens tree place (".." :: rest)
  | down {place name rest} (moves : staysAt name = false) (down : name ≠ "..") (short : name.utf8ByteSize ≤ longestName)
      (there : tree.get? (place ++ [name]) = some .directory) (next : Opens tree (place ++ [name]) rest) :
      Opens tree place (name :: rest)

variable {tree before between after : FileTree} {written more : List (List String)} {place route : List String}
  {directory content : String} {path : List String}

theorem Keeps.refl (tree : FileTree) : Keeps [] tree tree where
  working := rfl
  directories := fun _ found => found
  others := fun _ _ => Or.inl rfl

theorem Keeps.trans (first : Keeps written before between) (last : Keeps more between after) :
    Keeps (written ++ more) before after where
  working := last.working.trans first.working
  directories := fun place found => last.directories place (first.directories place found)
  others := by
    intro place outside
    rcases first.others place fun early => outside (List.mem_append_left _ early) with same | ⟨missing, made⟩
    · rw [← same]
      exact last.others place fun late => outside (List.mem_append_right _ late)
    · exact Or.inr ⟨missing, last.directories place made⟩

theorem Keeps.entry (kept : Keeps written before after) (outside : place ∉ written) {entry : Entry}
    (found : before.get? place = some entry) : after.get? place = some entry := by
  rcases kept.others place outside with same | ⟨missing, -⟩
  · exact same.trans found
  · rw [missing] at found
    cases found

theorem Keeps.fileAt (kept : Keeps written before after) (outside : place ∉ written) :
    after.fileAt place = before.fileAt place := by
  rcases kept.others place outside with same | ⟨missing, made⟩
  · rw [FileTree.fileAt, FileTree.fileAt, same]
  · rw [FileTree.fileAt, FileTree.fileAt, missing, made]

theorem Keeps.start (kept : Keeps written before after) (path : String) : after.start path = before.start path := by
  rw [FileTree.start, FileTree.start, kept.working]

theorem get?_put {entry : Entry} {other : List String} (below : place ≠ []) :
    (tree.put place entry).get? other = if other = place then some entry else tree.get? other := by
  rw [get?, get?, put, Table.get?_insert]
  by_cases root : other = []
  · rw [if_pos root, if_pos root, if_neg (root ▸ below.symm)]
  · rw [if_neg root, if_neg root]

theorem keeps_put_directory (below : place ≠ []) (missing : tree.get? place = none) :
    Keeps [] tree (tree.put place .directory) where
  working := rfl
  directories := by
    intro other found
    rw [get?_put below, found, ite_self]
  others := by
    intro other _
    rw [get?_put below]
    split
    next same => exact Or.inr ⟨same ▸ missing, rfl⟩
    next => exact Or.inl rfl

theorem keeps_put_file (bytes : ByteArray) (below : place ≠ []) (free : tree.get? place ≠ some .directory) :
    Keeps [place] tree (tree.put place (.file bytes)) where
  working := rfl
  directories := by
    intro other found
    have different : other ≠ place := fun same => free (same ▸ found)
    rw [get?_put below, if_neg different, found]
  others := by
    intro other outside
    rw [get?_put below, if_neg fun same => outside (List.mem_singleton.mpr same)]
    exact Or.inl rfl

theorem Opens.mono (opens : Opens before place route) (kept : Keeps written before after) : Opens after place route := by
  induction opens with
  | here => exact .here
  | stays nowhere _ ih => exact .stays nowhere ih
  | up _ ih => exact .up ih
  | down moves down short there _ ih => exact .down moves down short (kept.directories _ there) ih

theorem Opens.filter (opens : Opens tree place route) : Opens tree place (route.filter (!staysAt ·)) := by
  induction opens with
  | here => exact .here
  | stays nowhere _ ih => rwa [List.filter_cons_of_neg (by simp [nowhere])]
  | up _ ih =>
    rw [List.filter_cons_of_pos (by decide)]
    exact .up ih
  | down moves down short there _ ih =>
    rw [List.filter_cons_of_pos (by simp [moves])]
    exact .down moves down short there ih

theorem Opens.of_filter (opens : Opens tree place (route.filter (!staysAt ·))) : Opens tree place route := by
  induction route generalizing place with
  | nil => exact .here
  | cons name route ih =>
    by_cases nowhere : staysAt name = true
    · rw [List.filter_cons_of_neg (by simp [nowhere])] at opens
      exact .stays nowhere (ih opens)
    · rw [List.filter_cons_of_pos (by simp [nowhere])] at opens
      cases opens with
      | stays stays _ => exact absurd stays nowhere
      | up next => exact .up (ih next)
      | down moves down short there next => exact .down moves down short there (ih next)

theorem Opens.follow (opens : Opens tree place route) (back : List String) :
    tree.follow place (route ++ back) = tree.follow (arrive place route) back := by
  induction opens with
  | here => rfl
  | stays nowhere _ ih => rw [List.cons_append, FileTree.follow, if_pos nowhere, arrive, if_pos nowhere, ih]
  | up _ ih =>
    rw [List.cons_append, FileTree.follow, arrive, if_neg (by decide), if_pos rfl, if_neg (by decide), if_pos rfl, ih]
  | @down place name rest moves down short there next ih =>
    rw [List.cons_append, FileTree.follow, arrive, if_neg (by simp [moves]), if_neg down, if_neg (by simp [moves]), if_neg down,
      child_eq_ok.mpr ⟨short, rfl⟩]
    simp only [bind, Except.bind, there]
    exact ih

private theorem makeBehind_cons (made : Bool) (place : List String) (name : String) (rest : List String) (tree : FileTree) :
    (makeBehind made place (name :: rest)).run.run tree =
      if staysAt name then (makeBehind made place rest).run.run tree
      else if name = ".." then (makeBehind made place.dropLast rest).run.run tree
      else match child place name with
        | .error fault => (.error fault, tree)
        | .ok next =>
          match tree.get? next with
          | some .directory => (makeBehind made next rest).run.run tree
          | some (.file _) =>
            (.error (if made || rest.all staysAt then .alreadyExists else .notDirectory), tree)
          | none => (makeBehind true next rest).run.run (tree.put next .directory) := by
  rw [makeBehind]
  split
  · rfl
  · split
    · rfl
    · cases child place name with
      | error fault => rfl
      | ok next =>
        dsimp only
        change ExceptT.run (match tree.get? next with
          | some .directory => makeBehind made next rest
          | some (.file _) => throw (if made || rest.all staysAt then .alreadyExists else .notDirectory)
          | none => do
            modify (·.put next .directory)
            makeBehind true next rest) tree = _
        cases tree.get? next with
        | none => rfl
        | some entry => cases entry <;> rfl

/-- However far making directories gets, nothing else is changed; if it gets to the end, the way is open. -/
private structure Made (tree : FileTree) (place route : List String) (result : Except FileFault (List String))
    (after : FileTree) : Prop where
  kept : Keeps [] tree after
  ended : ∀ there, result = .ok there → there = arrive place route ∧ Opens after place route

section
variable {result : Except FileFault (List String)} {name : String}

private theorem Made.stopped {fault : FileFault} : Made tree place route (.error fault) tree where
  kept := .refl tree
  ended := fun _ impossible => by cases impossible

private theorem Made.stays (made : Made tree place route result after) (nowhere : staysAt name = true) :
    Made tree place (name :: route) result after where
  kept := made.kept
  ended := by
    intro there same
    obtain ⟨arrived, opens⟩ := made.ended there same
    rw [arrive, if_pos nowhere]
    exact ⟨arrived, .stays nowhere opens⟩

private theorem Made.up (made : Made tree place.dropLast route result after) : Made tree place (".." :: route) result after where
  kept := made.kept
  ended := by
    intro there same
    obtain ⟨arrived, opens⟩ := made.ended there same
    rw [arrive, if_neg (by decide), if_pos rfl]
    exact ⟨arrived, .up opens⟩

private theorem Made.down (made : Made between (place ++ [name]) route result after) (first : Keeps [] tree between)
    (moves : ¬staysAt name = true) (down : name ≠ "..") (short : name.utf8ByteSize ≤ longestName)
    (there : between.get? (place ++ [name]) = some .directory) : Made tree place (name :: route) result after where
  kept := first.trans made.kept
  ended := by
    intro last same
    obtain ⟨arrived, opens⟩ := made.ended last same
    rw [arrive, if_neg moves, if_neg down]
    exact ⟨arrived, .down (by simpa using moves) down short (made.kept.directories _ there) opens⟩

end

private theorem makeBehind_made {made : Bool} {result : Except FileFault (List String)}
    (ran : (makeBehind made place route).run.run tree = (result, after)) : Made tree place route result after := by
  -- Whether a directory has been made decides which fault a file in the way gives, and nothing else.
  induction route generalizing made place tree with
  | nil =>
    obtain ⟨rfl, rfl⟩ := Prod.mk.inj ran
    exact ⟨.refl tree, fun there same => ⟨(Except.ok.inj same).symm, .here⟩⟩
  | cons name route ih =>
    rw [makeBehind_cons] at ran
    by_cases nowhere : staysAt name = true
    · rw [if_pos nowhere] at ran
      exact (ih ran).stays nowhere
    rw [if_neg nowhere] at ran
    by_cases up : name = ".."
    · rw [if_pos up] at ran
      subst up
      exact (ih ran).up
    rw [if_neg up] at ran
    cases step : child place name with
    | error fault =>
      rw [step] at ran
      obtain ⟨rfl, rfl⟩ := Prod.mk.inj ran
      exact .stopped
    | ok next =>
      rw [step] at ran
      dsimp only at ran
      obtain ⟨short, rfl⟩ := child_eq_ok.mp step
      cases found : tree.get? (place ++ [name]) with
      | none =>
        rw [found] at ran
        have there : (tree.put (place ++ [name]) .directory).get? (place ++ [name]) = some .directory := by
          rw [get?_put (by simp), if_pos rfl]
        exact (ih ran).down (keeps_put_directory (by simp) found) nowhere up short there
      | some entry =>
        rw [found] at ran
        cases entry with
        | directory => exact (ih ran).down (.refl tree) nowhere up short found
        | file bytes =>
          obtain ⟨rfl, rfl⟩ := Prod.mk.inj ran
          exact .stopped

def placeOf (tree : FileTree) (directory : String) (path : List String) : List String :=
  arrive (tree.start directory) (names directory ++ path)

theorem placeOf_concat (directory : String) (front : List String) {name : String} (plain : IsPlain name) :
    tree.placeOf directory (front ++ [name]) = arrive (tree.start directory) (names directory ++ front) ++ [name] := by
  rw [placeOf, ← List.append_assoc, arrive_append, arrive_plain _ (by simpa using plain)]

theorem placeOf_plain (directory : String) (plain : ∀ segment ∈ path, IsPlain segment) :
    tree.placeOf directory path = arrive (tree.start directory) (names directory) ++ path := by
  rw [placeOf, arrive_append, arrive_plain _ plain]

theorem start_joinPath (directory : String) (plain : ∀ segment ∈ path, IsPlain segment) :
    tree.start (Text.joinPath directory path) = tree.start directory := by
  rw [start, start, startsFromRoot_joinPath directory plain]

/-- A file can be reached and has this content. -/
structure Stored (tree : FileTree) (directory : String) (path : List String) (content : String) : Prop where
  opens : Opens tree (tree.start directory) (names directory ++ path.dropLast)
  short : ∀ name, path.getLast? = some name → name.utf8ByteSize ≤ longestName
  allowed : checkPath (Text.joinPath directory path) = .ok ()
  entry : tree.get? (tree.placeOf directory path) = some (.file content.toUTF8)

theorem Keeps.placeOf (kept : Keeps written before after) (directory : String) (path : List String) :
    after.placeOf directory path = before.placeOf directory path := by
  rw [FileTree.placeOf, FileTree.placeOf, kept.start]

theorem Stored.mono (stored : Stored before directory path content) (kept : Keeps written before after)
    (outside : before.placeOf directory path ∉ written) : Stored after directory path content where
  opens := by
    rw [kept.start]
    exact stored.opens.mono kept
  short := stored.short
  allowed := stored.allowed
  entry := by
    rw [kept.placeOf]
    exact kept.entry outside stored.entry

section
variable {ε α β : Type} {first : ExceptT ε (StateM FileTree) α} {next : α → ExceptT ε (StateM FileTree) β}

theorem run_bind (first : ExceptT ε (StateM FileTree) α) (next : α → ExceptT ε (StateM FileTree) β) (tree : FileTree) :
    (first >>= next).run.run tree =
      match first.run.run tree with
      | (.ok value, after) => (next value).run.run after
      | (.error fault, after) => (.error fault, after) := by
  simp only [ExceptT.run_bind, StateT.run_bind]
  rcases first.run.run tree with ⟨_ | _, _⟩ <;> rfl

theorem run_bind_ok {value : β} (ran : (first >>= next).run.run tree = (.ok value, after)) :
    ∃ middle between, first.run.run tree = (.ok middle, between) ∧ (next middle).run.run between = (.ok value, after) := by
  rw [run_bind] at ran
  split at ran
  next middle between begun => exact ⟨middle, between, begun, ran⟩
  next => cases ran

theorem run_bind_error {fault : ε} (ran : (first >>= next).run.run tree = (.error fault, after)) :
    first.run.run tree = (.error fault, after) ∨
      ∃ middle between, first.run.run tree = (.ok middle, between) ∧ (next middle).run.run between = (.error fault, after) := by
  rw [run_bind] at ran
  split at ran
  next middle between begun => exact Or.inr ⟨middle, between, begun, ran⟩
  next early between begun =>
    cases ran
    exact Or.inl begun

theorem run_lift (known : Except ε α) (tree : FileTree) :
    (liftM known : ExceptT ε (StateM FileTree) α).run.run tree = (known, tree) := rfl

private theorem of_lift {known result : Except ε α}
    (ran : (liftM known : ExceptT ε (StateM FileTree) α).run.run tree = (result, after)) :
    known = result ∧ tree = after := Prod.mk.inj ran

end

private theorem run_get_bind {α : Type} (next : FileTree → Action α) (tree : FileTree) :
    (get >>= next).run.run tree = (next tree).run.run tree := rfl

private theorem write_spec {result : Except FileFault Unit} (ran : (write place content).run.run tree = (result, after)) :
    (tree.get? place = some .directory ∧ result = .error .isDirectory ∧ after = tree) ∨
      (tree.get? place ≠ some .directory ∧ result = .ok () ∧ after = tree.put place (.file content.toUTF8)) := by
  rw [write, run_get_bind] at ran
  split at ran
  next there =>
    obtain ⟨rfl, rfl⟩ := Prod.mk.inj ran
    exact Or.inl ⟨there, rfl, rfl⟩
  next free =>
    obtain ⟨rfl, rfl⟩ := Prod.mk.inj ran
    exact Or.inr ⟨free, rfl, rfl⟩

/-- A file that cannot be saved is not there, but directories on the way to it may be. -/
theorem save_error {fault : FileFault} (ran : (save directory path content).run.run tree = (.error fault, after)) :
    Keeps [] tree after := by
  rw [save] at ran
  rcases run_bind_error ran with ran | ⟨_, _, begun, ran⟩
  · obtain ⟨-, rfl⟩ := of_lift ran
    exact .refl tree
  obtain ⟨-, rfl⟩ := of_lift begun
  rw [run_get_bind] at ran
  rcases run_bind_error ran with ran | ⟨reached, between, made, ran⟩
  · exact (makeBehind_made ran).kept
  have kept := (makeBehind_made made).kept
  split at ran
  next =>
    obtain ⟨-, rfl⟩ := Prod.mk.inj ran
    exact kept
  next name last =>
    rcases run_bind_error ran with ran | ⟨_, _, checked, ran⟩
    · obtain ⟨-, rfl⟩ := of_lift ran
      exact kept
    obtain ⟨-, rfl⟩ := of_lift checked
    rcases run_bind_error ran with ran | ⟨target, _, step, ran⟩
    · obtain ⟨-, rfl⟩ := of_lift ran
      exact kept
    obtain ⟨-, rfl⟩ := of_lift step
    rcases write_spec ran with ⟨-, -, rfl⟩ | ⟨-, impossible, -⟩
    · exact kept
    · cases impossible

/-- A file that has been saved is there, and nothing else has been written. -/
theorem save_ok (plain : ∀ segment ∈ path, IsPlain segment)
    (ran : (save directory path content).run.run tree = (.ok (), after)) :
    Stored after directory path content ∧ Keeps [tree.placeOf directory path] tree after := by
  rw [save] at ran
  obtain ⟨_, _, begun, ran⟩ := run_bind_ok ran
  obtain ⟨-, rfl⟩ := of_lift begun
  rw [run_get_bind] at ran
  obtain ⟨reached, between, made, ran⟩ := run_bind_ok ran
  obtain ⟨kept, ended⟩ := makeBehind_made made
  obtain ⟨rfl, opens⟩ := ended reached rfl
  split at ran
  next => cases ran
  next name last =>
    obtain ⟨_, _, checked, ran⟩ := run_bind_ok ran
    obtain ⟨allowed, rfl⟩ := of_lift checked
    obtain ⟨target, _, stepped, ran⟩ := run_bind_ok ran
    obtain ⟨step, rfl⟩ := of_lift stepped
    obtain ⟨short, rfl⟩ := child_eq_ok.mp step
    rcases write_spec ran with ⟨-, impossible, -⟩ | ⟨free, -, rfl⟩
    · cases impossible
    have place : tree.placeOf directory path =
        arrive (tree.start directory) (names directory ++ path.dropLast) ++ [name] := by
      rw [← placeOf_concat _ _ (plain name (List.mem_of_getLast? last)), List.dropLast_append_getLast? name last]
    rw [← place] at free ⊢
    have written := keeps_put_file content.toUTF8 (by simp [place]) free
    have all : Keeps [tree.placeOf directory path] tree _ := kept.trans written
    refine ⟨?_, all⟩
    exact
      { opens := by
          rw [all.start]
          exact opens.mono written
        short := by
          intro other same
          obtain rfl := Option.some.inj (last.symm.trans same)
          exact short
        allowed := allowed
        entry := by
          rw [all.placeOf, get?_put (by simp [place]), if_pos rfl] }

private theorem fromUTF8?_toUTF8 (text : String) : String.fromUTF8? text.toUTF8 = some text := by
  have valid : text.toUTF8.IsValidUTF8 := text.isValidUTF8
  rw [String.fromUTF8?, dif_pos valid]
  rfl

private theorem follow_file {name : String} {bytes : ByteArray} (plain : IsPlain name) (short : name.utf8ByteSize ≤ longestName)
    (entry : tree.get? (place ++ [name]) = some (.file bytes)) : tree.follow place [name] = .ok (place ++ [name]) := by
  rw [FileTree.follow, if_neg (by simp [plain.moves]), if_neg plain.down, child_eq_ok.mpr ⟨short, rfl⟩]
  simp only [bind, Except.bind, entry]

private theorem Stored.follow (stored : Stored tree directory path content) (nonempty : path ≠ [])
    (plain : ∀ segment ∈ path, IsPlain segment) :
    tree.follow (tree.start (Text.joinPath directory path)) (names (Text.joinPath directory path)) =
      .ok (tree.placeOf directory path) := by
  obtain ⟨front, name, rfl⟩ : ∃ front name, path = front ++ [name] := ⟨_, _, (List.dropLast_append_getLast nonempty).symm⟩
  obtain ⟨before, same, kept⟩ := names_joinPath directory plain
  have last : IsPlain name := plain name (by simp)
  have opens := stored.opens
  have entry := stored.entry
  rw [List.dropLast_concat] at opens
  rw [placeOf_concat directory front last] at entry
  have opened : Opens tree (tree.start directory) before := .of_filter (kept ▸ opens.filter)
  have there : arrive (tree.start directory) before = arrive (tree.start directory) (names directory ++ front) := by
    rw [← arrive_filter, kept, arrive_filter]
  rw [start_joinPath directory plain, same, opened.follow, there, placeOf_concat directory front last]
  exact follow_file last (stored.short name (by simp)) entry

private theorem joinPath_ne_empty (nonempty : path ≠ []) (plain : ∀ segment ∈ path, IsPlain segment) :
    Text.joinPath directory path ≠ "" := by
  obtain ⟨front, name, rfl⟩ : ∃ front name, path = front ++ [name] := ⟨_, _, (List.dropLast_append_getLast nonempty).symm⟩
  obtain ⟨before, same, -⟩ := names_joinPath directory plain
  intro empty
  rw [empty] at same
  have last : (names "").getLast? = some name := by rw [same, List.getLast?_concat]
  obtain rfl : "" = name := Option.some.inj last
  cases (plain "" (by simp)).moves

theorem Stored.read (stored : Stored tree directory path content) (nonempty : path ≠ [])
    (plain : ∀ segment ∈ path, IsPlain segment) : tree.read (Text.joinPath directory path) = .ok content := by
  rw [FileTree.read, stored.allowed]
  simp only [bind, Except.bind, if_neg (joinPath_ne_empty nonempty plain), stored.follow nonempty plain, stored.entry,
    fromUTF8?_toUTF8]
  rfl

end ClientForge.FileTree
