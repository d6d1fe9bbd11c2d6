import ClientForge.Proofs.TableEntries
import ClientForge.Resolve.Model
import Mathlib.Data.List.Basic

/-! The URL of a server. A template is read once, into characters and the placeholders of declared variables, and has all
the defaults in their places then. To replace one variable after the other comes to the same unless what comes out has a
placeholder again, which only a default can have completed. -/

namespace ClientForge.Resolve
open Document Text

/-- How a template names a variable. -/
def placeholder (name : String) : List Char := '\x7b' :: name.toList ++ ['\x7d']

def NoBraces (name : String) : Prop := '\x7b' ∉ name.toList ∧ '\x7d' ∉ name.toList

inductive UrlPart where
  | char (c : Char)
  | place (name default : String)

def UrlPart.value : UrlPart → List Char
  | char c => [c]
  | place _ default => default.toList

/-- A template, read from left to right. -/
inductive Template (declared : List (String × String)) : List Char → List UrlPart → Prop
  | done : Template declared [] []
  | place {name default : String} {behind : List Char} {parts : List UrlPart} (listed : (name, default) ∈ declared)
      (later : Template declared behind parts) :
      Template declared (placeholder name ++ behind) (.place name default :: parts)
  | char {c : Char} {rest : List Char} {parts : List UrlPart}
      (none : ∀ entry ∈ declared, ¬ placeholder entry.1 <+: c :: rest) (later : Template declared rest parts) :
      Template declared (c :: rest) (.char c :: parts)

/-- Each variable in its turn gets its default wherever the text has its placeholder by then. -/
inductive Rewrites : List (String × String) → List Char → List Char → Prop
  | done (text : List Char) : Rewrites [] text text
  | step {entry : String × String} {entries : List (String × String)} {text out : List Char} {parts : List UrlPart}
      (read : Template [entry] text parts) (later : Rewrites entries (parts.flatMap UrlPart.value) out) :
      Rewrites (entry :: entries) text out

private theorem eq_of_closed {mark : Char} {first second rest : List Char} (inFirst : mark ∉ first)
    (inSecond : mark ∉ second) (starts : first ++ [mark] <+: second ++ mark :: rest) : first = second := by
  induction first generalizing second with
  | nil =>
    cases second with
    | nil => rfl
    | cons c second => simp_all
  | cons c first ih =>
    cases second with
    | nil => simp_all
    | cons d second =>
      rw [List.cons_append, List.cons_append, List.cons_prefix_cons] at starts
      obtain ⟨rfl, starts⟩ := starts
      rw [ih (List.not_mem_of_not_mem_cons inFirst) (List.not_mem_of_not_mem_cons inSecond) starts]

theorem placeholder_ne_nil (name : String) : placeholder name ≠ [] := by simp [placeholder]

theorem placeholder_prefix {name other : String} {rest : List Char} (plain : NoBraces name) (plainOther : NoBraces other)
    (starts : placeholder name <+: placeholder other ++ rest) : name = other := by
  simp only [placeholder, List.cons_append, List.cons_prefix_cons, true_and, List.append_assoc, List.nil_append] at starts
  exact String.toList_inj.mp
    (eq_of_closed plain.2 plainOther.2 starts)

/-- In a placeholder begins no placeholder but itself. -/
private theorem eq_of_placeholder_inside {name other : String} {before behind rest : List Char} (plain : NoBraces name)
    (plainOther : NoBraces other) (whole : placeholder other = before ++ behind) (nonempty : behind ≠ [])
    (starts : placeholder name <+: behind ++ rest) : name = other := by
  cases before with
  | nil =>
    obtain rfl : placeholder other = behind := whole
    exact placeholder_prefix plain plainOther starts
  | cons c before =>
    obtain ⟨d, behind, rfl⟩ := List.exists_cons_of_ne_nil nonempty
    obtain rfl : '\x7b' = d := (List.cons_prefix_cons.mp starts).1
    have tail : other.toList ++ ['\x7d'] = before ++ '\x7b' :: behind := (List.cons.inj whole).2
    have inside : '\x7b' ∈ other.toList ++ ['\x7d'] := by simp [tail]
    rcases List.mem_append.mp inside with within | last
    · exact absurd within plainOther.1
    · cases List.mem_singleton.mp last

theorem exists_template (declared : List (String × String)) (text : List Char) : ∃ parts, Template declared text parts := by
  induction length : text.length using Nat.strongRecOn generalizing text with
  | ind n ih =>
    by_cases begins : ∃ entry ∈ declared, placeholder entry.1 <+: text
    · obtain ⟨⟨name, default⟩, listed, behind, rfl⟩ := begins
      obtain ⟨parts, later⟩ := ih behind.length (by simp [← length, placeholder]; omega) behind rfl
      exact ⟨_, .place listed later⟩
    · cases text with
      | nil => exact ⟨[], .done⟩
      | cons c rest =>
        obtain ⟨parts, later⟩ := ih rest.length (by simp [← length]) rest rfl
        exact ⟨_, .char (fun entry listed starts => begins ⟨entry, listed, starts⟩) later⟩

theorem Template.unique {declared : List (String × String)} (distinct : (declared.map Prod.fst).Nodup)
    (plain : ∀ entry ∈ declared, NoBraces entry.1) {text : List Char} {parts others : List UrlPart}
    (read : Template declared text parts) (again : Template declared text others) : parts = others := by
  induction read generalizing others with
  | done =>
    generalize same : ([] : List Char) = text at again
    cases again with
    | done => rfl
    | place => simp [placeholder] at same
    | char => cases same
  | @place name default behind parts listed later ih =>
    generalize same : placeholder name ++ behind = text at again
    cases again with
    | done => simp [placeholder] at same
    | @place other value rest parts listedToo laterToo =>
      obtain rfl : name = other := placeholder_prefix (plain _ listed) (plain _ listedToo) ⟨behind, same⟩
      obtain rfl := List.append_cancel_left same
      have found (value : String) : (name, value) ∈ declared → declared.lookup name = some value :=
        (Table.lookup_eq_some distinct).mpr
      obtain rfl : default = value := Option.some.inj ((found _ listed).symm.trans (found _ listedToo))
      rw [ih laterToo]
    | char none => exact absurd ⟨behind, same⟩ (none _ listed)
  | @char c rest parts none later ih =>
    generalize same : c :: rest = text at again
    cases again with
    | done => cases same
    | place listed => exact absurd ⟨_, same.symm⟩ (none _ listed)
    | char _ laterToo =>
      obtain ⟨rfl, rfl⟩ := List.cons.inj same
      rw [ih laterToo]

theorem Template.listed {declared : List (String × String)} {text : List Char} {parts : List UrlPart}
    (read : Template declared text parts) : ∀ name default, UrlPart.place name default ∈ parts → (name, default) ∈ declared := by
  induction read with
  | done => simp
  | place listed _ ih =>
    rintro name default (_ | ⟨_, member⟩)
    · exact listed
    · exact ih name default member
  | char _ _ ih =>
    rintro name default (_ | ⟨_, member⟩)
    exact ih name default member

/-- To replace one variable is to read the text as a template of that variable. -/
theorem template_replaceChars (entry : String × String) (text : List Char) :
    ∃ parts, Template [entry] text parts ∧
      parts.flatMap UrlPart.value = replaceChars (placeholder entry.1) entry.2.toList text := by
  obtain ⟨parts, read⟩ := exists_template [entry] text
  refine ⟨parts, read, ?_⟩
  induction read with
  | done => rfl
  | place listed _ ih =>
    cases List.mem_singleton.mp listed
    rw [List.flatMap_cons, ih, replaceChars_occurrence (placeholder_ne_nil _)]
    rfl
  | char none _ ih =>
    rw [List.flatMap_cons, ih, replaceChars_cons (none entry (List.mem_singleton_self entry))]
    rfl

/-- What stands for a part once some of the variables have their defaults. -/
def UrlPart.within (filled : List String) : UrlPart → List Char
  | char c => [c]
  | place name default => if name ∈ filled then default.toList else placeholder name

theorem Template.text {declared : List (String × String)} {text : List Char} {parts : List UrlPart}
    (read : Template declared text parts) : parts.flatMap (UrlPart.within []) = text := by
  induction read with
  | done => rfl
  | place _ _ ih => rw [List.flatMap_cons, ih, UrlPart.within, if_neg List.not_mem_nil]
  | char _ _ ih => rw [List.flatMap_cons, ih]; rfl

private theorem prefix_of_not_mem {beginning front rest : List Char} {c : Char} (other : c ∉ beginning)
    (starts : beginning <+: front ++ c :: rest) : beginning <+: front := by
  have upTo : front ++ [c] <+: front ++ c :: rest := ⟨rest, by simp⟩
  rcases List.prefix_or_prefix_of_prefix starts upTo with short | long
  · refine (List.prefix_concat_iff.mp short).resolve_left fun same => other ?_
    simp [same]
  · exact absurd (long.subset (by simp)) other

/-- A beginning without an opening brace ends before the first placeholder, so that it is the same when defaults take the
places of placeholders. -/
private theorem prefix_filled {filled : List String} {beginning front : List Char} {parts : List UrlPart}
    (plain : '\x7b' ∉ beginning) (starts : beginning <+: front ++ parts.flatMap (UrlPart.within filled)) :
    beginning <+: front ++ parts.flatMap UrlPart.value := by
  induction parts generalizing front with
  | nil => exact starts
  | cons part parts ih =>
    rw [List.flatMap_cons, ← List.append_assoc] at starts ⊢
    cases part with
    | char c => exact ih starts
    | place name default =>
      rw [UrlPart.within] at starts
      split at starts
      · exact ih starts
      · rw [placeholder, List.append_assoc, List.cons_append] at starts
        have inFront := prefix_of_not_mem plain starts
        exact (inFront.trans (List.prefix_append ..)).trans (List.prefix_append ..)

/-- An occurrence of a placeholder that begins in the front is there when all the defaults are in their places, too. -/
private theorem infix_filled {name : String} {filled : List String} {before behind : List Char} {parts : List UrlPart}
    (plain : NoBraces name) (nonempty : behind ≠ [])
    (starts : placeholder name <+: behind ++ parts.flatMap (UrlPart.within filled)) :
    placeholder name <:+: before ++ behind ++ parts.flatMap UrlPart.value := by
  obtain ⟨c, rest, rfl⟩ := List.exists_cons_of_ne_nil nonempty
  rw [placeholder, List.cons_append, List.cons_append, List.cons_prefix_cons] at starts
  obtain ⟨rfl, starts⟩ := starts
  have inside : '\x7b' ∉ name.toList ++ ['\x7d'] := by simpa using plain.1
  obtain ⟨tail, whole⟩ := prefix_filled inside starts
  exact ⟨before, tail, by simp [placeholder, ← whole]⟩

private theorem replaceChars_within {entry : String × String} {filled : List String} {parts : List UrlPart}
    (plain : NoBraces entry.1)
    (places : ∀ name default, UrlPart.place name default ∈ parts → NoBraces name ∧ (name = entry.1 → default = entry.2))
    (settled : ¬ placeholder entry.1 <:+: parts.flatMap UrlPart.value) :
    replaceChars (placeholder entry.1) entry.2.toList (parts.flatMap (UrlPart.within filled)) =
      parts.flatMap (UrlPart.within (entry.1 :: filled)) := by
  induction parts with
  | nil => rfl
  | cons part parts ih =>
    have behind := ih (fun name default member => places name default (List.mem_cons_of_mem _ member)) fun inside =>
      settled (inside.trans (List.suffix_append ..).isInfix)
    rw [List.flatMap_cons] at settled
    have stays : replaceChars (placeholder entry.1) entry.2.toList (part.value ++ parts.flatMap (UrlPart.within filled)) =
        part.value ++ parts.flatMap (UrlPart.within (entry.1 :: filled)) := by
      rw [← behind]
      refine replaceChars_append fun before rest whole nonempty starts => settled ?_
      rw [whole]
      exact infix_filled plain nonempty starts
    rw [List.flatMap_cons, List.flatMap_cons]
    cases part with
    | char c => exact stays
    | place name default =>
      obtain ⟨plainOther, same⟩ := places name default (List.mem_cons_self ..)
      by_cases done : name ∈ filled
      · rw [UrlPart.within, if_pos done, UrlPart.within, if_pos (List.mem_cons_of_mem _ done)]
        exact stays
      · rw [UrlPart.within, if_neg done, UrlPart.within]
        by_cases here : name = entry.1
        · rw [if_pos (by simp [here]), here, same here, replaceChars_occurrence (placeholder_ne_nil _), behind]
        · rw [if_neg (by simp [here, done]), ← behind]
          exact replaceChars_append fun before rest whole nonempty starts =>
            here (eq_of_placeholder_inside plain plainOther whole nonempty starts).symm

def replaceEntry (url : List Char) (entry : String × String) : List Char :=
  replaceChars (placeholder entry.1) entry.2.toList url

private theorem serverUrl_toList (server : Server) (others : List Server) :
    (serverUrl (server :: others)).toList = server.defaults.entries.foldl replaceEntry server.url.toList := by
  rw [serverUrl]
  generalize server.url = url
  induction server.defaults.entries generalizing url with
  | nil => rfl
  | cons entry entries ih =>
    rw [List.foldl_cons, List.foldl_cons, ih]
    simp [replaceEntry, replace, placeholder]

private theorem rewrites_foldl (entries : List (String × String)) (url : List Char) :
    Rewrites entries url (entries.foldl replaceEntry url) := by
  induction entries generalizing url with
  | nil => exact .done url
  | cons entry entries ih =>
    obtain ⟨parts, read, value⟩ := template_replaceChars entry url
    exact .step read (value ▸ ih _)

private theorem foldl_within {entries : List (String × String)} {filled : List String} {parts : List UrlPart}
    (distinct : (entries.map Prod.fst).Nodup)
    (fresh : ∀ entry ∈ entries, entry.1 ∉ filled)
    (settled : ∀ entry ∈ entries, NoBraces entry.1 ∧ ¬ placeholder entry.1 <:+: parts.flatMap UrlPart.value)
    (places : ∀ name default, UrlPart.place name default ∈ parts → NoBraces name ∧ (name ∈ filled ∨ (name, default) ∈ entries)) :
    entries.foldl replaceEntry (parts.flatMap (UrlPart.within filled)) = parts.flatMap UrlPart.value := by
  induction entries generalizing filled with
  | nil =>
    refine List.flatMap_congr fun part member => ?_
    cases part with
    | char c => rfl
    | place name default =>
      have done : name ∈ filled := (places name default member).2.resolve_right List.not_mem_nil
      rw [UrlPart.within, if_pos done, UrlPart.value]
  | cons entry entries ih =>
    rw [List.map_cons, List.nodup_cons] at distinct
    obtain ⟨new, others⟩ := List.forall_mem_cons.mp fresh
    obtain ⟨⟨plain, free⟩, settledOthers⟩ := List.forall_mem_cons.mp settled
    have own (name default : String) (member : UrlPart.place name default ∈ parts) :
        NoBraces name ∧ (name = entry.1 → default = entry.2) := by
      obtain ⟨plain, listed⟩ := places name default member
      refine ⟨plain, ?_⟩
      rintro rfl
      rcases List.mem_cons.mp (listed.resolve_left new) with same | later
      · exact congrArg Prod.snd same
      · exact absurd (List.mem_map_of_mem later) distinct.1
    rw [List.foldl_cons, replaceEntry, replaceChars_within plain own free]
    refine ih distinct.2 (fun other member => ?_) settledOthers fun name default member => ?_
    · intro done
      rcases List.mem_cons.mp done with same | before
      · exact distinct.1 (same ▸ List.mem_map_of_mem member)
      · exact others other member before
    · obtain ⟨plain, done | listed⟩ := places name default member
      · exact ⟨plain, Or.inl (List.mem_cons_of_mem _ done)⟩
      · rcases List.mem_cons.mp listed with same | later
        · exact ⟨plain, Or.inl (same ▸ List.mem_cons_self ..)⟩
        · exact ⟨plain, Or.inr later⟩

/-- The URL of a server is its template with one variable replaced after the other, in the text as it is by then. If no
placeholder of a variable is left or made when all the defaults stand in their places at once, that is the URL, whatever
the order in which the variables are declared. -/
theorem serverUrl_substitutes (server : Server) (plain : ∀ name ∈ server.defaults.keys, NoBraces name) :
    (∀ others, Rewrites server.defaults.entries server.url.toList (serverUrl (server :: others)).toList) ∧
      ∃ parts, Template server.defaults.entries server.url.toList parts ∧
        (∀ again, Template server.defaults.entries server.url.toList again → again = parts) ∧
        ((∀ name ∈ server.defaults.keys, ¬ placeholder name <:+: parts.flatMap UrlPart.value) →
          ∀ (arranged : Server) (others : List Server), arranged.url = server.url →
            arranged.defaults.entries.Perm server.defaults.entries →
            (serverUrl (arranged :: others)).toList = parts.flatMap UrlPart.value) := by
  have plainEntries : ∀ entry ∈ server.defaults.entries, NoBraces entry.1 :=
    fun entry member => plain _ (List.mem_map_of_mem member)
  obtain ⟨parts, read⟩ := exists_template server.defaults.entries server.url.toList
  refine ⟨fun others => ?_, parts, read, fun again other => ?_, fun settled arranged others url perm => ?_⟩
  · rw [serverUrl_toList]
    exact rewrites_foldl _ _
  · exact other.unique server.defaults.distinct plainEntries read
  · rw [serverUrl_toList, url, ← read.text]
    refine foldl_within arranged.defaults.distinct (fun _ _ => List.not_mem_nil) (fun entry member => ?_) fun name default member => ?_
    · have listed := perm.mem_iff.mp member
      exact ⟨plainEntries entry listed, settled _ (List.mem_map_of_mem listed)⟩
    · have listed := read.listed name default member
      exact ⟨plainEntries _ listed, Or.inr (perm.mem_iff.mpr listed)⟩

theorem Template.append {declared : List (String × String)} (front : List Char) {rest : List Char} {parts : List UrlPart}
    (plain : '\x7b' ∉ front) (read : Template declared rest parts) :
    Template declared (front ++ rest) (front.map UrlPart.char ++ parts) := by
  induction front with
  | nil => exact read
  | cons c front ih =>
    refine .char (fun entry _ starts => plain ?_) (ih (List.not_mem_of_not_mem_cons plain))
    rw [(List.cons_prefix_cons.mp starts).1]
    exact List.mem_cons_self ..

/-- Two placeholders side by side, with defaults that have braces, and one that names no variable. -/
def tenantServer : Server where
  url := "https://\x7bhost\x7d\x7bport\x7d/\x7btenant\x7d"
  defaults := ⟨[("host", "example.com\x7d"), ("port", "\x7b8080")], by decide⟩

def tenantParts : List UrlPart :=
  "https://".toList.map .char ++ [.place "host" "example.com\x7d", .place "port" "\x7b8080"] ++
    "/\x7btenant\x7d".toList.map .char

private theorem tenantServer_template : Template tenantServer.defaults.entries tenantServer.url.toList tenantParts := by
  have none : ∀ entry ∈ tenantServer.defaults.entries, ¬ placeholder entry.1 <+: '\x7b' :: "tenant\x7d".toList := by decide
  have host : ("host", "example.com\x7d") ∈ tenantServer.defaults.entries := .head _
  have port : ("port", "\x7b8080") ∈ tenantServer.defaults.entries := .tail _ (.head _)
  have behind : Template tenantServer.defaults.entries "/\x7btenant\x7d".toList ("/\x7btenant\x7d".toList.map .char) :=
    .append "/".toList (by decide) (.char none (.append "tenant\x7d".toList (by decide) .done))
  exact .append "https://".toList (by decide)
    (.place host (.place port behind))

theorem tenantServer_substitutes : (∀ name ∈ tenantServer.defaults.keys, NoBraces name) ∧
    (∀ name ∈ tenantServer.defaults.keys, ¬ placeholder name <:+: tenantParts.flatMap UrlPart.value) ∧
    ∀ arranged : Server, arranged.url = tenantServer.url →
      arranged.defaults.entries.Perm tenantServer.defaults.entries →
      serverUrl [arranged] = "https://example.com\x7d\x7b8080/\x7btenant\x7d" := by
  have plain : ∀ name ∈ tenantServer.defaults.keys, NoBraces name := by unfold NoBraces; decide
  have settled : ∀ name ∈ tenantServer.defaults.keys, ¬ placeholder name <:+: tenantParts.flatMap UrlPart.value := by
    decide +kernel
  refine ⟨plain, settled, fun arranged url perm => String.toList_inj.mp ?_⟩
  obtain ⟨-, parts, -, only, value⟩ := serverUrl_substitutes tenantServer plain
  obtain rfl := only _ tenantServer_template
  exact value settled arranged [] url perm

/-- The default of one variable holds the placeholder of another. -/
def zonedServer (defaults : Table String String) : Server := ⟨"https://\x7bhost\x7d", defaults⟩

/-- The variable in a default is replaced, too, but only if it is declared behind. -/
theorem zonedServer_resubstitutes :
    ∃ first last : Table String String, first.entries.Perm last.entries ∧ (∀ name ∈ first.keys, NoBraces name) ∧
      serverUrl [zonedServer first] = "https://eu.com" ∧ serverUrl [zonedServer last] = "https://\x7bzone\x7d.com" ∧
      ∀ parts, Template first.entries (zonedServer first).url.toList parts →
        parts.flatMap UrlPart.value = "https://\x7bzone\x7d.com".toList := by
  have plain : ∀ name ∈ ["host", "zone"], NoBraces name := by unfold NoBraces; decide
  refine ⟨⟨[("host", "\x7bzone\x7d.com"), ("zone", "eu")], by decide⟩, ⟨[("zone", "eu"), ("host", "\x7bzone\x7d.com")], by decide⟩,
    .swap .., plain, by rfl, by rfl, fun parts read => ?_⟩
  have host : ("host", "\x7bzone\x7d.com") ∈ [("host", "\x7bzone\x7d.com"), ("zone", "eu")] := .head _
  have once : Template [("host", "\x7bzone\x7d.com"), ("zone", "eu")] "https://\x7bhost\x7d".toList
      ("https://".toList.map .char ++ [.place "host" "\x7bzone\x7d.com"]) :=
    .append "https://".toList (by decide) (.place host .done)
  rw [read.unique (by decide) (fun entry member => plain _ (List.mem_map_of_mem member)) once]
  rfl

end ClientForge.Resolve
