import ClientForge.Text.Split

/-!
The words of a raw name. Every character that is not an ASCII letter or digit separates words, and
so does a change of case: `XMLHttp2XX` is `XML`, `Http2`, `XX`.
-/

namespace ClientForge.Ident

/-- The case of the last letter since the last boundary; digits leave it as it is. -/
inductive Case where
  | none
  | lower
  | upper
  deriving DecidableEq, Repr

def Case.after (mode : Case) (c : Char) : Case :=
  if c.isLower then .lower else if c.isUpper then .upper else mode

def onto (c : Char) : List (List Char) → List (List Char)
  | [] => [[c]]
  | word :: words => (c :: word) :: words

/-- Cuts a run of letters and digits where the case changes: after a character in lower case that
an upper-case letter follows, and before an upper-case letter that follows upper case and precedes a
lower-case letter. The first part continues the word that was begun before the run. -/
def cut : Case → List Char → List (List Char)
  | _, [] => []
  | _, [c] => [[c]]
  | mode, c :: next :: rest =>
    if mode.after c = .lower ∧ next.isUpper then [c] :: cut .none (next :: rest)
    else if mode = .upper ∧ c.isUpper ∧ next.isLower then
      [] :: onto c (cut .none (next :: rest))
    else onto c (cut (mode.after c) (next :: rest))

def words (raw : String) : List (List Char) :=
  (Text.splitWhere (fun c => !c.isAlphanum) raw.toList).flatMap (cut .none)

example : words "XMLHttp2XX" = ["XML".toList, "Http2".toList, "XX".toList] := by decide +kernel

end ClientForge.Ident
