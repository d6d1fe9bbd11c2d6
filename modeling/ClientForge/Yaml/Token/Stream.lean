import ClientForge.Yaml.Token.Block
import ClientForge.Yaml.Token.Name
import ClientForge.Yaml.Token.Plain
import ClientForge.Yaml.Token.Quoted

/-!
Cutting a YAML text into tokens. A key of a mapping is known only by the colon behind it, so that
every token that may begin a key is remembered until its line has ended; indentation opens and closes
blocks.
-/

namespace ClientForge.Yaml

/-- A token that may turn out to begin a key, and where it is. A required one has to. -/
structure PossibleKey where
  isRequired : Bool
  number : Nat
  index : Nat
  line : Nat
  column : Nat

/-- The state of cutting a text into tokens: the tokens so far, last first; the columns of the open
blocks, innermost first; for each open bracket and for the blocks what may begin a key, innermost
first; and whether a key may begin here. -/
structure Lexer where
  cursor : Cursor
  tokens : List Token
  columns : List Nat
  keys : List (Option PossibleKey)
  keyAllowed : Bool
  limit : Nat

namespace Lexer

def start (text : List Char) : Lexer :=
  ⟨Cursor.start text, [], [], [none], true, text.length + 1⟩

def inFlow (lexer : Lexer) : Bool := 1 < lexer.keys.length

def push (lexer : Lexer) (token : Token) : Lexer :=
  { lexer with tokens := token :: lexer.tokens }

/-- Adds a token before the one with a number. -/
def insertAt (lexer : Lexer) (number : Nat) (token : Token) : Lexer :=
  let behind := lexer.tokens.length - number
  { lexer with tokens := lexer.tokens.take behind ++ token :: lexer.tokens.drop behind }

def pass (lexer : Lexer) (count : Nat) (token : Token) : Lexer :=
  { lexer with cursor := lexer.cursor.skip count }.push token

/-- Says whether a key may begin here. -/
def allowKey (lexer : Lexer) (keyAllowed : Bool) : Lexer := { lexer with keyAllowed }

/-- Whether a key is too far away to be one: on a line before, or more than 1024 bytes back. -/
def isStale (cursor : Cursor) (key : PossibleKey) : Bool :=
  key.line < cursor.line || key.index + 1024 < cursor.index

def refresh (cursor : Cursor) : Option PossibleKey → Option (Option PossibleKey)
  | none => some none
  | some key =>
    if isStale cursor key then (if key.isRequired then none else some none) else some (some key)

def dropStale (lexer : Lexer) : Option Lexer :=
  (lexer.keys.mapM (refresh lexer.cursor)).map fun keys => { lexer with keys }

def dropKey (lexer : Lexer) : Option Lexer :=
  match lexer.keys with
  | some key :: others => if key.isRequired then none else some { lexer with keys := none :: others }
  | _ => some lexer

/-- Remembers that a key may begin here. -/
def saveKey (lexer : Lexer) : Option Lexer :=
  if !lexer.keyAllowed then some lexer
  else lexer.dropKey.map fun lexer =>
    let cursor := lexer.cursor
    let isRequired := !lexer.inFlow && lexer.columns.head? = some cursor.column
    let key : PossibleKey :=
      ⟨isRequired, lexer.tokens.length, cursor.index, cursor.line, cursor.column⟩
    { lexer with keys := some key :: lexer.keys.tail }

/-- Opens a block at a column that is right of the innermost block's, before the token with a
number. -/
def openBlock (lexer : Lexer) (column number : Nat) (token : Token) : Lexer :=
  if lexer.inFlow || lexer.columns.head?.any (column ≤ ·) then lexer
  else { lexer with columns := column :: lexer.columns }.insertAt number token

/-- Closes the blocks that pass a test. -/
def closeBlocks (lexer : Lexer) (test : Nat → Bool) : Lexer :=
  if lexer.inFlow then lexer
  else
    let closed := lexer.columns.takeWhile test
    { lexer with
      tokens := closed.map (fun _ => Token.blockEnd) ++ lexer.tokens
      columns := lexer.columns.drop closed.length }

/-- Passes over blanks, comments and line ends, and a byte order mark at the beginning of each line;
`count` bounds the lines. A tab counts as a blank where no key may begin. -/
def skipToToken : Nat → Lexer → Lexer
  | 0, lexer => lexer
  | count + 1, lexer =>
    let tabs := lexer.inFlow || !lexer.keyAllowed
    let blank := lexer.cursor.skipByteOrderMark.skipWhile fun c => c == ' ' || (tabs && c == '\t')
    let cursor := if blank.next? = some '#' then blank.skipWhile (!isBreak ·) else blank
    if cursor.nextIs isBreak then
      skipToToken count
        { lexer with cursor := cursor.skipBreak, keyAllowed := lexer.keyAllowed || !lexer.inFlow }
    else { lexer with cursor }

def finish (lexer : Lexer) : Option Lexer :=
  (lexer.closeBlocks fun _ => true).dropKey.map fun lexer =>
    (lexer.allowKey false).push .streamEnd

/-- Leaves all blocks before a directive or a mark between documents. -/
def leaveBlocks (lexer : Lexer) : Option Lexer :=
  ((lexer.closeBlocks fun _ => true).dropKey).map (·.allowKey false)

def openBracket (lexer : Lexer) (token : Token) : Option Lexer :=
  lexer.saveKey.map fun lexer =>
    ({ lexer with keys := none :: lexer.keys }.allowKey true).pass 1 token

def closeBracket (lexer : Lexer) (token : Token) : Option Lexer :=
  lexer.dropKey.map fun lexer =>
    let keys := if lexer.inFlow then lexer.keys.tail else lexer.keys
    ({ lexer with keys }.allowKey false).pass 1 token

/-- Reads a dash before an entry of a sequence. -/
def blockEntry (lexer : Lexer) : Option Lexer :=
  if !lexer.inFlow && !lexer.keyAllowed then none
  else
    let lexer := lexer.openBlock lexer.cursor.column lexer.tokens.length .blockSequenceStart
    lexer.dropKey.map fun lexer => (lexer.allowKey true).pass 1 .blockEntry

/-- Reads a question mark before a key. -/
def explicitKey (lexer : Lexer) : Option Lexer :=
  if !lexer.inFlow && !lexer.keyAllowed then none
  else
    let lexer := lexer.openBlock lexer.cursor.column lexer.tokens.length .blockMappingStart
    lexer.dropKey.map fun lexer => (lexer.allowKey !lexer.inFlow).pass 1 .key

/-- Reads a colon before a value. What may have begun a key behind which it stands did so. -/
def value (lexer : Lexer) : Option Lexer :=
  match lexer.keys with
  | some key :: others =>
    let lexer := lexer.insertAt key.number .key
    let lexer := lexer.openBlock key.column key.number .blockMappingStart
    some (({ lexer with keys := none :: others }.allowKey false).pass 1 .value)
  | _ =>
    if !lexer.inFlow && !lexer.keyAllowed then none
    else
      let lexer := lexer.openBlock lexer.cursor.column lexer.tokens.length .blockMappingStart
      some ((lexer.allowKey !lexer.inFlow).pass 1 .value)

/-- Adds a token that may begin a key, with what stands behind it. -/
def atom (lexer : Lexer) (read : Cursor → Option (Token × Cursor)) : Option Lexer := do
  let lexer ← lexer.saveKey
  let (token, cursor) ← read lexer.cursor
  return ({ lexer with cursor }.push token).allowKey false

def name (lexer : Lexer) (token : String → Token) : Option Lexer :=
  lexer.atom fun cursor => (readAnchor (cursor.skip 1)).map fun (name, after) => (token name, after)

def quoted (lexer : Lexer) (isSingle : Bool) : Option Lexer :=
  lexer.atom fun cursor =>
    (readQuoted isSingle lexer.limit lexer.limit [] (cursor.skip 1)).map fun (text, after) =>
      (.scalar (String.ofList text) false, after)

def block (lexer : Lexer) (isLiteral : Bool) : Option Lexer := do
  let lexer ← lexer.dropKey
  let (text, cursor) ←
    readBlock isLiteral lexer.columns.head? lexer.limit (lexer.cursor.skip 1)
  return ({ lexer with cursor }.push (.scalar (String.ofList text) false)).allowKey true

def plain (lexer : Lexer) : Option Lexer := do
  let lexer ← lexer.saveKey
  let indent := (lexer.columns.head?.map (· + 1)).getD 0
  let scalar ← readPlain lexer.inFlow indent lexer.limit lexer.limit [] Gap.none lexer.cursor
  return ({ lexer with cursor := scalar.after }.push
    (.scalar (String.ofList scalar.text) true)).allowKey scalar.endsBroken

/-- Whether a plain scalar may begin with a character before another one. -/
def startsPlain (inFlow : Bool) (c : Char) (second : Option Char) : Bool :=
  !(isGap c || "-?:,[]\x7b\x7d#&*!|>'\"%@`".toList.contains c) ||
    (c == '-' && !second.any isGap) ||
    (!inFlow && (c == '?' || c == ':') && !Cursor.separates second)

def readToken (lexer : Lexer) (c : Char) : Option Lexer :=
  let second := lexer.cursor.second?
  let isAlone := lexer.inFlow || Cursor.separates second
  if lexer.cursor.column = 0 && c == '%' then do
    let lexer ← lexer.leaveBlocks
    let (token, cursor) ← readDirective lexer.cursor
    return { lexer with cursor }.push token
  else if lexer.cursor.atMark '-' then lexer.leaveBlocks.map (·.pass 3 .documentStart)
  else if lexer.cursor.atMark '.' then lexer.leaveBlocks.map (·.pass 3 .documentEnd)
  else if c == '[' then lexer.openBracket .flowSequenceStart
  else if c == '\x7b' then lexer.openBracket .flowMappingStart
  else if c == ']' then lexer.closeBracket .flowSequenceEnd
  else if c == '\x7d' then lexer.closeBracket .flowMappingEnd
  else if c == ',' then
    lexer.dropKey.map fun lexer => (lexer.allowKey true).pass 1 .flowEntry
  else if c == '-' && Cursor.separates second then lexer.blockEntry
  else if c == '?' && isAlone then lexer.explicitKey
  else if c == ':' && isAlone then lexer.value
  else if c == '*' then lexer.name .alias
  else if c == '&' then lexer.name .anchor
  else if c == '!' then lexer.atom (readTag lexer.inFlow)
  else if c == '|' && !lexer.inFlow then lexer.block true
  else if c == '>' && !lexer.inFlow then lexer.block false
  else if c == '\'' then lexer.quoted true
  else if c == '"' then lexer.quoted false
  else if startsPlain lexer.inFlow c second then lexer.plain
  else none

/-- Reads the tokens up to the end of the text; `count` bounds them. -/
def readAll : Nat → Lexer → Option Lexer
  | 0, _ => none
  | count + 1, lexer => do
    let lexer ← (skipToToken lexer.limit lexer).dropStale
    let column := lexer.cursor.column
    let lexer := lexer.closeBlocks (column < ·)
    match lexer.cursor.rest with
    | [] => lexer.finish
    | c :: _ => do
      let lexer ← lexer.readToken c
      readAll count lexer

end Lexer

/-- The tokens of a text, unless it is malformed. -/
def Token.ofText? (text : List Char) : Option (List Token) :=
  if !text.all isAllowed then none
  else (Lexer.readAll (text.length + 2) (Lexer.start text)).map fun lexer => lexer.tokens.reverse

end ClientForge.Yaml
