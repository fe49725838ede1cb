import BoundSql.Yaml.Property
import BoundSql.Yaml.Scalar

namespace BoundSql.Yaml

open Lexing

def maxFlow : Nat := 255

def openBracket (t : Token) : Lexing Unit := do
  markCandidate
  indentContent
  let l ← get
  if maxFlow ≤ l.flow then refuse
  let column := l.place.column
  set { l with
    candidates := Lexer.noCandidate :: l.candidates
    flow := l.flow + 1
    keyAllowed := true
    inBraces := l.inBraces || t == Token.flowMappingStart
    pairs := if t = Token.flowMappingStart then l.pairs else none :: l.pairs }
  passContent 1
  let _ ← blanks true
  modify fun l ↦ { l with tokens := (column, t) :: l.tokens }

def endPair : Lexing Unit := do
  let l ← get
  match l.pairs with
  | some n :: rest =>
    if n = l.flow then
      set { l with pairs := none :: rest, inBraces := false }
      push .flowMappingEnd
  | _ => pure ()

def closeBracket (t : Token) : Lexing Unit := do
  dropCandidate
  if t = .flowSequenceEnd then
    endPair
    modify fun l ↦ { l with pairs := l.pairs.drop 1 }
  modify fun l ↦
    if l.flow = 0 then { l with keyAllowed := false }
    else { l with flow := l.flow - 1, candidates := l.candidates.drop 1, keyAllowed := false }
  push t
  passContent 1
  let _ ← blanks true
  modify fun l ↦ if l.flow = 0 then l else { l with adjacent := l.place.index }

def flowEntry : Lexing Unit := do
  dropCandidate
  allowKey true
  endPair
  push .flowEntry
  passContent 1
  let _ ← blanks true

def isBehindProperty : Lexing Bool := do
  match (← get).tokens with
  | (0, t) :: _ => return t.isProperty
  | _ => return false

def blockEntry : Lexing Unit := do
  let l ← get
  if l.flow ≠ 0 ∨ !l.keyAllowed then refuse
  if l.place.column = 0 && -1 < l.indent && (← isBehindProperty) then refuse
  openBlock l.place.column none .blockSequenceStart
  passContent 1
  let b ← blanks true
  if b.tabs && (← next) = '-' && isGap (← peek 1) then refuse
  let c ← next
  if isBreak c || isFlow c then indentContent
  dropCandidate
  allowKey true
  push .blockEntry

def explicitKey : Lexing Unit := do
  let l ← get
  if l.flow = 0 then
    if !l.keyAllowed then refuse
    openBlock l.place.column none .blockMappingStart
  else modify fun l ↦ { l with inBraces := true }
  dropCandidate
  allowKey (l.flow = 0)
  passContent 1
  gapWithoutTabs
  push .key

/-- A colon. The candidate in front of it, if there is one, is its key. -/
def value : Lexing Unit := do
  let l ← get
  let column := l.place.column
  let isPair := l.pairs ≠ [] && !l.inBraces
  if isPair then set { l with pairs := some l.flow :: l.pairs.drop 1 }
  passContent 1
  if (← next) = '\t' then
    let b ← blanks true
    let c ← next
    if !b.spaces && isWord c then refuse
  match l.candidates.head?.filter Candidate.possible with
  | some k =>
    insert k.number .key
    if isPair then
      if k.place.line < l.place.line then refuse
      insert k.number .flowMappingStart
    openBlock k.place.column (some k.number) .blockMappingStart
    indentContent
    modify fun l ↦ { l with
      candidates := { k with possible := false } :: l.candidates.drop 1
      keyAllowed := false }
  | none =>
    if isPair then push .flowMappingStart
    if l.flow = 0 then
      if !l.keyAllowed then refuse
      openBlock column none .blockMappingStart
    indentContent
    allowKey (l.flow = 0)
  push .value

def closeValue : Lexing Unit := do
  let l ← get
  let c ← peek 1
  if l.place.index ≠ l.adjacent ∧ (c = '[' ∨ c = '\x7b') then refuse
  value

def content (read : Lexing Token) : Lexing Unit := do
  markCandidate
  allowKey false
  let column := (← get).place.column
  let t ← read
  modify fun l ↦ { l with tokens := (column, t) :: l.tokens }

def quoted : Lexing Unit := do
  content quotedScalar
  gap
  modify fun l ↦ { l with adjacent := l.place.index }

def block : Lexing Unit := do
  markCandidate
  allowKey true
  let t ← blockScalar
  push t

def endBlocks : Lexing Unit := do
  closeBlocks (-1)
  dropCandidate
  allowKey false

def documentMark (t : Token) : Lexing Unit := do
  endBlocks
  push t
  passContent 3
  if t = .documentEnd then
    let _ ← blanks true
    if !isLineEnd (← next) then refuse

def token (c after : Char) : Lexing Unit := do
  let l ← get
  let inBrackets := l.flow ≠ 0
  match c with
  | '[' => openBracket .flowSequenceStart
  | '\x7b' => openBracket .flowMappingStart
  | ']' => closeBracket .flowSequenceEnd
  | '\x7d' => closeBracket .flowMappingEnd
  | ',' => flowEntry
  | '*' => content do return .reference (← anchorName)
  | '&' => content do return .anchor (← anchorName)
  | '!' => content tag
  | '\'' | '"' => quoted
  | '%' | '@' | '\x60' => refuse
  | _ =>
    if c = '-' ∧ isGap after then blockEntry
    else if c = '?' ∧ isGap after then explicitKey
    else if c = ':' ∧ isGap after then value
    else if c = ':' ∧ inBrackets ∧ (isFlow after ∨ l.place.index = l.adjacent) then closeValue
    else if (c = '|' ∨ c = '>') ∧ !inBrackets then block
    else content plainScalar

def step : Lexing Bool := do
  gap
  dropStale
  closeBlocks (← get).place.column
  let c ← next
  let l ← get
  if l.rest = [] then
    if l.candidates.any fun k ↦ k.possible && k.required then refuse
    closeBlocks (-1)
    return false
  else if l.place.column = 0 ∧ c = '%' then
    endBlocks
    let column := l.place.column
    let t ← directive
    modify fun l ↦ { l with tokens := (column, t) :: l.tokens }
    return true
  else if l.place.column = 0 && (← isMark '-') then
    documentMark .documentStart
    return true
  else if l.place.column = 0 && (← isMark '.') then
    documentMark .documentEnd
    return true
  else
    if (l.place.column : Int) < l.indent then refuse
    token c (← peek 1)
    return true

/-- The tokens of a text, which ends at the first character that stands for its end. -/
def tokens? (source : List Char) : Option (List Token) := do
  let ((), l) ← (whileAhead step).run (Lexer.start (source.takeWhile (· ≠ endOfText)))
  return (l.tokens.map Prod.snd).reverse

end BoundSql.Yaml
