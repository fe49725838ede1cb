import BoundSql.Yaml.Token

namespace BoundSql.Yaml

structure Place where
  index : Nat
  line : Nat
  column : Nat
  deriving Repr, DecidableEq

/-- A token that may start a key of a mapping without saying so. -/
structure Candidate where
  possible : Bool
  required : Bool
  number : Nat
  place : Place
  deriving Repr, DecidableEq

structure Indent where
  column : Int
  isBlock : Bool
  deriving Repr, DecidableEq

structure Lexer where
  rest : List Char
  place : Place
  tokens : List (Nat × Token)
  /-- The candidates for a key: one for each open bracket and one outside of them. -/
  candidates : List Candidate
  keyAllowed : Bool
  indent : Int
  indents : List Indent
  flow : Nat
  fresh : Bool
  adjacent : Nat
  /-- Whether a mapping in braces has been opened since the last one without them was closed. -/
  inBraces : Bool
  /-- For each open list in brackets: how many brackets were open when an item became a mapping of
  one pair that has no braces, if one did. -/
  pairs : List (Option Nat)

namespace Lexer

def noCandidate : Candidate := ⟨false, false, 0, ⟨0, 0, 0⟩⟩

def start (source : List Char) : Lexer where
  rest := source
  place := ⟨0, 0, 0⟩
  tokens := []
  candidates := [noCandidate]
  keyAllowed := true
  indent := -1
  indents := []
  flow := 0
  fresh := true
  adjacent := 0
  inBraces := false
  pairs := []

end Lexer

abbrev Lexing := StateT Lexer Option

namespace Lexing

variable {α : Type}

def refuse : Lexing α := fun _ ↦ none

def peek (n : Nat) : Lexing Char := do return (← get).rest.getD n endOfText

def next : Lexing Char := peek 0

def pass (n : Nat) : Lexing Unit := modify fun l ↦
  { l with
    rest := l.rest.drop n
    place := ⟨l.place.index + n, l.place.line, l.place.column + n⟩ }

def passContent (n : Nat) : Lexing Unit := do
  pass n
  if n ≠ 0 then modify fun l ↦ { l with fresh := false }

def passBreak : Lexing Unit := modify fun l ↦
  let n := if ['\r', '\n'].isPrefixOf l.rest then 2 else 1
  { l with
    rest := l.rest.drop n
    place := ⟨l.place.index + n, l.place.line + 1, 0⟩
    fresh := true }

def takeWhile (p : Char → Bool) : Lexing String := do
  let cs := (← get).rest.takeWhile p
  passContent cs.length
  return String.ofList cs

def whileAhead (step : Lexing Bool) : Lexing Unit := do
  go ((← get).rest.length + 1)
where
  go : Nat → Lexing Unit
    | 0 => refuse
    | fuel + 1 => do if ← step then go fuel

def fold (step : α → Lexing (α × Bool)) (a : α) : Lexing α := do
  go ((← get).rest.length + 1) a
where
  go : Nat → α → Lexing α
    | 0, _ => refuse
    | fuel + 1, a => do
      let (a, more) ← step a
      if more then go fuel a else return a

def comment : Lexing Unit := do let _ ← takeWhile fun c ↦ !isBreak c

structure Blanks where
  tabs : Bool
  spaces : Bool
  deriving Repr, DecidableEq

def blanks (tabsToo : Bool) : Lexing Blanks := do
  let cs := (← get).rest.takeWhile fun c ↦ c = ' ' || (tabsToo && c = '\t')
  pass cs.length
  if (← next) = '#' then
    if cs = [] then refuse
    comment
  return ⟨cs.contains '\t', cs.contains ' '⟩

def allowKey (b : Bool) : Lexing Unit := modify fun l ↦ { l with keyAllowed := b }

def tab : Lexing Unit := do
  let l ← get
  if l.indents ≠ [] ∧ l.fresh ∧ (l.place.column : Int) < l.indent then
    let _ ← blanks true
    if !isLineEnd (← next) then refuse
  else pass 1

def betweenLines : Lexing Unit := do
  passBreak
  if (← get).flow = 0 then allowKey true

def gap : Lexing Unit := whileAhead do
  match ← next with
  | '\t' =>
    tab
    return true
  | ' ' =>
    pass 1
    return true
  | '\n' | '\r' =>
    betweenLines
    return true
  | '#' =>
    comment
    return true
  | _ => return false

/-- Passes spaces, line breaks and comments; there must be a space or a line break in front. -/
def gapWithoutTabs : Lexing Unit := do
  let c ← next
  if c ≠ ' ' ∧ !isBreak c then refuse
  whileAhead do
    match ← next with
    | ' ' =>
      pass 1
      return true
    | '\n' | '\r' =>
      betweenLines
      return true
    | '#' =>
      comment
      return true
    | _ => return false
  if (← next) = '\t' then refuse

/-- Whether the text goes on with a mark of three characters for the start or the end of a document.
-/
def isMark (c : Char) : Lexing Bool := do
  let s := (← get).rest
  return s.take 3 = [c, c, c] && isGap (s.getD 3 endOfText)

def isDocumentMark : Lexing Bool := do return (← isMark '-') || (← isMark '.')

def push (t : Token) : Lexing Unit := modify fun l ↦
  { l with tokens := (l.place.column, t) :: l.tokens }

def insert (n : Nat) (t : Token) : Lexing Unit := modify fun l ↦
  { l with tokens := l.tokens.insertIdx (l.tokens.length - n) (l.place.column, t) }

/-- Opens a block at a column, unless it goes on there or is in brackets. Its token goes to the end
or behind the first `n` ones. -/
def openBlock (column : Nat) (n : Option Nat) (t : Token) : Lexing Unit := do
  if (← get).flow = 0 then
    modify fun l ↦
      match l.indents with
      | ⟨outer, false⟩ :: rest =>
        if l.indent ≤ column then { l with indent := outer, indents := rest } else l
      | _ => l
    let l ← get
    if l.indent < column then
      set { l with indent := (column : Int), indents := ⟨l.indent, true⟩ :: l.indents }
      match n with
      | some n => insert n t
      | none => push t

/-- What follows must be indented by one column more, though it is no block of its own. -/
def indentContent : Lexing Unit := modify fun l ↦
  match l.indents with
  | ⟨_, true⟩ :: _ =>
    if l.flow = 0 then
      { l with indent := l.indent + 1, indents := ⟨l.indent, false⟩ :: l.indents }
    else l
  | _ => l

def closeBlocks (column : Int) : Lexing Unit := do
  let l ← get
  if l.flow = 0 then go column l.indents
where
  go (column : Int) : List Indent → Lexing Unit
    | [] => pure ()
    | i :: rest => do
      if column < (← get).indent then
        modify fun l ↦ { l with indent := i.column, indents := rest }
        if i.isBlock then push .blockEnd
        go column rest

def toBlock : Lexing Unit := modify fun l ↦
  match l.indents with
  | ⟨outer, false⟩ :: rest => { l with indent := outer, indents := rest }
  | _ => l

def markCandidate : Lexing Unit := do
  let l ← get
  if l.keyAllowed then
    let isBlock := l.indents.head?.any Indent.isBlock
    let required := l.flow = 0 && l.indent = (l.place.column : Int) && isBlock
    set { l with
      candidates := ⟨true, required, l.tokens.length, l.place⟩ :: l.candidates.drop 1 }

def dropCandidate : Lexing Unit := do
  let l ← get
  match l.candidates with
  | c :: rest =>
    if c.possible && c.required then refuse
    set { l with candidates := { c with possible := false } :: rest }
  | [] => pure ()

def dropStale : Lexing Unit := do
  let l ← get
  let isStale (c : Candidate) : Bool :=
    c.possible && l.flow = 0 &&
      (c.place.line < l.place.line || c.place.index + 1024 < l.place.index)
  if l.candidates.any fun c ↦ isStale c && c.required then refuse
  set { l with
    candidates :=
      l.candidates.map fun c ↦ if isStale c then { c with possible := false } else c }

end Lexing

end BoundSql.Yaml
