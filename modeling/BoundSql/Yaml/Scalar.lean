import BoundSql.Text.Scan
import BoundSql.Yaml.Lexer

namespace BoundSql.Yaml

open Lexing

/-- A scalar up to here, and the white space behind it, which counts only if more text comes. -/
structure Folding where
  text : String
  blanks : String
  first : String
  more : String

namespace Folding

def empty : Folding := ⟨"", "", "", ""⟩

def joinLines (f : Folding) : Folding :=
  let space := if f.first = "" then f.more else if f.more = "" then " " else f.more
  { f with text := f.text ++ space, first := "", more := "" }

def joinBlanks (f : Folding) : Folding := { f with text := f.text ++ f.blanks, blanks := "" }

end Folding

def plainRun (inBrackets : Bool) : List Char → List Char
  | [] => []
  | c :: r =>
    let after := r.headD endOfText
    if isGap c || (inBrackets && isFlow c) then []
    else if c = ':' && (isGap after || (inBrackets && isFlow after)) then []
    else c :: plainRun inBrackets r

def plainSpace (indent : Int) (f : Folding) : Lexing Folding :=
  fold (fun f ↦ do
    let c ← next
    let l ← get
    if isBlank c then
      if !l.fresh then
        pass 1
        return ({ f with blanks := f.blanks.push c }, true)
      else if (l.place.column : Int) < indent ∧ c = '\t' then
        let _ ← blanks true
        if !isLineEnd (← next) then refuse
        return (f, true)
      else
        pass 1
        return (f, true)
    else if isBreak c then
      passBreak
      if l.fresh then return ({ f with more := f.more.push '\n' }, true)
      else return ({ f with blanks := "", first := f.first.push '\n' }, true)
    else return (f, false)) f

def plainPart (indent : Int) (f : Folding) : Lexing (Folding × Bool) := do
  let l ← get
  let c ← next
  if c = '#' then return (f, false)
  if l.fresh && l.place.column = 0 && (← isDocumentMark) then return (f, false)
  if l.flow ≠ 0 ∧ c = '-' ∧ isFlow (← peek 1) then refuse
  let run := plainRun (l.flow ≠ 0) l.rest
  let f ← if run = [] then pure f
    else
      let f := if l.fresh then f.joinLines else f.joinBlanks
      passContent run.length
      pure { f with text := f.text ++ String.ofList run }
  let c ← next
  if !isBlank c && !isBreak c then return (f, false)
  let f ← plainSpace indent f
  let l ← get
  return (f, l.flow ≠ 0 || indent ≤ l.place.column)

def plainScalar : Lexing Token := do
  toBlock
  let l ← get
  let indent := l.indent + 1
  if l.flow ≠ 0 ∧ (l.place.column : Int) < indent then refuse
  let f ← fold (plainPart indent) Folding.empty
  if (← get).fresh then allowKey true
  if f.text = "" then refuse
  return .scalar .plain f.text

def escapes : List (Char × Char) :=
  [('0', '\x00'), ('a', '\x07'), ('b', '\x08'), ('t', '\t'), ('\t', '\t'), ('n', '\n'),
    ('v', '\x0b'), ('f', '\x0c'), ('r', '\r'), ('e', '\x1b'), (' ', ' '), ('"', '"'), ('/', '/'),
    ('\\', '\\'), ('N', '\u0085'), ('_', '\u00a0'), ('L', '\u2028'), ('P', '\u2029')]

def escapeSizes : List (Char × Nat) := [('x', 2), ('u', 4), ('U', 8)]

def escape : Lexing Char := do
  let c ← peek 1
  passContent 2
  match escapes.lookup c, escapeSizes.lookup c with
  | some d, _ => return d
  | none, some n =>
    match (Scan.codePoint n).run (← get).rest with
    | some (d, _) =>
      passContent n
      return d
    | none => refuse
  | none, none => refuse

/-- Reads the characters of a quoted scalar up to its next white space or its end. Tells whether a
line break written with a backslash comes there. -/
def quotedRun (quote : Char) (text : String) : Lexing (String × Bool) := do
  let (text, cut) ← fold (fun (text, _) ↦ do
    let c ← next
    let after ← peek 1
    if isGap c then return ((text, false), false)
    else if c = quote then
      if c = '\'' ∧ after = '\'' then
        passContent 2
        return ((text.push '\'', false), true)
      else return ((text, false), false)
    else if c = '\\' ∧ quote = '"' then
      if isBreak after then
        passContent 1
        passBreak
        return ((text, true), false)
      else return ((text.push (← escape), false), true)
    else
      passContent 1
      return ((text.push c, false), true)) (text, false)
  return (text, cut)

/-- Passes the white space within a quoted scalar; `cut` tells whether a line begins there. -/
def quotedSpace (f : Folding) (cut : Bool) : Lexing (Folding × Bool) :=
  fold (fun (f, cut) ↦ do
    let c ← next
    if isBlank c then
      if cut then
        let l ← get
        if c = '\t' ∧ (l.place.column : Int) < l.indent then refuse
        pass 1
        return ((f, cut), true)
      else
        pass 1
        return (({ f with blanks := f.blanks.push c }, cut), true)
    else if isBreak c then
      passBreak
      if cut then return (({ f with more := f.more.push '\n' }, cut), true)
      else return (({ f with blanks := "", first := f.first.push '\n' }, true), true)
    else return ((f, cut), false)) (f, cut)

def quotedPart (quote : Char) (f : Folding) : Lexing (Folding × Bool) := do
  let l ← get
  if l.place.column = 0 && (← isDocumentMark) then refuse
  if l.rest = [] ∨ (l.place.column : Int) < l.indent then refuse
  let (text, cut) ← quotedRun quote f.text
  let f := { f with text }
  if (← next) = quote then return (f, false)
  let (f, cut) ← quotedSpace f cut
  return (if cut then f.joinLines else f.joinBlanks, true)

def endQuoted (line : Nat) : Lexing Unit := do
  let _ ← blanks true
  let c ← next
  let l ← get
  let inBrackets := l.flow ≠ 0
  let fits := isLineEnd c || (inBrackets && [',', '\x7d', ']'].contains c) ||
    (c = ':' && (inBrackets || line = l.place.line))
  if !fits then refuse

def quotedScalar : Lexing Token := do
  let quote ← next
  let line := (← get).place.line
  passContent 1
  let f ← fold (quotedPart quote) Folding.empty
  passContent 1
  endQuoted line
  return .scalar .quoted f.text

inductive Chomping
  | strip
  | clip
  | keep
  deriving Repr, DecidableEq

def chomping? : Lexing (Option Chomping) := do
  match ← next with
  | '+' =>
    passContent 1
    return some .keep
  | '-' =>
    passContent 1
    return some .strip
  | _ => return none

def indentDigit : Lexing Nat := do
  let c ← next
  if !Text.isDigit c then return 0
  if c = '0' then refuse
  passContent 1
  return Text.digitVal c

/-- The marks behind the first character of a block, in either order, up to the end of the line. -/
def blockHeader : Lexing (Chomping × Nat) := do
  let early ← chomping?
  let digit ← indentDigit
  let late ← if early.isNone ∧ digit ≠ 0 then chomping? else pure none
  let _ ← blanks true
  if !isLineEnd (← next) then refuse
  return ((early <|> late).getD .clip, digit)

def blockIndent (column : Nat) (breaks : String) : Lexing String :=
  fold (fun breaks ↦ do
    let l ← get
    pass ((l.rest.take (column - l.place.column)).takeWhile (· = ' ')).length
    if isBreak (← next) then
      passBreak
      return (breaks.push '\n', true)
    else return (breaks, false)) breaks

/-- Passes spaces and empty lines in front of the first line; gives the deepest column and the line
breaks. -/
def firstIndent : Lexing (Nat × String) :=
  fold (fun (column, breaks) ↦ do
    pass ((← get).rest.takeWhile (· = ' ')).length
    let column := max column (← get).place.column
    if isBreak (← next) then
      passBreak
      return ((column, breaks.push '\n'), true)
    else return ((column, breaks), false)) (0, "")

structure BlockText where
  text : String
  first : String
  more : String
  blank : Bool

def blockLine (folded : Bool) (column : Nat) (b : BlockText) : Lexing (BlockText × Bool) := do
  let c ← next
  let l ← get
  if l.place.column ≠ column ∨ l.rest = [] then return (b, false)
  if column = 0 && (← isMark '.') then return (b, false)
  let blank := isBlank c
  let first :=
    if folded && b.first ≠ "" && !b.blank && !blank then if b.more = "" then " " else ""
    else b.first
  let line := (← get).rest.takeWhile fun c ↦ !isBreak c
  pass line.length
  let text := b.text ++ first ++ b.more ++ String.ofList line
  if (← get).rest = [] then return (⟨text, "", "", blank⟩, false)
  passBreak
  return (⟨text, "\n", ← blockIndent column "", blank⟩, true)

def BlockText.chomped (b : BlockText) (chomping : Chomping) (endsInLine : Bool) : String :=
  match chomping with
  | .strip => b.text
  | .clip => b.text ++ b.first ++ if endsInLine then "\n" else ""
  | .keep => b.text ++ b.first ++ (if endsInLine then "\n" else "") ++ b.more

def emptyBlock (chomping : Chomping) (breaks : String) (oneLine : Bool) : String :=
  match chomping with
  | .strip => ""
  | .clip => if oneLine then "" else "\n"
  | .keep => if oneLine then "" else if breaks = "" then "\n" else breaks

def blockScalar : Lexing Token := do
  let folded := (← next) = '>'
  let line := (← get).place.line
  passContent 1
  toBlock
  let (chomping, digit) ← blockHeader
  if isBreak (← next) then passBreak
  if (← next) = '\t' then refuse
  let outer := (← get).indent
  let (column, breaks) ← if digit ≠ 0 then
      let column := if 0 ≤ outer then outer.toNat + digit else digit
      pure (column, ← blockIndent column "")
    else
      let (deepest, breaks) ← firstIndent
      pure (max (max deepest (outer + 1).toNat) (if 0 < outer then 1 else 0), breaks)
  let l ← get
  if l.rest = [] then
    return .scalar .block (emptyBlock chomping breaks (l.place.line = line))
  if l.place.column < column ∧ outer < l.place.column then refuse
  let b ← fold (blockLine folded column) ⟨"", "", breaks, false⟩
  let l ← get
  let endsInLine := l.rest = [] && max column 1 ≤ l.place.column
  return .scalar .block (b.chomped chomping endsInLine)

end BoundSql.Yaml
