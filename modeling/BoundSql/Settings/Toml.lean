import BoundSql.Calendar.Basic
import BoundSql.Number.Scientific
import BoundSql.Settings.Node
import BoundSql.Text.Scan

namespace BoundSql.Settings.Toml

open Scan

def isSpace (c : Char) : Bool := c = ' ' || c = '\t'

def spaces : Scan Unit := do let _ ← takeWhile isSpace

def lineEnd : Scan Bool := do
  if ← accept "\n" then return true
  else accept "\r\n"

def isPlain (c : Char) : Bool := c = '\t' || (0x20 ≤ c.toNat && c.toNat ≠ 0x7F)

def comment : Scan Unit := do
  if ← accept "#" then
    let _ ← takeWhile isPlain

def emptyLines : Nat → Scan Unit
  | 0 => pure ()
  | fuel + 1 => do
    spaces
    if ← lineEnd then emptyLines fuel

def gap : Nat → Scan Unit
  | 0 => pure ()
  | fuel + 1 => do
    spaces
    comment
    if ← lineEnd then gap fuel

def escape : Scan Char := do
  match ← take? fun _ ↦ true with
  | some 'b' => return '\x08'
  | some 't' => return '\t'
  | some 'n' => return '\n'
  | some 'f' => return '\x0c'
  | some 'r' => return '\r'
  | some 'e' => return '\x1b'
  | some '"' => return '"'
  | some '\\' => return '\\'
  | some 'x' => codePoint 2
  | some 'u' => codePoint 4
  | some 'U' => codePoint 8
  | _ => refuse

def basic : Nat → Scan (List Char)
  | 0 => refuse
  | fuel + 1 => do
    match ← take? isPlain with
    | none => refuse
    | some '"' => return []
    | some '\\' => return (← escape) :: (← basic fuel)
    | some c => return c :: (← basic fuel)

/-- A string up to its single quote; nothing is escaped. -/
def literal : Scan (List Char) := do
  let s ← takeWhile fun c ↦ isPlain c && c ≠ '\''
  expect "'"
  return s

/-- Up to three quotes more than the two that a string of many lines may end with. -/
def closing (q : Char) : Scan (Option (List Char)) := do
  let run := (← get).takeWhile (· = q)
  if run.length < 3 then return none
  else if run.length ≤ 5 then
    skip run.length
    return some (run.drop 3)
  else refuse

def manyLines (q : Char) (escapes : Bool) : Nat → Scan (List Char)
  | 0 => refuse
  | fuel + 1 => do
    match ← closing q with
    | some quotes => return quotes
    | none =>
      if ← lineEnd then return '\n' :: (← manyLines q escapes fuel)
      match ← take? isPlain with
      | none => refuse
      | some c =>
        if escapes ∧ c = '\\' then
          let blanks ← takeWhile isSpace
          if ← lineEnd then
            emptyLines fuel
            manyLines q escapes fuel
          else if blanks ≠ [] then refuse
          else return (← escape) :: (← manyLines q escapes fuel)
        else return c :: (← manyLines q escapes fuel)

def string? : Scan (Option String) := do
  let fuel := (← get).length + 1
  if ← accept "\"\"\"" then
    let _ ← lineEnd
    return some (String.ofList (← manyLines '"' true fuel))
  else if ← accept "'''" then
    let _ ← lineEnd
    return some (String.ofList (← manyLines '\'' false fuel))
  else if ← accept "\"" then return some (String.ofList (← basic fuel))
  else if ← accept "'" then return some (String.ofList (← literal))
  else return none

def isBare (c : Char) : Bool :=
  ('a' ≤ c && c ≤ 'z') || ('A' ≤ c && c ≤ 'Z') || Text.isDigit c || c = '_' || c = '-'

def simpleKey : Scan String := do
  let fuel := (← get).length + 1
  if ← accept "\"" then return String.ofList (← basic fuel)
  else if ← accept "'" then return String.ofList (← literal)
  else return String.ofList (← takeSome isBare)

def maxDepth : Nat := 80

/-- At most this many names with points between them. -/
def names : Nat → Scan (List String)
  | 0 => refuse
  | fuel + 1 => do
    let k ← simpleKey
    spaces
    if ← accept "." then
      spaces
      return k :: (← names fuel)
    else return [k]

def key : Scan (List String) := names maxDepth

def ungrouped? (isDigit : Char → Bool) (s : List Char) : Option (List Char) :=
  let parts := (String.ofList s).splitOn "_"
  if parts.all fun p ↦ p ≠ "" && p.toList.all isDigit then some (s.filter (· ≠ '_')) else none

def inBase (base : Nat) (s : List Char) : Option Node := do
  let ok (c : Char) : Bool := (Text.hexVal? c).any (· < base)
  let ds ← ungrouped? ok s
  let n := ds.foldl (fun n c ↦ base * n + (Text.hexVal? c).getD 0) 0
  return .integer (← Sized.ofInt? .i64 n)

def wholePart? (s : List Char) : Option (List Char) := do
  let ds ← ungrouped? Text.isDigit s
  if ds.length = 1 ∨ ds.head? ≠ some '0' then some ds else none

/-- A decimal number after its sign. It must fit: an integer 64 bits, any other the range of finite
numbers. -/
def decimal (negative : Bool) (s : List Char) : Option Node := do
  let isMark (c : Char) : Bool := c = 'e' || c = 'E'
  let mantissa := s.takeWhile fun c ↦ !isMark c
  let exponent := s.drop mantissa.length
  let whole := mantissa.takeWhile (· ≠ '.')
  let fraction := mantissa.drop whole.length
  let w ← wholePart? whole
  if fraction = [] ∧ exponent = [] then
    let n : Int := Text.ofDigits w
    return .integer (← Sized.ofInt? .i64 (if negative then -n else n))
  else
    let f ← if fraction = [] then some [] else ungrouped? Text.isDigit (fraction.drop 1)
    let e ← match exponent.drop 1 with
      | [] => if exponent = [] then some (0 : Int) else none
      | '-' :: r => (ungrouped? Text.isDigit r).map fun d ↦ -(Text.ofDigits d : Int)
      | '+' :: r => (ungrouped? Text.isDigit r).map fun d ↦ (Text.ofDigits d : Int)
      | r => (ungrouped? Text.isDigit r).map fun d ↦ (Text.ofDigits d : Int)
    let x : Binary64 := Binary.ofScientific negative (Text.ofDigits (w ++ f)) (e - f.length)
    if x.isInfinite then none else some (.real x)

def unsigned (negative : Bool) (s : List Char) : Option Node :=
  match String.ofList s with
  | "inf" => some (.real (Binary.infinity negative))
  | "nan" => some (.real Binary.nan)
  | _ => decimal negative s

def number? (s : List Char) : Option Node :=
  match s with
  | '0' :: 'x' :: r => inBase 16 r
  | '0' :: 'o' :: r => inBase 8 r
  | '0' :: 'b' :: r => inBase 2 r
  | '-' :: r => unsigned true r
  | '+' :: r => unsigned false r
  | _ => unsigned false s

def date : Scan (List Char) := do
  let s ← get
  let y ← digits 4
  expect "-"
  let m ← digits 2
  expect "-"
  let d ← digits 2
  if (Date.make? y m d).isSome then return s.take 10 else refuse

/-- The characters of a time. It may end before its seconds; a fraction loses the zeros at its end
but for the first digit. -/
def time : Scan (List Char) := do
  let s ← get
  let h ← digits 2
  expect ":"
  let m ← digits 2
  if 23 < h ∨ 59 < m then refuse
  if !(← accept ":") then return s.take 5
  if 60 < (← digits 2) then refuse
  if !(← accept ".") then return s.take 8
  let fraction := (← takeSome Text.isDigit).take 9
  let shown := (fraction.reverse.dropWhile (· = '0')).reverse
  return s.take 9 ++ if shown = [] then ['0'] else shown

def offset : Scan (List Char) := do
  let s ← get
  if (← accept "Z") || (← accept "z") then return ['Z']
  else if (← accept "+") || (← accept "-") then
    let h ← digits 2
    expect ":"
    let m ← digits 2
    if 23 < h ∨ 59 < m then refuse
    return if h = 0 ∧ m = 0 then "+00:00".toList else s.take 6
  else return []

def moment : Scan (List Char) := do
  let s ← get
  if (s.drop 2).head? = some ':' then time
  else
    let d ← date
    let rest ← get
    let joined := match rest with
      | c :: h :: _ => (c = 'T' || c = 't' || c = ' ') && Text.isDigit h
      | _ => false
    if joined then
      skip 1
      let t ← time
      return d ++ 'T' :: t ++ (← offset)
    else return d

def isMoment (s : List Char) : Bool :=
  let two := (s.take 2).all Text.isDigit && 2 ≤ (s.take 2).length
  two && ((s.drop 2).head? = some ':' ||
    ((s.take 4).all Text.isDigit && (s.drop 4).head? = some '-'))

def isNumberChar (c : Char) : Bool := isBare c || c = '+' || c = '.'

/-- How a table came to be: as a step towards another one, by its header, or by a key with points.
-/
inductive Origin
  | passed
  | header
  | dotted
  deriving Repr, DecidableEq

inductive Tree
  | value (n : Node)
  | table (origin : Origin) (entries : List (String × Tree))
  | series (last : List (String × Tree))

abbrev Trees := List (String × Tree)

def putTree (k : String) (t : Tree) : Trees → Trees
  | [] => [(k, t)]
  | (l, u) :: r => if l = k then (k, t) :: r else (l, u) :: putTree k t r

/-- Goes down to a table, making those that are missing; `f` changes the last one, whose origin it
is told. No key with points goes through a table with a header of its own. -/
def descend (made : Origin) (f : Origin → Trees → Option Trees) (o : Origin) :
    List String → Trees → Option Trees
  | [], es => f o es
  | k :: rest, es => do
    match es.lookup k with
    | none => return putTree k (.table made (← descend made f made rest [])) es
    | some (.table o inner) =>
      if made = .dotted ∧ o = .header then none
      else return putTree k (.table o (← descend made f o rest inner)) es
    | some (.series last) => return putTree k (.series (← descend made f .header rest last)) es
    | some (.value _) => none

def openTable (path : List String) (isSeries : Bool) (es : Trees) : Option Trees := do
  let last ← path.getLast?
  let add (_ : Origin) (es : Trees) : Option Trees :=
    match es.lookup last, isSeries with
    | none, false => some (putTree last (.table .header []) es)
    | none, true | some (.series _), true => some (putTree last (.series []) es)
    | some (.table .passed inner), false => some (putTree last (.table .header inner) es)
    | _, _ => none
  descend .passed add .header path.dropLast es

/-- Adds a key and its value. A key with points adds to a table only if such keys made it. -/
def addPair (path : List String) (v : Node) (es : Trees) : Option Trees := do
  let last ← path.getLast?
  let add (o : Origin) (es : Trees) : Option Trees :=
    if (es.lookup last).isSome ∨ (1 < path.length ∧ o ≠ .dotted) then none
    else some (putTree last (.value v) es)
  descend .dotted add .header path.dropLast es

def addLine (header path : List String) (v : Node) (es : Trees) : Option Trees :=
  descend .passed (fun _ ↦ addPair path v) .header header es

mutual

def Tree.node : Tree → Node
  | .value n => n
  | .table _ es => .table (nodes es)
  | .series _ => .list

def nodes : Trees → Node.Entries
  | [] => []
  | (k, t) :: rest => (k, t.node) :: nodes rest

end

def items (value : Scan Node) : Nat → Scan Unit
  | 0 => refuse
  | fuel + 1 => do
    gap fuel
    if ← accept "]" then return
    let _ ← value
    gap fuel
    if ← accept "," then items value fuel
    else expect "]"

def pairs (value : Scan Node) (es : Trees) : Nat → Scan Trees
  | 0 => refuse
  | fuel + 1 => do
    gap fuel
    if ← accept "\x7d" then return es
    let path ← key
    expect "="
    spaces
    let v ← value
    gap fuel
    match addPair path v es with
    | none => refuse
    | some es =>
      if ← accept "," then pairs value es fuel
      else
        expect "\x7d"
        return es

def scalar : Scan Node := do
  if let some s := ← string? then return .text s
  if isMoment (← get) then return .text (String.ofList (← moment))
  let word ← takeSome isNumberChar
  match String.ofList word with
  | "true" => return .flag true
  | "false" => return .flag false
  | _ =>
    match number? word with
    | some n => return n
    | none => refuse

/-- A value in which at most `depth` brackets are open at once. -/
def value : Nat → Scan Node
  | 0 => scalar
  | depth + 1 => do
    let room := (← get).length + 1
    if ← accept "[" then
      items (value depth) room
      return .list
    else if ← accept "\x7b" then return .table (nodes (← pairs (value depth) [] room))
    else scalar

def endOfLine : Scan Unit := do
  spaces
  comment
  if !(← lineEnd) && !(← atEnd) then refuse

/-- Reads a header or a key-value line: the table that is open after it, and all tables. -/
def line (header : List String) (es : Trees) : Scan (List String × Trees) := do
  if ← accept "[[" then
    spaces
    let path ← key
    expect "]]"
    endOfLine
    match openTable path true es with
    | some es => return (path, es)
    | none => refuse
  else if ← accept "[" then
    spaces
    let path ← key
    expect "]"
    endOfLine
    match openTable path false es with
    | some es => return (path, es)
    | none => refuse
  else
    let path ← key
    expect "="
    spaces
    let v ← value maxDepth
    endOfLine
    match addLine header path v es with
    | some es => return (header, es)
    | none => refuse

def lines (header : List String) (es : Trees) : Nat → Scan Trees
  | 0 => refuse
  | fuel + 1 => do
    gap ((← get).length + 1)
    if ← atEnd then return es
    let (header, es) ← line header es
    lines header es fuel

def parse (source : String) : Option Node.Entries :=
  let s := match source.toList with
    | '\ufeff' :: r => r
    | s => s
  (whole? (lines [] [] (s.length + 1)) s).map nodes

end BoundSql.Settings.Toml
