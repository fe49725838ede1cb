import BoundSql.Number.Scientific
import BoundSql.Sqlite.Token
import BoundSql.Sqlite.Wire

namespace BoundSql.Sqlite

inductive Refusal
  | unrecognized (token : String) (offset : Nat)
  | syntaxError (token : String) (offset : Nat)
  | incomplete
  | noSuchTable (name : String)
  | noSuchColumn (name : String) (offset : Nat)
  | tableExists (name : String) (offset : Nat)
  | valueCount (table : String) (columns values : Nat)
  | unequalSelects
  | unequalValues
  | notUnique (table column : String)
  | beginInside
  | commitOutside
  | rollbackOutside
  | parameterCount (given needed : Nat)
  | givesRows
  | empty
  deriving Repr, DecidableEq

namespace Refusal

/-- The text of a refusal; some name the place in the statement. -/
def message (sql : String) : Refusal → String
  | unrecognized t n => placed s!"unrecognized token: \"{t}\"" n
  | syntaxError t n => placed s!"near \"{t}\": syntax error" n
  | incomplete => "incomplete input"
  | noSuchTable name => s!"no such table: {name}"
  | noSuchColumn name n => placed s!"no such column: {name}" n
  | tableExists name n => placed s!"table {name} already exists" n
  | valueCount table columns values =>
    s!"table {table} has {columns} columns but {values} values were supplied"
  | unequalSelects =>
    "SELECTs to the left and right of UNION ALL do not have the same number of result columns"
  | unequalValues => "all VALUES must have the same number of terms"
  | notUnique table column => s!"UNIQUE constraint failed: {table}.{column}"
  | beginInside => "cannot start a transaction within a transaction"
  | commitOutside => "cannot commit - no transaction is active"
  | rollbackOutside => "cannot rollback - no transaction is active"
  | parameterCount given needed =>
    s!"Wrong number of parameters passed to query. Got {given}, needed {needed}"
  | givesRows => "Execute returned results - did you mean to call query?"
  | empty => "not an error"
where
  placed (what : String) (offset : Nat) : String := s!"{what} in {sql} at offset {offset}"

end Refusal

inductive Operator
  | plus
  | minus
  | equals
  | differs
  | less
  | lessOrEqual
  | greater
  | greaterOrEqual
  deriving Repr, DecidableEq

inductive Expr
  | literal (w : Wire)
  | parameter (index : Nat)
  | column (name : String) (offset : Nat)
  | count
  | negate (e : Expr)
  | binary (o : Operator) (a b : Expr)
  deriving Repr, DecidableEq

/-- A result column: all columns of the table, or an expression with the name that it is given and
the text that it is written as. -/
inductive Item
  | all
  | value (e : Expr) (name : Option String) (text : String)
  deriving Repr, DecidableEq

structure Select where
  items : List Item
  source : Option String
  condition : Option Expr
  deriving Repr, DecidableEq

structure ColumnDefinition where
  name : String
  unique : Bool
  deriving Repr, DecidableEq

inductive Statement
  | create (table : String) (offset : Nat) (columns : List ColumnDefinition)
  | insert (table : String) (rows : List (List Expr))
  | select (parts : List Select) (order : Option Expr)
  | update (table : String) (sets : List (String × Nat × Expr)) (condition : Option Expr)
  | delete (table : String) (condition : Option Expr)
  | begin
  | commit
  | rollback
  deriving Repr, DecidableEq

namespace Statement

/-- What a reader has before it: the text, its tokens, and the parameters met so far. -/
structure Reading where
  source : List Char
  rest : List Token
  parameters : Nat

abbrev Reader := StateT Reading (Except Refusal)

def byteOffset (source : List Char) (start : Nat) : Nat :=
  (String.ofList (source.take start)).utf8ByteSize

namespace Reader

variable {α : Type}

def peek : Reader (Option Token) := do return (← get).rest.head?

def offset (t : Token) : Reader Nat := do return byteOffset (← get).source t.start

def refuse : Reader α := do
  match ← peek with
  | none => throw .incomplete
  | some t =>
    let n ← offset t
    match t.kind with
    | .unrecognized => throw (.unrecognized (String.ofList t.text) n)
    | _ =>
      if t.isSymbol ";" then throw .incomplete
      else throw (.syntaxError (String.ofList t.text) n)

def skip : Reader Unit := modify fun r ↦ { r with rest := r.rest.drop 1 }

def take? (p : Token → Bool) : Reader (Option Token) := do
  match ← peek with
  | some t =>
    if p t then
      skip
      return some t
    else return none
  | none => return none

def take (p : Token → Bool) : Reader Token := do
  match ← take? p with
  | some t => return t
  | none => refuse

def keyword? (k : String) : Reader Bool := do return (← take? (·.isKeyword k)).isSome

def symbol? (s : String) : Reader Bool := do return (← take? (·.isSymbol s)).isSome

def keyword (k : String) : Reader Unit := do let _ ← take (·.isKeyword k)

def symbol (s : String) : Reader Unit := do let _ ← take (·.isSymbol s)

def list (p : Reader α) : Nat → Reader (List α)
  | 0 => refuse
  | fuel + 1 => do
    let a ← p
    if ← symbol? "," then return a :: (← list p fuel) else return [a]

def many (p : Reader α) : Reader (List α) := do list p ((← get).rest.length + 1)

def reserved : List String :=
  ["select", "from", "where", "order", "by", "union", "all", "values", "insert", "into", "create",
    "table", "unique", "update", "set", "delete", "begin", "commit", "rollback", "as", "null"]

def isName (t : Token) : Bool :=
  t.kind == .quoted ||
    (t.kind == .word && !reserved.contains (String.ofList (Token.lower t.text)))

def nameOf (t : Token) : String :=
  String.ofList (if t.kind == .quoted then t.content '"' else t.text)

def name : Reader Token := take isName

end Reader

open Reader

def numberOf (text : List Char) : Wire :=
  let real : Wire := ((Binary.readUnsigned? text).map Wire.real).getD .null
  if text.all Text.isDigit then
    match Sized.ofInt? .i64 (Text.ofDigits text) with
    | some n => .integer n
    | none => real
  else real

def hexBytes : List Char → Utf8.Bytes
  | a :: b :: r => UInt8.ofNat (16 * digit a + digit b) :: hexBytes r
  | _ => []
where
  digit (c : Char) : Nat := (Text.hexVal? c).getD 0

def primary : Reader Expr := do
  match ← peek with
  | none => refuse
  | some t =>
    match t.kind with
    | .number =>
      skip
      return .literal (numberOf t.text)
    | .string =>
      skip
      return .literal (.text (Utf8.encode (String.ofList (t.content '\''))))
    | .blob =>
      skip
      return .literal (.blob (hexBytes (t.text.drop 2).dropLast))
    | .parameter =>
      let r ← get
      set { r with rest := r.rest.drop 1, parameters := r.parameters + 1 }
      return .parameter r.parameters
    | _ =>
      if ← keyword? "null" then return .literal .null
      else if t.isKeyword "count" then
        skip
        symbol "("
        symbol "*"
        symbol ")"
        return .count
      else
        let t ← name
        return .column (nameOf t) (← offset t)

def signed : Nat → Reader Expr
  | 0 => primary
  | fuel + 1 => do
    if ← symbol? "-" then return .negate (← signed fuel)
    else if ← symbol? "+" then signed fuel
    else primary

def operator? (table : List (String × Operator)) : Reader (Option Operator) := do
  match ← peek with
  | none => return none
  | some t =>
    match table.find? fun o ↦ t.isSymbol o.1 with
    | some o =>
      skip
      return some o.2
    | none => return none

def chain (table : List (String × Operator)) (operand : Reader Expr) : Nat → Expr → Reader Expr
  | 0, a => return a
  | fuel + 1, a => do
    match ← operator? table with
    | none => return a
    | some o => do
      let b ← operand
      chain table operand fuel (.binary o a b)

def chained (table : List (String × Operator)) (operand : Reader Expr) : Reader Expr := do
  let a ← operand
  chain table operand (← get).rest.length a

def operand : Reader Expr := do signed (← get).rest.length

def sum : Reader Expr := chained [("+", .plus), ("-", .minus)] operand

def comparison : Reader Expr :=
  chained [("<=", .lessOrEqual), (">=", .greaterOrEqual), ("<", .less), (">", .greater)] sum

def expr : Reader Expr :=
  chained [("=", .equals), ("<>", .differs), ("!=", .differs)] comparison

def written (source : List Char) (tokens : List Token) (left : Nat) : String :=
  match tokens.take (tokens.length - left) with
  | [] => ""
  | first :: more =>
    let stop := (more.getLast?.getD first).stop
    String.ofList ((source.drop first.start).take (stop - first.start))

def item : Reader Item := do
  if ← symbol? "*" then return .all
  let before ← get
  let e ← expr
  let text := written before.source before.rest (← get).rest.length
  if ← keyword? "as" then return .value e (some (nameOf (← name))) text
  return .value e ((← take? isName).map nameOf) text

def condition? : Reader (Option Expr) := do
  if ← keyword? "where" then return some (← expr) else return none

def selectPart : Reader Select := do
  keyword "select"
  let items ← many item
  let source ← if ← keyword? "from" then some <$> (nameOf <$> name) else pure none
  return ⟨items, source, ← condition?⟩

def selectParts : Nat → Reader (List Select)
  | 0 => refuse
  | fuel + 1 => do
    let s ← selectPart
    if ← keyword? "union" then
      keyword "all"
      return s :: (← selectParts fuel)
    else return [s]

def columnDefinition : Reader ColumnDefinition := do
  let t ← name
  return ⟨nameOf t, ← keyword? "unique"⟩

def parenthesized {α : Type} (p : Reader α) : Reader (List α) := do
  symbol "("
  let l ← many p
  symbol ")"
  return l

def assignment : Reader (String × Nat × Expr) := do
  let t ← name
  symbol "="
  return (nameOf t, ← offset t, ← expr)

def statement : Reader Statement := do
  if ← keyword? "create" then
    keyword "table"
    let t ← name
    return .create (nameOf t) (← offset t) (← parenthesized columnDefinition)
  else if ← keyword? "insert" then
    keyword "into"
    let t ← name
    keyword "values"
    return .insert (nameOf t) (← many (parenthesized expr))
  else if ← keyword? "update" then
    let t ← name
    keyword "set"
    let sets ← many assignment
    return .update (nameOf t) sets (← condition?)
  else if ← keyword? "delete" then
    keyword "from"
    let t ← name
    return .delete (nameOf t) (← condition?)
  else if ← keyword? "begin" then return .begin
  else if ← keyword? "commit" then return .commit
  else if ← keyword? "rollback" then return .rollback
  else if (← peek).any (·.isKeyword "select") then
    let parts ← selectParts ((← get).rest.length + 1)
    if ← keyword? "order" then
      keyword "by"
      return .select parts (some (← expr))
    else return .select parts none
  else refuse

/-- Reads a text: its statement, if there is one, and the number of its parameters. -/
def parse (sql : String) : Except Refusal (Option Statement × Nat) := do
  let source := sql.toList
  let tokens := (Token.scan source).dropWhile (·.isSymbol ";")
  if tokens.isEmpty then return (none, 0)
  let read := do
    let s ← statement
    match ← peek with
    | none => return s
    | some t => if t.isSymbol ";" then return s else refuse
  let (s, r) ← (read : Reader Statement).run ⟨source, tokens, 0⟩
  return (some s, r.parameters)

end Statement

end BoundSql.Sqlite
