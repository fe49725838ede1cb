import BoundSql.Json.Basic
import BoundSql.Number.Text

namespace BoundSql.Json

inductive Fault
  | endInList | endInObject | endInString | endInValue
  | colonExpected | commaOrBracketExpected | commaOrBraceExpected
  | wordExpected | valueExpected | badEscape | badNumber | numberOutOfRange
  | controlCharacter | nameExpected | loneSurrogate | trailingComma | trailingCharacters
  | unfinishedSurrogate | tooDeep
  deriving Repr, DecidableEq

namespace Fault

def message : Fault → String
  | endInList => "EOF while parsing a list"
  | endInObject => "EOF while parsing an object"
  | endInString => "EOF while parsing a string"
  | endInValue => "EOF while parsing a value"
  | colonExpected => "expected \x60:\x60"
  | commaOrBracketExpected => "expected \x60,\x60 or \x60]\x60"
  | commaOrBraceExpected => "expected \x60,\x60 or \x60\x7d\x60"
  | wordExpected => "expected ident"
  | valueExpected => "expected value"
  | badEscape => "invalid escape"
  | badNumber => "invalid number"
  | numberOutOfRange => "number out of range"
  | controlCharacter => "control character (\\u0000-\\u001F) found while parsing a string"
  | nameExpected => "key must be a string"
  | loneSurrogate => "lone leading surrogate in hex escape"
  | trailingComma => "trailing comma"
  | trailingCharacters => "trailing characters"
  | unfinishedSurrogate => "unexpected end of hex escape"
  | tooDeep => "recursion limit exceeded"

end Fault

/-- A fault and its place: the text not yet read, and the bytes of its first character that were
looked at. -/
structure Mistake where
  fault : Fault
  rest : List Char
  ahead : Nat
  deriving Repr, DecidableEq

namespace Mistake

/-- Line and column of the last byte read or looked at, lines from one and columns in bytes. -/
def position (source : List Char) (m : Mistake) : Nat × Nat :=
  let read := source.take (source.length - m.rest.length)
  let line := read.count '\n' + 1
  let column := (String.ofList (read.reverse.takeWhile (· ≠ '\n'))).utf8ByteSize
  match m.ahead, m.rest with
  | 0, _ | _, [] => (line, column)
  | n, c :: _ => if c = '\n' then (line + 1, 0) else (line, column + n)

def message (source : List Char) (m : Mistake) : String :=
  let (line, column) := m.position source
  s!"{m.fault.message} at line {line} column {column}"

end Mistake

/-- A reader takes the front of a text and leaves the rest. -/
abbrev Reader := StateT (List Char) (Except Mistake)

namespace Reader

variable {α : Type}

def fail (f : Fault) : Reader α := fun s ↦ .error ⟨f, s, 0⟩

def failNext (f : Fault) : Reader α := fun s ↦ .error ⟨f, s, 1⟩

def isSpace (c : Char) : Bool := c == ' ' || c == '\n' || c == '\t' || c == '\r'

def spaces : Reader Unit := modify (·.dropWhile isSpace)

def peek : Reader (Option Char) := do return (← get).head?

def skip : Reader Unit := modify (·.drop 1)

def ahead (atEnd : Fault) : Reader Char := do
  match ← get with
  | c :: _ => return c
  | [] => fail atEnd

def word : List Char → Reader Unit
  | [] => pure ()
  | c :: r => do
    if (← ahead .endInValue) = c then skip; word r else failNext .wordExpected

def powerOfTen (n : Nat) : Binary64 := Binary.ofRatio false (10 ^ n) 1

def largestPower : Nat := 308

def divideByPower : Nat → Binary64 → Nat → Binary64
  | 0, x, _ => x
  | fuel + 1, x, n =>
    if n ≤ largestPower then x.div (powerOfTen n)
    else if x.isZero then x
    else divideByPower fuel (x.div (powerOfTen largestPower)) (n - largestPower)

def scaled? (negative : Bool) (m : Nat) (e : Int) : Option Binary64 :=
  let x : Binary64 := Binary.ofRatio negative m 1
  if e < 0 then some (divideByPower (e.natAbs / largestPower + 1) x e.natAbs)
  else if e ≤ largestPower then
    let y := x.mul (powerOfTen e.natAbs)
    if y.isInfinite then none else some y
  else if x.isZero then some x
  else none

def scaled (negative : Bool) (m : Nat) (e : Int) : Reader Json :=
  match scaled? negative m e with
  | some x => pure (.float x)
  | none => fail .numberOutOfRange

def digits : Reader (List Char) := do
  let ds := (← get).takeWhile Text.isDigit
  modify (·.dropWhile Text.isDigit)
  return ds

def significand (m taken : Nat) : List Char → Nat × Nat × List Char
  | [] => (m, taken, [])
  | c :: r =>
    if Text.isDigit c ∧ 10 * m + Text.digitVal c < 2 ^ 64 then
      significand (10 * m + Text.digitVal c) (taken + 1) r
    else (m, taken, c :: r)

def exponentLimit : Nat := 2 ^ 31 - 1

def exponent (negative : Bool) (m : Nat) (e : Int) : Reader Json := do
  skip
  let down ← match ← peek with
    | some '+' => skip; pure false
    | some '-' => skip; pure true
    | _ => pure false
  unless Text.isDigit (← ahead .endInValue) do failNext .badNumber
  let s ← get
  let ds := s.takeWhile Text.isDigit
  let fitting := ds.length - (dropFitting 0 ds).length
  if fitting = ds.length then
    set (s.drop ds.length)
    let n : Int := Text.ofDigits ds
    scaled negative m (max (-2 ^ 31) (min exponentLimit (if down then e - n else e + n)))
  else if m ≠ 0 ∧ !down then
    set (s.drop (fitting + 1))
    fail .numberOutOfRange
  else
    set (s.drop ds.length)
    return .float (.zero negative)
where
  /-- What is left of the digits when the exponent no longer fits. -/
  dropFitting (n : Nat) : List Char → List Char
    | [] => []
    | c :: r =>
      let n := 10 * n + Text.digitVal c
      if n ≤ exponentLimit then dropFitting n r else c :: r

/-- The end of a number with a fraction or an overlong integer: an exponent or nothing. -/
def tail (negative : Bool) (m : Nat) (e : Int) : Reader Json := do
  match ← peek with
  | some 'e' | some 'E' => exponent negative m e
  | _ => scaled negative m e

def fraction (negative : Bool) (m : Nat) (e : Int) : Reader Json := do
  skip
  let s ← get
  let (m, taken, rest) := significand m 0 s
  match s with
  | [] => failNext .endInValue
  | c :: _ => unless Text.isDigit c do failNext .badNumber
  set rest
  let _ ← digits
  tail negative m (e - taken)

def afterInteger (negative : Bool) (m : Nat) : Reader Json := do
  match ← peek with
  | some '.' => fraction negative m 0
  | some 'e' | some 'E' => exponent negative m 0
  | _ =>
    let n : Int := if negative then -(m : Int) else m
    if negative ∧ m = 0 then return .float (.zero true)
    match Integer.ofInt? n with
    | some n => return .integer n
    | none => return .float (Binary.ofInt n)

def number (negative : Bool) : Reader Json := do
  let c ← ahead .endInValue
  if c = '0' then
    skip
    match ← peek with
    | some d => if Text.isDigit d then failNext .badNumber else afterInteger negative 0
    | none => afterInteger negative 0
  else if Text.isDigit c then
    let (m, _, rest) := significand 0 0 (← get)
    set rest
    let more ← digits
    if more = [] then afterInteger negative m
    else
      match ← peek with
      | some '.' => fraction negative m more.length
      | _ => tail negative m more.length
  else failNext .badNumber

/-- Goes on by `n` bytes: the text left, and the bytes of its first character that were covered. -/
def advance : Nat → List Char → List Char × Nat
  | 0, s => (s, 0)
  | _, [] => ([], 0)
  | n, c :: r => if c.utf8Size ≤ n then advance (n - c.utf8Size) r else (c :: r, n)

def unit : Reader Nat := fun s ↦
  if (String.ofList s).utf8ByteSize < 4 then .error ⟨.endInString, [], 0⟩
  else
    match (s.take 4).mapM Text.hexVal? with
    | some [a, b, c, d] => .ok (4096 * a + 256 * b + 16 * c + d, s.drop 4)
    | _ => let (rest, n) := advance 4 s; .error ⟨.badEscape, rest, n⟩

def pairMark (c : Char) : Reader Unit := do
  if (← ahead .endInString) = c then skip else failNext .unfinishedSurrogate

def unicode : Reader Char := do
  let n ← unit
  if 0xDC00 ≤ n ∧ n ≤ 0xDFFF then fail .loneSurrogate
  else if n < 0xD800 ∨ 0xDBFF < n then return Char.ofNat n
  else
    pairMark '\\'
    pairMark 'u'
    let n' ← unit
    if n' < 0xDC00 ∨ 0xDFFF < n' then fail .loneSurrogate
    else return Char.ofNat (0x10000 + 0x400 * (n - 0xD800) + (n' - 0xDC00))

def escaped : Reader Char := do
  match ← ahead .endInString with
  | '"' => skip; return '"'
  | '\\' => skip; return '\\'
  | '/' => skip; return '/'
  | 'b' => skip; return '\x08'
  | 'f' => skip; return '\x0c'
  | 'n' => skip; return '\n'
  | 'r' => skip; return '\r'
  | 't' => skip; return '\t'
  | 'u' => skip; unicode
  | _ => failNext .badEscape

/-- The characters of a string up to its closing quote; `fuel` bounds their number. -/
def characters : Nat → Reader (List Char)
  | 0 => fail .endInString
  | fuel + 1 => do
    let c ← ahead .endInString
    skip
    if c = '"' then return []
    else if c = '\\' then return (← escaped) :: (← characters fuel)
    else if c.toNat < 32 then fail .controlCharacter
    else return c :: (← characters fuel)

def string : Reader String := do
  return String.ofList (← characters ((← get).length + 1))

def items (item : Reader Json) : Nat → Bool → Reader (List Json)
  | 0, _ => failNext .endInList
  | fuel + 1, isFirst => do
    spaces
    match ← peek with
    | none => failNext .endInList
    | some ']' => skip; return []
    | some c =>
      unless isFirst do
        if c ≠ ',' then failNext .commaOrBracketExpected
        skip
        spaces
        match ← peek with
        | some ']' => failNext .trailingComma
        | none => failNext .endInValue
        | some _ => pure ()
      return (← item) :: (← items item fuel false)

def memberOf (item : String → Reader Json) : Reader (String × Json) := do
  skip
  let name ← string
  spaces
  match ← peek with
  | some ':' => skip
  | some _ => failNext .colonExpected
  | none => failNext .endInObject
  return (name, ← item name)

def members (item : String → Reader Json) : Nat → Bool → Reader (List (String × Json))
  | 0, _ => failNext .endInObject
  | fuel + 1, isFirst => do
    spaces
    match ← peek with
    | none => failNext .endInObject
    | some '}' => skip; return []
    | some c =>
      if isFirst then
        if c ≠ '"' then failNext .nameExpected
      else
        if c ≠ ',' then failNext .commaOrBraceExpected
        skip
        spaces
        match ← peek with
        | some '"' => pure ()
        | some '}' => failNext .trailingComma
        | some _ => failNext .nameExpected
        | none => failNext .endInValue
      return (← memberOf item) :: (← members item fuel false)

def documentWith (nested : Char → Reader Json) : Reader Json := do
  spaces
  match ← peek with
  | none => failNext .endInValue
  | some c =>
    if c = 'n' then skip; word "ull".toList; return .null
    else if c = 't' then skip; word "rue".toList; return .bool true
    else if c = 'f' then skip; word "alse".toList; return .bool false
    else if c = '-' then skip; number true
    else if Text.isDigit c then number false
    else if c = '"' then skip; return .string (← string)
    else if c = '[' ∨ c = '{' then nested c
    else failNext .valueExpected

def document : Nat → Reader Json
  | 0 => documentWith fun _ ↦ failNext .tooDeep
  | depth + 1 => documentWith fun c ↦ do
    skip
    let fuel := (← get).length + 1
    if c = '[' then return .array (← items (document depth) fuel true)
    else
      let ms ← members (fun _ ↦ document depth) fuel true
      return .object (ms.foldl (fun l m ↦ put m.1 m.2 l) [])

def maxDepth : Nat := 127

def whole : Reader Json := do
  let j ← document maxDepth
  spaces
  match ← peek with
  | none => return j
  | some _ => failNext .trailingCharacters

end Reader

def parse (source : String) : Except String Json :=
  match Reader.whole.run source.toList with
  | .ok (j, _) => .ok j
  | .error m => .error (m.message source.toList)

end BoundSql.Json
