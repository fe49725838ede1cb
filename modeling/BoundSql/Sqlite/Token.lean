import BoundSql.Number.Text

namespace BoundSql.Sqlite

inductive Token.Kind
  | word
  | quoted
  | number
  | string
  | blob
  | parameter
  | symbol
  | unrecognized
  deriving Repr, DecidableEq

structure Token where
  kind : Token.Kind
  text : List Char
  start : Nat
  deriving Repr, DecidableEq

namespace Token

def stop (t : Token) : Nat := t.start + t.text.length

def isSpace (c : Char) : Bool := c = ' ' || c = '\t' || c = '\n' || c = '\x0c' || c = '\r'

def isLetter (c : Char) : Bool :=
  ('a' ≤ c && c ≤ 'z') || ('A' ≤ c && c ≤ 'Z') || c = '_' || '\x80' ≤ c

def isWordChar (c : Char) : Bool := isLetter c || Text.isDigit c || c = '$'

def throughQuote (q : Char) : List Char → Option (List Char × List Char)
  | [] => none
  | [c] => if c = q then some ([c], []) else none
  | c :: d :: r =>
    if c = q then
      if d = q then (throughQuote q r).map fun p ↦ (c :: d :: p.1, p.2) else some ([c], d :: r)
    else (throughQuote q (d :: r)).map fun p ↦ (c :: p.1, p.2)

/-- A number: digits with a fraction and an exponent, if they are there. -/
def number (s : List Char) : List Char :=
  let whole := s.takeWhile Text.isDigit
  let rest := s.dropWhile Text.isDigit
  let fraction := match rest with
    | '.' :: r => '.' :: r.takeWhile Text.isDigit
    | _ => []
  let rest := rest.drop fraction.length
  let exponent := match rest with
    | e :: r =>
      if e = 'e' || e = 'E' then
        let sign := r.takeWhile fun c ↦ c = '+' || c = '-'
        let digits := (r.drop sign.length).takeWhile Text.isDigit
        if sign.length ≤ 1 ∧ digits ≠ [] then e :: sign ++ digits else []
      else []
    | [] => []
  whole ++ fraction ++ exponent

def symbols : List (List Char) :=
  [['<', '='], ['>', '='], ['<', '>'], ['!', '='], ['='], ['<'], ['>'], ['+'], ['-'], ['*'], ['('],
    [')'], [','], [';'], ['.']]

/-- The first token of a text that does not start with a space: its kind and its text. -/
def head (s : List Char) : Kind × List Char :=
  match s with
  | [] => (.unrecognized, [])
  | '?' :: _ => (.parameter, ['?'])
  | '\'' :: r => quotedAs .string ['\''] '\'' r
  | '"' :: r => quotedAs .quoted ['"'] '"' r
  | x :: '\'' :: r => if x = 'x' || x = 'X' then hex x r else plain s
  | _ => plain s
where
  quotedAs (k : Kind) (lead : List Char) (q : Char) (r : List Char) : Kind × List Char :=
    match throughQuote q r with
    | some (body, _) => (k, lead ++ body)
    | none => (.unrecognized, lead ++ r)
  hex (x : Char) (r : List Char) : Kind × List Char :=
    let digits := r.takeWhile fun c ↦ c.isDigit || ('a' ≤ c && c ≤ 'f') || ('A' ≤ c && c ≤ 'F')
    match r.drop digits.length with
    | '\'' :: _ =>
      let kind := if digits.length % 2 = 0 then Kind.blob else .unrecognized
      (kind, x :: '\'' :: digits ++ ['\''])
    | _ => (.unrecognized, x :: '\'' :: digits)
  plain (s : List Char) : Kind × List Char :=
    let c := s.headD ' '
    if isLetter c then (.word, s.takeWhile isWordChar)
    else if Text.isDigit c || (c = '.' && (s.drop 1).head?.any Text.isDigit) then
      let n := number s
      let tail := (s.drop n.length).takeWhile isWordChar
      if tail = [] then (.number, n) else (.unrecognized, n ++ tail)
    else
      match symbols.find? fun t ↦ t.isPrefixOf s with
      | some t => (.symbol, t)
      | none => (.unrecognized, [c])

def scanFrom : Nat → Nat → List Char → List Token
  | 0, _, _ => []
  | fuel + 1, start, s =>
    let spaces := (s.takeWhile isSpace).length
    match s.drop spaces with
    | [] => []
    | rest =>
      let (kind, text) := head rest
      ⟨kind, text, start + spaces⟩ ::
        scanFrom fuel (start + spaces + text.length) (rest.drop text.length)

def scan (s : List Char) : List Token := scanFrom s.length 0 s

def lower (s : List Char) : List Char := s.map Char.toLower

def isKeyword (t : Token) (k : String) : Bool := t.kind == .word && lower t.text == k.toList

def isSymbol (t : Token) (s : String) : Bool := t.kind == .symbol && t.text == s.toList

def unquote (q : Char) : List Char → List Char
  | [] => []
  | c :: d :: r => if c = q ∧ d = q then c :: unquote q r else c :: unquote q (d :: r)
  | c :: r => c :: unquote q r

def content (q : Char) (t : Token) : List Char := unquote q (t.text.drop 1).dropLast

end Token

end BoundSql.Sqlite
