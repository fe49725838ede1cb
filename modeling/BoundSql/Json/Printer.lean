import BoundSql.Json.Basic
import BoundSql.Number.Shortest

namespace BoundSql.Json

/-- How a double is written: between which exponents of its first digit positionally. -/
structure FloatStyle where
  least : Int
  most : Int

/-- From 0.00001 up to below 10^16 a double is written with a point, else with an exponent. -/
def floatStyle : FloatStyle := ⟨-5, 15⟩

def pointText (d : Shortest.Digits) : List Char :=
  let s := Shortest.positional d
  if 0 ≤ d.exponent then s ++ ['.', '0'] else s

def exponentText (d : Shortest.Digits) (first : Int) : List Char :=
  let ds := Text.digits d.coefficient
  ds.take 1 ++ (if ds.length = 1 then [] else '.' :: ds.drop 1) ++
    'e' :: (if first < 0 then '-' else '+') :: Text.digits first.natAbs

def floatText (x : Binary64) : List Char :=
  let sign := if x.isNegative then ['-'] else []
  if x.isZero then sign ++ ['0', '.', '0']
  else
    let d := Shortest.digits .even x
    let first := d.exponent + (Text.digits d.coefficient).length - 1
    sign ++ (if floatStyle.least ≤ first ∧ first ≤ floatStyle.most then pointText d
      else exponentText d first)

def hexDigit (n : Nat) : Char := (Nat.digitChar n)

def escape (c : Char) : List Char :=
  if c = '"' then ['\\', '"']
  else if c = '\\' then ['\\', '\\']
  else if c = '\x08' then ['\\', 'b']
  else if c = '\x0c' then ['\\', 'f']
  else if c = '\n' then ['\\', 'n']
  else if c = '\r' then ['\\', 'r']
  else if c = '\t' then ['\\', 't']
  else if c.toNat < 32 then
    ['\\', 'u', '0', '0', hexDigit (c.toNat / 16), hexDigit (c.toNat % 16)]
  else [c]

def quote (s : String) : List Char := '"' :: s.toList.flatMap escape ++ ['"']

mutual

def text : Json → List Char
  | null => "null".toList
  | bool b => (if b then "true" else "false").toList
  | integer n => (toString n.val).toList
  | float x => floatText x
  | string s => quote s
  | array [] => ['[', ']']
  | array (a :: r) => '[' :: text a ++ textItems r ++ [']']
  | object [] => ['{', '}']
  | object ((k, a) :: r) => '{' :: quote k ++ ':' :: text a ++ textMembers r ++ ['}']

def textItems : List Json → List Char
  | [] => []
  | a :: r => ',' :: text a ++ textItems r

def textMembers : List (String × Json) → List Char
  | [] => []
  | (k, a) :: r => ',' :: quote k ++ ':' :: text a ++ textMembers r

end

def print (j : Json) : String := String.ofList j.text

end BoundSql.Json
