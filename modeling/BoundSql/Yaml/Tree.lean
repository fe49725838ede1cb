import BoundSql.Number.Scientific
import BoundSql.Number.Integer

namespace BoundSql.Yaml

inductive Scalar
  | null
  | flag (b : Bool)
  | integer (n : Sized .i64)
  | real (text : String)
  | text (s : String)
  deriving Repr, DecidableEq

inductive Tree
  | scalar (s : Scalar)
  | list (items : List Tree)
  | mapping (entries : List (Tree × Tree))
  /-- What a tag does not fit, or a reference to a node that holds it. -/
  | invalid

namespace Scalar

def inBase? (base : Nat) (s : List Char) : Option Int := do
  let (negative, ds) := match s with
    | '-' :: r => (true, r)
    | '+' :: r => (false, r)
    | r => (false, r)
  if ds = [] then none
  let values ← ds.mapM Text.hexVal?
  if values.any (base ≤ ·) then none
  let n : Int := (values.foldl (fun n d ↦ base * n + d) 0 : Nat)
  return if negative then -n else n

def decimal? (s : List Char) : Option (Sized .i64) := do
  Sized.ofInt? .i64 (← Text.readSigned? (-2 ^ 63) (2 ^ 63 - 1) s)

/-- An integer in base ten, sixteen or eight. Behind a plus sign its own sign may follow. -/
def integer? (s : List Char) : Option (Sized .i64) :=
  match s with
  | '0' :: 'x' :: r => (inBase? 16 r).bind (Sized.ofInt? .i64)
  | '0' :: 'o' :: r => (inBase? 8 r).bind (Sized.ofInt? .i64)
  | '+' :: r => decimal? r
  | _ => decimal? s

def special : List String :=
  [".inf", ".Inf", ".INF", "+.inf", "+.Inf", "+.INF", "-.inf", "-.Inf", "-.INF", ".nan", ".NaN",
    ".NAN"]

def finite? (s : String) : Option Binary64 :=
  if s.toList.any Text.isDigit then Binary.readSigned? s.toList else none

def isReal (s : String) : Bool := special.contains s || (finite? s).isSome

def ofPlain (s : String) : Scalar :=
  if s = "" ∨ s = "~" ∨ s = "null" then null
  else if s = "true" then flag true
  else if s = "false" then flag false
  else
    match integer? s.toList with
    | some n => integer n
    | none => if isReal s then real s else text s

end Scalar

namespace Tree

def null : Tree := scalar .null

def ofTagged (name text : String) : Tree :=
  match name with
  | "bool" =>
    match text with
    | "true" => scalar (.flag true)
    | "false" => scalar (.flag false)
    | _ => invalid
  | "int" =>
    match Scalar.decimal? text.toList with
    | some n => scalar (.integer n)
    | none => invalid
  | "float" => if Scalar.isReal text then scalar (.real text) else invalid
  | "null" => if text = "~" ∨ text = "null" then null else invalid
  | _ => scalar (.text text)

def sameKey : Tree → Tree → Bool
  | scalar s, scalar t => s == t
  | _, _ => false

/-- Puts the nodes of a mapping together in pairs. An invalid node is no key: the next one is. A key
must not come twice. -/
def pairUp (entries : List (Tree × Tree)) : List Tree → Option (List (Tree × Tree))
  | [] => some entries.reverse
  | invalid :: rest => pairUp entries rest
  | [_] => some entries.reverse
  | k :: v :: rest =>
    if entries.any fun e ↦ sameKey e.1 k then none else pairUp ((k, v) :: entries) rest

end Tree

end BoundSql.Yaml
