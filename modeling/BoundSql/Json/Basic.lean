import BoundSql.Number.Binary

namespace BoundSql

namespace Json

/-- An integer that fits 64 bits, signed or unsigned. -/
structure Integer where
  val : Int
  lo_le : -2 ^ 63 ≤ val
  lt_hi : val < 2 ^ 64
  deriving Repr, DecidableEq

def Integer.ofInt? (n : Int) : Option Integer :=
  if h : -2 ^ 63 ≤ n ∧ n < 2 ^ 64 then some ⟨n, h.1, h.2⟩ else none

theorem Integer.ofInt?_val (n : Integer) : ofInt? n.val = some n := dif_pos ⟨n.lo_le, n.lt_hi⟩

end Json

inductive Json
  | null
  | bool (b : Bool)
  | integer (n : Json.Integer)
  | float (x : Binary64)
  | string (s : String)
  | array (items : List Json)
  | object (members : List (String × Json))
  deriving Repr

namespace Json

/-- Sets a member in a list ordered by name; a name met again takes the new value. -/
def put (name : String) (v : Json) : List (String × Json) → List (String × Json)
  | [] => [(name, v)]
  | (k, w) :: r =>
    if name = k then (name, v) :: r
    else if name < k then (name, v) :: (k, w) :: r
    else (k, w) :: put name v r

def member? (name : String) (members : List (String × Json)) : Option Json := members.lookup name

def isObject : Json → Bool
  | object _ => true
  | _ => false

mutual

/-- Equality of documents; floats are compared as numbers and never equal an integer. -/
def equal : Json → Json → Bool
  | null, null => true
  | bool a, bool b => a == b
  | integer a, integer b => a == b
  | float a, float b => a.equal b
  | string a, string b => a == b
  | array a, array b => equalItems a b
  | object a, object b => equalMembers a b
  | _, _ => false

def equalItems : List Json → List Json → Bool
  | [], [] => true
  | a :: r, b :: q => equal a b && equalItems r q
  | _, _ => false

def equalMembers : List (String × Json) → List (String × Json) → Bool
  | [], [] => true
  | (k, a) :: r, (l, b) :: q => k == l && equal a b && equalMembers r q
  | _, _ => false

end

end Json

end BoundSql
