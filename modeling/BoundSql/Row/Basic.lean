import BoundSql.Error
import BoundSql.Value.Basic

namespace BoundSql

structure Column where
  name : String
  typeName : Option String
  nullable : Option Bool
  deriving Repr, DecidableEq

abbrev Row := List Value

namespace Row

def named (columns : List Column) (row : Row) : List (String × Value) :=
  (columns.map Column.name).zip row

structure ByName where
  pairs : List (String × Value)

namespace ByName

def of (columns : List Column) (row : Row) : ByName := ⟨named columns row⟩

def get? (r : ByName) (name : String) : Option Value := r.pairs.reverse.lookup name

def get (r : ByName) (name : String) : Except Error Value :=
  match r.get? name with
  | some v => .ok v
  | none => .error (.columnNotFound name)

end ByName

def put (name : String) (v : Value) : List (String × Value) → List (String × Value)
  | [] => [(name, v)]
  | (k, w) :: r =>
    if name = k then (name, v) :: r
    else if name < k then (name, v) :: (k, w) :: r
    else (k, w) :: put name v r

def toMap (columns : List Column) (row : Row) : List (String × Value) :=
  (named columns row).foldl (fun m p ↦ put p.1 p.2 m) []

/-- An entry of a row taken as a map. -/
def entry (m : List (String × Value)) (name : String) : Except Error Value :=
  match m.lookup name with
  | some v => .ok v
  | none => .error (.columnNotFound name)

end Row

end BoundSql
