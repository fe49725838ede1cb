import BoundSql.Row.Basic
import BoundSql.Value.Target

namespace BoundSql

/-- A result that has taken its declared type. -/
inductive Mapped
  | unit
  | scalar (t : Target) (x : t.Carrier)
  | none
  | some (x : Mapped)
  | tuple (values : Row)
  | map (entries : List (String × Value))
  | list (items : List Mapped)
  | record (fields : List (String × Mapped))

namespace Mapped

def ofOption : Option Mapped → Mapped
  | .none => none
  | .some x => some x

end Mapped

def Target.default : (t : Target) → t.Carrier
  | bool => false
  | int _ => Sized.zero
  | size => Sized.zero
  | f32 => .zero false
  | f64 => .zero false
  | string => ""
  | bytes => []
  | date => ⟨1970, 1, 1, by decide, by decide, by decide⟩
  | dateTime => ⟨⟨1970, 1, 1, by decide, by decide, by decide⟩, .midnight⟩
  | time => .midnight
  | decimal => ⟨false, 0, 0, by decide, by decide⟩
  | json => .null
  | value => .null

structure ScalarType where
  target : Target
  optional : Bool
  deriving Repr, DecidableEq

namespace ScalarType

def convert (s : ScalarType) (v : Value) : Except Error Mapped :=
  if s.optional then do
    let x ← v.convertOption s.target
    return .ofOption (x.map (Mapped.scalar s.target))
  else do return .scalar s.target (← v.convert s.target)

def default (s : ScalarType) : Mapped :=
  if s.optional then .none else .scalar s.target s.target.default

end ScalarType

/-- A field of a result record and the column it is read from. -/
structure ResultField where
  name : String
  column : String
  type : ScalarType
  skipped : Bool
  deriving Repr, DecidableEq

structure ResultRecord where
  fields : List ResultField
  deriving Repr, DecidableEq

namespace ResultRecord

def field (row : Row.ByName) (f : ResultField) : Except Error (String × Mapped) :=
  if f.skipped then .ok (f.name, f.type.default)
  else do return (f.name, ← f.type.convert (← row.get f.column))

def read (r : ResultRecord) (row : Row.ByName) : Except Error (List (String × Mapped)) :=
  r.fields.mapM (field row)

end ResultRecord

inductive Shape
  | scalar (s : ScalarType)
  | tuple
  | map
  | record (r : ResultRecord)
  deriving Repr, DecidableEq

namespace Shape

def kind : Shape → String
  | scalar _ => "scalar"
  | tuple => "tuple"
  | map => "map"
  | record _ => "record"

def ofRow (s : Shape) (columns : List Column) (row : Row) : Except Error Mapped :=
  match s with
  | scalar t =>
    match row with
    | [] => .error (.rowDecode "row has no columns")
    | [v] => t.convert v
    | _ => .error (.tooManyValues row.length)
  | tuple => .ok (.tuple row)
  | map => .ok (.map (Row.toMap columns row))
  | record r => do return .record (← r.read (.of columns row))

end Shape

end BoundSql
