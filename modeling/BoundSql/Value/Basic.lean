import BoundSql.Text.Utf8
import BoundSql.Number.Integer
import BoundSql.Number.Decimal
import BoundSql.Calendar.Basic
import BoundSql.Json.Basic

namespace BoundSql

inductive Value
  | null
  | bool (b : Bool)
  | int (w : Width) (n : Sized w)
  | f32 (x : Binary32)
  | f64 (x : Binary64)
  | string (s : String)
  | bytes (b : Utf8.Bytes)
  | date (d : Date)
  | dateTime (d : DateTime)
  | time (t : TimeOfDay)
  | decimal (d : Decimal)
  | json (j : Json)
  deriving Repr

namespace Value

def isNull : Value → Bool
  | null => true
  | _ => false

def typeName : Value → String
  | null => "null"
  | bool _ => "bool"
  | int w _ => w.name
  | f32 _ => "f32"
  | f64 _ => "f64"
  | string _ => "string"
  | bytes _ => "bytes"
  | date _ => "date"
  | dateTime _ => "datetime"
  | time _ => "time"
  | decimal _ => "decimal"
  | json _ => "json"

/-- Values of different types differ; within a type numbers are compared as numbers. -/
def equal : Value → Value → Bool
  | null, null => true
  | bool a, bool b => a == b
  | int v a, int w b => v == w && a.val == b.val
  | f32 a, f32 b => a.equal b
  | f64 a, f64 b => a.equal b
  | string a, string b => a == b
  | bytes a, bytes b => a == b
  | date a, date b => a == b
  | dateTime a, dateTime b => a == b
  | time a, time b => a == b
  | decimal a, decimal b => a.equal b
  | json a, json b => a.equal b
  | _, _ => false

def ofOption : Option Value → Value
  | some v => v
  | none => null

end Value

end BoundSql
