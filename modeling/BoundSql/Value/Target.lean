import BoundSql.Error
import BoundSql.Value.Text
import BoundSql.Calendar.Reader
import BoundSql.Json.Parser

namespace BoundSql

inductive Target
  | bool
  | int (w : Width)
  | size
  | f32
  | f64
  | string
  | bytes
  | date
  | dateTime
  | time
  | decimal
  | json
  | value
  deriving Repr, DecidableEq

def Target.Carrier : Target → Type
  | bool => Bool
  | int w => Sized w
  | size => Sized .u64
  | f32 => Binary32
  | f64 => Binary64
  | string => String
  | bytes => Utf8.Bytes
  | date => Date
  | dateTime => DateTime
  | time => TimeOfDay
  | decimal => Decimal
  | json => Json
  | value => Value

namespace Value

def mismatch {α : Type} (expected : String) (v : Value) : Except Error α :=
  .error (.typeConversion expected v.typeName)

def outOfRange {α : Type} (expected : String) (v : Value) : Except Error α :=
  .error (.typeConversion expected s!"{v.typeName}({v.text}) out of range")

def toSized (expected : String) (w : Width) (v : Value) : Except Error (Sized w) :=
  match v with
  | int _ n =>
    match Sized.ofInt? w n.val with
    | some m => .ok m
    | none => outOfRange expected v
  | _ => mismatch expected v

def toBool (v : Value) : Except Error Bool :=
  match v with
  | bool b => .ok b
  | int _ n => .ok (n.val ≠ 0)
  | _ => mismatch "bool" v

def toF32 (v : Value) : Except Error Binary32 :=
  match v with
  | f32 x => .ok x
  | f64 x => .ok (x.convert .single)
  | _ => mismatch "f32" v

/-- Of the integers only the signed ones of 32 and 64 bits are taken. -/
def toF64 (v : Value) : Except Error Binary64 :=
  match v with
  | f32 x => .ok (x.convert .double)
  | f64 x => .ok x
  | int .i64 n => .ok (Binary.ofInt n.val)
  | int .i32 n => .ok (Binary.ofInt n.val)
  | _ => mismatch "f64" v

def toText (v : Value) : Except Error String :=
  match v with
  | string s => .ok s
  | bytes b =>
    match Utf8.decode? b with
    | some s => .ok s
    | none =>
      .error (.typeConversion "utf8 string"
        ("invalid utf8: " ++ ((Utf8.malformed? b).map Utf8.Malformed.message).getD ""))
  | _ => mismatch "string" v

def toBytes (v : Value) : Except Error Utf8.Bytes :=
  match v with
  | bytes b => .ok b
  | string s => .ok (Utf8.encode s)
  | _ => mismatch "bytes" v

def ofReading {α : Type} (expected : String) (v : Value) : Option α → Except Error α
  | some a => .ok a
  | none => mismatch expected v

def toDate (v : Value) : Except Error Date :=
  match v with
  | date d => .ok d
  | dateTime d => .ok d.date
  | string s => ofReading "date" v (Date.ofText? s.toList)
  | _ => mismatch "date" v

def toDateTime (v : Value) : Except Error DateTime :=
  match v with
  | dateTime d => .ok d
  | date d => .ok ⟨d, .midnight⟩
  | string s => ofReading "datetime" v (DateTime.ofText? s.toList)
  | _ => mismatch "datetime" v

def toTime (v : Value) : Except Error TimeOfDay :=
  match v with
  | time t => .ok t
  | dateTime d => .ok d.time
  | string s => ofReading "time" v (TimeOfDay.ofText? s.toList)
  | _ => mismatch "time" v

def toDecimal (v : Value) : Except Error Decimal :=
  match v with
  | decimal d => .ok d
  | int .i64 n => ofReading "decimal" v (Decimal.ofInt? n.val)
  | int .u64 n => ofReading "decimal" v (Decimal.ofInt? n.val)
  | string s =>
    match Decimal.ofText? s.toList with
    | some d => .ok d
    | none => .error (.typeConversion "decimal" s!"invalid decimal string: {s}")
  | _ => mismatch "decimal" v

def toJson (v : Value) : Except Error Json :=
  match v with
  | json j => .ok j
  | string s =>
    match Json.parse s with
    | .ok j => .ok j
    | .error e => .error (.typeConversion "json" s!"invalid json: {e}")
  | _ => mismatch "json" v

def convert (v : Value) : (t : Target) → Except Error t.Carrier
  | .bool => v.toBool
  | .int w => v.toSized w.name w
  | .size => v.toSized "usize" .u64
  | .f32 => v.toF32
  | .f64 => v.toF64
  | .string => v.toText
  | .bytes => v.toBytes
  | .date => v.toDate
  | .dateTime => v.toDateTime
  | .time => v.toTime
  | .decimal => v.toDecimal
  | .json => v.toJson
  | .value => .ok v

def convertOption (v : Value) (t : Target) : Except Error (Option t.Carrier) :=
  match v with
  | null => .ok none
  | _ => (v.convert t).map some

def ofCarrier : (t : Target) → t.Carrier → Value
  | .bool, b => bool b
  | .int w, n => int w n
  | .size, n => int .u64 n
  | .f32, x => f32 x
  | .f64, x => f64 x
  | .string, s => string s
  | .bytes, b => bytes b
  | .date, d => date d
  | .dateTime, d => dateTime d
  | .time, t => time t
  | .decimal, d => decimal d
  | .json, j => json j
  | .value, v => v

end Value

end BoundSql
