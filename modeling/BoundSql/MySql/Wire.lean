import BoundSql.Fault
import BoundSql.Number.Checked
import BoundSql.Row.Basic
import BoundSql.Value.Text

namespace BoundSql.MySql

inductive Wire
  | null
  | bytes (b : Utf8.Bytes)
  | int (n : Sized .i64)
  | uint (n : Sized .u64)
  | float (x : Binary32)
  | double (x : Binary64)
  | date (year : UInt16) (month day hour minute second : UInt8) (micro : UInt32)
  | time (negative : Bool) (days : UInt32) (hours minutes seconds : UInt8) (micro : UInt32)
  deriving Repr, DecidableEq

namespace Wire

def ofSized (w : Width) (n : Sized w) : Wire :=
  have h := n.lo_le
  have h' := n.le_hi
  match w with
  | .i8 | .i16 | .i32 | .i64 => int ⟨n.val, by simp_all [Width.lo]; try omega,
      by simp_all [Width.hi]; try omega⟩
  | .u8 | .u16 | .u32 | .u64 => uint ⟨n.val, by simp_all [Width.lo],
      by simp_all [Width.hi]; try omega⟩

def ofDateTime (d : Date) (t : TimeOfDay) : Wire :=
  date (UInt16.ofNat (d.year % 2 ^ 16).toNat) (.ofNat d.month) (.ofNat d.day) (.ofNat t.hour)
    (.ofNat t.minute) (.ofNat t.second) (.ofNat (t.nano / 1000))

/-- Decimals and JSON travel as text. -/
def encode : Value → Wire
  | .null => null
  | .bool b => int (if b then .one else .zero)
  | .int w n => ofSized w n
  | .f32 x => float x
  | .f64 x => double x
  | .string s => bytes (Utf8.encode s)
  | .bytes b => bytes b
  | .date d => ofDateTime d .midnight
  | .dateTime d => ofDateTime d.date d.time
  | .time t => time false 0 (.ofNat t.hour) (.ofNat t.minute) (.ofNat t.second)
      (.ofNat (t.nano / 1000))
  | .decimal d => bytes (Utf8.encode (Value.decimal d).text)
  | .json j => bytes (Utf8.encode j.print)

def clock (hour minute second : UInt8) (micro : UInt32) : Except Error TimeOfDay :=
  match TimeOfDay.make? hour.toNat minute.toNat second.toNat (micro.toNat * 1000) with
  | some t => .ok t
  | none => .error (.typeConversion "time" s!"{hour}:{minute}:{second}.{micro}")

def twoDigits (n : UInt8) : String := String.ofList (Text.padded 2 n.toNat)

/-- The hours that days and hours have, counted with overflow checks. -/
def wholeHours (days : UInt32) (hours : UInt8) : Except String Nat := do
  let ofDays ← checked "multiply" UInt32.size (days.toNat * 24)
  checked "add" UInt32.size (ofDays + hours.toNat)

/-- Texts arrive as bytes. A date at exactly midnight is a date alone, and a time covers one day only. -/
def decode : Wire → Outcome Value
  | null => .ok .null
  | bytes b =>
    match Utf8.decode? b with
    | some s => .ok (.string s)
    | none => .ok (.bytes b)
  | int n => .ok (.int .i64 n)
  | uint n => .ok (.int .u64 n)
  | float x => .ok (.f32 x)
  | double x => .ok (.f64 x)
  | date year month day hour minute second micro =>
    match Date.make? year.toNat month.toNat day.toNat with
    | none => .error (.error (.typeConversion "date" s!"{year}-{month}-{day}"))
    | some d =>
      if hour = 0 ∧ minute = 0 ∧ second = 0 ∧ micro = 0 then .ok (.date d)
      else do return .dateTime ⟨d, ← Outcome.ofResult (clock hour minute second micro)⟩
  | time negative days hours minutes seconds micro =>
    if negative ∨ 0 < days ∨ 24 ≤ hours then do
      let sign := if negative then "-" else ""
      let total ← Outcome.ofChecked (wholeHours days hours)
      .error (.error (.typeConversion "time (00:00:00 to 23:59:59)"
        s!"{sign}{total}:{twoDigits minutes}:{twoDigits seconds}"))
    else do return .time (← Outcome.ofResult (clock hours minutes seconds micro))

def decodeRow (row : List (Option Wire)) : Outcome Row :=
  row.zipIdx.mapM fun p ↦
    match p.1 with
    | some w => w.decode
    | none => .error (.error (.columnNotFound s!"#{p.2}"))

end Wire

inductive Params
  | empty
  | positional (values : List Wire)

def Params.ofValues : List Value → Params
  | [] => empty
  | values => positional (values.map Wire.encode)

def typeNames : List (Nat × String) :=
  [(0, "DECIMAL"), (1, "TINY"), (2, "SHORT"), (3, "LONG"), (4, "FLOAT"), (5, "DOUBLE"), (6, "NULL"),
    (7, "TIMESTAMP"), (8, "LONGLONG"), (9, "INT24"), (10, "DATE"), (11, "TIME"), (12, "DATETIME"),
    (13, "YEAR"), (14, "NEWDATE"), (15, "VARCHAR"), (16, "BIT"), (17, "TIMESTAMP2"),
    (18, "DATETIME2"), (19, "TIME2"), (20, "TYPED_ARRAY"), (242, "VECTOR"), (243, "UNKNOWN"),
    (245, "JSON"), (246, "NEWDECIMAL"), (247, "ENUM"), (248, "SET"), (249, "TINY_BLOB"),
    (250, "MEDIUM_BLOB"), (251, "LONG_BLOB"), (252, "BLOB"), (253, "VAR_STRING"), (254, "STRING"),
    (255, "GEOMETRY")]

def column (name : String) (code : Nat) : Column :=
  ⟨name, (typeNames.lookup code).map ("MYSQL_TYPE_" ++ ·), none⟩

end BoundSql.MySql
