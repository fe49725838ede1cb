import BoundSql.Value.Target
import BoundSql.Proofs.Calendar.Reading
import BoundSql.Proofs.Number.Decimal
import BoundSql.Proofs.Json.RoundTrip

namespace BoundSql.Value

def ownType : Value → Target
  | null => .value
  | bool _ => .bool
  | int w _ => .int w
  | f32 _ => .f32
  | f64 _ => .f64
  | string _ => .string
  | bytes _ => .bytes
  | date _ => .date
  | dateTime _ => .dateTime
  | time _ => .time
  | decimal _ => .decimal
  | json _ => .json

def Same : Value → Value → Prop
  | decimal a, decimal b => a.equal b = true
  | v, w => v = w

/-- What comes back holds the value: converted to the type of the value it is the same. -/
def Holds (w v : Value) : Prop :=
  ∃ c, w.convert v.ownType = .ok c ∧ (ofCarrier v.ownType c).Same v

theorem toSized_int {v w : Width} {n : Sized v} {m : Sized w} (h : m.val = n.val)
    (expected : String) : toSized expected w (int v n) = .ok m := by
  rw [toSized, Sized.ofInt?_eq_some_iff.2 h]

theorem toDate_text (d : Date) : toDate (string (String.ofList d.text)) = .ok d := by
  simp [toDate, Date.ofText?_text, ofReading]

theorem toDateTime_text (d : DateTime) :
    toDateTime (string (String.ofList (d.textWith 'T'))) = .ok d := by
  simp [toDateTime, DateTime.ofText?_textWith, ofReading]

theorem toTime_text (t : TimeOfDay) : toTime (string (String.ofList t.text)) = .ok t := by
  simp [toTime, TimeOfDay.ofText?_text, ofReading]

theorem toDecimal_text (d : Decimal) :
    toDecimal (string (String.ofList d.text)) = .ok d.unsignZero := by
  simp [toDecimal, Decimal.ofText?_text]

theorem toJson_print {j : Json} (h : Json.FloatFree Json.Reader.maxDepth j) :
    toJson (string j.print) = .ok j := by
  simp [toJson, Json.parse_print h]

end BoundSql.Value
