import BoundSql.Value.Basic
import BoundSql.Calendar.Printer
import BoundSql.Json.Printer
import BoundSql.Number.Shortest

namespace BoundSql

namespace Binary

variable {f : FloatFormat}

/-- Every place is written out, never an exponent. -/
def text (x : Binary f) : List Char :=
  if x.isNaN then "NaN".toList
  else
    (if x.isNegative then ['-'] else []) ++
      (if x.isInfinite then "inf".toList
      else if x.isZero then ['0']
      else Shortest.positional (Shortest.digits .up x))

end Binary

namespace Value

def text : Value → String
  | null => "NULL"
  | bool b => if b then "true" else "false"
  | int _ n => toString n.val
  | f32 x => String.ofList x.text
  | f64 x => String.ofList x.text
  | string s => s
  | bytes b => Utf8.decodeLossy b
  | date d => String.ofList d.text
  | dateTime d => String.ofList d.text
  | time t => String.ofList t.text
  | decimal d => String.ofList d.text
  | json j => j.print

end Value

end BoundSql
