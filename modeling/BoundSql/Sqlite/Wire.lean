import BoundSql.Value.Text

namespace BoundSql.Sqlite

inductive Wire
  | null
  | integer (n : Sized .i64)
  | real (x : Binary64)
  | text (b : Utf8.Bytes)
  | blob (b : Utf8.Bytes)
  deriving Repr, DecidableEq

namespace Wire

def ofText (s : List Char) : Wire := text (Utf8.encode (String.ofList s))

def encode : Value → Wire
  | .null => null
  | .bool b => integer (if b then .one else .zero)
  | .int _ n =>
    match Sized.ofInt? .i64 n.val with
    | some i => integer i
    | none => text (Utf8.encode (toString n.val))
  | .f32 x => real (x.convert .double)
  | .f64 x => real x
  | .string s => text (Utf8.encode s)
  | .bytes b => blob b
  | .date d => ofText d.text
  | .dateTime d => ofText (d.textWith 'T')
  | .time t => ofText t.text
  | .decimal d => ofText d.text
  | .json j => ofText j.text

def decode : Wire → Value
  | null => .null
  | integer n => .int .i64 n
  | real x => .f64 x
  | text b => .string (Utf8.decodeLossy b)
  | blob b => .bytes b

end Wire

end BoundSql.Sqlite
