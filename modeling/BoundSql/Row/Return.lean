import BoundSql.Row.Shape

namespace BoundSql

inductive Strategy
  | none
  | one (required : Bool)
  | many
  deriving Repr, DecidableEq

inductive Return
  | nothing
  | one (s : Shape)
  | optional (s : Shape)
  | many (s : Shape)
  deriving Repr, DecidableEq

namespace Return

def strategy : Return → Strategy
  | nothing => .none
  | one _ => .one true
  | optional _ => .one false
  | many _ => .many

/-- Builds the return from the rows fetched for it; a single-row return looks at the first row
only. -/
def ofRows (r : Return) (columns : List Column) (rows : List Row) : Except Error Mapped :=
  match r with
  | nothing => .ok .unit
  | one s =>
    match rows with
    | [] => .error .noRows
    | row :: _ => s.ofRow columns row
  | optional s =>
    match rows with
    | [] => .ok .none
    | row :: _ => do return .some (← s.ofRow columns row)
  | many s => do return .list (← rows.mapM (s.ofRow columns))

end Return

inductive Count
  | nothing
  | int (w : Width)
  | size
  deriving Repr, DecidableEq

namespace Count

def sized (name : String) (w : Width) (n : Nat) : Except Error (Sized w) :=
  match Sized.ofInt? w n with
  | some m => .ok m
  | none => .error (.typeConversion name s!"affected row count {n} out of range")

def ofAffected (c : Count) (n : Nat) : Except Error Mapped :=
  match c with
  | nothing => .ok .unit
  | int w => do return .scalar (.int w) (← sized w.name w n)
  | size => do return .scalar .size (← sized "usize" .u64 n)

end Count

end BoundSql
