import BoundSql.Error

namespace BoundSql

inductive Fault
  | error (e : Error)
  | panic (message : String)
  deriving Repr, DecidableEq

abbrev Outcome (α : Type) := Except Fault α

namespace Outcome

variable {α : Type}

def isPanic : Outcome α → Bool
  | .error (.panic _) => true
  | _ => false

def isOk : Outcome α → Bool
  | .ok _ => true
  | .error _ => false

def ofResult : Except Error α → Outcome α
  | .ok a => .ok a
  | .error e => .error (.error e)

def ofChecked : Except String α → Outcome α
  | .ok a => .ok a
  | .error message => .error (.panic message)

end Outcome

end BoundSql
