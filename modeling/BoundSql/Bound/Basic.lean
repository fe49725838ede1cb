import BoundSql.Effect.Action
import BoundSql.Template.Render

namespace BoundSql.Bound

/-- Binds a statement, a query or a stream after checking the template against the declared
parameters. -/
def make (binder : Nat) (form : Form) (d : Declaration) (sql : String) : Except Error Bound := do
  return ⟨binder, form, ← d.bind sql, d.typeName⟩

def marker (binder : Nat) : Call Marker := do
  match (← Call.read).pools.lookup binder with
  | some p => return p.marker
  | none => Call.fail .noPoolSet

def render (b : Bound) (args : Arguments) : Call Template.Rendered := do
  let m ← marker b.binder
  Call.ofOutcome ((b.template.render args).run.run m.generator).1

def kind : Form → String
  | .execute _ => "BoundExecution"
  | .query _ => "BoundQuery"
  | .stream _ => "BoundStream"

def display (lead : String) (b : Bound) : String :=
  s!"{lead}{kind b.form} of {b.template.source} ({b.typeName})"

def displayTransaction (lead typeName : String) : String := s!"{lead}BoundTransaction ({typeName})"

end BoundSql.Bound
