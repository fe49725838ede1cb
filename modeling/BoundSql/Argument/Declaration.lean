import BoundSql.Argument.Basic
import BoundSql.Template.Parser

namespace BoundSql

/-- A field of a declared record: the name it has as a parameter, and whether it is left out. -/
structure Parameter where
  name : String
  skipped : Bool
  deriving Repr, DecidableEq

structure Declaration where
  typeName : String
  fields : List Parameter
  deriving Repr, DecidableEq

namespace Declaration

def unit : Declaration := ⟨"()", []⟩

def parameterNames (d : Declaration) : List String :=
  (d.fields.filter fun f ↦ !f.skipped).map Parameter.name

def reachable (d : Declaration) (nodes : List Argument) : List (String × Argument) :=
  ((d.fields.zip nodes).filter fun p ↦ !p.1.skipped).map fun p ↦ (p.1.name, p.2)

/-- A value of the record as the root of an argument tree. -/
def arguments (d : Declaration) (nodes : List Argument) : Arguments := .record (d.reachable nodes)

/-- Reads a template whose placeholders must start at declared parameters. -/
def bind (d : Declaration) (source : String) : Except Error Template := do
  let t ← Template.parse source
  match (t.arguments.filterMap List.head?).find? fun root ↦ !d.parameterNames.contains root with
  | some root => .error (.missingTemplateArgument root d.typeName)
  | none => .ok t

end Declaration

end BoundSql
