namespace BoundSql.Template

inductive Fault
  | unterminated
  | nested
  | empty
  | identifierExpected
  | unclosed
  deriving Repr, DecidableEq

namespace Fault

def message : Fault → String
  | unterminated => "Unterminated placeholder"
  | nested => "Placeholders cannot be nested"
  | empty => "Empty placeholder"
  | identifierExpected => "Expected identifier"
  | unclosed => "Unterminated placeholder, expected '\x7d'"

end Fault

/-- A fault and the source from its place on. -/
structure Mistake where
  fault : Fault
  rest : List Char
  deriving Repr, DecidableEq

/-- A mistake as it is reported: its line and column count from one, columns in characters, and
the snippet is the line of source over a caret. -/
structure Report where
  message : String
  line : Nat
  column : Nat
  snippet : String
  deriving Repr, DecidableEq

namespace Report

def text (r : Report) : String :=
  s!"{r.message} (line {r.line}, column {r.column}):\n{r.snippet}"

end Report

namespace Mistake

def before (source : List Char) (m : Mistake) : List Char :=
  source.take (source.length - m.rest.length)

def lineOf (before : List Char) : Nat := before.count '\n' + 1

def lineHead (before : List Char) : List Char := (before.reverse.takeWhile (· ≠ '\n')).reverse

def columnOf (before : List Char) : Nat := (lineHead before).length + 1

def snippetOf (before rest : List Char) : List Char :=
  lineHead before ++ rest.takeWhile (· ≠ '\n') ++
    '\n' :: List.replicate (columnOf before - 1) ' ' ++ ['^']

def report (source : List Char) (m : Mistake) : Report :=
  let before := m.before source
  { message := m.fault.message
    line := lineOf before
    column := columnOf before
    snippet := String.ofList (snippetOf before m.rest) }

end Mistake

end BoundSql.Template
