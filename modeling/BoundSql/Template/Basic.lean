namespace BoundSql

/-- A reference to an argument: the names from the root parameter down, and whether the value is
spliced into the text (`!{…}`) or bound as a parameter (`#{…}`). -/
structure Placeholder where
  path : List String
  literal : Bool
  deriving Repr, DecidableEq

namespace Placeholder

def sigil (p : Placeholder) : Char := if p.literal then '!' else '#'

def text (p : Placeholder) : String :=
  String.singleton p.sigil ++ "\x7b" ++ ".".intercalate p.path ++ "\x7d"

end Placeholder

inductive Fragment
  | text (s : String)
  | placeholder (p : Placeholder)
  deriving Repr, DecidableEq

namespace Fragment

/-- The stretch of template source that reads as this fragment. -/
def print : Fragment → String
  | text s => s
  | placeholder p => p.text

def path? : Fragment → Option (List String)
  | text _ => none
  | placeholder p => some p.path

end Fragment

structure Template where
  source : String
  fragments : List Fragment
  deriving Repr, DecidableEq

namespace Template

def print (fragments : List Fragment) : String := String.join (fragments.map Fragment.print)

def distinct (paths : List (List String)) : List (List String) :=
  paths.foldl (fun seen p ↦ if p ∈ seen then seen else seen ++ [p]) []

/-- The distinct paths of the placeholders, in order of first appearance. -/
def arguments (t : Template) : List (List String) := distinct (t.fragments.filterMap Fragment.path?)

end Template

end BoundSql
