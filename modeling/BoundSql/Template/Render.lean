import BoundSql.Argument.Basic
import BoundSql.Fault
import BoundSql.Marker
import BoundSql.Template.Basic
import BoundSql.Value.Text

namespace BoundSql.Template

structure Rendered where
  sql : String
  params : List Value

namespace Rendered

def addText (s : String) (r : Rendered) : Rendered := { r with sql := s ++ r.sql }

def addParam (marker : String) (v : Value) (r : Rendered) : Rendered :=
  ⟨marker ++ r.sql, v :: r.params⟩

end Rendered

section

variable {m : Type → Type} [Monad m]

abbrev Resolved := List (List String × Value)

def remember (resolve : List String → m Value) (resolved : Resolved) (path : List String) :
    m (Value × Resolved) :=
  match resolved.lookup path with
  | some v => pure (v, resolved)
  | none => do
    let v ← resolve path
    pure (v, (path, v) :: resolved)

/-- Renders fragments where resolving a path and asking for a marker are steps of `m`. -/
def renderFrom (resolve : List String → m Value) (next : m String) (resolved : Resolved) :
    List Fragment → m Rendered
  | [] => pure ⟨"", []⟩
  | .text s :: r => do return (← renderFrom resolve next resolved r).addText s
  | .placeholder p :: r => do
    let (v, resolved) ← remember resolve resolved p.path
    if p.literal then
      return (← renderFrom resolve next resolved r).addText v.text
    else
      let marker ← next
      return (← renderFrom resolve next resolved r).addParam marker v

end

/-- The effects of rendering: ending badly, and asking a generator for markers. -/
abbrev RenderM := ExceptT BoundSql.Fault (StateM Marker.Generator)

def nextMarker : RenderM String := ExceptT.mk do
  let g ← get
  set g.next.2
  return Outcome.ofChecked g.next.1

/-- Renders against the arguments; the generator goes on from where it stands, also after a
failure. -/
def render (t : Template) (args : Arguments) : RenderM Rendered :=
  renderFrom (fun path ↦ ExceptT.mk (pure (Outcome.ofResult (args.resolve path)))) nextMarker []
    t.fragments

end BoundSql.Template
