import BoundSql.MySql.Url
import BoundSql.Settings.Basic

namespace BoundSql.MySql

structure Plan where
  url : String
  poolMin : Option Nat := none
  poolMax : Option Nat := none
  inactiveTtl : Option Nat := none
  absoluteTtl : Option Nat := none
  autocommit : Bool := true
  deriving Repr, DecidableEq

/-- A pool that has not leased any connection yet. -/
structure Pool where
  /-- The least and the greatest number of connections, if they were set. -/
  bounds : Option (Nat × Nat)
  autocommit : Bool
  deriving Repr, DecidableEq

def Pool.marker (_ : Pool) : Marker := .questionMark

namespace Plan

def ofSettings (s : Settings) : Except Error Plan := do
  s.validate
  if (← s.backend) = .mysql then
    return ⟨s.url, s.poolMin, s.poolMax, s.inactiveTtl, s.absoluteTtl, s.autocommit⟩
  else .error (.configuration s!"expected a mysql url, got '{s.url}'")

def bounds? (p : Plan) : Option (Nat × Nat) :=
  if p.poolMin.isSome || p.poolMax.isSome then some (p.poolMin.getD 10, p.poolMax.getD 100)
  else none

def build (p : Plan) : Except Error Pool := do
  (Url.check p.url).mapError fun r ↦ .connection r.message
  match p.bounds? with
  | none => return ⟨none, p.autocommit⟩
  | some (min, max) =>
    if Url.boundsFit min max then return ⟨some (min, max), p.autocommit⟩
    else .error (.configuration s!"invalid pool constraints: min {min}, max {max}")

end Plan

def Pool.ofUrl (url : String) : Except Error Pool := Plan.build { url }

def Pool.ofSettings (s : Settings) : Except Error Pool := do (← Plan.ofSettings s).build

end BoundSql.MySql
