import BoundSql.Effect.Host

namespace BoundSql

structure Script where
  replies : List Reply := []
  /-- The misbehaviour of a site, and how many more times it will show; without a number, always. -/
  faults : List (Site × Misbehaviour × Option Nat) := []
  failing : List (Nat × Nat) := []

namespace Script

def obey : Instruction → Script → Script
  | .reply r, s => { s with replies := s.replies ++ [r] }
  | .misbehave site how times, s =>
    let faults := s.faults.filter fun f ↦ f.1 != site
    match how with
    | some h => { s with faults := (site, h, times) :: faults }
    | none => { s with faults }

def strike (site : Site) (s : Script) : Option Misbehaviour × Script :=
  match s.faults.find? fun f ↦ f.1 == site with
  | none => (none, s)
  | some (_, _, some 0) => (none, s)
  | some (_, h, times) =>
    let left := (site, h, times.map (· - 1))
    (some h, { s with faults := left :: s.faults.filter fun f ↦ f.1 != site })

def fault (site : Site) : Misbehaviour → Fault
  | .fail => .error (.connection s!"{site.name} failed")
  | .panic => .panic s!"{site.name} panicked"

def callback : Reply → Option Step
  | .reenter s => some s
  | _ => none

/-- How many rows a reply makes a statement affect: one, unless it says otherwise. -/
def affected : Reply → Outcome Nat
  | .rows r _ => .ok r.rows.length
  | .affected n => .ok n
  | .fail m => .error (.error (.query m))
  | .reenter _ => .ok 1

def resultSet : Reply → Outcome ResultSet
  | .rows r _ => .ok r
  | .fail m => .error (.error (.query m))
  | .affected _ | .reenter _ => .ok .empty

def failing? : Reply → Option Nat
  | .rows _ n => n
  | _ => none

def comply : (o : Operation) → Nat → Script → Reaction o × Script
  | .execute _ _ _, _, s =>
    match s.replies with
    | [] => ({ outcome := .ok (1 : Nat) }, s)
    | r :: replies => ({ outcome := affected r, callback := callback r }, { s with replies })
  | .query _ _ _, id, s =>
    match s.replies with
    | [] => ({ outcome := .ok ResultSet.empty }, s)
    | r :: replies =>
      let failing := ((failing? r).map fun n ↦ (id, n)).toList ++ s.failing
      ({ outcome := resultSet r, callback := callback r }, { s with replies, failing })
  | .fetch _ cursor index, _, s =>
    if s.failing.lookup cursor = some index then
      ({ outcome := .error (.error (.query "fetch failed")) }, s)
    else ({ outcome := .ok () }, s)
  | .instruct i, _, s => ({ outcome := .ok () }, s.obey i)
  | .lease _, _, s => ({ outcome := .ok () }, s)
  | .close _ _, _, s => ({ outcome := .ok () }, s)
  | .commit _, _, s => ({ outcome := .ok () }, s)
  | .rollback _, _, s => ({ outcome := .ok () }, s)
  | .release _ _, _, s => ({ outcome := .ok () }, s)
  | .idle _, _, s => ({ outcome := .ok (none : Option Nat) }, s)
  | .inTransaction _, _, s => ({ outcome := .ok (none : Option Bool) }, s)

def answer (o : Operation) (id : Nat) (s : Script) : Reaction o × Script :=
  match o.site? with
  | none => comply o id s
  | some site =>
    match s.strike site with
    | (some h, s) => ({ outcome := .error (fault site h), fault := some h }, s)
    | (none, s) => comply o id s

def host : Host Script := ⟨fun _ ↦ answer⟩

end Script

end BoundSql
