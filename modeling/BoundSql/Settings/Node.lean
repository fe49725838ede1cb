import BoundSql.Settings.Basic
import BoundSql.Text.Scan
import BoundSql.Value.Text

namespace BoundSql.Settings

inductive Node
  | nothing
  | flag (b : Bool)
  | integer (n : Sized .i64)
  | real (x : Binary64)
  | text (s : String)
  | list
  | table (entries : List (String × Node))

namespace Node

abbrev Entries := List (String × Node)

def entries : Node → Entries
  | table es => es
  | _ => []

def put (name : String) (v : Node) : Entries → Entries
  | [] => [(name, v)]
  | (k, w) :: r => if k = name then (name, v) :: r else (k, w) :: put name v r

mutual

/-- Sets an entry. A table is merged into what is there. -/
def set (name : String) (v : Node) (es : Entries) : Entries :=
  match v with
  | table inner =>
    let old := (es.lookup name).getD (table [])
    match inner with
    | [] => put name old es
    | _ => put name (table (merge inner old.entries)) es
  | _ => put name v es

def merge (new : Entries) (es : Entries) : Entries :=
  match new with
  | [] => es
  | (name, v) :: rest => merge rest (set name v es)

end

inductive Path
  | name (n : String)
  | child (n : String) (rest : Path)
  | place (n : String)
  deriving Repr, DecidableEq

def setAt (v : Node) : Path → Entries → Entries
  | .name n, es => set n v es
  | .child n rest, es =>
    put n (table (setAt v rest ((es.lookup n).getD (table [])).entries)) es
  | .place n, es => put n list es

def isPathChar (c : Char) : Bool :=
  ('a' ≤ c && c ≤ 'z') || ('A' ≤ c && c ≤ 'Z') || Text.isDigit c || c = '_' || c = '-'

namespace Path

open Scan

def step : Scan (Option String) := do
  if ← accept "." then return some (String.ofList (← takeSome isPathChar))
  expect "["
  let _ ← takeWhile isSpace
  let minus ← takeWhile (· = '-')
  let ds ← takeSome Text.isDigit
  let _ ← takeWhile isSpace
  expect "]"
  if (Text.readSigned? (-2 ^ 63) (2 ^ 63 - 1) (minus ++ ds)).isSome then return none else refuse
where
  isSpace (c : Char) : Bool := c = ' ' || c = '\t'

def steps : Nat → Scan (List (Option String))
  | 0 => refuse
  | fuel + 1 => do if ← atEnd then return [] else return (← step) :: (← steps fuel)

def ofSteps (n : String) : List (Option String) → Path
  | [] => .name n
  | none :: _ => .place n
  | some m :: rest => .child n (ofSteps m rest)

def parse (key : String) : Option Path :=
  let path : Scan Path := do
    let n ← takeSome isPathChar
    return ofSteps (String.ofList n) (← steps (key.length + 1))
  whole? path key.toList

end Path

def Path.ofKey (key : String) : Path := (parse key).getD (.name key)

def overlay (source : Entries) (es : Entries) : Entries :=
  source.foldl (fun es (key, v) ↦ setAt v (.ofKey key) es) es

def lower (s : String) : String := String.ofList (s.toList.map Char.toLower)

def clamp (x : Binary64) : Nat :=
  if x.isNaN then 0
  else if x.isInfinite then if x.isNegative then 0 else 2 ^ 64 - 1
  else min x.nearestInt.toNat (2 ^ 64 - 1)

def number? : Node → Option Nat
  | integer n => if 0 ≤ n.val then some n.val.toNat else none
  | text s =>
    match lower s with
    | "true" | "on" | "yes" => some 1
    | "false" | "off" | "no" => some 0
    | _ => Text.readUnsigned? (2 ^ 64 - 1) s.toList
  | flag b => some b.toNat
  | real x => some (clamp x)
  | nothing | list | table _ => none

def flag? : Node → Option Bool
  | flag b => some b
  | integer n => some (n.val != 0)
  | real x => some !x.isZero
  | text s =>
    match lower s with
    | "1" | "true" | "on" | "yes" => some true
    | "0" | "false" | "off" | "no" => some false
    | _ => none
  | nothing | list | table _ => none

def text? : Node → Option String
  | text s => some s
  | flag b => some (if b then "true" else "false")
  | integer n => some (toString n.val)
  | real x => some (String.ofList x.text)
  | nothing | list | table _ => none

def optional {α : Type} (convert : Node → Option α) : Node → Option (Option α)
  | nothing => some none
  | v => (convert v).map some

end Node

/-- An entry that is there must convert; else the default holds. -/
def entry {α : Type} (es : Node.Entries) (name : String) (convert : Node → Option α) (default : α) :
    Except Error α :=
  match es.lookup name with
  | none => .ok default
  | some v =>
    match convert v with
    | some a => .ok a
    | none => .error (.source s!"the value of {name} has the wrong type")

def ofEntries (es : Node.Entries) : Except Error Settings := do
  let d : Settings := {}
  return {
    url := ← entry es "url" Node.text? d.url
    poolMin := ← entry es "pool_min" (Node.optional Node.number?) d.poolMin
    poolMax := ← entry es "pool_max" (Node.optional Node.number?) d.poolMax
    inactiveTtl := ←
      entry es "inactive_connection_ttl_secs" (Node.optional Node.number?) d.inactiveTtl
    absoluteTtl := ← entry es "abs_conn_ttl_secs" (Node.optional Node.number?) d.absoluteTtl
    busyTimeout := ← entry es "busy_timeout_ms" Node.number? d.busyTimeout
    maxIdle := ← entry es "max_idle" Node.number? d.maxIdle
    autocommit := ← entry es "autocommit" Node.flag? d.autocommit
    logLevel := ← entry es "log_level" (Node.optional Node.text?) d.logLevel }

end BoundSql.Settings
