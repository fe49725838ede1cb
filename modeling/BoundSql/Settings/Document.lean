import BoundSql.Json.Parser
import BoundSql.Settings.Basic

namespace BoundSql.Settings.Document

abbrev Convert (α : Type) := Json → Option α

def text : Convert String
  | .string s => some s
  | _ => none

def number : Convert Nat
  | .integer n => if 0 ≤ n.val then some n.val.toNat else none
  | _ => none

def flag : Convert Bool
  | .bool b => some b
  | _ => none

def optional {α : Type} (convert : Convert α) : Convert (Option α)
  | .null => some none
  | j => (convert j).map some

def setters : List (String × (Json → Settings → Option Settings)) :=
  [("url", fun j s ↦ (text j).map fun v ↦ { s with url := v }),
    ("pool_min", fun j s ↦ (optional number j).map fun v ↦ { s with poolMin := v }),
    ("pool_max", fun j s ↦ (optional number j).map fun v ↦ { s with poolMax := v }),
    ("inactive_connection_ttl_secs", fun j s ↦
      (optional number j).map fun v ↦ { s with inactiveTtl := v }),
    ("abs_conn_ttl_secs", fun j s ↦ (optional number j).map fun v ↦ { s with absoluteTtl := v }),
    ("busy_timeout_ms", fun j s ↦ (number j).map fun v ↦ { s with busyTimeout := v }),
    ("max_idle", fun j s ↦ (number j).map fun v ↦ { s with maxIdle := v }),
    ("autocommit", fun j s ↦ (flag j).map fun v ↦ { s with autocommit := v }),
    ("log_level", fun j s ↦ (optional text j).map fun v ↦ { s with logLevel := v })]

def ofMembers (members : List (String × Json)) : Option Settings := do
  let known := members.filter fun m ↦ (setters.lookup m.1).isSome
  if (known.map Prod.fst).Nodup then
    known.foldlM (fun s (name, j) ↦ do (← setters.lookup name) j s) {}
  else none

def ofItems (items : List Json) : Option Settings :=
  if setters.length < items.length then none
  else (setters.zip items).foldlM (fun s (setter, j) ↦ setter.2 j s) {}

open Json.Reader

def ignoredNumber : Json.Reader Json := do
  if (← peek) = some '0' then skip
  else if (← digits) = [] then failNext .badNumber
  if (← peek).any Text.isDigit then failNext .badNumber
  if (← peek) = some '.' then
    skip
    if (← digits) = [] then failNext .badNumber
  if (← peek) = some 'e' ∨ (← peek) = some 'E' then
    skip
    if (← peek) = some '+' ∨ (← peek) = some '-' then skip
    if (← digits) = [] then failNext .badNumber
  return .null

def ignoredString : Nat → Json.Reader Json
  | 0 => fail .endInString
  | fuel + 1 => do
    let c ← ahead .endInString
    skip
    if c = '"' then return .null
    else if c = '\\' then
      let e ← ahead .endInString
      skip
      if e = 'u' then
        let _ ← unit
        ignoredString fuel
      else if ['"', '\\', '/', 'b', 'f', 'n', 'r', 't'].contains e then ignoredString fuel
      else fail .badEscape
    else if c.toNat < 32 then fail .controlCharacter
    else ignoredString fuel

def ignored : Nat → Json.Reader Json
  | 0 => failNext .endInValue
  | fuel + 1 => do
    spaces
    match ← peek with
    | some '"' =>
      skip
      ignoredString ((← get).length + 1)
    | some '-' =>
      skip
      ignoredNumber
    | some '[' =>
      skip
      let _ ← items (ignored fuel) ((← get).length + 1) true
      return .null
    | some '\x7b' =>
      skip
      let _ ← members (fun _ ↦ ignored fuel) ((← get).length + 1) true
      return .null
    | some c => if Text.isDigit c then ignoredNumber else document 0
    | none => failNext .endInValue

def valueOf (name : String) : Json.Reader Json := do
  if (setters.lookup name).isSome then document maxDepth
  else ignored ((← get).length + 1)

/-- The settings in front, converted; a failed conversion gives none. -/
def root : Json.Reader (Option Settings) := do
  spaces
  let room := (← get).length + 1
  let s ← match ← peek with
    | some '[' =>
      skip
      pure (ofItems (← items (document maxDepth) room true))
    | some '\x7b' =>
      skip
      pure (ofMembers (← members valueOf room true))
    | _ => pure none
  spaces
  if (← peek).isSome then failNext .trailingCharacters
  return s

def parse (source : String) : Option Settings :=
  match root.run source.toList with
  | .ok (s, _) => s
  | .error _ => none

end BoundSql.Settings.Document
