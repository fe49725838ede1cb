import BoundSql.Settings.Node
import BoundSql.Text.Blank
import BoundSql.Text.Scan

namespace BoundSql.Settings.Ini

open Scan

/-- Takes `n` characters; a backslash counts together with the line end behind it, and must not
stand elsewhere. -/
def characters? : Nat → Scan (Option (List Char))
  | 0 => return some []
  | n + 1 => do
    match ← take? fun _ ↦ true with
    | none => return none
    | some '\\' =>
      match ← take? fun _ ↦ true with
      | some '\n' => return (← characters? n).map ('\\' :: ·)
      | _ => return none
    | some c => return (← characters? n).map (c :: ·)

def ofCode? (code : List Char) : Option Char := do
  let ds := if code.head? = some '+' then code.drop 1 else code
  let n := (← ds.mapM Text.hexVal?).foldl (fun n d ↦ 16 * n + d) 0
  if n.isValidChar then some (Char.ofNat n) else none

/-- What a backslash, which has been taken, stands for with the characters behind it. A line end
written so is left out. -/
def escape : Scan (Option (List Char)) := do
  match ← take? fun _ ↦ true with
  | some '0' => return some ['\x00']
  | some 'a' => return some ['\x07']
  | some 'b' => return some ['\x08']
  | some 't' => return some ['\t']
  | some 'r' => return some ['\r']
  | some 'n' => return some ['\n']
  | some '\n' => return some []
  | some 'x' => return ((← characters? 4).bind ofCode?).map ([·])
  | some c => return some [c]
  | none => return some ['\\']

/-- The text in front of a character that ends it, which is not taken. The end of the file is an end
only if that is said. -/
def textUntil (ends : Char → Bool) (orAtEnd : Bool) : Nat → Scan (Option (List Char))
  | 0 => return none
  | fuel + 1 => do
    match ← peek with
    | none => return if orAtEnd then some [] else none
    | some c =>
      if ends c then return some []
      skip 1
      match ← if c = '\\' then escape else pure (some [c]) with
      | none => return none
      | some cs => return (← textUntil ends orAtEnd fuel).map (cs ++ ·)

/-- A value: quoted parts, then the rest of the line. Blanks end no value, and the ones in front of
it are left out. -/
def value (isFirst : Bool) : Nat → Scan (List Char)
  | 0 => refuse
  | fuel + 1 => do
    let room := (← get).length + 1
    match ← take? fun c ↦ c = '"' || c = '\'' with
    | some q =>
      match ← textUntil (· = q) false room with
      | none => refuse
      | some quoted =>
        skip 1
        return quoted ++ (← value false fuel)
    | none =>
      match ← textUntil (fun c ↦ c = '\n' || c = '\r') true room with
      | none => refuse
      | some s => return if isFirst then Text.trim s else Text.trimEnd s

def isSpace (c : Char) : Bool := c = ' ' || c = '\t'

/-- Passes over blanks up to a space or a tab that a line starts with. Returns whether a line starts
here. -/
def gap (atStart : Bool) : Nat → Scan Bool
  | 0 => return atStart
  | fuel + 1 => do
    match ← take? fun c ↦ Text.isBlank c && !(atStart && isSpace c) with
    | none => return atStart
    | some c => gap (c = '\n') fuel

def key : Scan (Option (List Char)) := do
  return (← textUntil (fun c ↦ c = '=' || c = ':') false ((← get).length + 1)).map Text.trim

def add (section? : Option String) (k v : String) (es : Node.Entries) : Node.Entries :=
  match section? with
  | none => Node.put k (.text v) es
  | some s =>
    Node.put s (.table (Node.put k (.text v) ((es.lookup s).getD (.table [])).entries)) es

def entry (section? : Option String) (k : List Char) (es : Node.Entries) : Scan Node.Entries := do
  if k = [] then refuse
  skip 1
  let _ ← takeWhile fun c ↦ Text.isBlank c && c ≠ '\n' && c ≠ '\r'
  let v ← value true ((← get).length + 1)
  return add section? (String.ofList k) (String.ofList v) es

/-- Reads at most `fuel` entries; `atStart` tells whether a line starts here. A section takes the
place of the one before with its name. A key that starts with a space or a tab may turn out to be
none: it is passed over as far as it was read. -/
def entries (section? : Option String) (es : Node.Entries) (atStart : Bool) :
    Nat → Scan Node.Entries
  | 0 => refuse
  | fuel + 1 => do
    let before ← get
    let room := before.length + 1
    let atStart ← gap atStart room
    match ← peek with
    | none => return es
    | some c =>
      if c = ';' ∨ c = '#' then
        if !atStart then refuse
        let _ ← takeWhile (· ≠ '\n')
        entries section? es false fuel
      else if c = '[' then
        skip 1
        match ← textUntil (· = ']') false room with
        | none => refuse
        | some name =>
          skip 1
          let name := String.ofList (Text.trim name)
          entries (some name) (Node.put name (.table []) es) false fuel
      else
        match ← key with
        | some k => entries section? (← entry section? k es) false fuel
        | none =>
          if !isSpace c then refuse
          let taken := before.length - (← get).length
          entries section? es ((before.drop (taken - 1)).head? = some '\n') fuel

def parse (source : String) : Option Node.Entries :=
  whole? (entries none [] true (source.length + 1)) source.toList

end BoundSql.Settings.Ini
