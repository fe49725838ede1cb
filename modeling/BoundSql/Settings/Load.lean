import BoundSql.Json.Parser
import BoundSql.Settings.Ini
import BoundSql.Settings.Toml
import BoundSql.Settings.Yaml

namespace BoundSql.Settings

/-- A file: the extension of its name, and its content if it exists. -/
structure File where
  extension : String
  content : Option String
  deriving Repr, DecidableEq

mutual

/-- A document as a tree of settings. An integer beyond 64 bits with sign is a real number. -/
def Node.ofJson : Json → Node
  | .null => .nothing
  | .bool b => .flag b
  | .integer n =>
    match Sized.ofInt? .i64 n.val with
    | some i => .integer i
    | none => .real (Binary.ofInt n.val)
  | .float x => .real x
  | .string s => .text s
  | .array _ => .list
  | .object ms => .table (Node.ofMembers ms)

def Node.ofMembers : List (String × Json) → Node.Entries
  | [] => []
  | (k, j) :: rest => (k, Node.ofJson j) :: Node.ofMembers rest

end

def ofJsonText (source : String) : Option Node.Entries :=
  match (Json.parse source).map Node.ofJson with
  | .ok (.table es) => some es
  | _ => none

def reader? (extension : String) : Option (String → Option Node.Entries) :=
  [("toml", Toml.parse), ("json", ofJsonText), ("yaml", ofYamlText), ("yml", ofYamlText),
    ("ini", Ini.parse)].lookup extension

namespace File

def withoutMark (s : String) : String :=
  match s.toList with
  | '\ufeff' :: cs => String.ofList cs
  | _ => s

def entries (f : File) : Except Error Node.Entries :=
  match f.content, reader? f.extension with
  | none, _ => .error (.source "the file does not exist")
  | _, none => .error (.source s!"no format has the extension {f.extension}")
  | some s, some read =>
    match read (withoutMark s) with
    | some es => .ok es
    | none => .error (.source s!"the file cannot be read as {f.extension}")

end File

namespace Environment

def namePrefix : String := "dbind_"

/-- The key of a variable's setting: its name in lower case after the prefix, with points for double
underscores. -/
def key? (name : String) : Option String :=
  let cs := (Node.lower name).toList
  if namePrefix.toList.isPrefixOf cs then
    some (".".intercalate ((String.ofList (cs.drop namePrefix.length)).splitOn "__"))
  else none

def entries (vars : List (String × String)) : Node.Entries :=
  vars.filterMap fun (name, value) ↦ (key? name).map fun k ↦ (k, .text value)

end Environment

def load (file : Option File) (vars : List (String × String)) : Except Error Settings := do
  let base ← match file with
    | some f => Node.overlay (← f.entries) [] |> pure
    | none => pure []
  ofEntries (Node.overlay (Environment.entries vars) base)

end BoundSql.Settings
