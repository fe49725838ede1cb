import BoundSql.Error
import BoundSql.Value.Basic

namespace BoundSql

inductive Argument
  /-- A value that is bound as it is; a JSON object answers key lookups. -/
  | value (v : Value)
  | document (j : Json)
  | absent
  | present (a : Argument)
  | indirect (a : Argument)
  | mapping (entries : List (String × Argument))
  | record (fields : List (String × Argument))

namespace Argument

inductive Unbindable
  | mapping
  | record
  deriving Repr, DecidableEq

def Unbindable.reason : Unbindable → String
  | mapping => "a mapping cannot be bound as a single value"
  | record => "a record cannot be bound as a single value"

def ofDocument : Json → Value
  | .null => .null
  | .bool b => .bool b
  | .integer n =>
    match Sized.ofInt? .i64 n.val, Sized.ofInt? .u64 n.val with
    | some i, _ => .int .i64 i
    | none, some u => .int .u64 u
    | none, none => .json (.integer n)
  | .float x => .f64 x
  | .string s => .string s
  | j => .json j

def binding : Argument → Except Unbindable Value
  | value v => .ok v
  | document j => .ok (ofDocument j)
  | absent => .ok .null
  | present a | indirect a => a.binding
  | mapping _ => .error .mapping
  | record _ => .error .record

def isMapping : Argument → Bool
  | value (.json j) | document j => j.isObject
  | present a | indirect a => a.isMapping
  | mapping _ => true
  | _ => false

def key? (name : String) : Argument → Option Argument
  | value (.json (.object ms)) | document (.object ms) => (Json.member? name ms).map document
  | present a | indirect a => a.key? name
  | mapping entries => entries.lookup name
  | _ => none

def field? (name : String) : Argument → Option Argument
  | present a | indirect a => a.field? name
  | record fields => fields.lookup name
  | _ => none

def child? (a : Argument) (name : String) : Option Argument :=
  if a.isMapping then a.key? name else a.field? name

def pathText (path : List String) : String := ".".intercalate path

def unresolved (path : List String) (name : String) : Error :=
  .argumentResolution (pathText path) s!"no key or attribute '{name}'"

def Unbindable.error (path : List String) (u : Unbindable) : Error :=
  .argumentResolution (pathText path) u.reason

def single (a : Argument) : Except Error Value := a.binding.mapError (Unbindable.error [])

def walk (path : List String) (a : Argument) : List String → Except Error Value
  | [] => a.binding.mapError (Unbindable.error path)
  | name :: rest =>
    match a.child? name with
    | some b => b.walk path rest
    | none => .error (unresolved path name)

end Argument

/-- The roots of argument trees: no arguments, a map from names, the members of a JSON object, or
the fields of a record. -/
inductive Arguments
  | none
  | mapping (entries : List (String × Argument))
  | members (members : List (String × Json))
  | record (fields : List (String × Argument))

namespace Arguments

def argument? (name : String) : Arguments → Option Argument
  | none => .none
  | mapping entries => entries.lookup name
  | members ms => (Json.member? name ms).map .document
  | record fields => fields.lookup name

def resolve (args : Arguments) (path : List String) : Except Error Value :=
  match path with
  | [] => .error (.argumentResolution "" "empty path")
  | root :: rest =>
    match args.argument? root with
    | some a => a.walk path rest
    | .none => .error (Argument.unresolved path root)

end Arguments

end BoundSql
