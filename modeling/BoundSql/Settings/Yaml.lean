import BoundSql.Settings.Node
import BoundSql.Yaml.Document

namespace BoundSql

def Yaml.Tree.name? : Yaml.Tree → Option String
  | .scalar (.flag b) => some (if b then "true" else "false")
  | .scalar (.integer n) => some (toString n.val)
  | .scalar (.real s) | .scalar (.text s) => some s
  | .scalar .null | .list _ | .mapping _ | .invalid => none

namespace Settings

def Node.ofScalar? : Yaml.Scalar → Option Node
  | .null => some .nothing
  | .flag b => some (.flag b)
  | .integer n => some (.integer n)
  | .real s => (Yaml.Scalar.finite? s).map .real
  | .text s => some (.text s)

mutual

def Node.ofYaml? : Yaml.Tree → Option Node
  | .scalar s => ofScalar? s
  | .list ts => if areReadable ts then some .list else none
  | .mapping es => (ofPairs? [] es).map .table
  | .invalid => some .nothing

def Node.areReadable : List Yaml.Tree → Bool
  | [] => true
  | t :: ts => (ofYaml? t).isSome && areReadable ts

def Node.ofPairs? (es : Node.Entries) : List (Yaml.Tree × Yaml.Tree) → Option Node.Entries
  | [] => some es
  | (k, t) :: rest => do ofPairs? (put (← k.name?) (← ofYaml? t) es) rest

end

def ofYamlText (source : String) : Option Node.Entries := do
  match ← Yaml.parse source.toList with
  | [] => return []
  | [t] =>
    match ← Node.ofYaml? t with
    | .table es => return es
    | _ => none
  | _ => none

end Settings

end BoundSql
