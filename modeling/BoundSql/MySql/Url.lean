import BoundSql.Number.Power
import BoundSql.Number.Text
import BoundSql.Text.Utf8

namespace BoundSql.MySql.Url

inductive Refusal
  | relative
  | emptyHost
  | invalidPort
  | invalidIpv6
  | invalidHost
  | unsupportedScheme (scheme : String)
  | incomplete
  | unknownParameter (name : String)
  | invalidParameter (name value : String)
  | invalidConstraints (min max : Nat)
  deriving Repr, DecidableEq

def Refusal.message : Refusal → String
  | relative => "URL parse error: relative URL without a base"
  | emptyHost => "URL parse error: empty host"
  | invalidPort => "URL parse error: invalid port number"
  | invalidIpv6 => "URL parse error: invalid IPv6 address"
  | invalidHost => "URL parse error: invalid domain character"
  | unsupportedScheme scheme => s!"Unsupported connection URL scheme `{scheme}'"
  | incomplete => "Invalid or incomplete connection URL"
  | unknownParameter name => s!"Unknown connection URL parameter `{name}'"
  | invalidParameter name value => s!"Invalid value `{value}' for URL parameter `{name}'"
  | invalidConstraints min max =>
    s!"Invalid pool constraints: pool_min ({min}) > pool_max ({max})."

def isLetter (c : Char) : Bool := ('a' ≤ c && c ≤ 'z') || ('A' ≤ c && c ≤ 'Z')

def isSchemeChar (c : Char) : Bool :=
  isLetter c || Text.isDigit c || c = '+' || c = '-' || c = '.'

/-- Control characters and spaces around a URL do not count, nor do tabs and line ends in it. -/
def clean (s : List Char) : List Char :=
  let isOuter (c : Char) : Bool := c.toNat ≤ 0x20
  let inner := ((s.dropWhile isOuter).reverse.dropWhile isOuter).reverse
  inner.filter fun c ↦ c != '\t' && c != '\n' && c != '\r'

def scheme? (s : List Char) : Option (List Char × List Char) :=
  match s.takeWhile isSchemeChar, s.dropWhile isSchemeChar with
  | c :: r, ':' :: rest => if isLetter c then some ((c :: r).map Char.toLower, rest) else none
  | _, _ => none

def isSpecial (scheme : List Char) : Bool :=
  ["http", "https", "ws", "wss", "ftp"].contains (String.ofList scheme)

def endsAuthority (special : Bool) (c : Char) : Bool :=
  c = '/' || c = '?' || c = '#' || (special && c = '\\')

def splitUser (authority : List Char) : Option (List Char × List Char) :=
  let host := (authority.reverse.takeWhile (· ≠ '@')).reverse
  if host.length = authority.length then none
  else some (authority.take (authority.length - host.length - 1), host)

def hostOf (inside : Bool) : List Char → List Char
  | [] => []
  | c :: r =>
    if c = ':' ∧ !inside then []
    else c :: hostOf (if c = '[' then true else if c = ']' then false else inside) r

def isForbidden (c : Char) : Bool :=
  ['\x00', ' ', '<', '>', '@', '[', '\\', ']', '^', '|', ':'].contains c

def isByte (s : List Char) : Bool :=
  match Text.readNat? s with
  | some n => n ≤ 255 && (s.length == 1 || s.head? != some '0')
  | none => false

/-- How many groups of 16 bits the parts of an IPv6 address give, if all of them are well formed. -/
def groups? : List (List Char) → Option Nat
  | [] => some 0
  | [last] =>
    if last.contains '.' then
      let bytes := (String.ofList last).splitOn "."
      if bytes.length = 4 ∧ bytes.all (isByte ·.toList) then some 2 else none
    else (hexGroup? last)
  | part :: rest => do return (← hexGroup? part) + (← groups? rest)
where
  hexGroup? (s : List Char) : Option Nat :=
    if s ≠ [] ∧ s.length ≤ 4 ∧ s.all (Text.hexVal? · |>.isSome) then some 1 else none

def isIpv6 (s : String) : Bool :=
  let parts (t : String) : List (List Char) :=
    if t = "" then [] else (t.splitOn ":").map String.toList
  match s.splitOn "::" with
  | [all] => groups? (parts all) == some 8
  | [left, right] =>
    match groups? (parts left), groups? (parts right) with
    | some m, some n => m + n ≤ 7 && !left.contains '.'
    | _, _ => false
  | _ => false

def checkHost (host : List Char) : Except Refusal Unit :=
  match host with
  | '[' :: r =>
    if r.getLast? = some ']' ∧ isIpv6 (String.ofList r.dropLast) then .ok ()
    else .error .invalidIpv6
  | _ => if host.any isForbidden then .error .invalidHost else .ok ()

def checkPort (s : List Char) : Except Refusal Unit :=
  if s.all Text.isDigit ∧ Text.ofDigits s < 2 ^ 16 then .ok () else .error .invalidPort

def authority (special : Bool) (s : List Char) : Except Refusal Bool := do
  let (user, server) := (splitUser s).getD ([], s)
  let host := hostOf false server
  let port := server.drop host.length
  checkHost host
  if host = [] ∧ (port ≠ [] ∨ special) then .error .emptyHost
  checkPort (port.drop 1)
  -- A user name or a password needs a host.
  if host = [] ∧ user ≠ [] ∧ user ≠ [':'] then .error .emptyHost
  return host ≠ []

/-- The scheme, whether there is a host, and the part after the host. -/
structure Parts where
  scheme : List Char
  hasHost : Bool
  rest : List Char

def parse (s : List Char) : Except Refusal Parts := do
  match scheme? (clean s) with
  | none => .error .relative
  | some (scheme, after) =>
    let special := isSpecial scheme
    let server? := if special then some (after.dropWhile fun c ↦ c = '/' || c = '\\')
      else match after with
        | '/' :: '/' :: r => some r
        | _ => none
    match server? with
    | none => return ⟨scheme, false, after⟩
    | some server =>
      let front := server.takeWhile fun c ↦ !endsAuthority special c
      let rest := server.drop front.length
      if front = ['@'] ∧ rest ≠ [] then .error .emptyHost
      return ⟨scheme, (← authority special front) && scheme ≠ "file".toList, rest⟩

/-- The bytes of a text in which plus signs stand for spaces and percent signs start hexadecimal
bytes. -/
def decodeBytes : Utf8.Bytes → Utf8.Bytes
  | 0x25 :: a :: b :: r =>
    match Text.hexVal? (Char.ofNat a.toNat), Text.hexVal? (Char.ofNat b.toNat) with
    | some x, some y => UInt8.ofNat (16 * x + y) :: decodeBytes r
    | _, _ => 0x25 :: decodeBytes (a :: b :: r)
  | 0x2B :: r => 0x20 :: decodeBytes r
  | b :: r => b :: decodeBytes r
  | [] => []

def decode (s : String) : String := Utf8.decodeLossy (decodeBytes (Utf8.encode s))

def parameters (rest : List Char) : List (String × String) :=
  let query := ((rest.takeWhile (· ≠ '#')).dropWhile (· ≠ '?')).drop 1
  ((String.ofList query).splitOn "&").filter (· ≠ "") |>.map fun pair ↦
    let name := pair.toList.takeWhile (· ≠ '=')
    let value := pair.toList.drop (name.length + 1)
    (decode (String.ofList name), decode (String.ofList value))

inductive ParameterType
  | number (bound : Nat)
  | flag
  | text
  | compression

def ParameterType.accepts : ParameterType → String → Bool
  | number bound, v => (Text.readUnsigned? bound v.toList).isSome
  | flag, v => v == "true" || v == "false"
  | text, _ => true
  | compression, v =>
    ["fast", "on", "true", "best"].contains v || (v.length == 1 && v.toList.all Text.isDigit)

def parameterTypes : List (String × ParameterType) :=
  let word := ParameterType.number (2 ^ 64 - 1)
  [("pool_min", word), ("pool_max", word), ("inactive_connection_ttl", word),
    ("ttl_check_interval", word), ("abs_conn_ttl", word), ("abs_conn_ttl_jitter", word),
    ("conn_ttl", word), ("tcp_keepalive", .number (2 ^ 32 - 1)), ("max_allowed_packet", word),
    ("wait_timeout", word), ("stmt_cache_size", word), ("enable_cleartext_plugin", .flag),
    ("reset_connection", .flag), ("tcp_nodelay", .flag), ("prefer_socket", .flag),
    ("secure_auth", .flag), ("client_found_rows", .flag), ("socket", .text),
    ("compression", .compression), ("require_ssl", .flag), ("verify_ca", .flag),
    ("verify_identity", .flag), ("built_in_roots", .flag)]

def checkParameter (p : String × String) : Except Refusal Unit :=
  match parameterTypes.lookup p.1 with
  | none => .error (.unknownParameter p.1)
  | some t => if t.accepts p.2 then .ok () else .error (.invalidParameter p.1 p.2)

/-- The bounds of a pool: the lower one is no more than the upper one, which is not zero. -/
def boundsFit (min max : Nat) : Bool := min ≤ max && 0 < max

def lastNumber (ps : List (String × String)) (name : String) (default : Nat) : Nat :=
  ((ps.reverse.lookup name).bind fun v ↦ Text.readUnsigned? (2 ^ 64 - 1) v.toList).getD default

def check (url : String) : Except Refusal Unit := do
  let p ← parse url.toList
  if !p.hasHost then .error .incomplete
  if p.scheme ≠ "mysql".toList then .error (.unsupportedScheme (String.ofList p.scheme))
  let ps := parameters p.rest
  ps.forM checkParameter
  let min := lastNumber ps "pool_min" 10
  let max := lastNumber ps "pool_max" 100
  if boundsFit min max then .ok () else .error (.invalidConstraints min max)

end BoundSql.MySql.Url
