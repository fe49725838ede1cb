import BoundSql.Bound.Async
import BoundSql.Bound.Blocking

namespace BoundSql

inductive Mode
  | blocking
  | async
  deriving Repr, DecidableEq

structure Context where
  mode : Mode
  thread : Nat
  scopes : Async.Scopes
  deriving Repr, DecidableEq

namespace Context

variable {α : Type}

/-- A program starts on the first thread, in no scope. -/
def start (mode : Mode) : Context := ⟨mode, 0, []⟩

def lead (x : Context) : String :=
  match x.mode with
  | .blocking => ""
  | .async => "Async"

def locking (x : Context) (c : Nat) (p : Call α) : Call α :=
  match x.mode with
  | .blocking => p
  | .async => Async.locking c p

def connection (x : Context) (binder : Nat) (body : Context → Nat → Call α) : Call α :=
  match x.mode with
  | .blocking => Blocking.connection x.thread binder (body x)
  | .async => Async.connection x.scopes binder fun scopes ↦ body { x with scopes }

def transaction (x : Context) (binder : Nat) (body : Context → Nat → Call α) : Call α :=
  match x.mode with
  | .blocking => Blocking.transaction x.thread binder (body x)
  | .async => Async.transaction x.scopes binder fun scopes ↦ body { x with scopes }

def execute (x : Context) (b : Bound) (count : Count) (args : Arguments) : Call Mapped :=
  match x.mode with
  | .blocking => Blocking.execute x.thread b count args
  | .async => Async.execute x.scopes b count args

def query (x : Context) (b : Bound) (ret : Return) (args : Arguments) : Call Mapped :=
  match x.mode with
  | .blocking => Blocking.query x.thread b ret args
  | .async => Async.query x.scopes b ret args

def stream (x : Context) (b : Bound) (shape : Shape) (args : Arguments) : Call Stream :=
  match x.mode with
  | .blocking => Blocking.stream x.thread b shape args
  | .async => Async.stream x.scopes b shape args

def next (x : Context) (s : Stream) :
    Action (Outcome (Option (Except Error Mapped)) × Stream) :=
  match x.mode with
  | .blocking => Blocking.next s
  | .async => Async.next s

def dropStream (x : Context) (s : Stream) : Call Unit :=
  match x.mode with
  | .blocking => Blocking.dropStream s
  | .async => Async.dropStream s

def pull (x : Context) (s : Stream) :
    Nat → Action (Outcome (List (Except Error Mapped) × Bool) × Stream)
  | 0 => return (.ok ([], false), s)
  | n + 1 => do
    match ← x.next s with
    | (.error f, s) => return (.error f, s)
    | (.ok none, s) => return (.ok ([], true), s)
    | (.ok (some item), s) =>
      let (r, s) ← x.pull s n
      return (r.map fun (items, ended) ↦ (item :: items, ended), s)

end Context

end BoundSql
