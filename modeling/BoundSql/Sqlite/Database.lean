import BoundSql.Sqlite.Expression

namespace BoundSql.Sqlite

structure Table where
  name : String
  columns : List ColumnDefinition
  rows : List (List Wire)
  deriving Repr, DecidableEq

structure Database where
  tables : List Table
  saved : Option (List Table)
  /-- How many rows the last statement that changes rows has changed. -/
  changes : Nat
  deriving Repr, DecidableEq

structure Rows where
  columns : List String
  rows : List (List Wire)
  deriving Repr, DecidableEq

def Rows.none : Rows := ⟨[], []⟩

namespace Table

def columnNames (t : Table) : List String := t.columns.map ColumnDefinition.name

def scope (t : Table) (parameters : List Wire) (row : List Wire) : Scope :=
  ⟨t.columnNames.zip row, parameters, 0⟩

def repeated? (t : Table) (others : List (List Wire)) (row : List Wire) : Option String :=
  (t.columns.zipIdx.find? fun (c, i) ↦
    c.unique && match row[i]? with
      | some w => !w.isNull && others.any fun other ↦ other[i]?.any fun v ↦ v.order w == .eq
      | none => false).map fun p ↦ p.1.name

def insert (t : Table) : List (List Wire) → Except Refusal Table
  | [] => .ok t
  | row :: rest =>
    match t.repeated? t.rows row with
    | some c => .error (.notUnique t.name c)
    | none => { t with rows := t.rows ++ [row] }.insert rest

/-- Changes rows one after the other; each must differ from those changed and those yet to come. -/
def updateFrom (t : Table) (change : List Wire → Option (List Wire)) :
    List (List Wire) → List (List Wire) → Except Refusal (List (List Wire) × Nat)
  | past, [] => .ok (past, 0)
  | past, row :: rest =>
    match change row with
    | none => t.updateFrom change (past ++ [row]) rest
    | some changed =>
      match t.repeated? (past ++ rest) changed with
      | some c => .error (.notUnique t.name c)
      | none => do
        let (rows, n) ← t.updateFrom change (past ++ [changed]) rest
        return (rows, n + 1)

end Table

namespace Database

def empty : Database := ⟨[], none, 0⟩

def inTransaction (d : Database) : Bool := d.saved.isSome

def table? (d : Database) (name : String) : Option Table :=
  d.tables.find? fun t ↦ sameName t.name name

def table (d : Database) (name : String) : Except Refusal Table :=
  match d.table? name with
  | some t => .ok t
  | none => .error (.noSuchTable name)

def put (d : Database) (t : Table) : Database :=
  { d with tables := d.tables.map fun u ↦ if sameName u.name t.name then t else u }

/-- The table that a select reads; without one it reads a single row of no columns. -/
def source (d : Database) : Option String → Except Refusal Table
  | some name => d.table name
  | none => .ok ⟨"", [], [[]]⟩

def checkItem (t : Table) : Item → Except Refusal Unit
  | .all => .ok ()
  | .value e _ _ => e.check t.columnNames

def itemNames (t : Table) : Item → List String
  | .all => t.columnNames
  | .value e name text =>
    let written := match e with
      | .column c _ => (t.columnNames.find? (sameName c)).getD c
      | _ => text
    [name.getD written]

def itemValues (s : Scope) : Item → List Wire
  | .all => s.columns.map Prod.snd
  | .value e _ _ => [e.eval s]

def isAggregate (s : Select) : Bool := s.items.any fun i ↦
  match i with
  | .all => false
  | .value e _ _ => e.hasCount

def selectRows (d : Database) (parameters : List Wire) (s : Select) :
    Except Refusal (List String × List (Scope × List Wire)) := do
  let t ← d.source s.source
  s.items.forM (checkItem t)
  s.condition.forM (·.check t.columnNames)
  let scopes := (t.rows.map (t.scope parameters)).filter fun scope ↦
    s.condition.all fun e ↦ (e.eval scope).holds
  let scopes := if isAggregate s then
      let last := scopes.getLast?.getD (t.scope parameters (t.columns.map fun _ ↦ .null))
      [{ last with count := scopes.length }]
    else scopes
  return (s.items.flatMap (itemNames t), scopes.map fun scope ↦
    (scope, s.items.flatMap (itemValues scope)))

def select (d : Database) (parameters : List Wire) (parts : List Select) (order : Option Expr) :
    Except Refusal Rows := do
  let results ← parts.mapM (d.selectRows parameters)
  match results with
  | [] => return .none
  | (names, _) :: more =>
    if more.any fun r ↦ r.1.length != names.length then .error .unequalSelects
    else
      let rows := results.flatMap Prod.snd
      match order with
      | none => return ⟨names, rows.map Prod.snd⟩
      | some e =>
        let inner ← match parts with
          | [s] => Table.columnNames <$> d.source s.source
          | _ => pure []
        let columns := inner ++ names
        e.check columns
        let key (p : Scope × List Wire) : Wire :=
          e.eval { p.1 with columns := p.1.columns ++ names.zip p.2 }
        let sorted := rows.mergeSort fun a b ↦ (key a).order (key b) != .gt
        return ⟨names, sorted.map Prod.snd⟩

def changeRow (t : Table) (parameters : List Wire) (sets : List (String × Nat × Expr))
    (condition : Option Expr) (row : List Wire) : Option (List Wire) :=
  let scope := t.scope parameters row
  if condition.all fun e ↦ (e.eval scope).holds then
    some <| scope.columns.map fun (c, w) ↦
      match sets.find? fun s ↦ sameName s.1 c with
      | some (_, _, e) => e.eval scope
      | none => w
  else none

/-- Runs a statement: what it gives, and the database after it. -/
def run (d : Database) (parameters : List Wire) : Statement → Except Refusal (Rows × Database)
  | .create name offset columns =>
    if (d.table? name).isSome then .error (.tableExists name offset)
    else .ok (.none, { d with tables := d.tables ++ [⟨name, columns, []⟩] })
  | .insert name rows => do
    let t ← d.table name
    let width := (rows.head?.map List.length).getD 0
    if rows.any fun r ↦ r.length != width then .error .unequalValues
    else if width ≠ t.columns.length then .error (.valueCount t.name t.columns.length width)
    else
      rows.forM fun r ↦ r.forM (·.check [])
      let t ← t.insert (rows.map fun r ↦ r.map (·.eval ⟨[], parameters, 0⟩))
      return (.none, { d.put t with changes := rows.length })
  | .select parts order => do return (← d.select parameters parts order, d)
  | .update name sets condition => do
    let t ← d.table name
    sets.forM fun (c, offset, e) ↦ do
      Expr.check t.columnNames (.column c offset)
      e.check t.columnNames
    condition.forM (·.check t.columnNames)
    let (rows, n) ← t.updateFrom (changeRow t parameters sets condition) [] t.rows
    return (.none, { d.put { t with rows } with changes := n })
  | .delete name condition => do
    let t ← d.table name
    condition.forM (·.check t.columnNames)
    let rows := t.rows.filter fun row ↦
      !(condition.all fun e ↦ (e.eval (t.scope parameters row)).holds)
    return (.none, { d.put { t with rows } with changes := t.rows.length - rows.length })
  | .begin =>
    if d.inTransaction then .error .beginInside
    else .ok (.none, { d with saved := some d.tables })
  | .commit =>
    if d.inTransaction then .ok (.none, { d with saved := none }) else .error .commitOutside
  | .rollback =>
    match d.saved with
    | some tables => .ok (.none, { d with tables, saved := none })
    | none => .error .rollbackOutside

def afterRefusal (d : Database) : Refusal → Database
  | .notUnique _ _ => { d with changes := 0 }
  | _ => d

/-- Runs a text with parameters. Giving more parameters than needed stops at the first one too many.
-/
def runText (d : Database) (sql : String) (parameters : List Wire) :
    Except Refusal Rows × Database :=
  match Statement.parse sql with
  | .error r => (.error r, d)
  | .ok (s, needed) =>
    let given := min parameters.length (needed + 1)
    let ran := match s with
      | some s => d.run parameters s
      | none => .error .empty
    match ran with
    | .ok (rows, d') => if given = needed then (.ok rows, d') else (mismatch given needed, d)
    | .error r =>
      if given = needed ∨ isEarly r then (.error r, d.afterRefusal r)
      else (mismatch given needed, d)
where
  mismatch (given needed : Nat) : Except Refusal Rows := .error (.parameterCount given needed)
  /-- Whether the refusal shows before the parameters are looked at. -/
  isEarly : Refusal → Bool
    | .notUnique _ _ | .beginInside | .commitOutside | .rollbackOutside | .empty => false
    | _ => true

def execute (d : Database) (sql : String) (parameters : List Wire) :
    Except Refusal Nat × Database :=
  match d.runText sql parameters with
  | (.error r, d) => (.error r, d)
  | (.ok rows, d) => (if rows.rows.isEmpty then .ok d.changes else .error .givesRows, d)

end Database

end BoundSql.Sqlite
