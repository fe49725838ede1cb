import BoundSql.Argument.Basic
import BoundSql.Proofs.Argument.Roots

namespace BoundSql

namespace Argument

/-- A tree in which no node is an indirection or a present option. -/
inductive IsBare : Argument → Prop
  | value (v : Value) : IsBare (.value v)
  | document (j : Json) : IsBare (.document j)
  | absent : IsBare .absent
  | mapping {entries : List (String × Argument)} :
      (∀ p ∈ entries, IsBare p.2) → IsBare (.mapping entries)
  | record {fields : List (String × Argument)} :
      (∀ p ∈ fields, IsBare p.2) → IsBare (.record fields)

mutual

/-- The tree with every indirection and every present option replaced by what it holds. -/
def bare : Argument → Argument
  | value v => value v
  | document j => document j
  | absent => absent
  | present a | indirect a => bare a
  | mapping entries => mapping (bareEntries entries)
  | record fields => record (bareEntries fields)

def bareEntries : List (String × Argument) → List (String × Argument)
  | [] => []
  | (name, a) :: r => (name, bare a) :: bareEntries r

end

theorem bareEntries_eq_map (entries : List (String × Argument)) :
    bareEntries entries = entries.map (Prod.map id bare) := by
  induction entries with
  | nil => rfl
  | cons p r ih => simp [bareEntries, Prod.map, ih]

theorem lookup_bareEntries (name : String) (entries : List (String × Argument)) :
    (bareEntries entries).lookup name = (entries.lookup name).map bare := by
  rw [bareEntries_eq_map, Memory.lookup_map]

mutual

theorem isBare_bare : ∀ a : Argument, a.bare.IsBare
  | .value v => .value v
  | .document j => .document j
  | .absent => .absent
  | .present a | .indirect a => isBare_bare a
  | .mapping entries => .mapping (isBare_bareEntries entries)
  | .record fields => .record (isBare_bareEntries fields)

theorem isBare_bareEntries : ∀ entries : List (String × Argument),
    ∀ p ∈ bareEntries entries, p.2.IsBare
  | [] => by simp [bareEntries]
  | (name, a) :: r => by
    intro p hp
    obtain rfl | hp := List.mem_cons.1 hp
    · exact isBare_bare a
    · exact isBare_bareEntries r p hp

end

theorem wrapping_induction {motive : Argument → Prop}
    (value : ∀ v, motive (.value v)) (document : ∀ j, motive (.document j))
    (absent : motive .absent) (mapping : ∀ entries, motive (.mapping entries))
    (record : ∀ fields, motive (.record fields))
    (present : ∀ a, motive a → motive (.present a))
    (indirect : ∀ a, motive a → motive (.indirect a)) : ∀ a, motive a
  | .value v => value v
  | .document j => document j
  | .absent => absent
  | .mapping entries => mapping entries
  | .record fields => record fields
  | .present a => present a
    (wrapping_induction value document absent mapping record present indirect a)
  | .indirect a => indirect a
    (wrapping_induction value document absent mapping record present indirect a)

theorem binding_bare (a : Argument) : a.bare.binding = a.binding := by
  induction a using wrapping_induction with
  | value | document | absent | mapping | record => rfl
  | present a ih | indirect a ih => exact ih

theorem isMapping_bare (a : Argument) : a.bare.isMapping = a.isMapping := by
  induction a using wrapping_induction with
  | value | document | absent | mapping | record => rfl
  | present a ih | indirect a ih => exact ih

theorem key?_bare (name : String) (a : Argument) : a.bare.key? name = (a.key? name).map bare := by
  induction a using wrapping_induction with
  | absent | record => rfl
  | value v =>
    cases v with
    | json j => cases j <;> simp [bare, key?, Option.map_map, Function.comp_def]
    | _ => rfl
  | document j => cases j <;> simp [bare, key?, Option.map_map, Function.comp_def]
  | mapping entries => exact lookup_bareEntries name entries
  | present a ih | indirect a ih => exact ih

theorem field?_bare (name : String) (a : Argument) :
    a.bare.field? name = (a.field? name).map bare := by
  induction a using wrapping_induction with
  | value | document | absent | mapping => rfl
  | record fields => exact lookup_bareEntries name fields
  | present a ih | indirect a ih => exact ih

theorem child?_bare (name : String) (a : Argument) :
    a.bare.child? name = (a.child? name).map bare := by
  unfold child?
  rw [isMapping_bare, key?_bare, field?_bare]
  split <;> rfl

theorem walk_bare (path rest : List String) (a : Argument) :
    a.bare.walk path rest = a.walk path rest := by
  induction rest generalizing a with
  | nil => rw [walk, walk, binding_bare]
  | cons name rest ih =>
    rw [walk, walk, child?_bare]
    cases a.child? name with
    | none => rfl
    | some b => exact ih b

theorem walk_append {a b : Argument} {names : List String} (h : a.below? names = some b)
    (path rest : List String) : a.walk path (names ++ rest) = b.walk path rest := by
  induction names generalizing a with
  | nil =>
    obtain rfl := Option.some.inj h
    rfl
  | cons name names ih =>
    obtain ⟨c, hc, hb⟩ := Option.bind_eq_some_iff.1 h
    rw [List.cons_append, walk, hc]
    exact ih hb

end Argument

namespace Arguments

inductive IsBare : Arguments → Prop
  | none : IsBare .none
  | mapping {entries : List (String × Argument)} :
      (∀ p ∈ entries, p.2.IsBare) → IsBare (.mapping entries)
  | members (ms : List (String × Json)) : IsBare (.members ms)
  | record {fields : List (String × Argument)} :
      (∀ p ∈ fields, p.2.IsBare) → IsBare (.record fields)

def bare : Arguments → Arguments
  | none => none
  | mapping entries => mapping (Argument.bareEntries entries)
  | members ms => members ms
  | record fields => record (Argument.bareEntries fields)

def node? (args : Arguments) : List String → Option Argument
  | [] => .none
  | root :: rest => (args.argument? root).bind fun a ↦ a.below? rest

theorem isBare_bare (args : Arguments) : args.bare.IsBare := by
  cases args with
  | none => exact .none
  | mapping entries => exact .mapping (Argument.isBare_bareEntries entries)
  | members ms => exact .members ms
  | record fields => exact .record (Argument.isBare_bareEntries fields)

theorem argument?_bare (name : String) (args : Arguments) :
    args.bare.argument? name = (args.argument? name).map Argument.bare := by
  cases args with
  | none => rfl
  | mapping entries => exact Argument.lookup_bareEntries name entries
  | members ms => simp [bare, argument?, Option.map_map, Function.comp_def, Argument.bare]
  | record fields => exact Argument.lookup_bareEntries name fields

theorem resolve_bare (args : Arguments) (path : List String) :
    args.bare.resolve path = args.resolve path := by
  cases path with
  | nil => rfl
  | cons root rest =>
    rw [resolve, resolve, argument?_bare]
    cases args.argument? root with
    | none => rfl
    | some a => exact a.walk_bare (root :: rest) rest

variable {args : Arguments} {path : List String} {a : Argument}

theorem resolve_append (h : args.node? path = some a) (rest : List String) :
    args.resolve (path ++ rest) = a.walk (path ++ rest) rest := by
  cases path with
  | nil => cases h
  | cons root names =>
    obtain ⟨b, hb, ha⟩ := Option.bind_eq_some_iff.1 h
    rw [List.cons_append, resolve, hb]
    exact Argument.walk_append ha _ rest

theorem resolve_absent (h : args.node? path = some a) (ha : a.bare = .absent) :
    args.resolve path = .ok .null := by
  have hr := resolve_append h []
  rw [List.append_nil, ← Argument.walk_bare, ha] at hr
  exact hr

theorem resolve_below_absent (h : args.node? path = some a) (ha : a.bare = .absent)
    (name : String) (rest : List String) : args.resolve (path ++ name :: rest) =
      .error (Argument.unresolved (path ++ name :: rest) name) := by
  rw [resolve_append h, ← Argument.walk_bare, ha]
  rfl

/-- Resolving a path does not see indirections and present options, wherever they stand in the tree
and however many of them. A path that ends at an option without a value gives null, and one that
goes on from there fails at its next name. -/
theorem wrappers_transparent (args : Arguments) :
    args.bare.IsBare ∧
    (∀ path, args.resolve path = args.bare.resolve path) ∧
    ∀ path a, args.node? path = some a → a.bare = .absent →
      args.resolve path = .ok .null ∧
      ∀ name rest, args.resolve (path ++ name :: rest) =
        .error (Argument.unresolved (path ++ name :: rest) name) := by
  refine ⟨args.isBare_bare, fun path ↦ (args.resolve_bare path).symm, ?_⟩
  intro path a h ha
  exact ⟨resolve_absent h ha, resolve_below_absent h ha⟩

example :
    (mapping [("user", .indirect (.present (.record [("zip", .present (.indirect .absent))])))]).resolve
      ["user", "zip"] = .ok .null := rfl

end Arguments

end BoundSql
