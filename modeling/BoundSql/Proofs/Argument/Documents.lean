import BoundSql.Proofs.Argument.Reaching

namespace BoundSql

namespace Json

/-- The part of a document that names of members lead to. -/
def at? : Json → List String → Option Json
  | j, [] => some j
  | object ms, name :: rest => (ms.lookup name).bind fun j ↦ j.at? rest
  | _, _ :: _ => none

def isScalar : Json → Bool
  | array _ | object _ => false
  | _ => true

end Json

def Value.toDocument? : Value → Option Json
  | null => some .null
  | bool b => some (.bool b)
  | int _ n => (Json.Integer.ofInt? n.val).map .integer
  | f64 x => some (.float x)
  | string s => some (.string s)
  | json j => some j
  | _ => none

namespace Argument

theorem ofDocument_integer (n : Json.Integer) :
    ∃ (w : Width) (m : Sized w), ofDocument (.integer n) = .int w m ∧ m.val = n.val := by
  by_cases hs : Width.i64.Contains n.val
  · exact ⟨.i64, ⟨n.val, hs.1, hs.2⟩, by rw [ofDocument, Sized.ofInt?_of_contains hs], rfl⟩
  · have hlt : Width.i64.hi < n.val := Int.not_le.1 fun h ↦ hs ⟨n.lo_le, h⟩
    have hu : Width.u64.Contains n.val :=
      ⟨Int.le_trans (by decide) (Int.le_of_lt hlt), Int.le_sub_one_of_lt n.lt_hi⟩
    refine ⟨.u64, ⟨n.val, hu.1, hu.2⟩, ?_, rfl⟩
    rw [ofDocument, Sized.ofInt?_of_not_contains hs, Sized.ofInt?_of_contains hu]

theorem toDocument?_ofDocument (j : Json) : (ofDocument j).toDocument? = some j := by
  cases j with
  | integer n =>
    obtain ⟨w, m, hm, hv⟩ := ofDocument_integer n
    rw [hm, Value.toDocument?, hv, n.ofInt?_val]
    rfl
  | _ => rfl

theorem ofDocument_of_not_isScalar {j : Json} (h : j.isScalar = false) : ofDocument j = .json j := by
  cases j with
  | array | object => rfl
  | _ => cases h

theorem child?_json (j : Json) (name : String) :
    (value (.json j)).child? name = (document j).child? name := by
  cases j <;> rfl

theorem below?_document (j : Json) (path : List String) :
    (document j).below? path = (j.at? path).map document := by
  induction path generalizing j with
  | nil => simp [below?, Json.at?]
  | cons name rest ih =>
    cases j with
    | object ms =>
      have hc : (document (.object ms)).child? name = (ms.lookup name).map document := rfl
      rw [below?, Json.at?, hc]
      cases ms.lookup name with
      | none => rfl
      | some j => exact ih j
    | _ => rfl

end Argument

/-- How the members of an object are passed: the object as the root, or a map from the names to
documents or to values. -/
inductive Packaging
  | members
  | documents
  | values

namespace Packaging

open Argument

def node : Packaging → Json → Argument
  | members | documents => .document
  | values => fun j ↦ .value (.json j)

def arguments (p : Packaging) (ms : List (String × Json)) : Arguments :=
  match p with
  | members => .members ms
  | documents | values => .mapping (ms.map (Prod.map id p.node))

variable {p : Packaging} {ms : List (String × Json)} {j : Json} {root name : String}
  {path rest : List String}

theorem argument?_arguments (p : Packaging) (ms : List (String × Json)) (name : String) :
    (p.arguments ms).argument? name = (ms.lookup name).map p.node := by
  cases p with
  | members => rfl
  | documents | values => exact Memory.lookup_map _ name ms

theorem child?_node (p : Packaging) (j : Json) (name : String) :
    (p.node j).child? name = (document j).child? name := by
  cases p with
  | members | documents => rfl
  | values => exact child?_json j name

theorem resolve_arguments (p : Packaging) (ms : List (String × Json)) (root name : String)
    (rest : List String) : (p.arguments ms).resolve (root :: name :: rest) =
      (Arguments.members ms).resolve (root :: name :: rest) := by
  have hm : (Arguments.members ms).argument? root = (ms.lookup root).map document := rfl
  rw [Arguments.resolve, Arguments.resolve, argument?_arguments, hm]
  cases ms.lookup root with
  | none => rfl
  | some j =>
    change (p.node j).walk (root :: name :: rest) (name :: rest) =
      (document j).walk (root :: name :: rest) (name :: rest)
    rw [walk, walk, child?_node]

theorem exists_binding_node (p : Packaging) (j : Json) :
    ∃ v, (p.node j).binding = .ok v ∧ v.toDocument? = some j ∧
      (j.isScalar = false → v = .json j) := by
  cases p with
  | members | documents =>
    exact ⟨ofDocument j, rfl, toDocument?_ofDocument j, ofDocument_of_not_isScalar⟩
  | values => exact ⟨.json j, rfl, rfl, fun _ ↦ rfl⟩

theorem exists_node? (p : Packaging) (hj : (Json.object ms).at? (root :: rest) = some j) :
    ∃ q : Packaging, (p.arguments ms).node? (root :: rest) = some (q.node j) := by
  obtain ⟨k, hk, hrest⟩ := Option.bind_eq_some_iff.1 hj
  rw [Arguments.node?, argument?_arguments, hk]
  change ∃ q : Packaging, (p.node k).below? rest = some (q.node j)
  cases rest with
  | nil =>
    rw [Json.at?] at hrest
    obtain rfl := Option.some.inj hrest
    exact ⟨p, rfl⟩
  | cons name rest =>
    -- From the second name on the walk is inside a document.
    have hbelow : (p.node k).below? (name :: rest) = (document k).below? (name :: rest) := by
      rw [below?, child?_node, below?]
    rw [hbelow, below?_document, hrest]
    exact ⟨documents, rfl⟩

/-- A path of two names or more has the same value in all packagings, or fails with the same error.
The value at a part of the object gives that part back, whatever the packaging; an array or an
object is bound as it is. -/
theorem documents_resolve_alike (ms : List (String × Json)) :
    (∀ (p q : Packaging) (path : List String), 2 ≤ path.length →
      (p.arguments ms).resolve path = (q.arguments ms).resolve path) ∧
    ∀ (p : Packaging) (path : List String) (j : Json), path ≠ [] →
      (Json.object ms).at? path = some j →
      ∃ v, (p.arguments ms).resolve path = .ok v ∧ v.toDocument? = some j ∧
        (j.isScalar = false → v = .json j) := by
  constructor
  · intro p q path hp
    match path, hp with
    | root :: name :: rest, _ => rw [p.resolve_arguments, q.resolve_arguments]
  · intro p path j hp hj
    obtain ⟨root, rest, rfl⟩ := List.exists_cons_of_ne_nil hp
    obtain ⟨q, hq⟩ := p.exists_node? hj
    obtain ⟨v, hv, hd⟩ := q.exists_binding_node j
    refine ⟨v, ?_, hd⟩
    rw [Arguments.resolve_of_leads (Arguments.node?_eq_some_iff.1 hq), hv]
    rfl

def profile : List (String × Json) :=
  [("user", .object [("id", .integer ⟨2 ^ 64 - 1, by decide, by decide⟩),
    ("tags", .array [.string "a"])])]

theorem documents_resolve_alike_profile :
    2 ≤ ["user", "id"].length ∧ ["user", "id"] ≠ [] ∧ ["user", "tags"] ≠ [] ∧
    (values.arguments profile).resolve ["user", "id"] =
      (members.arguments profile).resolve ["user", "id"] ∧
    (∃ v, (documents.arguments profile).resolve ["user", "id"] = .ok v ∧
      v.toDocument? = some (.integer ⟨2 ^ 64 - 1, by decide, by decide⟩)) ∧
    (values.arguments profile).resolve ["user", "tags"] = .ok (.json (.array [.string "a"])) := by
  obtain ⟨halike, hparts⟩ := documents_resolve_alike profile
  have hlong : 2 ≤ ["user", "id"].length := by decide
  refine ⟨hlong, by simp, by simp, halike _ _ _ hlong, ?_, ?_⟩
  · obtain ⟨v, hv, hd, -⟩ := hparts documents ["user", "id"] _ (by simp) rfl
    exact ⟨v, hv, hd⟩
  · obtain ⟨v, hv, -, hj⟩ := hparts values ["user", "tags"] _ (by simp) rfl
    rw [hv, hj rfl]

end Packaging

end BoundSql
