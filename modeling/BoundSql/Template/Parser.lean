import BoundSql.Error
import BoundSql.Template.Basic

namespace BoundSql.Template

def isWord (c : Char) : Bool := c.isAlphanum || c == '_'

def opener? : List Char → Option Bool
  | '#' :: '{' :: _ => some false
  | '!' :: '{' :: _ => some true
  | _ => none

/-- Reads identifiers up to the closing brace. `start` is the source from the opener on and `path`
holds the identifiers read so far. -/
def readPath (start : List Char) (path : List String) (s : List Char) :
    Except Mistake (List String × List Char) :=
  match s with
  | [] => .error ⟨.unterminated, start⟩
  | c :: r =>
    if c.isAlpha then
      let path := path ++ [String.ofList (c :: r.takeWhile isWord)]
      match _h : r.dropWhile isWord with
      | '.' :: rest => readPath start path rest
      | '}' :: rest => .ok (path, rest)
      | _ => .error ⟨.unclosed, start⟩
    else if (opener? (c :: r)).isSome then .error ⟨.nested, c :: r⟩
    else if c = '}' ∧ path = [] then .error ⟨.empty, start⟩
    else .error ⟨.identifierExpected, c :: r⟩
termination_by s.length
decreasing_by
  have := (List.dropWhile_sublist (l := r) isWord).length_le
  simp_all only [List.length_cons]
  omega

theorem length_lt_of_readPath {start : List Char} {path : List String} {s : List Char}
    {names : List String} {rest : List Char} (h : readPath start path s = .ok (names, rest)) :
    rest.length < s.length := by
  fun_induction readPath start path s with
  | case1 => simp at h
  | case2 path c r _ _ rest' hd ih =>
    have := (List.dropWhile_sublist (l := r) isWord).length_le
    have := ih h
    simp_all only [List.length_cons]
    omega
  | case3 path c r _ _ rest' hd =>
    have := (List.dropWhile_sublist (l := r) isWord).length_le
    simp only [Except.ok.injEq, Prod.mk.injEq] at h
    obtain ⟨-, rfl⟩ := h
    simp_all only [List.length_cons]
    omega
  | case4 => simp at h
  | case5 => simp at h
  | case6 => simp at h
  | case7 => simp at h

def splitText : List Char → List Char × List Char
  | [] => ([], [])
  | c :: r =>
    match opener? (c :: r) with
    | some _ => ([], c :: r)
    | none => let (text, rest) := splitText r; (c :: text, rest)

theorem length_splitText (s : List Char) : (splitText s).2.length ≤ s.length := by
  fun_induction splitText s with
  | case1 => simp
  | case2 => simp
  | case3 c r _ text rest h ih => simp_all only [List.length_cons]; omega

def scan (s : List Char) : Except Mistake (List Fragment) :=
  match s with
  | [] => .ok []
  | c :: r =>
    match opener? (c :: r) with
    | some literal =>
      match _h : readPath (c :: r) [] (r.drop 1) with
      | .error m => .error m
      | .ok (path, rest) => do return .placeholder ⟨path, literal⟩ :: (← scan rest)
    | none =>
      do return .text (String.ofList (c :: (splitText r).1)) :: (← scan (splitText r).2)
termination_by s.length
decreasing_by
  · have := length_lt_of_readPath _h
    simp only [List.length_drop, List.length_cons] at *
    omega
  · have := length_splitText r
    simp only [List.length_cons]
    omega

def parse (source : String) : Except Error Template :=
  match scan source.toList with
  | .ok fragments => .ok ⟨source, fragments⟩
  | .error m => .error (.template (m.report source.toList))

end BoundSql.Template
