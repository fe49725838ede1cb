import BoundSql.Proofs.Json.Scalars

namespace BoundSql.Json

/-- Documents without doubles, at most `depth` deep, with the members of each object in the order of
their names. -/
inductive FloatFree : Nat → Json → Prop
  | null {depth : Nat} : FloatFree depth .null
  | bool {depth : Nat} (b : Bool) : FloatFree depth (.bool b)
  | integer {depth : Nat} (z : Integer) : FloatFree depth (.integer z)
  | string {depth : Nat} (s : String) : FloatFree depth (.string s)
  | array {depth : Nat} {js : List Json} (hitems : ∀ j ∈ js, FloatFree depth j) :
      FloatFree (depth + 1) (.array js)
  | object {depth : Nat} {ms : List (String × Json)} (hordered : ms.Pairwise (·.1 < ·.1))
      (hmembers : ∀ m ∈ ms, FloatFree depth m.2) : FloatFree (depth + 1) (.object ms)

variable {c : Char} {s rest : List Char} {j : Json} {js : List Json} {ms : List (String × Json)}
  {fuel depth : Nat}

def Opens (s : List Char) : Prop := ∃ c ∈ s.head?, Reader.isSpace c = false ∧ c ≠ ']'

theorem opens_cons (h : Reader.isSpace c = false ∧ c ≠ ']') (s : List Char) : Opens (c :: s) :=
  ⟨c, rfl, h⟩

theorem Opens.append (h : Opens s) (t : List Char) : Opens (s ++ t) := by
  obtain ⟨c, hc, hopens⟩ := h
  obtain ⟨s, rfl⟩ := List.head?_eq_some_iff.1 hc
  exact opens_cons hopens (s ++ t)

theorem isSpace_of_isDigit (h : Text.isDigit c = true) : Reader.isSpace c = false := by
  have h1 := Text.ne_of_isDigit (d := ' ') h rfl
  have h2 := Text.ne_of_isDigit (d := '\n') h rfl
  have h3 := Text.ne_of_isDigit (d := '\t') h rfl
  have h4 := Text.ne_of_isDigit (d := '\r') h rfl
  simp [Reader.isSpace, h1, h2, h3, h4]

theorem digits_opens (n : Nat) : Opens (Text.digits n) := by
  obtain ⟨c, s, hs⟩ := List.exists_cons_of_ne_nil (Text.digits_ne_nil n)
  have hc : Text.isDigit c = true := Text.allDigits_digits n c (by simp [hs])
  rw [hs]
  exact opens_cons ⟨isSpace_of_isDigit hc, Text.ne_of_isDigit hc rfl⟩ s

theorem FloatFree.opens (h : FloatFree depth j) : Opens j.text := by
  cases h with
  | null => exact opens_cons (by decide) _
  | bool b => cases b <;> exact opens_cons (by decide) _
  | integer z =>
    rw [text, Text.toList_toString_int]
    split_ifs
    · exact opens_cons (by decide) _
    · exact digits_opens _
  | string s => exact opens_cons (by decide) _
  | @array _ js _ => cases js <;> exact opens_cons (by decide) _
  | @object _ ms _ => cases ms <;> exact opens_cons (by decide) _

theorem closes_textItems (js : List Json) (s : List Char) :
    Closes (textItems js ++ ']' :: s) := by
  cases js <;> simp [Closes, textItems]

theorem closes_textMembers (ms : List (String × Json)) (s : List Char) :
    Closes (textMembers ms ++ '\x7d' :: s) := by
  cases ms <;> simp [Closes, textMembers]

theorem length_le_textItems (js : List Json) : js.length ≤ (textItems js).length := by
  induction js with
  | nil => simp
  | cons j js ih =>
    simp only [textItems, List.cons_append, List.length_cons, List.length_append]
    omega

theorem length_le_textMembers (ms : List (String × Json)) :
    ms.length ≤ (textMembers ms).length := by
  induction ms with
  | nil => simp
  | cons m ms ih =>
    simp only [textMembers, List.cons_append, List.length_cons, List.length_append]
    omega

theorem put_last {name : String} {v : Json} (h : ∀ m ∈ ms, m.1 < name) :
    put name v ms = ms ++ [(name, v)] := by
  induction ms with
  | nil => rfl
  | cons m ms ih =>
    obtain ⟨k, w⟩ := m
    have hk : k < name := h _ (List.mem_cons_self ..)
    have hne : name ≠ k := by
      rintro rfl
      exact String.lt_irrefl _ hk
    rw [put, if_neg hne, if_neg (String.lt_asymm hk), ih fun m hm ↦ h m (.tail _ hm)]
    rfl

theorem foldl_put (h : ms.Pairwise (·.1 < ·.1)) :
    ms.foldl (fun l m ↦ put m.1 m.2 l) [] = ms := by
  have hgo : ∀ ms l : List (String × Json), (l ++ ms).Pairwise (·.1 < ·.1) →
      ms.foldl (fun l m ↦ put m.1 m.2 l) l = l ++ ms := by
    intro ms
    induction ms with
    | nil => simp
    | cons m ms ih =>
      intro l hl
      have hlast : ∀ m' ∈ l, m'.1 < m.1 := fun m' hm' ↦
        (List.pairwise_append.1 hl).2.2 m' hm' m (List.mem_cons_self ..)
      rw [List.foldl_cons, put_last hlast, ih _ (by simpa using hl)]
      simp
  simpa using hgo ms [] (by simpa using h)

namespace Reader

variable {item : Reader Json} {itemOf : String → Reader Json}

theorem spaces_cons (h : isSpace c = false) : spaces (c :: s) = .ok ((), c :: s) := by
  change Except.ok ((), (c :: s).dropWhile isSpace) = _
  rw [List.dropWhile_cons_of_neg (by simp [h])]

/-- What a reader of items must do to an item of an array. -/
def Reads (item : Reader Json) (j : Json) : Prop :=
  ∀ rest, Closes rest → item (j.text ++ rest) = .ok (j, rest)

theorem items_close (fuel : Nat) (isFirst : Bool) (s : List Char) :
    items item (fuel + 1) isFirst (']' :: s) = .ok ([], s) := rfl

theorem items_first (hs : Opens s) : items item (fuel + 1) true s =
    (do return (← item) :: (← items item fuel false) : Reader (List Json)) s := by
  obtain ⟨c, hc, hspace, hne⟩ := hs
  obtain ⟨s, rfl⟩ := List.head?_eq_some_iff.1 hc
  rw [items, bind_eq (spaces_cons hspace), bind_eq (peek_eq _)]
  simp only [↓reduceIte, List.head?_cons]

def afterComma (item : Reader Json) (fuel : Nat) : Reader (List Json) := do
  spaces
  match ← peek with
  | some ']' => failNext .trailingComma
  | none => failNext .endInValue
  | some _ => pure ()
  return (← item) :: (← items item fuel false)

theorem items_comma (fuel : Nat) (s : List Char) :
    items item (fuel + 1) false (',' :: s) = afterComma item fuel s := rfl

theorem items_next (hs : Opens s) : items item (fuel + 1) false (',' :: s) =
    (do return (← item) :: (← items item fuel false) : Reader (List Json)) s := by
  obtain ⟨c, hc, hspace, hne⟩ := hs
  obtain ⟨s, rfl⟩ := List.head?_eq_some_iff.1 hc
  rw [items_comma, afterComma, bind_eq (spaces_cons hspace), bind_eq (peek_eq _)]
  simp only [List.head?_cons]

theorem items_textItems (hopens : ∀ j ∈ js, Opens j.text) (hreads : ∀ j ∈ js, Reads item j)
    (hf : js.length < fuel) (rest : List Char) :
    items item fuel false (textItems js ++ ']' :: rest) = .ok (js, rest) := by
  induction js generalizing fuel with
  | nil =>
    obtain ⟨fuel, rfl⟩ := Nat.exists_eq_add_one.2 hf
    exact items_close fuel false rest
  | cons j js ih =>
    rw [List.length_cons] at hf
    obtain ⟨fuel, rfl⟩ := Nat.exists_eq_add_one.2 (Nat.zero_lt_of_lt hf)
    have hopen := (hopens j (List.mem_cons_self ..)).append (textItems js ++ ']' :: rest)
    have hread := hreads j (List.mem_cons_self ..) _ (closes_textItems js rest)
    have hmore := ih (fun i hi ↦ hopens i (.tail _ hi)) (fun i hi ↦ hreads i (.tail _ hi))
      (Nat.lt_of_succ_lt_succ hf)
    rw [textItems, List.cons_append, List.cons_append, List.append_assoc, items_next hopen]
    exact cons_eq hread hmore

theorem items_text (hopens : ∀ j ∈ js, Opens j.text) (hreads : ∀ j ∈ js, Reads item j)
    (rest : List Char) : ∃ s, text (.array js) ++ rest = '[' :: s ∧
      items item (s.length + 1) true s = .ok (js, rest) := by
  cases js with
  | nil => exact ⟨']' :: rest, rfl, rfl⟩
  | cons j js =>
    have hopen := (hopens j (List.mem_cons_self ..)).append (textItems js ++ ']' :: rest)
    have hread := hreads j (List.mem_cons_self ..) _ (closes_textItems js rest)
    have hfuel : js.length < (j.text ++ (textItems js ++ ']' :: rest)).length := by
      have hlen := length_le_textItems js
      simp only [List.length_append, List.length_cons]
      omega
    have hmore := items_textItems (fun i hi ↦ hopens i (.tail _ hi))
      (fun i hi ↦ hreads i (.tail _ hi)) hfuel rest
    refine ⟨j.text ++ (textItems js ++ ']' :: rest), by simp [text], ?_⟩
    rw [items_first hopen]
    exact cons_eq hread hmore

theorem members_close (fuel : Nat) (isFirst : Bool) (s : List Char) :
    members itemOf (fuel + 1) isFirst ('\x7d' :: s) = .ok ([], s) := rfl

theorem members_first (fuel : Nat) (s : List Char) :
    members itemOf (fuel + 1) true ('"' :: s) =
      (do return (← memberOf itemOf) :: (← members itemOf fuel false) : Reader _) ('"' :: s) := rfl

theorem members_next (fuel : Nat) (s : List Char) :
    members itemOf (fuel + 1) false (',' :: '"' :: s) =
      (do return (← memberOf itemOf) :: (← members itemOf fuel false) : Reader _) ('"' :: s) := rfl

def memberText (m : String × Json) (rest : List Char) : List Char :=
  '"' :: (m.1.toList.flatMap escape ++ '"' :: ':' :: (m.2.text ++ rest))

theorem memberOf_text {m : String × Json} (hread : Reads (itemOf m.1) m.2) (hr : Closes rest) :
    memberOf itemOf (memberText m rest) = .ok (m, rest) := by
  have hname := string_quoted m.1 (':' :: (m.2.text ++ rest))
  rw [memberText, memberOf, bind_eq (skip_cons _ _), bind_eq hname, bind_eq (spaces_cons (by decide)),
    bind_eq (peek_eq _)]
  change (skip >>= fun _ ↦ itemOf m.1 >>= _) (':' :: (m.2.text ++ rest)) = _
  rw [bind_eq (skip_cons _ _), bind_eq (hread rest hr)]
  rfl

theorem textMembers_cons (m : String × Json) (ms : List (String × Json)) (rest : List Char) :
    textMembers (m :: ms) ++ rest = ',' :: memberText m (textMembers ms ++ rest) := by
  obtain ⟨k, j⟩ := m
  simp [textMembers, memberText, quote]

theorem members_textMembers (hreads : ∀ m ∈ ms, Reads (itemOf m.1) m.2) (hf : ms.length < fuel)
    (rest : List Char) :
    members itemOf fuel false (textMembers ms ++ '\x7d' :: rest) = .ok (ms, rest) := by
  induction ms generalizing fuel with
  | nil =>
    obtain ⟨fuel, rfl⟩ := Nat.exists_eq_add_one.2 hf
    exact members_close fuel false rest
  | cons m ms ih =>
    rw [List.length_cons] at hf
    obtain ⟨fuel, rfl⟩ := Nat.exists_eq_add_one.2 (Nat.zero_lt_of_lt hf)
    have hread := memberOf_text (hreads m (List.mem_cons_self ..)) (closes_textMembers ms rest)
    have hmore := ih (fun i hi ↦ hreads i (.tail _ hi)) (Nat.lt_of_succ_lt_succ hf)
    rw [textMembers_cons, memberText, members_next, ← memberText]
    exact cons_eq hread hmore

theorem members_text (itemOf : String → Reader Json)
    (hreads : ∀ m ∈ ms, Reads (itemOf m.1) m.2) (rest : List Char) :
    ∃ s, text (.object ms) ++ rest = '\x7b' :: s ∧
      members itemOf (s.length + 1) true s = .ok (ms, rest) := by
  cases ms with
  | nil => exact ⟨'\x7d' :: rest, rfl, rfl⟩
  | cons m ms =>
    have hread := memberOf_text (hreads m (List.mem_cons_self ..)) (closes_textMembers ms rest)
    have hfuel : ms.length < (memberText m (textMembers ms ++ '\x7d' :: rest)).length := by
      have hlen := length_le_textMembers ms
      simp only [memberText, List.length_append, List.length_cons]
      omega
    have hmore := members_textMembers (fun i hi ↦ hreads i (.tail _ hi)) hfuel rest
    refine ⟨memberText m (textMembers ms ++ '\x7d' :: rest), by simp [text, memberText, quote], ?_⟩
    conv_lhs => rw [memberText, members_first, ← memberText]
    exact cons_eq hread hmore

theorem document_eq (depth : Nat) : ∃ nested, document depth = documentWith nested := by
  cases depth <;> exact ⟨_, rfl⟩

theorem documentWith_digit (nested : Char → Reader Json) (hc : Text.isDigit c = true) :
    documentWith nested (c :: s) = number false (c :: s) := by
  rw [documentWith, bind_eq (spaces_cons (isSpace_of_isDigit hc)), bind_eq (peek_eq _)]
  simp only [List.head?_cons]
  rw [if_neg (Text.ne_of_isDigit hc rfl), if_neg (Text.ne_of_isDigit hc rfl),
    if_neg (Text.ne_of_isDigit hc rfl), if_neg (Text.ne_of_isDigit hc rfl), if_pos hc]

theorem documentWith_integer (nested : Char → Reader Json) (z : Integer) :
    Reads (documentWith nested) (.integer z) := by
  intro rest hr
  rw [text, Text.toList_toString_int]
  by_cases hneg : z.val < 0
  · rw [if_pos hneg]
    change number true (Text.digits z.val.natAbs ++ rest) = _
    refine number_digits ?_ (by omega) hr
    rw [if_pos rfl]
    omega
  · obtain ⟨c, s, hs⟩ := List.exists_cons_of_ne_nil (Text.digits_ne_nil z.val.natAbs)
    have hc : Text.isDigit c = true := Text.allDigits_digits z.val.natAbs c (by simp [hs])
    have hnum : number false (Text.digits z.val.natAbs ++ rest) = .ok (.integer z, rest) := by
      refine number_digits ?_ (by simp) hr
      rw [if_neg (by simp)]
      omega
    rw [if_neg hneg, List.nil_append]
    rw [hs] at hnum ⊢
    exact (documentWith_digit nested hc).trans hnum

theorem documentWith_string (nested : Char → Reader Json) (t : String) :
    Reads (documentWith nested) (.string t) := by
  intro rest _
  have ht : text (.string t) ++ rest = '"' :: (t.toList.flatMap escape ++ '"' :: rest) := by
    simp [text, quote]
  have hopen : documentWith nested ('"' :: (t.toList.flatMap escape ++ '"' :: rest)) =
      (do return .string (← string) : Reader Json) (t.toList.flatMap escape ++ '"' :: rest) := rfl
  rw [ht, hopen, bind_eq (string_quoted t rest)]
  rfl

theorem document_reads (h : FloatFree depth j) : Reads (document depth) j := by
  induction h with
  | @null depth =>
    obtain ⟨nested, hd⟩ := document_eq depth
    rw [hd]
    exact fun rest _ ↦ rfl
  | @bool depth b =>
    obtain ⟨nested, hd⟩ := document_eq depth
    rw [hd]
    cases b <;> exact fun rest _ ↦ rfl
  | @integer depth z =>
    obtain ⟨nested, hd⟩ := document_eq depth
    rw [hd]
    exact documentWith_integer nested z
  | @string depth t =>
    obtain ⟨nested, hd⟩ := document_eq depth
    rw [hd]
    exact documentWith_string nested t
  | @array depth js hitems ih =>
    intro rest _
    obtain ⟨s, hs, hread⟩ := items_text (fun j hj ↦ (hitems j hj).opens) ih rest
    have hopen : document (depth + 1) ('[' :: s) =
        (do return .array (← items (document depth) (s.length + 1) true) : Reader Json) s := rfl
    rw [hs, hopen, bind_eq hread]
    rfl
  | @object depth ms hordered _ ih =>
    intro rest _
    obtain ⟨s, hs, hread⟩ := members_text (fun _ ↦ document depth) ih rest
    have hopen : document (depth + 1) ('\x7b' :: s) = (do
        let ms ← members (fun _ ↦ document depth) (s.length + 1) true
        return .object (ms.foldl (fun l m ↦ put m.1 m.2 l) []) : Reader Json) s := rfl
    rw [hs, hopen, bind_eq hread, foldl_put hordered]
    rfl

end Reader

theorem parse_print (h : FloatFree Reader.maxDepth j) : parse j.print = .ok j := by
  have hread := Reader.document_reads h [] (by simp [Closes])
  rw [List.append_nil] at hread
  have hwhole : Reader.whole j.text = .ok (j, []) := by
    rw [Reader.whole, Reader.bind_eq hread]
    rfl
  have hrun : Reader.whole.run j.text = .ok (j, []) := hwhole
  rw [parse, print, String.toList_ofList, hrun]

end BoundSql.Json
