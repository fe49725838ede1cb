import BoundSql.Json.Parser
import BoundSql.Json.Printer
import BoundSql.Proofs.Number.Digits

namespace BoundSql.Json

def Closes (rest : List Char) : Prop := ∀ c ∈ rest.head?, c = ',' ∨ c = ']' ∨ c = '}'

theorem Closes.endsRun {rest : List Char} (h : Closes rest) : Text.EndsRun rest := by
  intro c hc
  obtain rfl | rfl | rfl := h c hc <;> rfl

namespace Reader

open Text (AllDigits EndsRun readOn ofDigits isDigit)

variable {α β : Type} {c d : Char} {s s' rest ds : List Char} {m taken fuel : Nat}

theorem bind_eq {x : Reader α} {a : α} (h : x s = .ok (a, s')) (f : α → Reader β) :
    (x >>= f) s = f a s' := by
  change (x s).bind _ = _
  rw [h]
  rfl

theorem cons_eq {x : Reader α} {xs : Reader (List α)} {a : α} {as : List α}
    (hx : x s = .ok (a, s')) (hxs : xs s' = .ok (as, rest)) :
    (do return (← x) :: (← xs) : Reader (List α)) s = .ok (a :: as, rest) := by
  rw [bind_eq hx, bind_eq hxs]
  rfl

theorem get_bind (f : List Char → Reader β) : (get >>= f) s = f s s := rfl

theorem set_bind (t : List Char) (f : PUnit → Reader β) :
    ((set t : Reader PUnit) >>= f) s = f ⟨⟩ t := rfl

theorem peek_eq (s : List Char) : peek s = .ok (s.head?, s) := rfl

theorem skip_cons (c : Char) (s : List Char) : skip (c :: s) = .ok ((), s) := rfl

theorem ahead_cons (f : Fault) (c : Char) (s : List Char) : ahead f (c :: s) = .ok (c, c :: s) := rfl

theorem significand_digits (hd : AllDigits ds) (hr : EndsRun rest) (hm : readOn m ds < 2 ^ 64) :
    significand m taken (ds ++ rest) = (readOn m ds, taken + ds.length, rest) := by
  induction ds generalizing m taken with
  | nil =>
    rw [List.nil_append, Text.readOn_nil, List.length_nil, Nat.add_zero]
    cases rest with
    | nil => rfl
    | cons c rest =>
      have hc : isDigit c = false := hr c rfl
      rw [significand, if_neg (by simp [hc])]
  | cons c ds ih =>
    rw [Text.readOn_cons] at hm ⊢
    have hle := Text.le_readOn (10 * m + Text.digitVal c) ds
    rw [List.cons_append, significand, if_pos ⟨hd c (by simp), by omega⟩,
      ih (fun d h ↦ hd d (.tail _ h)) hm, List.length_cons]
    congr 2
    omega

theorem digits_endsRun (hr : EndsRun rest) : digits rest = .ok ([], rest) := by
  have ht := Text.takeWhile_append (s := []) (by simp [AllDigits]) hr
  have hd := Text.dropWhile_append (s := []) (by simp [AllDigits]) hr
  rw [List.nil_append] at ht hd
  change Except.ok (rest.takeWhile isDigit, rest.dropWhile isDigit) = _
  rw [ht, hd]

theorem afterInteger_closes {negative : Bool} {z : Integer}
    (hz : z.val = if negative then -(m : Int) else m) (hm : ¬(negative = true ∧ m = 0))
    (hr : Closes rest) : afterInteger negative m rest = .ok (.integer z, rest) := by
  have hi : Integer.ofInt? (if negative then -(m : Int) else m) = some z := by
    rw [← hz, z.ofInt?_val]
  rw [afterInteger, bind_eq (peek_eq rest)]
  dsimp only
  rw [hi, if_neg hm]
  cases rest with
  | nil => rfl
  | cons c rest => obtain rfl | rfl | rfl := hr c rfl <;> rfl

theorem number_digits {negative : Bool} {z : Integer}
    (hz : z.val = if negative then -(m : Int) else m) (hm : ¬(negative = true ∧ m = 0))
    (hr : Closes rest) : number negative (Text.digits m ++ rest) = .ok (.integer z, rest) := by
  have hlt : m < 2 ^ 64 := by
    have hlo := z.lo_le
    have hhi := z.lt_hi
    split at hz <;> omega
  rw [number]
  by_cases h0 : m = 0
  · subst h0
    rw [Text.digits_zero, List.singleton_append, bind_eq (ahead_cons _ _ _), if_pos rfl,
      bind_eq (skip_cons _ _), bind_eq (peek_eq rest)]
    cases rest with
    | nil => exact afterInteger_closes hz hm hr
    | cons c rest =>
      have hc : isDigit c = false := hr.endsRun c rfl
      change (ite (isDigit c = true) _ _ : Reader Json) _ = _
      rw [if_neg (by simp [hc])]
      exact afterInteger_closes hz hm hr
  · obtain ⟨c, r, hdig, hc, hcd⟩ := Text.digits_eq_cons h0
    have hall := Text.allDigits_digits m
    have hsig : significand 0 0 (Text.digits m ++ rest) = (m, (Text.digits m).length, rest) := by
      rw [significand_digits hall hr.endsRun (by simpa using hlt), Text.readOn_zero,
        Text.ofDigits_digits]
      simp
    rw [hdig, List.cons_append] at hsig ⊢
    rw [bind_eq (ahead_cons _ _ _), if_neg hc, if_pos hcd, get_bind, hsig]
    dsimp only
    rw [set_bind, bind_eq (digits_endsRun hr.endsRun), if_pos rfl]
    exact afterInteger_closes hz hm hr

variable {cs : List Char}

theorem characters_quote (fuel : Nat) (s : List Char) :
    characters (fuel + 1) ('"' :: s) = .ok ([], s) := rfl

theorem characters_plain (hq : c ≠ '"') (hb : c ≠ '\\') (hc : ¬c.toNat < 32)
    (h : characters fuel s = .ok (cs, rest)) :
    characters (fuel + 1) (c :: s) = .ok (c :: cs, rest) := by
  rw [characters, bind_eq (ahead_cons _ _ _), bind_eq (skip_cons _ _), if_neg hq, if_neg hb,
    if_neg hc, bind_eq h]
  rfl

theorem characters_backslash (he : escaped s = .ok (c, s'))
    (h : characters fuel s' = .ok (cs, rest)) :
    characters (fuel + 1) ('\\' :: s) = .ok (c :: cs, rest) := by
  rw [characters, bind_eq (ahead_cons _ _ _), bind_eq (skip_cons _ _), if_neg (by decide),
    if_pos rfl, bind_eq he, bind_eq h]
  rfl

theorem hexVal?_hexDigit {n : Nat} (h : n < 16) : Text.hexVal? (hexDigit n) = some n := by
  revert n
  decide

theorem four_le_utf8ByteSize (a b c d : Char) (s : List Char) :
    4 ≤ (String.ofList (a :: b :: c :: d :: s)).utf8ByteSize := by
  have ha := a.utf8Size_pos
  have hb := b.utf8Size_pos
  have hc := c.utf8Size_pos
  have hd := d.utf8Size_pos
  simp only [String.ofList_cons, String.utf8ByteSize_append, String.utf8ByteSize_singleton]
  omega

theorem escaped_unit (hc : c.toNat < 32) :
    escaped ('u' :: '0' :: '0' :: hexDigit (c.toNat / 16) :: hexDigit (c.toNat % 16) :: s) =
      .ok (c, s) := by
  have hu : unit ('0' :: '0' :: hexDigit (c.toNat / 16) :: hexDigit (c.toNat % 16) :: s) =
      .ok (c.toNat, s) := by
    have hsize := four_le_utf8ByteSize '0' '0' (hexDigit (c.toNat / 16))
      (hexDigit (c.toNat % 16)) s
    have h0 : Text.hexVal? '0' = some 0 := rfl
    have hhi : Text.hexVal? (hexDigit (c.toNat / 16)) = some (c.toNat / 16) :=
      hexVal?_hexDigit (by omega)
    have hlo : Text.hexVal? (hexDigit (c.toNat % 16)) = some (c.toNat % 16) :=
      hexVal?_hexDigit (by omega)
    rw [unit, if_neg (by omega)]
    simp only [List.take_succ_cons, List.take_zero, List.mapM_cons, List.mapM_nil, h0, hhi, hlo]
    change Except.ok (_, s) = _
    congr 2
    omega
  change unicode ('0' :: '0' :: hexDigit (c.toNat / 16) :: hexDigit (c.toNat % 16) :: s) = _
  rw [unicode, bind_eq hu, if_neg (by omega), if_pos (by omega), Char.ofNat_toNat]
  rfl

theorem characters_escape (h : characters fuel s = .ok (cs, rest)) :
    characters (fuel + 1) (escape c ++ s) = .ok (c :: cs, rest) := by
  rw [escape]
  split_ifs with hq hb h8 h12 hn hr ht hc
  · subst hq; exact characters_backslash rfl h
  · subst hb; exact characters_backslash rfl h
  · subst h8; exact characters_backslash rfl h
  · subst h12; exact characters_backslash rfl h
  · subst hn; exact characters_backslash rfl h
  · subst hr; exact characters_backslash rfl h
  · subst ht; exact characters_backslash rfl h
  · exact characters_backslash (escaped_unit hc) h
  · exact characters_plain hq hb hc h

theorem characters_flatMap (hf : cs.length < fuel) :
    characters fuel (cs.flatMap escape ++ '"' :: s) = .ok (cs, s) := by
  induction cs generalizing fuel with
  | nil =>
    obtain ⟨fuel, rfl⟩ : ∃ n, fuel = n + 1 := ⟨fuel - 1, by omega⟩
    exact characters_quote fuel s
  | cons c cs ih =>
    rw [List.length_cons] at hf
    obtain ⟨fuel, rfl⟩ : ∃ n, fuel = n + 1 := ⟨fuel - 1, by omega⟩
    rw [List.flatMap_cons, List.append_assoc]
    exact characters_escape (ih (by omega))

theorem escape_length_pos (c : Char) : 0 < (escape c).length := by
  rw [escape]
  split_ifs <;> simp

theorem string_quoted (name : String) (s : List Char) :
    string (name.toList.flatMap escape ++ '"' :: s) = .ok (name, s) := by
  have hlen : ∀ cs : List Char, cs.length ≤ (cs.flatMap escape).length := by
    intro cs
    induction cs with
    | nil => simp
    | cons c cs ih =>
      have hc := escape_length_pos c
      rw [List.flatMap_cons, List.length_append, List.length_cons]
      omega
  have hl := hlen name.toList
  rw [string, get_bind, bind_eq (characters_flatMap (by rw [List.length_append]; omega)),
    String.ofList_toList]
  rfl

end Reader

end BoundSql.Json
