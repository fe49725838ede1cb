import BoundSql.Number.Decimal
import BoundSql.Proofs.Number.Digits

namespace BoundSql.Decimal

open Text

variable {c : Char} {s rest : List Char} {m scale : Nat} {seen : Bool}

theorem readLong_digits (hd : AllDigits s) (hs : scale + s.length ≤ maxScale)
    (hm : readOn m s < 2 ^ 96) :
    readLong m scale false s = some (readOn m s, scale + s.length) := by
  induction s generalizing m scale with
  | nil => simp [readLong]
  | cons c s ih =>
    have hc := hd c (by simp)
    rw [readOn_cons] at hm ⊢
    have hnext := le_readOn (10 * m + digitVal c) s
    rw [List.length_cons] at hs
    rw [readLong, if_neg (ne_of_isDigit hc rfl), if_neg (by simp; omega), if_pos hc,
      if_pos (by omega), ih (fun d h ↦ hd d (.tail _ h)) (by omega) hm, List.length_cons]
    congr 2
    omega

theorem readFraction_digits (hd : AllDigits s) (hs : scale + s.length ≤ maxScale)
    (hm : readOn m s < 2 ^ 96) (hne : seen = true ∨ s ≠ []) :
    readFraction seen m scale s = some (readOn m s, scale + s.length) := by
  induction s generalizing m scale seen with
  | nil =>
    have hseen : seen = true := hne.resolve_right (by simp)
    simp [readFraction, hseen]
  | cons c s ih =>
    have hc := hd c (by simp)
    have hd' : AllDigits s := fun d h ↦ hd d (.tail _ h)
    rw [readOn_cons] at hm ⊢
    rw [List.length_cons] at hs
    rw [readFraction, if_neg (by omega), if_pos hc, List.length_cons]
    dsimp only
    split
    · rw [readLong_digits hd' (by omega) hm]
      congr 2
      omega
    · rw [ih hd' (by omega) hm (.inl rfl)]
      congr 2
      omega

theorem readWhole_digits (hd : AllDigits s) (hm : readOn m s < 2 ^ 96) (hne : s ≠ []) :
    readWhole seen m (s ++ rest) = readWhole true (readOn m s) rest := by
  induction s generalizing m seen with
  | nil => exact absurd rfl hne
  | cons c s ih =>
    have hc := hd c (by simp)
    rw [readOn_cons] at hm ⊢
    have hnext := le_readOn (10 * m + digitVal c) s
    rw [List.cons_append, readWhole, if_pos hc]
    dsimp only
    rw [if_pos (by omega)]
    cases s with
    | nil => simp
    | cons d s => exact ih (fun e h ↦ hd e (.tail _ h)) hm (by simp)

theorem readWhole_point (hd : AllDigits s) (hs : s.length ≤ maxScale) (hm : readOn m s < 2 ^ 96) :
    readWhole true m ('.' :: s) = some (readOn m s, s.length) := by
  rw [readWhole, if_neg (by decide), if_pos rfl]
  split
  · rw [readLong_digits hd (by omega) hm, Nat.zero_add]
  · rw [readFraction_digits hd (by omega) hm (.inl rfl), Nat.zero_add]

theorem exists_parts (d : Decimal) : ∃ whole fraction, AllDigits whole ∧ AllDigits fraction ∧
    whole ≠ [] ∧ fraction.length = d.scale ∧ readOn (ofDigits whole) fraction = d.mantissa ∧
    d.text = (if d.negative then ['-'] else []) ++
      (whole ++ if d.scale = 0 then [] else '.' :: fraction) := by
  have hl := length_padded (d.scale + 1) d.mantissa
  have hd := allDigits_padded (d.scale + 1) d.mantissa
  refine ⟨_, _, fun c hc ↦ hd c (List.mem_of_mem_take hc), fun c hc ↦ hd c (List.mem_of_mem_drop hc),
    ?_, ?_, ?_, by rw [text, List.append_assoc]⟩
  · rw [ne_eq, List.take_eq_nil_iff, not_or]
    exact ⟨by omega, padded_ne_nil _ _⟩
  · rw [List.length_drop]
    omega
  · rw [readOn, ← ofDigits_append, List.take_append_drop, ofDigits_padded]

theorem readWhole_parts (d : Decimal) {whole fraction : List Char} (hw : AllDigits whole)
    (hf : AllDigits fraction) (hne : whole ≠ []) (hl : fraction.length = d.scale)
    (hm : readOn (ofDigits whole) fraction = d.mantissa) :
    readWhole false 0 (whole ++ if d.scale = 0 then [] else '.' :: fraction) =
      some (d.mantissa, d.scale) := by
  have hlt := d.mantissa_lt
  have hle := le_readOn (ofDigits whole) fraction
  rw [readWhole_digits hw (by rw [readOn_zero]; omega) hne, readOn_zero]
  split
  · next h0 =>
    obtain rfl : fraction = [] := List.length_eq_zero_iff.1 (hl.trans h0)
    rw [readOn_nil] at hm
    rw [readWhole, if_pos rfl, hm, h0]
  · rw [readWhole_point hf (hl.trans_le d.scale_le) (hm ▸ hlt), hm, hl]

def unsignZero (d : Decimal) : Decimal := { d with negative := d.negative && d.mantissa != 0 }

theorem equal_unsignZero (d : Decimal) : d.unsignZero.equal d = true := by
  have hc : d.unsignZero.coefficient = d.coefficient := by
    unfold coefficient unsignZero
    cases d.negative with
    | false => rfl
    | true =>
      by_cases h : d.mantissa = 0
      · simp [h]
      · simp [h]
  rw [equal, hc]
  exact beq_self_eq_true _

theorem make?_eq_unsignZero (d : Decimal) :
    make? d.negative d.mantissa (d.scale % (maxScale + 1)) = some d.unsignZero := by
  have hs : d.scale % (maxScale + 1) = d.scale :=
    Nat.mod_eq_of_lt (Nat.lt_succ_of_le d.scale_le)
  rw [hs, make?, signed?, dif_pos ⟨d.mantissa_lt, d.scale_le⟩]
  rfl

theorem readPlain?_minus {r : List Char} (h : readWhole false 0 r = some (m, scale)) :
    readPlain? ('-' :: r) = make? true m (scale % (maxScale + 1)) := by
  unfold readPlain?
  simp only [h]
  rfl

theorem readPlain?_unsigned {r : List Char} (hc : isDigit c = true)
    (h : readWhole false 0 (c :: r) = some (m, scale)) :
    readPlain? (c :: r) = make? false m (scale % (maxScale + 1)) := by
  unfold readPlain?
  split
  next n r' he =>
  split at he
  · next hs => cases hs; cases hc
  · next hs => cases hs; cases hc
  · cases he
    rw [h]
    rfl

theorem readPlain?_text (d : Decimal) : readPlain? d.text = some d.unsignZero := by
  obtain ⟨whole, fraction, hw, hf, hne, hl, hm, ht⟩ := d.exists_parts
  have hread := readWhole_parts d hw hf hne hl hm
  have hmake := d.make?_eq_unsignZero
  rw [ht]
  cases hn : d.negative with
  | true =>
    rw [hn] at hmake
    exact (readPlain?_minus hread).trans hmake
  | false =>
    rw [hn] at hmake
    obtain ⟨c, w, rfl⟩ := List.exists_cons_of_ne_nil hne
    exact (readPlain?_unsigned (hw c (by simp)) hread).trans hmake

theorem not_mark_of_mem_text {d : Decimal} (h : c ∈ d.text) : c ≠ 'e' ∧ c ≠ 'E' := by
  obtain ⟨whole, fraction, hw, hf, -, -, -, ht⟩ := d.exists_parts
  have digit (hc : isDigit c = true) : c ≠ 'e' ∧ c ≠ 'E' :=
    ⟨ne_of_isDigit hc rfl, ne_of_isDigit hc rfl⟩
  rw [ht, List.mem_append, List.mem_append] at h
  obtain h | h | h := h
  · split at h
    · rw [List.mem_singleton.1 h]
      decide
    · cases h
  · exact digit (hw c h)
  · split at h
    · cases h
    · obtain rfl | h := List.mem_cons.1 h
      · decide
      · exact digit (hf c h)

theorem ofText?_text (d : Decimal) : ofText? d.text = some d.unsignZero := by
  have hp : ∀ c ∈ d.text, (!(c == 'e' || c == 'E')) = true := by
    intro c hc
    simpa using not_mark_of_mem_text hc
  have ht : (d.text.takeWhile fun c ↦ !(c == 'e' || c == 'E')) = d.text :=
    List.takeWhile_eq_self_iff.2 hp
  have hd : (d.text.dropWhile fun c ↦ !(c == 'e' || c == 'E')) = [] :=
    List.dropWhile_eq_nil_iff.2 hp
  unfold ofText?
  simp only [ht, hd, readPlain?_text]
  rfl

end BoundSql.Decimal
