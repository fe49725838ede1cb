import BoundSql.Number.Power
import BoundSql.Number.Text
import Mathlib.Data.List.Induction
import Mathlib.Data.List.TakeWhile

namespace BoundSql.Text

variable {c d : Char} {s t rest : List Char} {n width : Nat}

def AllDigits (s : List Char) : Prop := ∀ c ∈ s, isDigit c = true

def EndsRun (rest : List Char) : Prop := ∀ c ∈ rest.head?, isDigit c = false

theorem isDigit_iff : isDigit c = true ↔ 48 ≤ c.toNat ∧ c.toNat ≤ 57 := by
  simp only [isDigit, Bool.and_eq_true, decide_eq_true_eq, Char.le_def, UInt32.le_iff_toNat_le]
  rfl

theorem isDigit_eq (c : Char) : isDigit c = c.isDigit := by
  simp [isDigit, Char.isDigit, Char.le_def]

theorem ne_of_isDigit (hc : isDigit c = true) (hd : isDigit d = false) : c ≠ d := by
  rintro rfl
  exact Bool.noConfusion (hc.symm.trans hd)

@[simp] theorem endsRun_nil : EndsRun [] := by simp [EndsRun]

theorem endsRun_cons (h : isDigit c = false) : EndsRun (c :: rest) := by simpa [EndsRun] using h

theorem takeWhile_append (hs : AllDigits s) (hr : EndsRun rest) :
    (s ++ rest).takeWhile isDigit = s := by
  rw [List.takeWhile_append_of_pos hs]
  cases rest with
  | nil => simp
  | cons c rest =>
    have hc : isDigit c = false := hr c rfl
    simp [hc]

theorem dropWhile_append (hs : AllDigits s) (hr : EndsRun rest) :
    (s ++ rest).dropWhile isDigit = rest := by
  rw [List.dropWhile_append_of_pos hs]
  cases rest with
  | nil => rfl
  | cons c rest =>
    have hc : isDigit c = false := hr c rfl
    simp [hc]

theorem ofDigits_append (s t : List Char) :
    ofDigits (s ++ t) = 10 ^ t.length * ofDigits s + ofDigits t := by
  change Nat.ofDigitChars 10 (s ++ t) 0 = _
  rw [Nat.ofDigitChars_append, Nat.ofDigitChars_eq_ofDigitChars_zero]
  rfl

theorem digitVal_le (h : isDigit c = true) : digitVal c ≤ 9 := by
  rw [isDigit_iff] at h
  have h0 : ('0' : Char).toNat = 48 := rfl
  unfold digitVal
  omega

theorem ofDigits_lt (h : AllDigits s) : ofDigits s < 10 ^ s.length := by
  induction s using List.reverseRecOn with
  | nil => simp [ofDigits]
  | append_singleton s c ih =>
    have hs := ih fun d hd ↦ h d (by simp [hd])
    have hc := digitVal_le (h c (by simp))
    rw [ofDigits_append, List.length_append]
    simp only [ofDigits, List.length_singleton, List.foldl_cons, List.foldl_nil, Nat.pow_succ] at hs ⊢
    omega

def readOn (n : Nat) (s : List Char) : Nat := 10 ^ s.length * n + ofDigits s

@[simp] theorem readOn_nil (n : Nat) : readOn n [] = n := by simp [readOn, ofDigits]

@[simp] theorem readOn_zero (s : List Char) : readOn 0 s = ofDigits s := by simp [readOn]

theorem readOn_cons (n : Nat) (c : Char) (s : List Char) :
    readOn n (c :: s) = readOn (10 * n + digitVal c) s := by
  have h := ofDigits_append [c] s
  have hc : ofDigits [c] = digitVal c := by simp [ofDigits]
  rw [List.singleton_append, hc] at h
  rw [readOn, readOn, h, List.length_cons, Nat.pow_succ, Nat.mul_add, Nat.mul_assoc, Nat.add_assoc]

theorem le_readOn (n : Nat) (s : List Char) : n ≤ readOn n s :=
  Nat.le_add_right_of_le (Nat.le_mul_of_pos_left n (Nat.pow_pos (by decide)))

theorem allDigits_digits (n : Nat) : AllDigits (digits n) := by
  intro c hc
  rw [isDigit_eq]
  exact Nat.isDigit_of_mem_toDigits (by decide) (by decide) hc

theorem digits_ne_nil (n : Nat) : digits n ≠ [] := Nat.toDigits_ne_nil

@[simp] theorem ofDigits_digits (n : Nat) : ofDigits (digits n) = n :=
  Nat.ofDigitChars_ten_toDigits

theorem length_digits_le_iff (h : 0 < width) : (digits n).length ≤ width ↔ n < 10 ^ width :=
  Nat.length_toDigits_le_iff (by decide) h

@[simp] theorem digits_zero : digits 0 = ['0'] := rfl

theorem digits_eq_cons (h : n ≠ 0) : ∃ c r, digits n = c :: r ∧ c ≠ '0' ∧ isDigit c = true := by
  obtain ⟨c, r, hr⟩ := List.exists_cons_of_ne_nil (digits_ne_nil n)
  have hd : AllDigits (c :: r) := hr ▸ allDigits_digits n
  refine ⟨c, r, hr, ?_, hd c (by simp)⟩
  rintro rfl
  have hn : ofDigits r = n := by
    rw [← ofDigits_digits n, hr]
    rfl
  have hlt := ofDigits_lt fun d hd' ↦ hd d (.tail _ hd')
  rw [hn] at hlt
  cases r with
  | nil => simp at hlt; exact h hlt
  | cons d r =>
    have hl := (length_digits_le_iff (by simp)).2 hlt
    rw [hr] at hl
    simp only [List.length_cons] at hl
    omega

theorem toList_toString_int (z : Int) : (toString z).toList =
    (if z < 0 then ['-'] else []) ++ digits z.natAbs := by
  rw [Int.toString_eq_repr, Int.repr_eq_if]
  split
  · next h =>
    have hz : z.toNat = z.natAbs := by omega
    rw [if_neg (by omega), hz, Nat.repr_eq_ofList_toDigits, String.toList_ofList]
    rfl
  · next h =>
    have hz : (-z).toNat = z.natAbs := by omega
    rw [if_pos (by omega), hz, Nat.repr_eq_ofList_toDigits, String.toList_append,
      String.toList_ofList, String.toList_ofList]
    rfl

theorem allDigits_padded (width n : Nat) : AllDigits (padded width n) := by
  intro c hc
  obtain hc | hc := List.mem_append.1 hc
  · rw [List.eq_of_mem_replicate hc]
    rfl
  · exact allDigits_digits n c hc

@[simp] theorem ofDigits_padded (width n : Nat) : ofDigits (padded width n) = n := by
  have hz : ∀ k, ofDigits (List.replicate k '0') = 0 := by
    intro k
    exact Nat.ofDigitChars_replicate_zero.trans (Nat.mul_zero _)
  rw [padded, ofDigits_append, hz, ofDigits_digits]
  omega

theorem length_padded (width n : Nat) :
    (padded width n).length = max width (digits n).length := by
  rw [padded, List.length_append, List.length_replicate]
  omega

theorem length_padded_of_lt (hw : 0 < width) (h : n < 10 ^ width) :
    (padded width n).length = width := by
  have hl := (length_digits_le_iff hw).2 h
  rw [length_padded]
  omega

theorem padded_ne_nil (width n : Nat) : padded width n ≠ [] := by
  simp [padded, digits_ne_nil]

end BoundSql.Text
