import BoundSql.Calendar.Printer
import BoundSql.Calendar.Reader
import BoundSql.Proofs.Number.Digits

namespace BoundSql

namespace Text

def Unspaced (s : List Char) : Prop := ∀ c ∈ s.head?, isBlank c = false

variable {c : Char} {s t : List Char}

theorem skipBlanks_of_unspaced (h : Unspaced s) : skipBlanks s = s := by
  cases s with
  | nil => rfl
  | cons c s =>
    have hc : isBlank c = false := h c rfl
    simp [skipBlanks, hc]

theorem not_isBlank_of_isDigit (h : isDigit c = true) : isBlank c = false := by
  rw [isDigit_iff] at h
  simp only [isBlank, blankRanges, List.any_cons, List.any_nil, Bool.or_false,
    Bool.or_eq_false_iff, Bool.and_eq_false_iff, decide_eq_false_iff_not]
  omega

theorem unspaced_cons (h : isBlank c = false) : Unspaced (c :: s) := by simpa [Unspaced] using h

theorem unspaced_append (hd : AllDigits s) (hne : s ≠ []) : Unspaced (s ++ t) := by
  obtain ⟨c, s, rfl⟩ := List.exists_cons_of_ne_nil hne
  exact unspaced_cons (not_isBlank_of_isDigit (hd c (by simp)))

end Text

theorem Date.day_le (d : Date) : d.day ≤ 31 := by
  have hday := d.day_mem.2
  unfold Calendar.daysIn at hday
  split at hday
  · split at hday <;> omega
  · split at hday <;> omega

namespace Calendar.Reader

open Text

variable {α β : Type} {c : Char} {s s' rest : List Char} {n : Nat}

theorem bind_eq {x : Reader α} {a : α} (h : x s = some (a, s')) (f : α → Reader β) :
    (x >>= f) s = f a s' := by
  change (x s).bind _ = _
  rw [h]
  rfl

theorem bind_none {x : Reader α} (h : x s = none) (f : α → Reader β) : (x >>= f) s = none := by
  change (x s).bind _ = _
  rw [h]
  rfl

theorem get_bind (f : List Char → Reader β) : (get >>= f) s = f s s := rfl

theorem set_bind (t : List Char) (f : PUnit → Reader β) :
    ((set t : Reader PUnit) >>= f) s = f ⟨⟩ t := rfl

theorem blanks_skips (s : List Char) : blanks s = some ((), skipBlanks s) := rfl

theorem blanks_eq (h : Unspaced s) : blanks s = some ((), s) := by
  rw [blanks_skips, skipBlanks_of_unspaced h]

theorem mark_cons : mark c (c :: rest) = some ((), rest) := by
  rw [mark, get_bind]
  dsimp only
  rw [if_pos rfl]
  rfl

theorem mark_ne {d : Char} (h : d ≠ c) : mark c (d :: rest) = none := by
  rw [mark, get_bind]
  dsimp only
  rw [if_neg h]
  rfl

theorem spacedMark_cons (h : isBlank c = false) : spacedMark c (c :: rest) = some ((), rest) := by
  rw [spacedMark, bind_eq (blanks_eq (unspaced_cons h)), mark_cons]

theorem number_eq (most : Nat) (s : List Char) :
    number most s =
      if (s.take most).takeWhile isDigit = [] ∨ 2 ^ 63 ≤ ofDigits ((s.take most).takeWhile isDigit)
      then none
      else some (ofDigits ((s.take most).takeWhile isDigit),
        s.drop ((s.take most).takeWhile isDigit).length) := by
  rw [number, get_bind]
  dsimp only
  split <;> rfl

theorem number_append {most : Nat} {ds : List Char} (hd : AllDigits ds) (hne : ds ≠ [])
    (hl : ds.length ≤ most) (hr : ds.length = most ∨ EndsRun rest) (hv : ofDigits ds < 2 ^ 63) :
    number most (ds ++ rest) = some (ofDigits ds, rest) := by
  have ht : ((ds ++ rest).take most).takeWhile isDigit = ds := by
    rw [List.take_append, List.take_of_length_le hl]
    refine takeWhile_append hd ?_
    obtain hr | hr := hr
    · simp [hr]
    · intro c hc
      cases hm : most - ds.length with
      | zero => simp [hm] at hc
      | succ k =>
        cases rest with
        | nil => simp at hc
        | cons d rest => exact hr c (by simpa [hm] using hc)
  rw [number_eq, ht, if_neg (by simp only [not_or]; exact ⟨hne, by omega⟩), List.drop_left]

theorem year_yearText {y : Int} (hy : y.natAbs < 2 ^ 63) (hr : EndsRun rest) :
    year (Date.yearText y ++ rest) = some (y, rest) := by
  have hd := allDigits_padded 4 y.natAbs
  have hne := padded_ne_nil 4 y.natAbs
  have hv : ofDigits (padded 4 y.natAbs) < 2 ^ 63 := by rwa [ofDigits_padded]
  -- Behind a sign all digits belong to the year.
  have signed : number (padded 4 y.natAbs ++ rest).length (padded 4 y.natAbs ++ rest) =
      some (y.natAbs, rest) := by
    rw [number_append hd hne (by simp) (.inr hr) hv, ofDigits_padded]
  rw [year]
  unfold Date.yearText
  split
  · next h =>
    have hl : (padded 4 y.natAbs).length = 4 := length_padded_of_lt (by decide) (by omega)
    have hn : number 4 (padded 4 y.natAbs ++ rest) = some (y.natAbs, rest) := by
      rw [number_append hd hne hl.le (.inl hl) hv, ofDigits_padded]
    rw [bind_eq (blanks_eq (unspaced_append hd hne)), get_bind]
    obtain ⟨c, r, hc⟩ := List.exists_cons_of_ne_nil hne
    have hdc : isDigit c = true := hd c (by simp [hc])
    rw [hc, List.cons_append] at hn ⊢
    generalize hs : c :: (r ++ rest) = s at hn ⊢
    split
    · cases hs
      cases hdc
    · cases hs
      cases hdc
    · rw [bind_eq hn]
      exact congrArg (fun y ↦ some (y, rest)) (by omega)
  · next h =>
    split
    all_goals
      rw [List.cons_append, bind_eq (blanks_eq (unspaced_cons (by decide))), get_bind]
      refine (set_bind _ _).trans ?_
      rw [bind_eq signed]
      exact congrArg (fun y ↦ some (y, rest)) (by omega)

theorem field_padded {lo hi : Nat} (hl : lo ≤ n) (hh : n ≤ hi) (hn : n < 100) :
    field lo hi (padded 2 n ++ rest) = some (n, rest) := by
  have hd := allDigits_padded 2 n
  have hne := padded_ne_nil 2 n
  have hlen : (padded 2 n).length = 2 := length_padded_of_lt (by decide) hn
  have hv : ofDigits (padded 2 n) < 2 ^ 63 := by
    rw [ofDigits_padded]
    omega
  rw [field, bind_eq (blanks_eq (unspaced_append hd hne)),
    bind_eq (number_append hd hne hlen.le (.inl hlen) hv), ofDigits_padded, if_pos ⟨hl, hh⟩]
  rfl

theorem date_text_append (d : Date) (rest : List Char) :
    date (d.text ++ rest) = some (d, skipBlanks rest) := by
  have hy := d.year_mem
  have hm := d.month_mem
  simp only [Calendar.minYear, Calendar.maxYear] at hy
  rw [date, Date.text]
  simp only [List.append_assoc, List.cons_append]
  rw [bind_eq (year_yearText (by omega) (endsRun_cons rfl)), bind_eq (spacedMark_cons (by decide)),
    bind_eq (field_padded hm.1 hm.2 (by omega)), bind_eq (spacedMark_cons (by decide)),
    bind_eq (field_padded d.day_mem.1 d.day_le (Nat.lt_of_le_of_lt d.day_le (by decide))),
    bind_eq (blanks_skips rest), Date.make?_self]
  rfl

theorem date_text (d : Date) (hr : Unspaced rest) : date (d.text ++ rest) = some (d, rest) := by
  rw [date_text_append, skipBlanks_of_unspaced hr]

theorem fraction_point {ds : List Char} (hd : AllDigits ds) (hne : ds ≠ []) (hl : ds.length ≤ 9) :
    fraction ('.' :: ds) = some (ofDigits ds * 10 ^ (9 - ds.length), []) := by
  have ht : (ds.take 9).takeWhile isDigit = ds := by
    rw [List.take_of_length_le hl, List.takeWhile_eq_self_iff]
    exact hd
  have hr : ds.dropWhile isDigit = [] := List.dropWhile_eq_nil_iff.2 hd
  rw [fraction, get_bind]
  change (ite ((ds.take 9).takeWhile isDigit = []) _ _ : Reader Nat) _ = _
  rw [ht, hr, if_neg hne]
  rfl

theorem fraction_fractionText (hn : n < 10 ^ 9) :
    fraction (TimeOfDay.fractionText n) = some (n, []) := by
  unfold TimeOfDay.fractionText
  -- However many places are printed, those left out are zeros.
  have places (k : Nat) (hk : 0 < k) (hk' : k ≤ 9) (hz : n % 10 ^ (9 - k) = 0)
      (hlt : n / 10 ^ (9 - k) < 10 ^ k) :
      fraction ('.' :: padded k (n / 10 ^ (9 - k))) = some (n, []) := by
    have hlen := length_padded_of_lt hk hlt
    rw [fraction_point (allDigits_padded _ _) (padded_ne_nil _ _) (hlen.trans_le hk'),
      ofDigits_padded, hlen, Nat.div_mul_cancel (Nat.dvd_of_mod_eq_zero hz)]
  split
  · next h0 =>
    rw [h0]
    rfl
  · split
    · next h => exact places 3 (by decide) (by decide) h (by omega)
    · split
      · next h => exact places 6 (by decide) (by decide) h (by omega)
      · next h =>
        have h9 := places 9 (by decide) (by decide) (by omega) (by omega)
        rwa [Nat.sub_self, Nat.pow_zero, Nat.div_one] at h9

theorem hourMinute_padded {h m : Nat} (hh : h < 24) (hm : m < 60) :
    hourMinute (padded 2 h ++ ':' :: (padded 2 m ++ rest)) = some ((h, m), rest) := by
  rw [hourMinute, bind_eq (field_padded (by omega) (by omega) (by omega)),
    bind_eq (spacedMark_cons (by decide)),
    bind_eq (field_padded (by omega) (by omega) (by omega))]
  rfl

theorem seconds_text (t : TimeOfDay) :
    seconds (':' :: (padded 2 (t.second + t.nano / 10 ^ 9) ++
      TimeOfDay.fractionText (t.nano % 10 ^ 9))) = some ((t.second, t.nano), []) := by
  have hs := t.second_lt
  have hn := t.nano_lt
  have hl := t.leap
  rw [seconds, bind_eq (spacedMark_cons (by decide)),
    bind_eq (field_padded (by omega) (by omega) (by omega)),
    bind_eq (fraction_fractionText (Nat.mod_lt _ (by decide))), bind_eq (blanks_eq (by simp [Unspaced]))]
  refine congrArg (fun p ↦ some (p, [])) ?_
  split
  · next h => exact Prod.ext (by dsimp only; omega) (by dsimp only; omega)
  · next h => exact Prod.ext (by dsimp only; omega) (by dsimp only; omega)

theorem orElse_eq {x : Reader α} {a : α} (h : x s = some (a, s')) (y : Reader α) :
    (x <|> y) s = some (a, s') := by
  change (x s <|> _) = _
  rw [h]
  rfl

theorem timeOfDay_text (t : TimeOfDay) : timeOfDay t.text = some (t, []) := by
  rw [timeOfDay, TimeOfDay.text]
  simp only [List.append_assoc, List.cons_append]
  rw [bind_eq (hourMinute_padded t.hour_lt t.minute_lt)]
  dsimp only
  rw [bind_eq (orElse_eq (seconds_text t) _)]
  dsimp only
  rw [bind_eq (blanks_eq (by simp [Unspaced])), TimeOfDay.make?_self]
  rfl

theorem dateTime_text (d : DateTime) : dateTime (d.textWith 'T') = some (d, []) := by
  rw [dateTime, DateTime.textWith, TimeOfDay.text]
  simp only [List.append_assoc, List.cons_append]
  rw [bind_eq (date_text d.date (unspaced_cons (by decide))), bind_eq mark_cons,
    bind_eq (hourMinute_padded d.time.hour_lt d.time.minute_lt)]
  dsimp only
  rw [bind_eq (seconds_text d.time)]
  dsimp only
  rw [TimeOfDay.make?_self]
  rfl

theorem timeOfDay_starts (t : TimeOfDay) : ∃ c s, t.text = c :: s ∧ isDigit c = true := by
  obtain ⟨c, s, hs⟩ := List.exists_cons_of_ne_nil (padded_ne_nil 2 t.hour)
  have hc : isDigit c = true := allDigits_padded 2 t.hour c (by simp [hs])
  rw [TimeOfDay.text, hs]
  exact ⟨c, _, rfl, hc⟩

theorem dateTime_spaced (d : DateTime) : dateTime d.text = none := by
  obtain ⟨c, s, ht, hc⟩ := timeOfDay_starts d.time
  have hskip : skipBlanks (' ' :: c :: s) = c :: s := by
    change skipBlanks (c :: s) = _
    exact skipBlanks_of_unspaced (unspaced_cons (not_isBlank_of_isDigit hc))
  rw [dateTime, DateTime.text, DateTime.textWith, ht, bind_eq (date_text_append d.date _), hskip]
  exact bind_none (mark_ne (ne_of_isDigit hc rfl)) _

theorem all?_eq {r : Reader α} {a : α} (h : r s = some (a, [])) : all? r s = some a := by
  have hrun : r.run s = some (a, []) := h
  rw [all?, hrun]

theorem all?_none {r : Reader α} (h : r s = none) : all? r s = none := by
  have hrun : r.run s = none := h
  rw [all?, hrun]

end Calendar.Reader

open Calendar.Reader

theorem Date.ofText?_text (d : Date) : Date.ofText? d.text = some d := by
  have h : date (d.text ++ []) = some (d, []) := date_text d (by simp [Text.Unspaced])
  rw [List.append_nil] at h
  exact all?_eq h

theorem TimeOfDay.ofText?_text (t : TimeOfDay) : TimeOfDay.ofText? t.text = some t :=
  all?_eq (timeOfDay_text t)

theorem DateTime.ofText?_textWith (d : DateTime) :
    DateTime.ofText? (d.textWith 'T') = some d :=
  all?_eq (dateTime_text d)

theorem DateTime.ofText?_text (d : DateTime) : DateTime.ofText? d.text = none :=
  all?_none (dateTime_spaced d)

end BoundSql
