import BoundSql.MySql.Wire

namespace BoundSql.MySql.Wire

variable {w : Wire} {v : Value} {d : Date} {t : TimeOfDay} {year : UInt16}
  {month day hour minute second : UInt8} {micro : UInt32}

theorem clock_eq_ok_iff : clock hour minute second micro = .ok t ↔ t.hour = hour.toNat ∧
    t.minute = minute.toNat ∧ t.second = second.toNat ∧ t.nano = micro.toNat * 1000 := by
  rw [clock, ← TimeOfDay.make?_eq_some_iff]
  cases TimeOfDay.make? hour.toNat minute.toNat second.toNat (micro.toNat * 1000) <;> simp

theorem ofNat_clock (h : clock hour minute second micro = .ok t) :
    UInt8.ofNat t.hour = hour ∧ UInt8.ofNat t.minute = minute ∧ UInt8.ofNat t.second = second ∧
      UInt32.ofNat (t.nano / 1000) = micro := by
  obtain ⟨hh, hm, hs, hn⟩ := clock_eq_ok_iff.1 h
  rw [hh, hm, hs, hn, Nat.mul_div_cancel _ (by decide)]
  simp

theorem ofDateTime_of_fields (hd : Date.make? year.toNat month.toNat day.toNat = some d)
    (ht : clock hour minute second micro = .ok t) :
    ofDateTime d t = date year month day hour minute second micro := by
  obtain ⟨hy, hm, hday⟩ := Date.make?_eq_some_iff.1 hd
  obtain ⟨hh, hmin, hs, hn⟩ := ofNat_clock ht
  have hyear : (d.year % 2 ^ 16).toNat = year.toNat := by
    have hlt := year.toNat_lt
    omega
  rw [ofDateTime, hyear, hm, hday, hh, hmin, hs, hn]
  simp

theorem decode_date_cases (h : decode (date year month day hour minute second micro) = .ok v) :
    ∃ d t, Date.make? year.toNat month.toNat day.toNat = some d ∧
      clock hour minute second micro = .ok t ∧
      (v = .dateTime ⟨d, t⟩ ∨ v = .date d ∧ t = .midnight) := by
  rw [decode] at h
  cases hd : Date.make? year.toNat month.toNat day.toNat with
  | none => simp [hd] at h
  | some d =>
    simp only [hd] at h
    -- Midnight is a date without a time, so the clock is read only where some field is not zero.
    split at h
    case isTrue hzero =>
      obtain ⟨rfl, rfl, rfl, rfl⟩ := hzero
      exact ⟨d, .midnight, rfl, rfl, .inr ⟨(Except.ok.inj h).symm, rfl⟩⟩
    case isFalse =>
      cases ht : clock hour minute second micro with
      | error e =>
        rw [ht] at h
        cases h
      | ok t =>
        rw [ht] at h
        exact ⟨d, t, rfl, rfl, .inl (Except.ok.inj h).symm⟩

theorem encode_of_decode_date (h : decode (date year month day hour minute second micro) = .ok v) :
    encode v = date year month day hour minute second micro := by
  obtain ⟨d, t, hd, ht, rfl | ⟨rfl, rfl⟩⟩ := decode_date_cases h
  · exact ofDateTime_of_fields hd ht
  · -- A date is encoded as midnight of that day, which is what it was read from.
    exact ofDateTime_of_fields hd ht

theorem encode_of_decode_time {negative : Bool} {days : UInt32}
    (h : decode (time negative days hour minute second micro) = .ok v) :
    encode v = time negative days hour minute second micro := by
  rw [decode] at h
  split at h
  case isTrue =>
    cases htotal : wholeHours days hour <;> rw [htotal] at h <;> cases h
  case isFalse hrange =>
    simp only [not_or, Bool.not_eq_true] at hrange
    obtain ⟨rfl, hdays, -⟩ := hrange
    obtain rfl : days = 0 := by
      rw [UInt32.lt_iff_toNat_lt] at hdays
      exact UInt32.toNat_inj.1 (Nat.eq_zero_of_not_pos hdays)
    cases ht : clock hour minute second micro with
    | error e =>
      rw [ht] at h
      cases h
    | ok t =>
      rw [ht] at h
      cases h
      obtain ⟨hh, hm, hs, hn⟩ := ofNat_clock ht
      rw [encode, hh, hm, hs, hn]

theorem encode_of_decode_bytes {b : Utf8.Bytes} (h : decode (bytes b) = .ok v) :
    encode v = bytes b := by
  rw [decode] at h
  cases hs : Utf8.decode? b with
  | none =>
    rw [hs] at h
    cases h
    rfl
  | some s =>
    rw [hs] at h
    cases h
    rw [encode, Utf8.eq_encode_of_decode? hs]

theorem received_values_go_back {w : Wire} {v : Value} (h : decode w = .ok v) : encode v = w := by
  cases w with
  | bytes b => exact encode_of_decode_bytes h
  | date year month day hour minute second micro => exact encode_of_decode_date h
  | time negative days hours minutes seconds micro => exact encode_of_decode_time h
  | null | int n | uint n | float x | double x =>
    cases h
    rfl

/-- Half a second into the leap second that ended the year 2016. -/
theorem received_values_go_back_leap_second :
    let w := date 2016 12 31 23 59 59 1500000
    let v := Value.dateTime ⟨⟨2016, 12, 31, by decide, by decide, by decide⟩,
      ⟨23, 59, 59, 1500000000, by decide, by decide, by decide, by decide, by decide⟩⟩
    decode w = .ok v ∧ encode v = w := by
  have h : decode (date 2016 12 31 23 59 59 1500000) = .ok (.dateTime
      ⟨⟨2016, 12, 31, by decide, by decide, by decide⟩,
        ⟨23, 59, 59, 1500000000, by decide, by decide, by decide, by decide, by decide⟩⟩) := rfl
  exact ⟨h, received_values_go_back h⟩

end BoundSql.MySql.Wire
