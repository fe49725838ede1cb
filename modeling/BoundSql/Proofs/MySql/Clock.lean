import BoundSql.Proofs.MySql.Canonical
import BoundSql.Proofs.MySql.Transport

namespace BoundSql.MySql.Wire

variable {d : DateTime} {t : TimeOfDay} {negative : Bool} {days micro : UInt32}
  {hours minutes seconds : UInt8} {v : Value}

theorem wholeMicros_eq_self_iff (t : TimeOfDay) : t.wholeMicros = t ↔ t.nano % 1000 = 0 := by
  obtain ⟨hour, minute, second, nano, _, _, _, _, _⟩ := t
  simp only [TimeOfDay.wholeMicros, TimeOfDay.mk.injEq, true_and]
  omega

theorem decode_encode_dateTime (hyear : 0 ≤ d.date.year ∧ d.date.year < 2 ^ 16)
    (hmicro : d.time.nano % 1000 = 0) : decode (encode (.dateTime d)) =
      .ok (if d.time = .midnight then .date d.date else .dateTime d) := by
  have hdate := (date_ofNat d.date).trans ((Date.wrapped?_eq_self_iff d.date).2 hyear)
  have htime := (wholeMicros_eq_self_iff d.time).2 hmicro
  rw [encode, ofDateTime, decode, hdate]
  dsimp only
  split
  case isTrue hzero =>
    obtain ⟨hh, hm, hs, hn⟩ := hzero
    rw [if_pos (htime.symm.trans (wholeMicros_eq_midnight hh hm hs hn))]
  case isFalse hzero =>
    have hne : d.time ≠ .midnight := fun h ↦ hzero (by rw [h]; decide)
    rw [clock_ofNat, htime, if_neg hne]
    rfl

/-- A date and time comes back for whoever asks for the date or for both. Asked for its time it comes back
unless that is midnight. -/
theorem sent_dateTimes_read (d : DateTime) (hyear : 0 ≤ d.date.year ∧ d.date.year ≤ 9999)
    (hmicro : d.time.nano % 1000 = 0) : ∃ w, decode (encode (.dateTime d)) = .ok w ∧
      (∀ t ∈ [Target.date, .dateTime], w.convert t = (Value.dateTime d).convert t) ∧
      (w.convert .time = (Value.dateTime d).convert .time ↔ d.time ≠ .midnight) ∧
      w.convert .date = .ok d.date ∧ w.convert .dateTime = .ok d ∧
      w.convert .time =
        if d.time = .midnight then .error (.typeConversion "time" "date") else .ok d.time := by
  have hlt : 0 ≤ d.date.year ∧ d.date.year < 2 ^ 16 := by omega
  refine ⟨_, decode_encode_dateTime hlt hmicro, ?_⟩
  split
  case isTrue hmid =>
    have hboth : d = ⟨d.date, .midnight⟩ := hmid ▸ rfl
    have hdateTime : (Value.date d.date).convert .dateTime = .ok d := congrArg Except.ok hboth.symm
    refine ⟨?_, ?_, rfl, hdateTime, rfl⟩
    · simp only [List.forall_mem_cons, List.not_mem_nil, false_imp_iff, implies_true, and_true]
      exact ⟨rfl, hdateTime⟩
    · exact iff_of_false nofun fun h ↦ h hmid
  case isFalse hmid => exact ⟨fun _ _ ↦ rfl, iff_of_true rfl hmid, rfl, rfl, rfl⟩

/-- The leap second that ended 2016 comes back, and so does its time. -/
theorem sent_dateTimes_read_leap_second :
    let d : DateTime := ⟨⟨2016, 12, 31, by decide, by decide, by decide⟩,
      ⟨23, 59, 59, 1500000000, by decide, by decide, by decide, by decide, fun _ ↦ rfl⟩⟩
    ∃ w, decode (encode (.dateTime d)) = .ok w ∧ w.convert .dateTime = .ok d ∧
      w.convert .time = .ok d.time := by
  intro d
  obtain ⟨w, hdecode, -, -, -, hboth, htime⟩ := sent_dateTimes_read d (by decide) (by decide)
  have hne : d.time ≠ .midnight := by decide
  rw [if_neg hne] at htime
  exact ⟨w, hdecode, hboth, htime⟩

/-- New Year's midnight comes back as a date, which has no time. -/
theorem sent_midnight_has_no_time :
    let d : DateTime := ⟨⟨2024, 1, 1, by decide, by decide, by decide⟩, .midnight⟩
    decode (encode (.dateTime d)) = .ok (.date d.date) ∧
      (Value.date d.date).convert .dateTime = .ok d ∧
      (Value.date d.date).convert .time = .error (.typeConversion "time" "date") ∧
      (Value.dateTime d).convert .time = .ok .midnight :=
  ⟨rfl, rfl, rfl, rfl⟩

def totalHours (days : UInt32) (hours : UInt8) : Nat := days.toNat * 24 + hours.toNat

def beyondDay (negative : Bool) (hours : Nat) (minutes seconds : UInt8) : Error :=
  .typeConversion "time (00:00:00 to 23:59:59)" ((if negative then "-" else "") ++ toString hours ++
    ":" ++ twoDigits minutes ++ ":" ++ twoDigits seconds)

theorem wholeHours_of_lt (h : totalHours days hours < 2 ^ 32) :
    wholeHours days hours = .ok (totalHours days hours) := by
  have hsize : UInt32.size = 2 ^ 32 := rfl
  rw [totalHours] at h ⊢
  have hdays : days.toNat * 24 < UInt32.size := by omega
  rw [wholeHours, checked_of_lt hdays]
  exact checked_of_lt (by omega)

def overflowing (days : UInt32) : String :=
  if days.toNat * 24 < 2 ^ 32 then "attempt to add with overflow"
  else "attempt to multiply with overflow"

theorem wholeHours_of_le (h : 2 ^ 32 ≤ totalHours days hours) :
    wholeHours days hours = .error (overflowing days) := by
  have hsize : UInt32.size = 2 ^ 32 := rfl
  rw [totalHours] at h
  rw [overflowing]
  split
  case isTrue hdays =>
    rw [wholeHours, checked_of_lt (by omega)]
    exact checked_of_le (by omega)
  case isFalse hdays =>
    rw [wholeHours, checked_of_le (by omega)]
    rfl

theorem decode_time_beyond (h : negative ∨ 0 < days ∨ 24 ≤ hours) :
    decode (time negative days hours minutes seconds micro) =
      (Outcome.ofChecked (wholeHours days hours)).bind fun n ↦
        .error (.error (beyondDay negative n minutes seconds)) := by
  rw [decode, if_pos h]
  rfl

theorem decode_time_beyond_of_lt (h : negative ∨ 0 < days ∨ 24 ≤ hours)
    (hn : totalHours days hours < 2 ^ 32) :
    decode (time negative days hours minutes seconds micro) =
      .error (.error (beyondDay negative (totalHours days hours) minutes seconds)) := by
  rw [decode_time_beyond h, wholeHours_of_lt hn]
  rfl

theorem decode_time_of_le (hn : 2 ^ 32 ≤ totalHours days hours) :
    decode (time negative days hours minutes seconds micro) =
      .error (.panic (overflowing days)) := by
  have hdays : 0 < days := by
    rw [UInt32.lt_iff_toNat_lt]
    have hlt := hours.toNat_lt
    rw [totalHours] at hn
    change 0 < days.toNat
    omega
  rw [decode_time_beyond (.inr (.inl hdays)), wholeHours_of_le hn]
  rfl

theorem decode_time_beyond_ne_ok (h : negative ∨ 0 < days ∨ 24 ≤ hours) (v : Value) :
    decode (time negative days hours minutes seconds micro) ≠ .ok v := by
  rcases Nat.lt_or_ge (totalHours days hours) (2 ^ 32) with hn | hn
  · rw [decode_time_beyond_of_lt h hn]
    exact nofun
  · rw [decode_time_of_le hn]
    exact nofun

theorem decode_time_within (h : ¬(negative ∨ 0 < days ∨ 24 ≤ hours)) :
    decode (time negative days hours minutes seconds micro) =
      Outcome.ofResult ((clock hours minutes seconds micro).map .time) := by
  rw [decode, if_neg h]
  cases clock hours minutes seconds micro <;> rfl

theorem not_beyond_iff :
    ¬(negative ∨ 0 < days ∨ 24 ≤ hours) ↔ negative = false ∧ days = 0 ∧ hours.toNat < 24 := by
  rw [not_or, not_or, Bool.not_eq_true, UInt32.lt_iff_toNat_lt, UInt8.le_iff_toNat_le,
    ← UInt32.toNat_inj]
  simp

theorem decode_time_eq_ok_iff : decode (time negative days hours minutes seconds micro) = .ok v ↔
    negative = false ∧ days = 0 ∧ ∃ t : TimeOfDay, v = .time t ∧ t.hour = hours.toNat ∧
      t.minute = minutes.toNat ∧ t.second = seconds.toNat ∧ t.nano = micro.toNat * 1000 := by
  by_cases h : negative ∨ 0 < days ∨ 24 ≤ hours
  · refine iff_of_false (decode_time_beyond_ne_ok h v) ?_
    rintro ⟨hneg, hdays, t, -, hhour, -⟩
    exact not_beyond_iff.2 ⟨hneg, hdays, hhour ▸ t.hour_lt⟩ h
  · obtain ⟨hneg, hdays, -⟩ := not_beyond_iff.1 h
    rw [decode_time_within h]
    cases hclock : clock hours minutes seconds micro with
    | error e =>
      refine iff_of_false nofun ?_
      rintro ⟨-, -, t, -, ht⟩
      cases hclock.symm.trans (clock_eq_ok_iff.2 ht)
    | ok t =>
      constructor
      · intro hv
        exact ⟨hneg, hdays, t, (Except.ok.inj hv).symm, clock_eq_ok_iff.1 hclock⟩
      · rintro ⟨-, -, t', rfl, ht'⟩
        cases hclock.symm.trans (clock_eq_ok_iff.2 ht')
        rfl

theorem exists_timeOfDay_iff {hour minute second nano : Nat} :
    (∃ t : TimeOfDay, t.hour = hour ∧ t.minute = minute ∧ t.second = second ∧ t.nano = nano) ↔
      hour < 24 ∧ minute < 60 ∧ second < 60 ∧ nano < 2 * 10 ^ 9 ∧ (10 ^ 9 ≤ nano → second = 59) := by
  constructor
  · rintro ⟨t, rfl, rfl, rfl, rfl⟩
    exact ⟨t.hour_lt, t.minute_lt, t.second_lt, t.nano_lt, t.leap⟩
  · rintro ⟨hhour, hminute, hsecond, hnano, hleap⟩
    exact ⟨⟨hour, minute, second, nano, hhour, hminute, hsecond, hnano, hleap⟩, rfl, rfl, rfl, rfl⟩

theorem exists_typeConversion (hn : totalHours days hours < 2 ^ 32)
    (h : ∀ v, decode (time negative days hours minutes seconds micro) ≠ .ok v) :
    ∃ expected actual, decode (time negative days hours minutes seconds micro) =
      .error (.error (.typeConversion expected actual)) := by
  by_cases hbeyond : negative ∨ 0 < days ∨ 24 ≤ hours
  · exact ⟨_, _, decode_time_beyond_of_lt hbeyond hn⟩
  · rw [decode_time_within hbeyond] at h ⊢
    rw [clock] at h ⊢
    split
    case h_1 t hmake =>
      rw [hmake] at h
      exact absurd rfl (h (.time t))
    case h_2 => exact ⟨_, _, rfl⟩

theorem decode_time_eq_panic_iff :
    (∃ message, decode (time negative days hours minutes seconds micro) = .error (.panic message)) ↔
      2 ^ 32 ≤ totalHours days hours := by
  refine ⟨fun ⟨message, hpanic⟩ ↦ ?_, fun hn ↦ ⟨_, decode_time_of_le hn⟩⟩
  by_contra hn
  by_cases h : negative ∨ 0 < days ∨ 24 ≤ hours
  · rw [decode_time_beyond_of_lt h (Nat.lt_of_not_le hn)] at hpanic
    cases hpanic
  · rw [decode_time_within h] at hpanic
    cases hclock : clock hours minutes seconds micro <;> rw [hclock] at hpanic <;> cases hpanic

/-- A time is taken just where it is one of a day, a leap second included, and as that time. Counting the
hours of any other one panics, if and only if 32 bits have no place for them; else it is refused, and the
refusal of a negative one, or of a day and more, tells the hours it has. -/
theorem received_times_read (negative : Bool) (days : UInt32) (hours minutes seconds : UInt8)
    (micro : UInt32) :
    let r := decode (time negative days hours minutes seconds micro)
    (∀ v, r = .ok v ↔ negative = false ∧ days = 0 ∧ ∃ t : TimeOfDay, v = .time t ∧
      t.hour = hours.toNat ∧ t.minute = minutes.toNat ∧ t.second = seconds.toNat ∧
        t.nano = micro.toNat * 1000) ∧
    ((∃ v, r = .ok v) ↔ negative = false ∧ days = 0 ∧ hours.toNat < 24 ∧ minutes.toNat < 60 ∧
      seconds.toNat < 60 ∧ micro.toNat < 2 * 10 ^ 6 ∧ (10 ^ 6 ≤ micro.toNat → seconds.toNat = 59)) ∧
    ((∃ message, r = .error (.panic message)) ↔ 2 ^ 32 ≤ totalHours days hours) ∧
    (2 ^ 32 ≤ totalHours days hours → r = .error (.panic (overflowing days))) ∧
    (totalHours days hours < 2 ^ 32 →
      ((∀ v, r ≠ .ok v) → ∃ expected actual, r = .error (.error (.typeConversion expected actual))) ∧
      (negative ∨ 0 < days ∨ 24 ≤ hours →
        r = .error (.error (beyondDay negative (totalHours days hours) minutes seconds)))) := by
  intro r
  refine ⟨fun v ↦ decode_time_eq_ok_iff, ⟨?_, ?_⟩, decode_time_eq_panic_iff, decode_time_of_le,
    fun hn ↦ ⟨exists_typeConversion hn, fun h ↦ decode_time_beyond_of_lt h hn⟩⟩
  · rintro ⟨v, hv⟩
    obtain ⟨hneg, hdays, t, -, ht⟩ := decode_time_eq_ok_iff.1 hv
    obtain ⟨hhour, hminute, hsecond, hnano, hleap⟩ := exists_timeOfDay_iff.1 ⟨t, ht⟩
    exact ⟨hneg, hdays, hhour, hminute, hsecond, by omega, fun hmicro ↦ hleap (by omega)⟩
  · rintro ⟨hneg, hdays, hhour, hminute, hsecond, hmicro, hleap⟩
    obtain ⟨t, ht⟩ := exists_timeOfDay_iff.2
      ⟨hhour, hminute, hsecond, show micro.toNat * 1000 < 2 * 10 ^ 9 by omega,
        fun hnano ↦ hleap (by omega)⟩
    exact ⟨.time t, decode_time_eq_ok_iff.2 ⟨hneg, hdays, t, rfl, ht⟩⟩

/-- More than four billion hours have no place in 32 bits. -/
theorem received_hours_overflow :
    totalHours 178956971 0 = 4294967304 ∧
    decode (time false 178956971 0 0 0 0) = .error (.panic "attempt to multiply with overflow") ∧
    decode (time false 178956970 16 0 0 0) = .error (.panic "attempt to add with overflow") :=
  ⟨by decide, decode_time_of_le (by decide), decode_time_of_le (by decide)⟩

end BoundSql.MySql.Wire
