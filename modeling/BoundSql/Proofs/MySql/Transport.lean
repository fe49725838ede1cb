import BoundSql.MySql.Wire
import BoundSql.Proofs.Value.Reading

namespace BoundSql

namespace TimeOfDay

def wholeMicros (t : TimeOfDay) : TimeOfDay :=
  have h := t.nano_lt
  have h' := t.leap
  ⟨t.hour, t.minute, t.second, t.nano / 1000 * 1000, t.hour_lt, t.minute_lt, t.second_lt,
    by omega, by omega⟩

end TimeOfDay

namespace Value

def wholeMicros : Value → Value
  | dateTime d => dateTime ⟨d.date, d.time.wholeMicros⟩
  | time t => time t.wholeMicros
  | v => v

def year? : Value → Option Int
  | date d => some d.year
  | dateTime d => some d.date.year
  | _ => none

end Value

namespace Date

def wrapped? (d : Date) : Option Date := make? (d.year % 2 ^ 16) d.month d.day

theorem year_of_wrapped? {d e : Date} (h : d.wrapped? = some e) : e.year = d.year % 2 ^ 16 := by
  rw [wrapped?, make?] at h
  split at h
  · cases h
    rfl
  · cases h

theorem wrapped?_eq_self_iff (d : Date) : d.wrapped? = some d ↔ 0 ≤ d.year ∧ d.year < 2 ^ 16 := by
  constructor
  · intro h
    have hy := year_of_wrapped? h
    omega
  · intro h
    rw [wrapped?, Int.emod_eq_of_lt h.1 h.2, make?_self]

end Date

namespace MySql.Wire

variable {v : Value} {d e : Date} {t : TimeOfDay}

/-- What a value comes back as, when it was sent, holds the whole microseconds of it. -/
def ComesBack (v : Value) : Prop := ∃ w, decode (encode v) = .ok w ∧ w.Holds v.wholeMicros

theorem micro_lt (t : TimeOfDay) : t.nano / 1000 < UInt32.size := by
  have hn := t.nano_lt
  have hs : UInt32.size = 2 ^ 32 := rfl
  omega

theorem clock_ofNat (t : TimeOfDay) :
    clock (.ofNat t.hour) (.ofNat t.minute) (.ofNat t.second) (.ofNat (t.nano / 1000)) =
      .ok t.wholeMicros := by
  have hmake : TimeOfDay.make? t.hour t.minute t.second (t.nano / 1000 * 1000) =
      some t.wholeMicros := TimeOfDay.make?_self t.wholeMicros
  rw [clock, UInt8.toNat_ofNat_of_lt' (Nat.lt_trans t.hour_lt (by decide)),
    UInt8.toNat_ofNat_of_lt' (Nat.lt_trans t.minute_lt (by decide)),
    UInt8.toNat_ofNat_of_lt' (Nat.lt_trans t.second_lt (by decide)),
    UInt32.toNat_ofNat_of_lt' (micro_lt t), hmake]

theorem wholeMicros_eq_midnight (hh : UInt8.ofNat t.hour = 0) (hm : UInt8.ofNat t.minute = 0)
    (hs : UInt8.ofNat t.second = 0) (hn : UInt32.ofNat (t.nano / 1000) = 0) :
    t.wholeMicros = .midnight := by
  have hclock := clock_ofNat t
  rw [hh, hm, hs, hn] at hclock
  exact (Except.ok.inj hclock).symm

theorem date_ofNat (d : Date) :
    Date.make? (UInt16.ofNat (d.year % 2 ^ 16).toNat).toNat (UInt8.ofNat d.month).toNat
      (UInt8.ofNat d.day).toNat = d.wrapped? := by
  have hyear : (d.year % 2 ^ 16).toNat < UInt16.size := by
    have hs : UInt16.size = 2 ^ 16 := rfl
    omega
  rw [UInt8.toNat_ofNat_of_lt' (Nat.lt_of_le_of_lt d.month_mem.2 (by decide)),
    UInt8.toNat_ofNat_of_lt' (Nat.lt_of_le_of_lt d.day_le (by decide)),
    UInt16.toNat_ofNat_of_lt' hyear, Int.toNat_of_nonneg (by omega), Date.wrapped?]

theorem decode_ofDateTime_none (h : d.wrapped? = none) : ∃ f, decode (ofDateTime d t) = .error f := by
  rw [← date_ofNat] at h
  rw [ofDateTime, decode, h]
  exact ⟨_, rfl⟩

theorem decode_ofDateTime_some (h : d.wrapped? = some e) : ∃ w, decode (ofDateTime d t) = .ok w ∧
    w.toDate = .ok e ∧ w.toDateTime = .ok ⟨e, t.wholeMicros⟩ := by
  rw [← date_ofNat] at h
  rw [ofDateTime, decode, h]
  dsimp only
  split_ifs with hzero
  · rw [wholeMicros_eq_midnight hzero.1 hzero.2.1 hzero.2.2.1 hzero.2.2.2]
    exact ⟨_, rfl, rfl, rfl⟩
  · rw [clock_ofNat]
    exact ⟨_, rfl, rfl, rfl⟩

theorem ofDateTime_holds_iff
    (hv : ∀ {w : Value} {e : Date}, w.toDate = .ok e → w.toDateTime = .ok ⟨e, t.wholeMicros⟩ →
      (w.Holds v ↔ e = d)) :
    (∃ w, decode (ofDateTime d t) = .ok w ∧ w.Holds v) ↔ 0 ≤ d.year ∧ d.year < 2 ^ 16 := by
  rw [← Date.wrapped?_eq_self_iff]
  constructor
  · rintro ⟨w, hw, hholds⟩
    cases hwrap : d.wrapped? with
    | none =>
      obtain ⟨f, hf⟩ := decode_ofDateTime_none (t := t) hwrap
      rw [hf] at hw
      cases hw
    | some e =>
      obtain ⟨w', hw', hdate, htime⟩ := decode_ofDateTime_some (t := t) hwrap
      cases hw'.symm.trans hw
      rw [(hv hdate htime).1 hholds]
  · intro h
    obtain ⟨w, hw, hdate, htime⟩ := decode_ofDateTime_some (t := t) h
    exact ⟨w, hw, (hv hdate htime).2 rfl⟩

theorem comesBack_date_iff (d : Date) :
    ComesBack (.date d) ↔ 0 ≤ d.year ∧ d.year < 2 ^ 16 := by
  refine ofDateTime_holds_iff fun {w e} hdate _ ↦ ?_
  constructor
  · rintro ⟨c, hc, hsame⟩
    cases hdate.symm.trans hc
    exact Value.date.inj hsame
  · rintro rfl
    exact ⟨e, hdate, rfl⟩

theorem comesBack_dateTime_iff (d : DateTime) :
    ComesBack (.dateTime d) ↔ 0 ≤ d.date.year ∧ d.date.year < 2 ^ 16 := by
  refine ofDateTime_holds_iff fun {w e} _ htime ↦ ?_
  constructor
  · rintro ⟨c, hc, hsame⟩
    cases htime.symm.trans hc
    exact congrArg DateTime.date (Value.dateTime.inj hsame)
  · rintro rfl
    exact ⟨_, htime, rfl⟩

theorem comesBack_time (t : TimeOfDay) : ComesBack (.time t) := by
  have hhour : ¬((false : Bool) = true ∨ (0 : UInt32) < 0 ∨ (24 : UInt8) ≤ UInt8.ofNat t.hour) := by
    rw [UInt8.le_iff_toNat_le, UInt8.toNat_ofNat_of_lt' (Nat.lt_trans t.hour_lt (by decide))]
    simpa using t.hour_lt
  rw [ComesBack, encode, decode, if_neg hhour, clock_ofNat]
  exact ⟨_, rfl, _, rfl, rfl⟩

theorem decode_text (s : String) : decode (bytes (Utf8.encode s)) = .ok (.string s) := by
  rw [decode, Utf8.decode?_encode]

theorem comesBack_int {w : Width} (n : Sized w) : ComesBack (.int w n) := by
  obtain ⟨v, m, hd, hm⟩ : ∃ v m, decode (ofSized w n) = .ok (.int v m) ∧ n.val = m.val := by
    cases w <;> exact ⟨_, _, rfl, rfl⟩
  exact ⟨_, hd, n, Value.toSized_int hm w.name, rfl⟩

theorem comesBack_bytes (b : Utf8.Bytes) : ComesBack (.bytes b) := by
  rw [ComesBack, encode, decode]
  cases h : Utf8.decode? b with
  | none => exact ⟨_, rfl, b, rfl, rfl⟩
  | some s =>
    rw [Utf8.eq_encode_of_decode? h]
    exact ⟨_, rfl, _, rfl, rfl⟩

theorem comesBack_of_undated (hyear : v.year? = none) (hnull : v ≠ .null)
    (hjson : ∀ j, v = .json j → j.FloatFree 127) : ComesBack v := by
  cases v with
  | null => exact absurd rfl hnull
  | bool b => cases b <;> exact ⟨_, rfl, _, rfl, rfl⟩
  | int w n => exact comesBack_int n
  | f32 x => exact ⟨_, rfl, x, rfl, rfl⟩
  | f64 x => exact ⟨_, rfl, x, rfl, rfl⟩
  | string s => exact ⟨_, decode_text s, s, rfl, rfl⟩
  | bytes b => exact comesBack_bytes b
  | date d => cases hyear
  | dateTime d => cases hyear
  | time t => exact comesBack_time t
  | decimal d =>
    exact ⟨_, decode_text _, d.unsignZero, Value.toDecimal_text d, d.equal_unsignZero⟩
  | json j => exact ⟨_, decode_text _, j, Value.toJson_print (hjson j rfl), rfl⟩

/-- A value with a year comes back just where 16 bits have a place for it, everything else always.
-/
theorem sent_values_come_back (v : Value) (hnull : v ≠ .null)
    (hjson : ∀ j, v = .json j → j.FloatFree 127) :
    ComesBack v ↔ ∀ y ∈ v.year?, 0 ≤ y ∧ y < 2 ^ 16 := by
  cases v with
  | date d =>
    rw [comesBack_date_iff]
    simp [Value.year?]
  | dateTime d =>
    rw [comesBack_dateTime_iff]
    simp [Value.year?]
  | _ => exact iff_of_true (comesBack_of_undated rfl hnull hjson) (by simp [Value.year?])

theorem sent_values_come_back_json :
    Json.FloatFree 127 (.array [.bool true]) ∧ ComesBack (.json (.array [.bool true])) := by
  have hfree : Json.FloatFree 127 (.array [.bool true]) := .array (by simp [Json.FloatFree.bool])
  refine ⟨hfree, (sent_values_come_back _ (by simp) ?_).2 (by simp [Value.year?])⟩
  rintro j ⟨⟩
  exact hfree

/-- The year 70000 comes back as 4464. -/
theorem sent_far_year_wraps :
    decode (encode (.date ⟨70000, 1, 1, by decide, by decide, by decide⟩)) =
        .ok (.date ⟨4464, 1, 1, by decide, by decide, by decide⟩) ∧
      ¬ComesBack (.date ⟨70000, 1, 1, by decide, by decide, by decide⟩) := by
  refine ⟨rfl, fun h ↦ ?_⟩
  have hyear := ((comesBack_date_iff _).1 h).2
  exact absurd hyear (by decide)

end MySql.Wire

end BoundSql
