import BoundSql.Proofs.Value.Reading
import BoundSql.Row.Return

namespace BoundSql

/-- The integer types that a caller can ask for. -/
inductive IntegerType
  | int (w : Width)
  | size

namespace IntegerType

def width : IntegerType → Width
  | int w => w
  | size => .u64

def name : IntegerType → String
  | int w => w.name
  | size => "usize"

def target : IntegerType → Target
  | int w => .int w
  | size => .size

def count : IntegerType → Count
  | int w => .int w
  | size => .size

/-- A number of the range as a result of the type. -/
def result : (k : IntegerType) → Sized k.width → k.target.Carrier
  | int _, m => m
  | size, m => m

theorem ofCarrier_result (k : IntegerType) (m : Sized k.width) :
    Value.ofCarrier k.target (k.result m) = .int k.width m := by
  cases k <;> rfl

theorem convert_target (k : IntegerType) (v : Value) :
    v.convert k.target = (v.toSized k.name k.width).map k.result := by
  cases k with
  | int w => exact (congrFun Except.map_id (v.toSized w.name w)).symm
  | size => exact (congrFun Except.map_id (v.toSized "usize" .u64)).symm

theorem ofAffected_count (k : IntegerType) (n : Nat) :
    k.count.ofAffected n =
      (Count.sized k.name k.width n).map fun m ↦ .scalar k.target (k.result m) := by
  cases k <;> rfl

end IntegerType

variable {v w : Width} {k : IntegerType}

namespace Count

variable {n : Nat}

theorem ofAffected_contained (h : k.width.Contains n) :
    ∃ m : Sized k.width, k.count.ofAffected n = .ok (.scalar k.target (k.result m)) ∧ m.val = n := by
  refine ⟨⟨n, h.1, h.2⟩, ?_, rfl⟩
  rw [k.ofAffected_count, sized, Sized.ofInt?_of_contains h]
  rfl

theorem ofAffected_outside (h : ¬k.width.Contains n) :
    k.count.ofAffected n =
      .error (.typeConversion k.name s!"affected row count {n} out of range") := by
  rw [k.ofAffected_count, sized, Sized.ofInt?_of_not_contains h]
  rfl

end Count

namespace Value

theorem toSized_contained (n : Sized v) (h : w.Contains n.val) (expected : String) :
    toSized expected w (int v n) = .ok ⟨n.val, h.1, h.2⟩ := toSized_int (by rfl) expected

theorem toSized_outside (n : Sized v) (h : ¬w.Contains n.val) (expected : String) :
    toSized expected w (int v n) =
      .error (.typeConversion expected s!"{v.name}({n.val}) out of range") := by
  rw [toSized, Sized.ofInt?_of_not_contains h]
  rfl

theorem convert_contained (n : Sized v) (h : k.width.Contains n.val) :
    ∃ m : Sized k.width, (int v n).convert k.target = .ok (k.result m) ∧ m.val = n.val := by
  refine ⟨⟨n.val, h.1, h.2⟩, ?_, rfl⟩
  rw [k.convert_target, toSized_contained n h]
  rfl

theorem convert_outside (n : Sized v) (h : ¬k.width.Contains n.val) :
    (int v n).convert k.target =
      .error (.typeConversion k.name s!"{v.name}({n.val}) out of range") := by
  rw [k.convert_target, toSized_outside n h]
  rfl

/-- The signed type of 64 bits tells zero from the other numbers: one that it does not take is not
zero. -/
theorem toBool_eq_signed (n : Sized v) : (int v n).toBool =
    .ok (match (int v n).toSized "i64" .i64 with
      | .ok m => decide (m.val ≠ 0)
      | .error _ => true) := by
  by_cases h : Width.i64.Contains n.val
  · rw [toSized_contained n h]
    rfl
  · -- Zero is in every range.
    have hne : n.val ≠ 0 := fun h0 ↦ h (h0 ▸ ⟨Width.i64.lo_nonpos, Width.i64.hi_nonneg⟩)
    rw [toSized_outside n h]
    exact congrArg Except.ok (decide_eq_true hne)

/-- Converts to one type after the other; each result is the next value. -/
def convertAll (v : Value) : List Target → Except Error Value
  | [] => .ok v
  | t :: ts => do
    let c ← v.convert t
    (ofCarrier t c).convertAll ts

theorem convertAll_contained (n : Sized v) {ks : List IntegerType}
    (h : ∀ k ∈ ks, k.width.Contains n.val) :
    ∃ (w : Width) (m : Sized w),
      (int v n).convertAll (ks.map IntegerType.target) = .ok (.int w m) ∧ m.val = n.val := by
  induction ks generalizing v with
  | nil => exact ⟨v, n, rfl, rfl⟩
  | cons k ks ih =>
    obtain ⟨m, hm, hv⟩ := convert_contained n (h k (.head _))
    obtain ⟨w, l, hl, hlv⟩ := ih m fun j hj ↦ hv ▸ h j (.tail _ hj)
    refine ⟨w, l, ?_, hlv.trans hv⟩
    rw [List.map_cons, convertAll, hm]
    change (ofCarrier k.target (k.result m)).convertAll (ks.map IntegerType.target) = _
    rw [k.ofCarrier_result, hl]

/-- A conversion of an integer to an integer type gives the number itself where it lies in the range
of the type, and an error everywhere else; a count of affected rows is converted by the same rule.
Every number but zero is true. Through types that each have the number in their range it comes out
as it went in. -/
theorem integers_convert_exactly :
    (∀ (v : Width) (n : Sized v) (k : IntegerType),
      (k.width.Contains n.val →
        ∃ m : Sized k.width, (int v n).convert k.target = .ok (k.result m) ∧ m.val = n.val) ∧
      (¬k.width.Contains n.val → (int v n).convert k.target =
        .error (.typeConversion k.name s!"{v.name}({n.val}) out of range"))) ∧
    (∀ (v : Width) (n : Sized v), (int v n).convert .bool = .ok (decide (n.val ≠ 0)) ∧
      (int v n).convert .bool = .ok (match (int v n).toSized "i64" .i64 with
        | .ok m => decide (m.val ≠ 0)
        | .error _ => true)) ∧
    (∀ (n : Nat) (k : IntegerType),
      (k.width.Contains n → ∃ m : Sized k.width,
        k.count.ofAffected n = .ok (.scalar k.target (k.result m)) ∧ m.val = n) ∧
      (¬k.width.Contains n → k.count.ofAffected n =
        .error (.typeConversion k.name s!"affected row count {n} out of range"))) ∧
    ∀ (v : Width) (n : Sized v) (ks : List IntegerType), (∀ k ∈ ks, k.width.Contains n.val) →
      ∃ (w : Width) (m : Sized w),
        (int v n).convertAll (ks.map IntegerType.target) = .ok (.int w m) ∧ m.val = n.val := by
  refine ⟨fun v n k ↦ ⟨convert_contained n, convert_outside n⟩, fun v n ↦ ⟨rfl, toBool_eq_signed n⟩,
    fun n k ↦ ⟨Count.ofAffected_contained, Count.ofAffected_outside⟩,
    fun v n ks ↦ convertAll_contained n⟩

def beyondSigned : Sized .u64 := ⟨2 ^ 63, by decide, by decide⟩

theorem integers_convert_exactly_beyondSigned :
    IntegerType.size.width.Contains beyondSigned.val ∧
    ¬(IntegerType.int .i64).width.Contains beyondSigned.val ∧
    (∃ m : Sized .u64, (int .u64 beyondSigned).convert .size = .ok m ∧ m.val = 2 ^ 63) ∧
    (int .u64 beyondSigned).convert (.int .i64) =
      .error (.typeConversion "i64" "u64(9223372036854775808) out of range") ∧
    (int .u64 beyondSigned).convert .bool = .ok true ∧
    (Count.int .i64).ofAffected (2 ^ 63) =
      .error (.typeConversion "i64" "affected row count 9223372036854775808 out of range") ∧
    ∃ (w : Width) (m : Sized w),
      (int .u64 beyondSigned).convertAll [.size, .int .u64, .size] = .ok (.int w m) ∧
        m.val = 2 ^ 63 := by
  obtain ⟨htype, hbool, hcount, hchain⟩ := integers_convert_exactly
  have hsize : IntegerType.size.width.Contains beyondSigned.val := ⟨by decide, by decide⟩
  have hsigned : ¬(IntegerType.int .i64).width.Contains beyondSigned.val := fun h ↦
    absurd h.2 (by decide)
  refine ⟨hsize, hsigned, (htype _ _ .size).1 hsize, (htype _ _ (.int .i64)).2 hsigned,
    (hbool _ beyondSigned).1, (hcount (2 ^ 63) (.int .i64)).2 hsigned,
    hchain _ beyondSigned [.size, .int .u64, .size] ?_⟩
  simp only [List.mem_cons, List.not_mem_nil, or_false]
  rintro k (rfl | rfl | rfl) <;> exact hsize

end Value

/-- The widths of integers that a type takes: Booleans and the integer types take them all, of the
other types only two take any. -/
def Target.Takes : Target → Width → Prop
  | .bool, _ | .int _, _ | .size, _ => True
  | .f64, w => w = .i32 ∨ w = .i64
  | .decimal, w => w = .i64 ∨ w = .u64
  | _, _ => False

theorem Sized.natAbs_lt (n : Sized v) : n.val.natAbs < 2 ^ 96 := by
  have hlo := n.lo_le
  have hhi := n.le_hi
  cases v <;> simp only [Width.lo, Width.hi] at hlo hhi <;> omega

theorem Decimal.exists_ofInt? (n : Sized v) : ∃ d, Decimal.ofInt? n.val = some d :=
  ⟨_, dif_pos ⟨n.natAbs_lt, by decide⟩⟩

namespace Value

/-- Both fail, or both give the same. -/
inductive Agree {α : Type} : Except Error α → Except Error α → Prop
  | ok (a : α) : Agree (.ok a) (.ok a)
  | error (e e' : Error) : Agree (.error e) (.error e')

variable {t : Target} {a : Sized v} {b : Sized w}

theorem convert_f64 (hv : Target.f64.Takes v) (n : Sized v) :
    (int v n).convert .f64 = .ok (Binary.ofInt n.val) := by
  obtain rfl | rfl := hv <;> rfl

theorem convert_decimal (hv : Target.decimal.Takes v) (n : Sized v) {d : Decimal}
    (hd : Decimal.ofInt? n.val = some d) : (int v n).convert .decimal = .ok d := by
  have hr : ofReading "decimal" (int v n) (Decimal.ofInt? n.val) = .ok d := by
    rw [hd]
    rfl
  obtain rfl | rfl := hv <;> exact hr

theorem agree_integerType (k : IntegerType) (h : a.val = b.val) :
    Agree ((int v a).convert k.target) ((int w b).convert k.target) := by
  by_cases hk : k.width.Contains a.val
  · obtain ⟨m, hm, hma⟩ := convert_contained a hk
    obtain ⟨l, hl, hlb⟩ := convert_contained b (h ▸ hk)
    obtain rfl : m = l := Sized.ext (hma.trans (h.trans hlb.symm))
    rw [hm, hl]
    exact .ok _
  · rw [convert_outside a hk, convert_outside b (h ▸ hk)]
    exact .error _ _

theorem agree_of_takes (h : a.val = b.val) (hv : t.Takes v) (hw : t.Takes w) :
    Agree ((int v a).convert t) ((int w b).convert t) := by
  cases t with
  | bool =>
    change Agree (.ok (decide (a.val ≠ 0))) (.ok (decide (b.val ≠ 0)))
    rw [h]
    exact .ok _
  | int u => exact agree_integerType (.int u) h
  | size => exact agree_integerType .size h
  | f64 =>
    rw [convert_f64 hv, convert_f64 hw, h]
    exact .ok _
  | decimal =>
    obtain ⟨d, hd⟩ := Decimal.exists_ofInt? b
    rw [convert_decimal hv a (h ▸ hd), convert_decimal hw b hd]
    exact .ok _
  | _ => exact hv.elim

theorem exists_error (ht : t ≠ .value) (hv : ¬t.Takes v) (a : Sized v) :
    ∃ expected, (int v a).convert t = .error (.typeConversion expected v.name) := by
  cases t with
  | bool | int _ | size => exact absurd trivial hv
  | f64 =>
    cases v with
    | i32 => exact absurd (.inl rfl) hv
    | i64 => exact absurd (.inr rfl) hv
    | _ => exact ⟨"f64", rfl⟩
  | decimal =>
    cases v with
    | i64 => exact absurd (.inl rfl) hv
    | u64 => exact absurd (.inr rfl) hv
    | _ => exact ⟨"decimal", rfl⟩
  | value => exact absurd rfl ht
  | _ => exact ⟨_, rfl⟩

theorem exists_ok (hw : ¬t.Takes w) (hv : t.Takes v) (a : Sized v) :
    ∃ c, (int v a).convert t = .ok c := by
  cases t with
  | bool | int _ | size => exact absurd trivial hw
  | f64 => exact ⟨_, convert_f64 hv a⟩
  | decimal =>
    obtain ⟨d, hd⟩ := Decimal.exists_ofInt? a
    exact ⟨d, convert_decimal hv a hd⟩
  | _ => exact hv.elim

theorem not_agree (ht : t ≠ .value) (hv : t.Takes v) (hw : ¬t.Takes w) (a : Sized v) (b : Sized w) :
    ¬Agree ((int v a).convert t) ((int w b).convert t) ∧
      ¬Agree ((int w b).convert t) ((int v a).convert t) := by
  obtain ⟨c, hc⟩ := exists_ok hw hv a
  obtain ⟨expected, he⟩ := exists_error ht hw b
  rw [hc, he]
  exact ⟨nofun, nofun⟩

/-- One number in integers of two widths converts alike exactly if the type takes both widths or
neither. -/
theorem widths_agree_iff (t : Target) (ht : t ≠ .value) (a : Sized v) (b : Sized w)
    (h : a.val = b.val) :
    Agree ((int v a).convert t) ((int w b).convert t) ↔ (t.Takes v ↔ t.Takes w) := by
  by_cases hv : t.Takes v <;> by_cases hw : t.Takes w
  · exact iff_of_true (agree_of_takes h hv hw) (iff_of_true hv hw)
  · exact iff_of_false (not_agree ht hv hw a b).1 fun hi ↦ hw (hi.1 hv)
  · exact iff_of_false (not_agree ht hw hv b a).2 fun hi ↦ hv (hi.2 hw)
  · obtain ⟨x, hx⟩ := exists_error ht hv a
    obtain ⟨y, hy⟩ := exists_error ht hw b
    rw [hx, hy]
    exact iff_of_true (.error _ _) (iff_of_false hv hw)

/-- The largest signed number, in the two types of 64 bits. -/
theorem widths_agree_iff_largest :
    let a : Sized .i64 := ⟨2 ^ 63 - 1, by decide, by decide⟩
    let b : Sized .u64 := ⟨2 ^ 63 - 1, by decide, by decide⟩
    Target.decimal ≠ .value ∧ a.val = b.val ∧
      Agree ((int .i64 a).convert .decimal) ((int .u64 b).convert .decimal) ∧
      Agree ((int .i64 a).convert (.int .i32)) ((int .u64 b).convert (.int .i32)) := by
  intro a b
  have ht : Target.decimal ≠ .value := by decide
  refine ⟨ht, rfl, (widths_agree_iff .decimal ht a b rfl).2 ?_,
    (widths_agree_iff (.int .i32) (by decide) a b rfl).2 Iff.rfl⟩
  exact iff_of_true (.inl rfl) (.inr rfl)

/-- As a floating-point number one is taken from the signed type of 64 bits and not from the unsigned
type, as a decimal from that type and not from a smaller one. -/
theorem widths_disagree_one :
    ¬Agree ((int .i64 .one).convert .f64) ((int .u64 .one).convert .f64) ∧
      ¬Agree ((int .i64 .one).convert .decimal) ((int .i32 .one).convert .decimal) :=
  ⟨nofun, nofun⟩

end Value

end BoundSql
