import BoundSql.Sqlite.Wire
import BoundSql.Proofs.Value.Reading

namespace BoundSql.Sqlite.Wire

/-- A Boolean or a number, of any width. -/
def IsInteger : Value → Prop
  | .bool _ | .int _ _ => True
  | _ => False

theorem lo_i64_le {w : Width} (n : Sized w) : Width.i64.lo ≤ n.val :=
  Int.le_trans (by cases w <;> decide) n.lo_le

theorem le_hi_i64 {w : Width} (n : Sized w) (h : w ≠ .u64) : n.val ≤ Width.i64.hi := by
  have hn := n.le_hi
  cases w <;> first | exact absurd rfl h | exact Int.le_trans hn (by decide)

theorem holds_small {w : Width} (n : Sized w) (h : n.val ≤ Width.i64.hi) :
    (decode (encode (.int w n))).Holds (.int w n) := by
  rw [encode, Sized.ofInt?_of_contains ⟨lo_i64_le n, h⟩]
  exact ⟨n, Value.toSized_int (by rfl) w.name, rfl⟩

theorem convert_large {w : Width} (n : Sized w) (h : Width.i64.hi < n.val) :
    decode (encode (.int w n)) = .string (toString n.val) ∧
      (decode (encode (.int w n))).convert (.int w) =
        .error (.typeConversion w.name "string") := by
  have hd : decode (encode (.int w n)) = .string (toString n.val) := by
    rw [encode, Sized.ofInt?_of_not_contains fun hr ↦ Int.not_lt.2 hr.2 h]
    simp [decode, Utf8.decodeLossy_encode]
  rw [hd]
  exact ⟨rfl, rfl⟩

/-- A Boolean and every integer of up to 64 bits comes back, but for the unsigned ones beyond the
signed range. -/
theorem stored_integers_read_back (v : Value) (hv : IsInteger v) :
    (decode (encode v)).Holds v ↔ ∀ n : Sized .u64, v = .int .u64 n → n.val ≤ Width.i64.hi := by
  cases v with
  | bool b =>
    refine iff_of_true ?_ (by simp)
    cases b <;> exact ⟨_, rfl, rfl⟩
  | int w n =>
    constructor
    · rintro ⟨c, hc, -⟩ m hm
      by_contra hlt
      cases hm
      have herror := (convert_large m (Int.not_le.1 hlt)).2
      cases herror.symm.trans hc
    · intro h
      refine holds_small n ?_
      by_cases hw : w = .u64
      · subst hw
        exact h n rfl
      · exact le_hi_i64 n hw
  | _ => exact absurd hv id

theorem stored_integers_read_back_last :
    IsInteger (.int .u64 ⟨2 ^ 63 - 1, by decide, by decide⟩) ∧
      (decode (encode (.int .u64 ⟨2 ^ 63 - 1, by decide, by decide⟩))).Holds
        (.int .u64 ⟨2 ^ 63 - 1, by decide, by decide⟩) := by
  have hv : IsInteger (.int .u64 ⟨2 ^ 63 - 1, by decide, by decide⟩) := trivial
  refine ⟨hv, (stored_integers_read_back _ hv).2 fun n hn ↦ ?_⟩
  cases hn
  decide

/-- The largest unsigned number does not come back. -/
theorem stored_largest_lost :
    ¬(decode (encode (.int .u64 ⟨2 ^ 64 - 1, by decide, by decide⟩))).Holds
      (.int .u64 ⟨2 ^ 64 - 1, by decide, by decide⟩) := by
  rintro ⟨c, hc, -⟩
  have herror := (convert_large (w := .u64) ⟨2 ^ 64 - 1, by decide, by decide⟩ (by decide)).2
  cases herror.symm.trans hc

theorem decode_ofText (s : List Char) : decode (ofText s) = .string (String.ofList s) := by
  simp [ofText, decode, Utf8.decodeLossy_encode]

theorem stored_texts_read_back :
    (∀ d : Date, (decode (encode (.date d))).convert .date = .ok d) ∧
    (∀ d : DateTime, (decode (encode (.dateTime d))).convert .dateTime = .ok d) ∧
    (∀ t : TimeOfDay, (decode (encode (.time t))).convert .time = .ok t) ∧
    (∀ d : Decimal, ∃ e, (decode (encode (.decimal d))).convert .decimal = .ok e ∧
      e.equal d = true) ∧
    ∀ j : Json, j.FloatFree 127 → (decode (encode (.json j))).convert .json = .ok j := by
  refine ⟨?_, ?_, ?_, ?_, ?_⟩
  · intro d
    rw [encode, decode_ofText]
    exact Value.toDate_text d
  · intro d
    rw [encode, decode_ofText]
    exact Value.toDateTime_text d
  · intro t
    rw [encode, decode_ofText]
    exact Value.toTime_text t
  · intro d
    rw [encode, decode_ofText]
    exact ⟨d.unsignZero, Value.toDecimal_text d, d.equal_unsignZero⟩
  · intro j hj
    rw [encode, decode_ofText]
    exact Value.toJson_print hj

theorem stored_texts_read_back_object :
    let j := Json.object [("a", .array [.integer ⟨-1, by decide, by decide⟩]), ("b", .null)]
    j.FloatFree 127 ∧ (decode (encode (.json j))).convert .json = .ok j := by
  have hfree : Json.FloatFree 127
      (.object [("a", .array [.integer ⟨-1, by decide, by decide⟩]), ("b", .null)]) := by
    have hab : "a" < "b" := by decide
    apply Json.FloatFree.object
    · simp only [List.pairwise_cons, List.forall_mem_cons]
      exact ⟨⟨hab, by simp⟩, by simp, .nil⟩
    · simp only [List.forall_mem_cons]
      exact ⟨.array (by simp [Json.FloatFree.integer]), .null, by simp⟩
  exact ⟨hfree, stored_texts_read_back.2.2.2.2 _ hfree⟩

end BoundSql.Sqlite.Wire
