import Mathlib.Data.List.Induction
import BoundSql.Text.Utf8

namespace BoundSql.Utf8

def bytes (s : List Char) : Bytes := s.flatMap String.utf8EncodeChar

def size (s : List Char) : Nat := (bytes s).length

def OnlyAscii (p : Char → Bool) : Prop := ∀ c, p c → c.toNat < 128

def isByte (p : Char → Bool) (b : UInt8) : Bool := b.toNat < 128 && p (Char.ofUInt8 b)

def holdsAt (p : Char → Bool) (bs : Bytes) (pos : Nat) : Bool := bs[pos]?.any (isByte p)

theorem lt_of_holdsAt {p : Char → Bool} {bs : Bytes} {pos : Nat} (h : holdsAt p bs pos) :
    pos < bs.length := by
  rcases Nat.lt_or_ge pos bs.length with hl | hl
  · exact hl
  · simp [holdsAt, List.getElem?_eq_none hl] at h

def runEnd (p : Char → Bool) (bs : Bytes) (pos : Nat) : Nat :=
  if _h : holdsAt p bs pos then runEnd p bs (pos + 1) else pos
termination_by bs.length - pos
decreasing_by
  have := lt_of_holdsAt _h
  omega

def find? (p : Char → Bool) (bs : Bytes) : Option Nat := bs.findIdx? (isByte p)

def rfind? (p : Char → Bool) (bs : Bytes) : Option Nat :=
  (bs.reverse.findIdx? (isByte p)).map (bs.length - 1 - ·)

/-- The part of `s` from byte `start` to byte `stop`, or nothing where one of the two lies within a
character or past the end. -/
def cut? (s : String) (start stop : Nat) : Option String := do
  let a ← s.pos? ⟨start⟩
  let b ← s.pos? ⟨stop⟩
  if a ≤ b then some (s.extract a b) else none

section

variable {p : Char → Bool} {c : Char} {b : UInt8} {bs cs : Bytes} {s t before rest : List Char}
  {pos : Nat}

@[simp]
theorem bytes_nil : bytes [] = [] := rfl

theorem bytes_cons : bytes (c :: s) = String.utf8EncodeChar c ++ bytes s := rfl

theorem bytes_append : bytes (s ++ t) = bytes s ++ bytes t := by simp [bytes]

@[simp]
theorem size_nil : size [] = 0 := rfl

@[simp]
theorem size_append : size (s ++ t) = size s + size t := by simp [size, bytes_append]

theorem size_cons : size (c :: s) = c.utf8Size + size s := by simp [size, bytes_cons]

theorem encode_eq_bytes (s : String) : encode s = bytes s.toList := by
  rw [encode, ← String.utf8Encode_toList, List.utf8Encode]
  simp [bytes]

theorem size_eq_utf8ByteSize (s : List Char) : size s = (String.ofList s).utf8ByteSize := by
  have h := encode_eq_bytes (String.ofList s)
  rw [String.toList_ofList] at h
  rw [size, ← h, encode, ← String.size_toByteArray]
  rfl

theorem utf8Size_eq_one (h : c.toNat < 128) : c.utf8Size = 1 := by
  rw [Char.utf8Size_eq_one_iff, UInt32.le_iff_toNat_le]
  exact Nat.le_of_lt_succ h

theorem utf8EncodeChar_ascii (h : c.toNat < 128) : String.utf8EncodeChar c = [c.toUInt8] :=
  String.utf8EncodeChar_eq_singleton (utf8Size_eq_one h)

theorem le_or (a : UInt8) {m : UInt8} (h : 128 ≤ m.toNat) : 128 ≤ (a ||| m).toNat := by
  rw [UInt8.toNat_or]
  exact Nat.le_trans h Nat.right_le_or

theorem le_of_mem_utf8EncodeChar (h : ¬c.toNat < 128) (hb : b ∈ String.utf8EncodeChar c) :
    128 ≤ b.toNat := by
  obtain hs | hs | hs | hs := Char.utf8Size_eq c
  · refine absurd ?_ h
    exact Nat.lt_succ_of_le (UInt32.le_iff_toNat_le.1 (Char.utf8Size_eq_one_iff.1 hs))
  · rw [String.utf8EncodeChar_eq_cons_cons hs] at hb
    simp only [List.mem_cons, List.not_mem_nil, or_false] at hb
    obtain rfl | rfl := hb <;> exact le_or _ (by decide)
  · rw [String.utf8EncodeChar_eq_cons_cons_cons hs] at hb
    simp only [List.mem_cons, List.not_mem_nil, or_false] at hb
    obtain rfl | rfl | rfl := hb <;> exact le_or _ (by decide)
  · rw [String.utf8EncodeChar_eq_cons_cons_cons_cons hs] at hb
    simp only [List.mem_cons, List.not_mem_nil, or_false] at hb
    obtain rfl | rfl | rfl | rfl := hb <;> exact le_or _ (by decide)

theorem isByte_ascii (h : c.toNat < 128) : isByte p c.toUInt8 = p c := by
  have hn : c.toUInt8.toNat = c.toNat := Nat.mod_eq_of_lt (Nat.lt_trans h (by decide))
  have hc : Char.ofUInt8 c.toUInt8 = c := by
    apply Char.ext
    apply UInt32.toNat_inj.1
    exact hn
  rw [isByte, hn, hc]
  simp [h]

theorem isByte_high (h : 128 ≤ b.toNat) : isByte p b = false := by
  have : ¬b.toNat < 128 := Nat.not_lt.2 h
  simp [isByte, this]

theorem exists_utf8EncodeChar (hp : OnlyAscii p) (c : Char) :
    (p c ∧ String.utf8EncodeChar c = [c.toUInt8] ∧ isByte p c.toUInt8) ∨
      (p c = false ∧ ∀ b ∈ String.utf8EncodeChar c, isByte p b = false) := by
  by_cases h : c.toNat < 128
  · cases hc : p c with
    | true => exact .inl ⟨rfl, utf8EncodeChar_ascii h, by rw [isByte_ascii h, hc]⟩
    | false =>
      refine .inr ⟨rfl, fun b hb ↦ ?_⟩
      rw [utf8EncodeChar_ascii h, List.mem_singleton] at hb
      rw [hb, isByte_ascii h, hc]
  · refine .inr ⟨?_, fun b hb ↦ isByte_high (le_of_mem_utf8EncodeChar h hb)⟩
    exact Bool.eq_false_iff.2 fun hc ↦ h (hp c hc)

theorem holdsAt_append (p : Char → Bool) (bs cs : Bytes) (k : Nat) :
    holdsAt p (bs ++ cs) (bs.length + k) = holdsAt p cs k := by
  rw [holdsAt, List.getElem?_append_right (by omega), Nat.add_sub_cancel_left]
  rfl

theorem holdsAt_bytes (hp : OnlyAscii p) (before rest : List Char) :
    holdsAt p (bytes (before ++ rest)) (size before) = rest.head?.any p := by
  rw [bytes_append, ← Nat.add_zero (size before), size, holdsAt_append]
  cases rest with
  | nil => rfl
  | cons c r =>
    rw [bytes_cons]
    obtain ⟨hc, he, hb⟩ | ⟨hc, hb⟩ := exists_utf8EncodeChar hp c
    · rw [he]
      simp [holdsAt, hc, hb]
    · obtain ⟨b, cs, hcs⟩ := List.exists_cons_of_ne_nil (String.utf8EncodeChar_ne_nil (c := c))
      rw [hcs] at hb ⊢
      simp [holdsAt, hc, hb]

theorem holdsAt_within {k : Nat} (h₀ : 0 < k) (h : k < c.utf8Size) :
    holdsAt p (bytes (before ++ c :: rest)) (size before + k) = false := by
  have hl : k < (String.utf8EncodeChar c).length := by simpa using h
  have hc : ¬c.toNat < 128 := fun hc ↦ by
    rw [utf8Size_eq_one hc] at h
    omega
  rw [bytes_append, size, holdsAt_append, bytes_cons, holdsAt, List.getElem?_append_left hl,
    List.getElem?_eq_getElem hl]
  simpa using isByte_high (le_of_mem_utf8EncodeChar hc (List.getElem_mem hl))

theorem runEnd_bytes (hp : OnlyAscii p) (before rest : List Char) :
    runEnd p (bytes (before ++ rest)) (size before) = size before + size (rest.takeWhile p) := by
  induction rest generalizing before with
  | nil =>
    have hh := holdsAt_bytes hp before []
    rw [runEnd, dif_neg (by rw [hh]; simp)]
    rfl
  | cons c r ih =>
    have hh := holdsAt_bytes hp before (c :: r)
    cases hc : p c with
    | true =>
      have hs : size (before ++ [c]) = size before + 1 := by
        rw [size_append, size_cons, utf8Size_eq_one (hp c hc), size_nil]
      have hr := ih (before ++ [c])
      rw [List.append_assoc, List.singleton_append, hs] at hr
      rw [runEnd, dif_pos (by simp [hh, hc]), hr, List.takeWhile_cons_of_pos hc, size_cons,
        utf8Size_eq_one (hp c hc)]
      omega
    | false =>
      rw [runEnd, dif_neg (by simp [hh, hc]), List.takeWhile_cons_of_neg (by simp [hc])]
      rfl

theorem find?_bytes (hp : OnlyAscii p) (s : List Char) :
    (find? p (bytes s)).getD (size s) = size (s.takeWhile (!p ·)) := by
  induction s with
  | nil => rfl
  | cons c s ih =>
    rw [bytes_cons, size_cons, find?]
    obtain ⟨hc, he, hb⟩ | ⟨hc, hb⟩ := exists_utf8EncodeChar hp c
    · rw [he, List.singleton_append, List.findIdx?_cons, if_pos hb]
      simp [hc]
    · rw [List.findIdx?_append, List.findIdx?_eq_none_iff.2 hb,
        List.takeWhile_cons_of_pos (by simp [hc]), size_cons, ← ih, String.length_utf8EncodeChar]
      cases hf : (bytes s).findIdx? (isByte p) <;> simp [find?, hf, Nat.add_comm]

theorem rfind?_append (h : ∀ b ∈ cs, isByte p b = false) :
    rfind? p (bs ++ cs) = rfind? p bs := by
  have hr : cs.reverse.findIdx? (isByte p) = none := by
    rw [List.findIdx?_eq_none_iff]
    intro b hb
    exact h b (List.mem_reverse.1 hb)
  rw [rfind?, List.reverse_append, List.findIdx?_append, hr, Option.none_or, Option.map_map, rfind?]
  congr 1
  funext i
  simp only [Function.comp_apply, List.length_append, List.length_reverse]
  omega

theorem rfind?_bytes (hp : OnlyAscii p) (s : List Char) :
    (rfind? p (bytes s)).elim 0 (· + 1) + size (s.reverse.takeWhile (!p ·)).reverse = size s := by
  induction s using List.reverseRecOn with
  | nil => rfl
  | append_singleton s c ih =>
    rw [List.reverse_append, List.reverse_singleton, List.singleton_append]
    obtain ⟨hc, he, hb⟩ | ⟨hc, hb⟩ := exists_utf8EncodeChar hp c
    · have hs : bytes (s ++ [c]) = bytes s ++ [c.toUInt8] := by
        rw [bytes_append, bytes_cons, he]
        rfl
      rw [List.takeWhile_cons_of_neg (by simp [hc]), size, size, hs, rfind?, List.reverse_append,
        List.reverse_singleton, List.singleton_append, List.findIdx?_cons, if_pos hb]
      simp
    · rw [List.takeWhile_cons_of_pos (by simp [hc]), bytes_append, List.reverse_cons, size_append,
        size_append, bytes_cons, bytes_nil, List.append_nil, rfind?_append hb, ← ih]
      omega

theorem exists_pos? {s a b : String} (h : s = a ++ b) :
    ∃ x, s.pos? ⟨a.utf8ByteSize⟩ = some x ∧ x.offset = ⟨a.utf8ByteSize⟩ := by
  have hv : (⟨a.utf8ByteSize⟩ : String.Pos.Raw).IsValid s :=
    String.Pos.Raw.isValid_iff_exists_append.2 ⟨a, b, h, rfl⟩
  have hs := String.Pos.Raw.isValidForSlice_eq_true_iff.2 hv.toSlice
  rw [String.pos?, String.Slice.pos?, dif_pos hs]
  exact ⟨_, rfl, rfl⟩

theorem cut?_append (a b c : String) :
    cut? (a ++ b ++ c) a.utf8ByteSize (a.utf8ByteSize + b.utf8ByteSize) = some b := by
  have ha : a ++ b ++ c = a ++ (b ++ c) := String.append_assoc
  obtain ⟨x, hx, hox⟩ := exists_pos? ha
  obtain ⟨y, hy, hoy⟩ := exists_pos? (s := a ++ b ++ c) rfl
  rw [String.utf8ByteSize_append] at hy hoy
  have hle : x ≤ y := by
    rw [String.Pos.le_iff, hox, hoy, String.Pos.Raw.le_iff]
    exact Nat.le_add_right _ _
  have he : (a ++ b ++ c).extract x y = b := by
    apply String.toByteArray_inj.1
    have hb := ByteArray.extract_append_eq_left (a := b.toByteArray) (b := c.toByteArray) rfl
    rw [String.toByteArray_extract, hox, hoy, ha, String.toByteArray_append,
      String.toByteArray_append, ← Nat.add_zero a.utf8ByteSize]
    rw [← ByteArray.extract_append_size_add' (a := a.toByteArray)
      String.size_toByteArray.symm] at hb
    exact hb
  rw [cut?, hx, hy]
  simp [hle, he]

theorem cut?_eq {source : String} (a b c : List Char) (h : source.toList = a ++ b ++ c) :
    cut? source (size a) (size a + size b) = some (String.ofList b) := by
  have hs : source = String.ofList a ++ String.ofList b ++ String.ofList c := by
    rw [← String.ofList_append, ← String.ofList_append, ← h, String.ofList_toList]
  rw [hs, size_eq_utf8ByteSize, size_eq_utf8ByteSize]
  exact cut?_append _ _ _

end

end BoundSql.Utf8
