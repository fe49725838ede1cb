import BoundSql.Proofs.Template.Seams
import Mathlib.Data.List.Nodup

namespace BoundSql

theorem Text.digits_injective : Function.Injective digits :=
  Function.LeftInverse.injective ofDigits_digits

namespace Marker

open Template (skip draw_skip)

def label (lead : String) (n : Nat) : String := lead ++ toString n

theorem label_injective (lead : String) : Function.Injective (label lead) := by
  intro m n h
  have hs : toString m = toString n := (String.append_right_inj lead).1 h
  rw [Nat.toString_eq_ofList_toDigits, Nat.toString_eq_ofList_toDigits] at hs
  exact Text.digits_injective (String.ofList_injective hs)

/-- The first `n` markers of a policy that starts at `first`. -/
def labels (lead : String) (first n : Nat) : List String :=
  (List.range n).map fun k ↦ label lead (first + k)

theorem nodup_labels (lead : String) (first n : Nat) : (labels lead first n).Nodup := by
  have hinj : Function.Injective fun k ↦ label lead (first + k) :=
    fun k l h ↦ Nat.add_left_cancel (label_injective lead h)
  exact List.nodup_range.map hinj

theorem labels_cons (lead : String) (first n : Nat) :
    labels lead first (n + 1) = label lead first :: labels lead (first + 1) n := by
  simp only [labels, List.range_succ_eq_map, List.map_cons, List.map_map, Nat.add_zero,
    List.cons.injEq, true_and]
  refine List.map_congr_left fun k _ ↦ ?_
  rw [Nat.add_assoc, Nat.add_comm 1]
  rfl

theorem labels_concat (lead : String) (first n : Nat) :
    labels lead first (n + 1) = labels lead first n ++ [label lead (first + n)] := by
  rw [labels, List.range_succ, List.map_append]
  rfl

namespace Generator

variable {lead : String} {start : UInt64} {k n : Nat}

theorem next_ofNat_of_lt (h : n + 1 < UInt64.size) :
    next (numbered lead (.ofNat n)) = (.ok (label lead n), numbered lead (.ofNat (n + 1))) := by
  have hn : (UInt64.ofNat n).toNat = n := UInt64.toNat_ofNat_of_lt' (by omega)
  have hlt : (UInt64.ofNat n).toNat + 1 < UInt64.size := by rwa [hn]
  rw [next_numbered_of_lt hlt, hn]
  rfl

theorem next_ofNat_of_eq (h : n + 1 = UInt64.size) :
    next (numbered lead (.ofNat n)) =
      (.error "attempt to add with overflow", numbered lead (.ofNat n)) := by
  have hn : (UInt64.ofNat n).toNat = n := UInt64.toNat_ofNat_of_lt' (by omega)
  exact next_numbered_of_le (by omega)

theorem take_ofNat_of_lt (h : k + n < UInt64.size) :
    take n (numbered lead (.ofNat k)) = .ok (labels lead k n) := by
  induction n generalizing k with
  | zero => rfl
  | succ n ih =>
    have hrest : take n (numbered lead (.ofNat (k + 1))) = .ok (labels lead (k + 1) n) :=
      ih (by omega)
    rw [take, next_ofNat_of_lt (by omega)]
    dsimp only
    rw [hrest, labels_cons]
    rfl

theorem take_ofNat_of_le (hk : k < UInt64.size) (h : UInt64.size ≤ k + n) :
    take n (numbered lead (.ofNat k)) = .error "attempt to add with overflow" := by
  induction n generalizing k with
  | zero => omega
  | succ n ih =>
    rw [take]
    by_cases hlast : k + 1 = UInt64.size
    · rw [next_ofNat_of_eq hlast]
      rfl
    · rw [next_ofNat_of_lt (by omega)]
      dsimp only
      rw [ih (by omega) (by omega)]
      rfl

theorem skip_ofNat (h : k + n < UInt64.size) :
    skip next n (numbered lead (.ofNat k)) = numbered lead (.ofNat (k + n)) := by
  induction n with
  | zero => rfl
  | succ n ih => rw [← draw_skip, ih (by omega), next_ofNat_of_lt (by omega), Nat.add_assoc]

end Generator

/-- Generators of one policy in use at the same time, each with the markers it has handed out. -/
inductive InUse (policy : Marker) : List (Generator × List String) → Prop
  | nil : InUse policy []
  | start {us : List (Generator × List String)} :
      InUse policy us → InUse policy (us ++ [(policy.generator, [])])
  | ask {us : List (Generator × List String)} {i : Nat} {g g' : Generator} {ms : List String}
      {m : String} : InUse policy us → us[i]? = some (g, ms) → g.next = (.ok m, g') →
        InUse policy (us.set i (g', ms ++ [m]))
  | overflow {us : List (Generator × List String)} {i : Nat} {g g' : Generator}
      {ms : List String} {message : String} : InUse policy us → us[i]? = some (g, ms) →
        g.next = (.error message, g') → InUse policy (us.set i (g', ms))

/-- The generator has handed out the markers from the first one on, whatever the others did. -/
structure Counted (lead : String) (first : Nat) (g : Generator) (ms : List String) : Prop where
  inRange : first + ms.length < UInt64.size
  counter : g = .numbered lead (.ofNat (first + ms.length))
  handed : ms = labels lead first ms.length

variable {lead : String} {first : Nat} {g g' : Generator} {m message : String}
  {ms : List String} {us : List (Generator × List String)}

theorem Counted.start (lead : String) (start : UInt64) :
    Counted lead start.toNat (numbered lead start).generator [] :=
  ⟨start.toNat_lt, congrArg (Generator.numbered lead) UInt64.ofNat_toNat.symm, rfl⟩

theorem Counted.ask (h : Counted lead first g ms) (hm : g.next = (.ok m, g')) :
    Counted lead first g' (ms ++ [m]) := by
  obtain ⟨hlt, rfl, hms⟩ := h
  have hlength : (ms ++ [m]).length = ms.length + 1 := by simp
  by_cases hlast : first + ms.length + 1 = UInt64.size
  · rw [Generator.next_ofNat_of_eq hlast] at hm
    cases hm
  · rw [Generator.next_ofNat_of_lt (by omega)] at hm
    cases hm
    exact ⟨by omega, by rw [hlength, Nat.add_assoc], by rw [hlength, labels_concat, ← hms]⟩

theorem Counted.overflow (h : Counted lead first g ms) (hm : g.next = (.error message, g')) :
    Counted lead first g' ms := by
  obtain ⟨hlt, rfl, hms⟩ := h
  by_cases hlast : first + ms.length + 1 = UInt64.size
  · rw [Generator.next_ofNat_of_eq hlast] at hm
    cases hm
    exact ⟨hlt, rfl, hms⟩
  · rw [Generator.next_ofNat_of_lt (by omega)] at hm
    cases hm

theorem InUse.counted {start : UInt64} (h : InUse (numbered lead start) us) :
    ∀ u ∈ us, Counted lead start.toNat u.1 u.2 := by
  induction h with
  | nil => simp
  | start _ ih =>
    intro u hu
    obtain hu | hu := List.mem_append.1 hu
    · exact ih u hu
    · rw [List.mem_singleton.1 hu]
      exact .start lead start
  | ask _ hi hm ih =>
    intro u hu
    obtain hu | rfl := List.mem_or_eq_of_mem_set hu
    · exact ih u hu
    · exact (ih _ (List.mem_of_getElem? hi)).ask hm
  | overflow _ hi hm ih =>
    intro u hu
    obtain hu | rfl := List.mem_or_eq_of_mem_set hu
    · exact ih u hu
    · exact (ih _ (List.mem_of_getElem? hi)).overflow hm

/-- The markers of a numbered policy are the numbers from the first one on behind the lead, no two of
them the same, as long as the number behind the last one is in range; asked for one more, the
generator panics. Every generator of the policy hands them out from the beginning, however the
generators take turns. -/
theorem numbered_markers_count_up (lead : String) (start : UInt64) (n : Nat) :
    (start.toNat + n < UInt64.size →
      (numbered lead start).generator.take n = .ok (labels lead start.toNat n)) ∧
    (UInt64.size ≤ start.toNat + n →
      (numbered lead start).generator.take n = .error "attempt to add with overflow") ∧
    (labels lead start.toNat n).Nodup ∧
    (∀ k, start.toNat + k < UInt64.size → ∃ counter : UInt64, counter.toNat = start.toNat + k ∧
      skip Generator.next k (numbered lead start).generator = .numbered lead counter) ∧
    ∀ us, InUse (numbered lead start) us → ∀ g ms, (g, ms) ∈ us →
      start.toNat + ms.length < UInt64.size ∧ ms = labels lead start.toNat ms.length := by
  have hstart : (numbered lead start).generator = .numbered lead (.ofNat start.toNat) :=
    congrArg (Generator.numbered lead) UInt64.ofNat_toNat.symm
  rw [hstart]
  refine ⟨Generator.take_ofNat_of_lt, Generator.take_ofNat_of_le start.toNat_lt,
    nodup_labels lead start.toNat n, fun k hk ↦ ?_, ?_⟩
  · exact ⟨_, UInt64.toNat_ofNat_of_lt' hk, Generator.skip_ofNat hk⟩
  · intro us hu g ms hm
    have hcounted := hu.counted _ hm
    exact ⟨hcounted.inRange, hcounted.handed⟩

/-- The one marker up to the end of the range is not handed out. -/
theorem last_number_overflows :
    (18446744073709551615 : UInt64).toNat + 1 - 1 ≤ UInt64.size - 1 ∧
    (numbered "$" 18446744073709551615).generator.take 1 = .error "attempt to add with overflow" ∧
    labels "$" (18446744073709551615 : UInt64).toNat 1 = ["$18446744073709551615"] :=
  ⟨by decide, rfl, by decide +kernel⟩

end Marker

end BoundSql
