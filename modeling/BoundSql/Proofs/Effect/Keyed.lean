import BoundSql.Effect.Memory
import Mathlib.Data.List.Perm.Basic
import Mathlib.Data.List.Nodup

namespace BoundSql.Memory

variable {κ α β : Type} [BEq κ] {k k' : κ} {a : α} {l : List (κ × α)}

theorem eraseKey_subset (k : κ) (l : List (κ × α)) : eraseKey k l ⊆ l := List.filter_subset_self l

theorem nodup_eraseKey (h : (l.map Prod.fst).Nodup) : ((eraseKey k l).map Prod.fst).Nodup :=
  h.sublist (List.filter_sublist.map Prod.fst)

theorem lookup_map (f : α → β) (k : κ) (l : List (κ × α)) :
    (l.map (Prod.map id f)).lookup k = (l.lookup k).map f := by
  induction l with
  | nil => rfl
  | cons p l ih =>
    obtain ⟨j, a⟩ := p
    rw [List.map_cons, Prod.map_apply, id, List.lookup_cons, List.lookup_cons, ih]
    cases k == j <;> rfl

theorem eraseKey_map (f : α → β) (k : κ) (l : List (κ × α)) :
    eraseKey k (l.map (Prod.map id f)) = (eraseKey k l).map (Prod.map id f) := by
  rw [eraseKey, List.filter_map]
  rfl

theorem setKey_map (f : α → β) (k : κ) (a : α) (l : List (κ × α)) :
    setKey k (f a) (l.map (Prod.map id f)) = (setKey k a l).map (Prod.map id f) := by
  rw [setKey, eraseKey_map]
  rfl

variable [LawfulBEq κ]

theorem lookup_eq_none_iff_ne : l.lookup k = none ↔ ∀ p ∈ l, p.1 ≠ k := by
  simp only [List.lookup_eq_none_iff, bne_iff_ne, ne_comm]

theorem mem_of_lookup (h : l.lookup k = some a) : (k, a) ∈ l := by
  obtain ⟨l₁, l₂, rfl, -⟩ := List.lookup_eq_some_iff.1 h
  exact List.mem_append_right _ List.mem_cons_self

theorem mem_eraseKey {p : κ × α} : p ∈ eraseKey k l ↔ p ∈ l ∧ p.1 ≠ k := by
  simp [eraseKey, bne_iff_ne]

theorem mem_setKey {p : κ × α} : p ∈ setKey k a l ↔ p = (k, a) ∨ p ∈ l ∧ p.1 ≠ k := by
  simp [setKey, mem_eraseKey]

@[simp] theorem lookup_eraseKey_self : (eraseKey k l).lookup k = none := by
  rw [lookup_eq_none_iff_ne]
  exact fun p hp ↦ (mem_eraseKey.1 hp).2

theorem lookup_eraseKey_ne (h : k' ≠ k) : (eraseKey k l).lookup k' = l.lookup k' := by
  induction l with
  | nil => rfl
  | cons p l ih =>
    obtain ⟨j, b⟩ := p
    unfold eraseKey at ih ⊢
    by_cases hj : j = k
    · subst hj
      have hk : (k' == j) = false := by simpa using h
      simp [List.lookup_cons, ih, hk]
    · have hf : (j != k) = true := by simpa using hj
      rw [List.filter_cons, if_pos hf, List.lookup_cons, List.lookup_cons, ih]

@[simp] theorem lookup_setKey_self : (setKey k a l).lookup k = some a := by simp [setKey]

theorem lookup_setKey_ne (h : k' ≠ k) : (setKey k a l).lookup k' = l.lookup k' := by
  have hk : (k' == k) = false := by simpa using h
  rw [setKey, List.lookup_cons, hk, lookup_eraseKey_ne h]

theorem eraseKey_of_lookup (h : l.lookup k = none) : eraseKey k l = l := by
  refine List.filter_eq_self.2 fun p hp ↦ ?_
  simpa using lookup_eq_none_iff_ne.1 h p hp

theorem eraseKey_setKey : eraseKey k (setKey k a l) = eraseKey k l := by
  simp [setKey, eraseKey]

theorem nodup_setKey (h : (l.map Prod.fst).Nodup) : ((setKey k a l).map Prod.fst).Nodup := by
  rw [setKey, List.map_cons, List.nodup_cons]
  refine ⟨?_, nodup_eraseKey h⟩
  rintro hm
  obtain ⟨p, hp, he⟩ := List.mem_map.1 hm
  exact (mem_eraseKey.1 hp).2 he

theorem perm_eraseKey (h : (l.map Prod.fst).Nodup) (hk : l.lookup k = some a) :
    l.Perm ((k, a) :: eraseKey k l) := by
  induction l with
  | nil => simp at hk
  | cons p l ih =>
    obtain ⟨j, b⟩ := p
    rw [List.map_cons, List.nodup_cons] at h
    by_cases hj : k = j
    · subst hj
      rw [List.lookup_cons_self, Option.some.injEq] at hk
      subst hk
      have hn : l.lookup k = none := lookup_eq_none_iff_ne.2 fun q hq he ↦
        h.1 (List.mem_map.2 ⟨q, hq, he⟩)
      have he : eraseKey k ((k, b) :: l) = l := by
        simpa [eraseKey] using eraseKey_of_lookup hn
      rw [he]
    · have hb : (k == j) = false := by simpa using hj
      rw [List.lookup_cons, hb] at hk
      have hf : (j != k) = true := by simpa using Ne.symm hj
      have he : eraseKey k ((j, b) :: l) = (j, b) :: eraseKey k l := by
        simp [eraseKey, hf]
      rw [he]
      exact ((ih h.2 hk).cons _).trans (List.Perm.swap _ _ _)

theorem count_eraseKey_add_le [BEq β] (f : α → List β) (b : β) (k : κ) (l : List (κ × α)) :
    ((eraseKey k l).flatMap fun p ↦ f p.2).count b + ((l.lookup k).elim [] f).count b ≤
      (l.flatMap fun p ↦ f p.2).count b := by
  induction l with
  | nil => simp [eraseKey]
  | cons p l ih =>
    obtain ⟨j, a⟩ := p
    by_cases hj : k = j
    · subst hj
      have herase : eraseKey k ((k, a) :: l) = eraseKey k l := by simp [eraseKey]
      rw [herase, List.lookup_cons_self]
      simp only [Option.elim, List.flatMap_cons, List.count_append]
      omega
    · have hne : (k == j) = false := by simpa using hj
      have herase : eraseKey k ((j, a) :: l) = (j, a) :: eraseKey k l := by
        simp [eraseKey, Ne.symm hj]
      rw [herase, List.lookup_cons, hne]
      simp only [List.flatMap_cons, List.count_append]
      omega

end BoundSql.Memory
