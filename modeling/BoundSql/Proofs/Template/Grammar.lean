import BoundSql.Template.Parser
import Mathlib.Data.List.Chain

namespace BoundSql

def Template.IsIdentifier (s : String) : Prop :=
  ∃ c r, s.toList = c :: r ∧ c.isAlpha ∧ ∀ d ∈ r, Template.isWord d

/-- The placeholders that template source can hold. -/
structure Placeholder.WellFormed (p : Placeholder) : Prop where
  path_ne_nil : p.path ≠ []
  isIdentifier : ∀ name ∈ p.path, Template.IsIdentifier name

def Fragment.isText : Fragment → Bool
  | .text _ => true
  | .placeholder _ => false

namespace Template

/-- Source that begins like a placeholder. -/
def Opens (s : List Char) : Prop := ∃ c r, s = c :: '{' :: r ∧ (c = '#' ∨ c = '!')

/-- Text in which nothing begins like a placeholder. -/
def Plain (s : List Char) : Prop := ∀ before rest, s = before ++ rest → ¬Opens rest

/-- No text is empty, holds what begins like a placeholder or stands beside another text, and every
placeholder is well-formed. -/
structure Canonical (fs : List Fragment) : Prop where
  text_ne : ∀ s, .text s ∈ fs → s ≠ ""
  plain : ∀ s, .text s ∈ fs → Plain s.toList
  wellFormed : ∀ p, .placeholder p ∈ fs → p.WellFormed
  separate : fs.IsChain fun f g ↦ ¬(f.isText ∧ g.isText)

theorem opener?_eq_some_iff {s : List Char} {literal : Bool} :
    opener? s = some literal ↔ ∃ r, s = (if literal then '!' else '#') :: '{' :: r := by
  fun_cases opener? s with
  | case1 r => cases literal <;> simp
  | case2 r => cases literal <;> simp
  | case3 s h₁ h₂ =>
    cases literal
    · simpa using h₁
    · simpa using h₂

theorem opener?_isSome_iff {s : List Char} : (opener? s).isSome ↔ Opens s := by
  rw [Option.isSome_iff_exists]
  constructor
  · rintro ⟨literal, h⟩
    obtain ⟨r, rfl⟩ := opener?_eq_some_iff.1 h
    exact ⟨_, r, rfl, by cases literal <;> simp⟩
  · rintro ⟨c, r, rfl, rfl | rfl⟩
    · exact ⟨false, rfl⟩
    · exact ⟨true, rfl⟩

theorem opener?_eq_none_iff {s : List Char} : opener? s = none ↔ ¬Opens s := by
  rw [← opener?_isSome_iff, Option.not_isSome_iff_eq_none]

theorem not_opens_nil : ¬Opens [] := by rintro ⟨c, r, h, -⟩; simp at h

theorem not_opens_cons {c : Char} {s : List Char} (h₁ : c ≠ '#') (h₂ : c ≠ '!') :
    ¬Opens (c :: s) := by
  rintro ⟨d, r, h, hd⟩
  simp only [List.cons.injEq] at h
  obtain ⟨rfl, -⟩ := h
  simp_all

theorem toList_text (p : Placeholder) : p.text.toList =
    p.sigil :: '{' :: ((".".intercalate p.path).toList ++ ['}']) := by
  simp [Placeholder.text]

theorem opens_text (p : Placeholder) (rest : List Char) : Opens (p.text.toList ++ rest) := by
  refine ⟨p.sigil, (".".intercalate p.path).toList ++ '}' :: rest, ?_, ?_⟩
  · simp [toList_text]
  · unfold Placeholder.sigil
    split <;> simp

theorem mem_intercalate {names : List String} (h : ∀ name ∈ names, IsIdentifier name) {c : Char}
    (hc : c ∈ (".".intercalate names).toList) : isWord c ∨ c = '.' := by
  induction names with
  | nil => simp at hc
  | cons name names ih =>
    have hn : c ∈ name.toList → isWord c := by
      obtain ⟨d, r, hr, hd, hw⟩ := h name (by simp)
      rw [hr, List.mem_cons]
      rintro (rfl | hc)
      · simp [isWord, Char.isAlphanum, hd]
      · exact hw c hc
    cases names with
    | nil => exact .inl (hn (by simpa using hc))
    | cons name' names =>
      rw [String.intercalate_cons_cons, String.toList_append, String.toList_append] at hc
      simp only [List.mem_append] at hc
      obtain (hc | hc) | hc := hc
      · exact .inl (hn hc)
      · exact .inr (by simpa using hc)
      · exact ih (fun n hm ↦ h n (by simp [hm])) hc

theorem not_opens_inside {p : Placeholder} (hp : p.WellFormed) {c : Char}
    {before rest after : List Char} (h : p.text.toList = (c :: before) ++ rest)
    (hr : rest ≠ []) : ¬Opens (rest ++ after) := by
  obtain ⟨d, r, rfl⟩ := List.exists_cons_of_ne_nil hr
  have hm : d ∈ '{' :: ((".".intercalate p.path).toList ++ ['}']) := by
    rw [toList_text, List.cons_append, List.cons.injEq] at h
    rw [h.2]
    simp
  have hd : d ≠ '#' ∧ d ≠ '!' := by
    simp only [List.mem_cons, List.mem_append, List.not_mem_nil, or_false] at hm
    obtain rfl | hm | rfl := hm
    · decide
    · obtain hw | rfl := mem_intercalate hp.isIdentifier hm
      · constructor <;> rintro rfl <;> revert hw <;> decide
      · decide
    · decide
  exact not_opens_cons hd.1 hd.2

@[simp] theorem canonical_nil : Canonical [] := ⟨by simp, by simp, by simp, .nil⟩

theorem canonical_placeholder_cons {p : Placeholder} {fs : List Fragment} :
    Canonical (.placeholder p :: fs) ↔ p.WellFormed ∧ Canonical fs := by
  constructor
  · intro h
    exact ⟨h.wellFormed p (by simp), fun s hs ↦ h.text_ne s (by simp [hs]),
      fun s hs ↦ h.plain s (by simp [hs]), fun q hq ↦ h.wellFormed q (by simp [hq]),
      h.separate.tail⟩
  · rintro ⟨hp, h⟩
    refine ⟨fun s hs ↦ h.text_ne s (by simpa using hs), fun s hs ↦ h.plain s (by simpa using hs),
      ?_, ?_⟩
    · intro q hq
      obtain hq | hq := List.mem_cons.1 hq
      · cases hq; exact hp
      · exact h.wellFormed q hq
    · exact List.isChain_cons.2 ⟨by simp [Fragment.isText], h.separate⟩

theorem canonical_text_cons {s : String} {fs : List Fragment} :
    Canonical (.text s :: fs) ↔
      s ≠ "" ∧ Plain s.toList ∧ Canonical fs ∧ ∀ f ∈ fs.head?, f.isText = false := by
  constructor
  · intro h
    refine ⟨h.text_ne s (by simp), h.plain s (by simp), ⟨fun s hs ↦ h.text_ne s (by simp [hs]),
      fun s hs ↦ h.plain s (by simp [hs]), fun q hq ↦ h.wellFormed q (by simp [hq]),
      h.separate.tail⟩, ?_⟩
    intro f hf
    simpa [Fragment.isText] using (List.isChain_cons.1 h.separate).1 f hf
  · rintro ⟨hs, hp, h, hf⟩
    refine ⟨?_, ?_, fun q hq ↦ h.wellFormed q (by simpa using hq), ?_⟩
    · intro t ht
      obtain ht | ht := List.mem_cons.1 ht
      · cases ht; exact hs
      · exact h.text_ne t ht
    · intro t ht
      obtain ht | ht := List.mem_cons.1 ht
      · cases ht; exact hp
      · exact h.plain t ht
    · refine List.isChain_cons.2 ⟨fun f hm ↦ ?_, h.separate⟩
      simp [hf f hm]

end Template

end BoundSql
