import BoundSql.Proofs.Template.Reading

namespace BoundSql.Template

def WellPlaced (s : List Char) : Prop :=
  ∀ before rest, s = before ++ rest → Opens rest →
    ∃ p after, Placeholder.WellFormed p ∧ rest = p.text.toList ++ after

theorem WellPlaced.of_append {s t : List Char} (h : WellPlaced (s ++ t)) : WellPlaced t :=
  fun before rest he ↦ h (s ++ before) rest (by simp [he])

theorem WellPlaced.exists_scan {s : List Char} (h : WellPlaced s) : ∃ fs, scan s = .ok fs := by
  fun_induction scan s with
  | case1 => exact ⟨[], rfl⟩
  | case2 c r literal ho m hm =>
    obtain ⟨p, after, hp, he⟩ := h [] _ rfl (opener?_isSome_iff.1 (by simp [ho]))
    have hr := readPath_intercalate (c :: r) after p.path [] hp.path_ne_nil hp.isIdentifier
    rw [toList_text, List.cons_append, List.cons.injEq] at he
    rw [he.2] at hm hr
    simp_all
  | case3 c r literal ho path rest hp ih =>
    obtain ⟨names, -, -, -, hr⟩ := readPath_ok hp
    have hs : c :: r = (c :: r.take 1 ++ (".".intercalate names).toList ++ ['}']) ++ rest := by
      simpa [hr] using (List.take_append_drop 1 r).symm
    obtain ⟨fs, hf⟩ := ih (WellPlaced.of_append (hs ▸ h))
    exact ⟨.placeholder ⟨path, literal⟩ :: fs, by rw [hf]; rfl⟩
  | case4 c r hn ih =>
    have hs : c :: r = (c :: (splitText r).1) ++ (splitText r).2 := by simp [splitText_append]
    obtain ⟨fs, hf⟩ := ih (WellPlaced.of_append (hs ▸ h))
    exact ⟨.text (String.ofList (c :: (splitText r).1)) :: fs, by rw [hf]; rfl⟩

theorem opens_within {f : Fragment} {fs : List Fragment} (h : Canonical (f :: fs))
    {before rest : List Char} (he : f.print.toList = before ++ rest) (hr : rest ≠ []) :
    Opens (rest ++ (print fs).toList) ↔ before = [] ∧ f.isText = false := by
  cases f with
  | text s =>
    obtain ⟨-, hp, -, hf⟩ := canonical_text_cons.1 h
    obtain ⟨c, r, rfl⟩ := List.exists_cons_of_ne_nil hr
    have hq : Plain (c :: r) := fun b t ht ↦ hp (before ++ b) t (by
      rw [Fragment.print] at he
      simp [he, ht])
    simpa [Fragment.isText] using hq.not_opens_append (opens_print hf)
  | placeholder p =>
    obtain ⟨hp, -⟩ := canonical_placeholder_cons.1 h
    cases before with
    | nil =>
      rw [List.nil_append] at he
      rw [← he, Fragment.print]
      simpa [Fragment.isText] using opens_text p _
    | cons c before => simpa using not_opens_inside hp he hr

theorem append_cases {a b before rest : List Char} (h : a ++ b = before ++ rest) :
    (∃ c, before = a ++ c ∧ b = c ++ rest) ∨ ∃ c, c ≠ [] ∧ a = before ++ c ∧ rest = c ++ b := by
  obtain h | ⟨c, ha, hr⟩ := List.append_eq_append_iff.1 h
  · exact .inl h
  · cases c with
    | nil => exact .inl ⟨[], by simp [ha], by simp [hr]⟩
    | cons d c => exact .inr ⟨d :: c, by simp, ha, hr⟩

theorem opens_iff {fs : List Fragment} (h : Canonical fs) {before rest : List Char}
    (he : (print fs).toList = before ++ rest) :
    Opens rest ↔ ∃ gs p ks, fs = gs ++ .placeholder p :: ks ∧ before = (print gs).toList := by
  induction fs generalizing before with
  | nil =>
    obtain ⟨rfl, rfl⟩ : before = [] ∧ rest = [] := by simpa [print] using he
    simp [not_opens_nil]
  | cons f fs ih =>
    have hc : Canonical fs := by
      cases f with
      | text s => exact (canonical_text_cons.1 h).2.2.1
      | placeholder p => exact (canonical_placeholder_cons.1 h).2
    rw [toList_print_cons] at he
    obtain ⟨b, rfl, hb⟩ | ⟨m, hne, hm, rfl⟩ := append_cases he
    · rw [ih hc hb]
      constructor
      · rintro ⟨gs, p, ks, rfl, rfl⟩
        exact ⟨f :: gs, p, ks, rfl, by rw [toList_print_cons]⟩
      · rintro ⟨gs, p, ks, hg, hp⟩
        cases gs with
        | nil => simp [print, print_ne_nil h] at hp
        | cons g gs =>
          rw [List.cons_append, List.cons.injEq] at hg
          obtain ⟨rfl, rfl⟩ := hg
          rw [toList_print_cons, List.append_cancel_left_eq] at hp
          exact ⟨gs, p, ks, rfl, hp⟩
    · rw [opens_within h hm hne]
      constructor
      · rintro ⟨rfl, ht⟩
        cases f with
        | text s => simp [Fragment.isText] at ht
        | placeholder p => exact ⟨[], p, fs, rfl, by simp [print]⟩
      · rintro ⟨gs, p, ks, hg, hp⟩
        cases gs with
        | nil =>
          rw [List.nil_append, List.cons.injEq] at hg
          exact ⟨by simpa [print] using hp, by rw [hg.1]; rfl⟩
        | cons g gs =>
          rw [List.cons_append, List.cons.injEq] at hg
          rw [hg.1, hp, toList_print_cons, List.append_assoc] at hm
          simp [hne] at hm

/-- Parsing reads exactly what printing writes: every canonical list of fragments is read back from
its print, and nothing else is read. -/
theorem parse_fragments_iff (source : String) (fs : List Fragment) :
    (∃ t, parse source = .ok t ∧ t.fragments = fs) ↔ print fs = source ∧ Canonical fs := by
  constructor
  · rintro ⟨t, ht, rfl⟩
    exact print_of_parse ht
  · rintro ⟨rfl, hc⟩
    exact ⟨⟨print fs, fs⟩, parse_of_scan (scan_print hc), rfl⟩

/-- Source can be parsed exactly if all that begins like a placeholder begins a well-formed one.
Then the placeholders read stand at just these places, and all else is text. -/
theorem parse_isOk_iff (source : String) :
    ((∃ t, parse source = .ok t) ↔
      ∀ before rest, source.toList = before ++ rest → Opens rest →
        ∃ p after, Placeholder.WellFormed p ∧ rest = p.text.toList ++ after) ∧
    ∀ t, parse source = .ok t → ∀ before rest, source.toList = before ++ rest →
      (Opens rest ↔ ∃ fs p gs,
        t.fragments = fs ++ .placeholder p :: gs ∧ before = (print fs).toList) := by
  have places : ∀ t, parse source = .ok t → ∀ before rest, source.toList = before ++ rest →
      (Opens rest ↔ ∃ fs p gs,
        t.fragments = fs ++ .placeholder p :: gs ∧ before = (print fs).toList) := by
    intro t ht before rest he
    obtain ⟨hp, hc⟩ := print_of_parse ht
    exact opens_iff hc (hp ▸ he)
  refine ⟨⟨?_, ?_⟩, places⟩
  · rintro ⟨t, ht⟩ before rest he ho
    obtain ⟨hp, hc⟩ := print_of_parse ht
    obtain ⟨fs, p, gs, hf, rfl⟩ := (places t ht before rest he).1 ho
    refine ⟨p, (print gs).toList, hc.wellFormed p (by simp [hf]), ?_⟩
    have hs : source.toList = (print fs).toList ++ (p.text.toList ++ (print gs).toList) := by
      rw [← hp, hf]
      simp [print, Fragment.print]
    exact List.append_cancel_left (he.symm.trans hs)
  · intro h
    obtain ⟨fs, hf⟩ := WellPlaced.exists_scan h
    exact ⟨_, parse_of_scan hf⟩

end BoundSql.Template
