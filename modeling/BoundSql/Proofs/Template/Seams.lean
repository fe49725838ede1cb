import BoundSql.Proofs.Number.Digits
import BoundSql.Proofs.Template.Rendering
import BoundSql.Proofs.Template.RoundTrip

namespace BoundSql.Template

/-- Text that neither completes what begins before it nor begins what is completed after it. -/
structure Seamless (m : List Char) : Prop where
  ne_nil : m ≠ []
  plain : Plain m
  head : m.head? ≠ some '{'
  last : ∀ c ∈ m.getLast?, c ≠ '#' ∧ c ≠ '!'

theorem plain_of_ne {s : List Char} (h : ∀ c ∈ s, c ≠ '#' ∧ c ≠ '!') : Plain s := by
  rintro before rest rfl ⟨c, r, rfl, hc⟩
  have hd := h c (by simp)
  simp_all

theorem Plain.append {s t : List Char} (hs : Plain s) (ht : Plain t)
    (h : (∀ c ∈ s.getLast?, c ≠ '#' ∧ c ≠ '!') ∨ t.head? ≠ some '{') : Plain (s ++ t) := by
  intro before rest he ho
  obtain ⟨b, -, hb⟩ | ⟨m, hne, hm, rfl⟩ := append_cases he
  · exact ht b rest hb ho
  · obtain ⟨c, r, hr, hc⟩ := ho
    obtain ⟨d, m, rfl⟩ := List.exists_cons_of_ne_nil hne
    rw [List.cons_append, List.cons.injEq] at hr
    obtain ⟨rfl, hr⟩ := hr
    cases m with
    | nil =>
      -- The opener lies across the seam.
      rw [List.nil_append] at hr
      obtain h | h := h
      · have hd := h d (by simp [hm])
        simp_all
      · simp [hr] at h
    | cons e m =>
      rw [List.cons_append, List.cons.injEq] at hr
      obtain ⟨rfl, -⟩ := hr
      exact hs before _ hm ⟨d, m, rfl, hc⟩

/-- Where the lead of numbered markers is plain and completes nothing, the markers are seamless:
each ends in a digit. -/
theorem seamless_numbered {lead : String} (hp : Plain lead.toList)
    (hh : lead.toList.head? ≠ some '{') (n : Nat) :
    Seamless (lead ++ toString n).toList := by
  have hn : (toString n).toList = Text.digits n := by
    rw [Nat.toString_eq_ofList_toDigits, String.toList_ofList]
    rfl
  have hd : ∀ c ∈ Text.digits n, c ≠ '#' ∧ c ≠ '!' ∧ c ≠ '{' := by
    intro c hc
    have h := Text.allDigits_digits n c hc
    exact ⟨Text.ne_of_isDigit h rfl, Text.ne_of_isDigit h rfl, Text.ne_of_isDigit h rfl⟩
  have hne := Text.digits_ne_nil n
  have hhead : (Text.digits n).head? ≠ some '{' := by
    intro h
    exact (hd _ (List.mem_of_mem_head? h)).2.2 rfl
  rw [String.toList_append, hn]
  have hplain : Plain (Text.digits n) := by
    apply plain_of_ne
    intro c hc
    exact ⟨(hd c hc).1, (hd c hc).2.1⟩
  refine ⟨by simp [hne], hp.append hplain (.inr hhead), ?_, ?_⟩
  · cases hl : lead.toList with
    | nil => exact hhead
    | cons c l => simpa [hl] using hh
  · intro c hc
    rw [List.getLast?_append_of_ne_nil _ hne] at hc
    have h := hd c (List.mem_of_mem_getLast? hc)
    exact ⟨h.1, h.2.1⟩

theorem marker_fixed (mark : String) (k : Nat) :
    marker Marker.Generator.next (.fixed mark) k = .ok mark := by
  have hs : skip Marker.Generator.next k (.fixed mark) = .fixed mark := by
    induction k with
    | zero => rfl
    | succ k ih => rw [← skip_draw, Marker.Generator.next, ih]
  rw [marker, hs]
  rfl

theorem exists_next_numbered (lead : String) (n : UInt64) :
    ∃ n', (Marker.Generator.next (.numbered lead n)).2 = .numbered lead n' := by
  by_cases h : n.toNat + 1 < UInt64.size
  · exact ⟨_, congrArg Prod.snd (Marker.Generator.next_numbered_of_lt h)⟩
  · exact ⟨_, congrArg Prod.snd (Marker.Generator.next_numbered_of_le (Nat.le_of_not_lt h))⟩

theorem exists_marker_numbered {lead m : String} {start : UInt64} {k : Nat}
    (hm : marker Marker.Generator.next (.numbered lead start) k = .ok m) :
    ∃ n : Nat, m = lead ++ toString n := by
  induction k generalizing start with
  | zero =>
    by_cases h : start.toNat + 1 < UInt64.size
    · cases (congrArg Prod.fst (Marker.Generator.next_numbered_of_lt h)).symm.trans hm
      exact ⟨start.toNat, rfl⟩
    · cases (congrArg Prod.fst
        (Marker.Generator.next_numbered_of_le (Nat.le_of_not_lt h))).symm.trans hm
  | succ k ih =>
    obtain ⟨n', hn⟩ := exists_next_numbered lead start
    rw [← marker_draw, hn] at hm
    exact ih hm

theorem seamless_policies {policy : Marker} (h : policy ∈ [.questionMark, .format, .dollar])
    {k : Nat} {m : String} (hm : marker Marker.Generator.next policy.generator k = .ok m) :
    Seamless m.toList := by
  have fixed : ∀ {mark : String}, Seamless mark.toList →
      marker Marker.Generator.next (.fixed mark) k = .ok m → Seamless m.toList := by
    intro mark hs hm
    rw [marker_fixed] at hm
    cases hm
    exact hs
  simp only [List.mem_cons, List.not_mem_nil, or_false] at h
  obtain rfl | rfl | rfl := h
  · exact fixed ⟨by simp, plain_of_ne (by simp), by simp, by simp⟩ hm
  · exact fixed ⟨by simp, plain_of_ne (by simp), by simp, by simp⟩ hm
  · obtain ⟨n, rfl⟩ := exists_marker_numbered hm
    exact seamless_numbered (plain_of_ne (by simp)) (by simp) n

section

variable {value : List String → Value} {markers : Nat → String} {fs : List Fragment}

theorem plain_pieces (hc : Canonical fs)
    (hl : ∀ p, .placeholder p ∈ fs → p.literal = false)
    (hm : ∀ k < (bound fs).length, Seamless (markers k).toList) :
    Plain (String.join (pieces value markers fs)).toList ∧
      ((∀ f ∈ fs.head?, f.isText = false) →
        (String.join (pieces value markers fs)).toList.head? ≠ some '{') := by
  induction fs generalizing markers with
  | nil => exact ⟨plain_of_ne (by simp), by simp⟩
  | cons f fs ih =>
    have hl' : ∀ p, .placeholder p ∈ fs → p.literal = false := fun p hp ↦ hl p (.tail _ hp)
    cases f with
    | text s =>
      obtain ⟨-, hs, hc, hf⟩ := canonical_text_cons.1 hc
      obtain ⟨hp, hh⟩ := ih hc hl' hm
      rw [pieces_text, String.join_cons, String.toList_append]
      exact ⟨hs.append hp (.inr (hh hf)), by simp [Fragment.isText]⟩
    | placeholder p =>
      obtain ⟨path, literal⟩ := p
      obtain rfl : literal = false := hl _ (.head _)
      obtain ⟨hp, -⟩ := ih (canonical_placeholder_cons.1 hc).2 hl' fun k hk ↦
        hm (k + 1) (Nat.succ_lt_succ hk)
      rw [pieces_bound, String.join_cons, String.toList_append]
      obtain ⟨hne, hplain, hhead, hlast⟩ := hm 0 (Nat.succ_pos _)
      refine ⟨hplain.append hp (.inl hlast), fun _ ↦ ?_⟩
      rwa [List.head?_append_of_ne_nil _ hne]

theorem join_pieces_eq_print (h : ∀ p, .placeholder p ∉ fs) :
    String.join (pieces value markers fs) = print fs := by
  induction fs generalizing markers with
  | nil => rfl
  | cons f fs ih =>
    have hfs : ∀ p, .placeholder p ∉ fs := fun p hp ↦ h p (.tail _ hp)
    cases f with
    | text s => rw [pieces_text, String.join_cons, ih hfs, print, print, List.map_cons,
        String.join_cons, Fragment.print]
    | placeholder p => exact absurd (.head _) (h p)

theorem bound_eq_nil (h : ∀ p, .placeholder p ∉ fs) : bound fs = [] := by
  induction fs with
  | nil => rfl
  | cons f fs ih =>
    cases f with
    | text s => exact ih fun p hp ↦ h p (.tail _ hp)
    | placeholder p => exact absurd (.head _) (h p)

end

theorem parse_plain {s : String} (h : Plain s.toList) :
    ∃ t, parse s = .ok t ∧ ∀ p, .placeholder p ∉ t.fragments := by
  have hw : WellPlaced s.toList := fun before rest he ho ↦ absurd ho (h before rest he)
  obtain ⟨fs, hf⟩ := hw.exists_scan
  refine ⟨_, parse_of_scan hf, fun p hp ↦ ?_⟩
  obtain ⟨hprint, hc⟩ := print_of_parse (parse_of_scan hf)
  obtain ⟨gs, ks, rfl⟩ := List.append_of_mem hp
  have he : s.toList = (print gs).toList ++ (print (.placeholder p :: ks)).toList := by
    rw [← hprint]
    simp [print]
  exact h _ _ he ((opens_iff hc (hprint ▸ he)).2 ⟨gs, p, ks, rfl, rfl⟩)

theorem renderWith_of_no_placeholder {G : Type} {draw : G → Except String String × G}
    {resolve : List String → Except Error Value} {t : Template}
    (h : ∀ p, .placeholder p ∉ t.fragments) (g : G) :
    renderWith draw resolve t g = (.ok ⟨print t.fragments, []⟩, g) := by
  have hv : ∀ path ∈ t.arguments, resolve path = .ok .null := by
    intro path hp
    obtain ⟨p, hm, -⟩ := mem_arguments.1 hp
    exact absurd hm (h p)
  have hm : ∀ k < (bound t.fragments).length, marker draw g k = .ok "" := by
    rw [bound_eq_nil h]
    exact nofun
  rw [renderWith_ok hv hm, join_pieces_eq_print h, bound_eq_nil h]
  rfl

/-- What a template without literal placeholders renders to has no placeholder left in it, whatever
the values, where the markers complete nothing and hold nothing that begins like a placeholder.
It reads as text alone and renders as it stands, against any arguments and any markers. -/
theorem rendered_text_is_plain {G : Type} (draw : G → Except String String × G)
    (resolve : List String → Except Error Value) (source : String) (t : Template)
    (ht : parse source = .ok t) (hl : ∀ p, .placeholder p ∈ t.fragments → p.literal = false)
    (g : G) (hm : ∀ k m, marker draw g k = .ok m → Seamless m.toList) (r : Rendered) (g' : G)
    (hr : renderWith draw resolve t g = (.ok r, g')) :
    (∀ args, t.render args = renderWith Marker.Generator.next args.resolve t) ∧
    (∃ t', parse r.sql = .ok t' ∧ (∀ p, .placeholder p ∉ t'.fragments) ∧
      ∀ {G' : Type} (draw' : G' → Except String String × G')
        (resolve' : List String → Except Error Value) (h : G'),
        renderWith draw' resolve' t' h = (.ok ⟨r.sql, []⟩, h)) ∧
    ∀ policy ∈ [Marker.questionMark, .format, .dollar], ∀ k m,
      marker Marker.Generator.next policy.generator k = .ok m → Seamless m.toList := by
  obtain ⟨-, hc⟩ := print_of_parse ht
  obtain ⟨value, markers, -, hmarkers, hsql, -⟩ := exists_of_renderWith_ok hr
  have hp : Plain r.sql.toList := by
    rw [hsql]
    exact (plain_pieces hc hl fun k hk ↦ hm k _ (hmarkers k hk)).1
  obtain ⟨t', ht', hn⟩ := parse_plain hp
  refine ⟨render_eq_renderWith t, ⟨t', ht', hn, fun draw' resolve' h ↦ ?_⟩,
    fun policy h k m ↦ seamless_policies h⟩
  rw [renderWith_of_no_placeholder hn, (print_of_parse ht').1]

def parted : Template :=
  ⟨"##\x7ba\x7d\x7bb\x7d!#\x7ba\x7d",
    [.text "#", .placeholder ⟨["a"], false⟩, .text "\x7bb\x7d!", .placeholder ⟨["a"], false⟩]⟩

theorem rendered_text_is_plain_parted :
    parse parted.source = .ok parted ∧
    (∀ p, .placeholder p ∈ parted.fragments → p.literal = false) ∧
    (∀ k m, marker Marker.Generator.next (.numbered "$" 1) k = .ok m → Seamless m.toList) ∧
    renderWith Marker.Generator.next (fun _ ↦ .ok .null) parted (.numbered "$" 1) =
      (.ok ⟨"#$1\x7bb\x7d!$2", [.null, .null]⟩, .numbered "$" 3) ∧
    ∃ t', parse "#$1\x7bb\x7d!$2" = .ok t' ∧ ∀ p, .placeholder p ∉ t'.fragments := by
  have ht : parse parted.source = .ok parted := by decide +kernel
  have hl : ∀ p, .placeholder p ∈ parted.fragments → p.literal = false := by
    intro p hp
    simp only [parted, List.mem_cons, List.not_mem_nil, or_false, reduceCtorEq, false_or,
      Fragment.placeholder.injEq] at hp
    obtain rfl | rfl := hp <;> rfl
  have hd : Marker.dollar ∈ [Marker.questionMark, .format, .dollar] := by simp
  have hm : ∀ k m, marker Marker.Generator.next (.numbered "$" 1) k = .ok m →
      Seamless m.toList := fun k m ↦ seamless_policies hd
  have hr : renderWith Marker.Generator.next (fun _ ↦ .ok .null) parted (.numbered "$" 1) =
      (.ok ⟨"#$1\x7bb\x7d!$2", [.null, .null]⟩, .numbered "$" 3) := by rfl
  obtain ⟨-, ⟨t', ht', hn, -⟩, -⟩ := rendered_text_is_plain Marker.Generator.next
    (fun _ ↦ .ok .null) parted.source parted ht hl (.numbered "$" 1) hm _ _ hr
  exact ⟨ht, hl, hm, hr, t', ht', hn⟩

end BoundSql.Template
