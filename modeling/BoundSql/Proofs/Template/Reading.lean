import BoundSql.Proofs.Template.Grammar
import Mathlib.Data.List.TakeWhile

namespace BoundSql.Template

theorem isIdentifier_run {c : Char} (hc : c.isAlpha) (r : List Char) :
    IsIdentifier (String.ofList (c :: r.takeWhile isWord)) :=
  ⟨c, _, String.toList_ofList, hc, fun _ hd ↦ List.mem_takeWhile_imp hd⟩

theorem readPath_ok {start s rest : List Char} {path names : List String}
    (h : readPath start path s = .ok (names, rest)) :
    ∃ new, new ≠ [] ∧ names = path ++ new ∧ (∀ name ∈ new, IsIdentifier name) ∧
      s = (".".intercalate new).toList ++ '}' :: rest := by
  fun_induction readPath start path s with
  | case1 => simp at h
  | case2 path c r hc path' rest' hd ih =>
    obtain ⟨new, hne, rfl, hid, rfl⟩ := ih h
    refine ⟨String.ofList (c :: r.takeWhile isWord) :: new, by simp, by simp [path'], ?_, ?_⟩
    · intro name hn
      obtain rfl | hn := List.mem_cons.1 hn
      · exact isIdentifier_run hc r
      · exact hid name hn
    · have hr := List.takeWhile_append_dropWhile (p := isWord) (l := r)
      rw [hd] at hr
      rw [String.intercalate_cons_of_ne_nil hne]
      simpa using hr.symm
  | case3 path c r hc path' rest' hd =>
    simp only [Except.ok.injEq, Prod.mk.injEq] at h
    obtain ⟨rfl, rfl⟩ := h
    refine ⟨[String.ofList (c :: r.takeWhile isWord)], by simp, rfl, ?_, ?_⟩
    · intro name hn
      rw [List.mem_singleton.1 hn]
      exact isIdentifier_run hc r
    · have hr := List.takeWhile_append_dropWhile (p := isWord) (l := r)
      rw [hd] at hr
      simpa using hr.symm
  | case4 => simp at h
  | case5 => simp at h
  | case6 => simp at h
  | case7 => simp at h

theorem readPath_cons {start r rest : List Char} {path : List String} {c d : Char}
    (hc : c.isAlpha) (hr : ∀ x ∈ r, isWord x) (hd : isWord d = false) :
    readPath start path (c :: (r ++ d :: rest)) =
      match d :: rest with
      | '.' :: rest => readPath start (path ++ [String.ofList (c :: r)]) rest
      | '}' :: rest => .ok (path ++ [String.ofList (c :: r)], rest)
      | _ => .error ⟨.unclosed, start⟩ := by
  have ht : (r ++ d :: rest).takeWhile isWord = r := by
    rw [List.takeWhile_append_of_pos hr]
    simp [hd]
  have hw : (r ++ d :: rest).dropWhile isWord = d :: rest := by
    rw [List.dropWhile_append_of_pos hr]
    simp [hd]
  rw [readPath]
  simp only [hc, if_true, ht]
  split <;> simp_all

theorem readPath_intercalate (start : List Char) (rest : List Char) (names : List String) :
    ∀ path, names ≠ [] → (∀ name ∈ names, IsIdentifier name) →
      readPath start path ((".".intercalate names).toList ++ '}' :: rest) =
        .ok (path ++ names, rest) := by
  induction names with
  | nil => intro path h; simp at h
  | cons name names ih =>
    intro path _ hid
    obtain ⟨c, r, hn, hc, hr⟩ := hid name (by simp)
    have he : name = String.ofList (c :: r) := by rw [← hn, String.ofList_toList]
    cases names with
    | nil =>
      rw [String.intercalate_singleton, hn, List.cons_append, readPath_cons hc hr (by decide), he]
      rfl
    | cons name' names =>
      rw [String.intercalate_cons_cons, String.toList_append, String.toList_append, hn]
      have h := ih (path ++ [name]) (by simp) (fun n hm ↦ hid n (by simp [hm]))
      simp only [List.append_assoc, List.cons_append] at h ⊢
      rw [show (".".toList : List Char) = ['.'] from rfl, List.singleton_append,
        readPath_cons hc hr (by decide)]
      simpa [he] using h

theorem splitText_append (s : List Char) : (splitText s).1 ++ (splitText s).2 = s := by
  fun_induction splitText s with
  | case1 => rfl
  | case2 => rfl
  | case3 c r _ text rest h ih =>
    rw [h] at ih
    simp [← ih]

theorem splitText_snd (s : List Char) : (splitText s).2 = [] ∨ Opens (splitText s).2 := by
  fun_induction splitText s with
  | case1 => exact .inl rfl
  | case2 c r literal h => exact .inr (opener?_isSome_iff.1 (by simp [h]))
  | case3 c r _ text rest h ih => simpa [h] using ih

theorem plain_splitText (s : List Char) : Plain (splitText s).1 := by
  fun_induction splitText s with
  | case1 => simp [Plain, not_opens_nil]
  | case2 => simp [Plain, not_opens_nil]
  | case3 c r hn text rest h ih =>
    intro before after he ho
    cases before with
    | nil =>
      -- The text with what follows it would open here too.
      obtain ⟨d, t, rfl, hd⟩ := ho
      have hs := splitText_append r
      rw [h] at hs ih
      rw [List.nil_append, List.cons.injEq] at he
      refine opener?_eq_none_iff.1 hn ⟨d, t ++ rest, ?_, hd⟩
      rw [← hs, he.1]
      simp [he.2]
    | cons d before =>
      rw [List.cons_append, List.cons.injEq] at he
      exact ih before after (by rw [h]; exact he.2) ho

theorem plain_cons {c : Char} {s : List Char} (h : Plain (c :: s)) : Plain s :=
  fun before rest he ↦ h (c :: before) rest (by simp [he])

theorem Plain.not_opens_append {c : Char} {s rest : List Char} (h : Plain (c :: s))
    (hr : rest = [] ∨ Opens rest) : ¬Opens (c :: s ++ rest) := by
  rintro ⟨d, t, he, hd⟩
  cases s with
  | nil =>
    obtain rfl | ⟨e, u, rfl, hu⟩ := hr
    · simp at he
    · simp only [List.cons_append, List.nil_append, List.cons.injEq] at he
      obtain ⟨-, rfl, -⟩ := he
      simp at hu
  | cons e s =>
    simp only [List.cons_append, List.cons.injEq] at he
    obtain ⟨rfl, rfl, -⟩ := he
    exact h [] _ rfl ⟨c, s, rfl, hd⟩

theorem splitText_of_plain {s rest : List Char} (h : Plain s) (hr : rest = [] ∨ Opens rest) :
    splitText (s ++ rest) = (s, rest) := by
  induction s with
  | nil =>
    obtain rfl | ho := hr
    · rfl
    · have ho' := opener?_isSome_iff.2 ho
      obtain ⟨c, t, rfl, -⟩ := ho
      rw [List.nil_append, splitText]
      split
      · rfl
      · simp_all
  | cons c s ih =>
    have hn := opener?_eq_none_iff.2 (h.not_opens_append hr)
    rw [List.cons_append] at hn ⊢
    rw [splitText, hn, ih (plain_cons h)]

theorem toList_print_cons (f : Fragment) (fs : List Fragment) :
    (print (f :: fs)).toList = f.print.toList ++ (print fs).toList := by simp [print]

theorem print_ne_nil {f : Fragment} {fs : List Fragment} (h : Canonical (f :: fs)) :
    f.print.toList ≠ [] := by
  cases f with
  | text s => simpa [Fragment.print] using (canonical_text_cons.1 h).1
  | placeholder p => simp [Fragment.print, toList_text]

theorem opens_print {fs : List Fragment} (h : ∀ f ∈ fs.head?, f.isText = false) :
    (print fs).toList = [] ∨ Opens (print fs).toList := by
  cases fs with
  | nil => exact .inl (by simp [print])
  | cons f fs =>
    cases f with
    | text s => simp [Fragment.isText] at h
    | placeholder p =>
      rw [toList_print_cons]
      exact .inr (opens_text p _)

theorem scan_text {s rest : List Char} (hs : s ≠ []) (hp : Plain s)
    (hr : rest = [] ∨ Opens rest) :
    scan (s ++ rest) = (scan rest).map (.text (String.ofList s) :: ·) := by
  obtain ⟨c, s, rfl⟩ := List.exists_cons_of_ne_nil hs
  have hn := opener?_eq_none_iff.2 (hp.not_opens_append hr)
  rw [List.cons_append] at hn ⊢
  rw [scan, hn]
  simp only [splitText_of_plain (plain_cons hp) hr]
  cases scan rest <;> rfl

theorem scan_placeholder {p : Placeholder} (hp : p.WellFormed) (rest : List Char) :
    scan (p.text.toList ++ rest) = (scan rest).map (.placeholder p :: ·) := by
  have ho : opener? (p.text.toList ++ rest) = some p.literal := by
    rw [opener?_eq_some_iff, toList_text]
    exact ⟨(".".intercalate p.path).toList ++ '}' :: rest, by simp [Placeholder.sigil]⟩
  rw [toList_text] at ho ⊢
  simp only [List.cons_append, List.append_assoc, List.nil_append] at ho ⊢
  have hr := readPath_intercalate
    (p.sigil :: '{' :: ((".".intercalate p.path).toList ++ '}' :: rest)) rest p.path []
    hp.path_ne_nil hp.isIdentifier
  rw [scan, ho]
  dsimp only
  split
  · next m hm =>
    rw [List.drop_succ_cons, List.drop_zero, hr] at hm
    simp at hm
  · next path rest' hm =>
    rw [List.drop_succ_cons, List.drop_zero, hr] at hm
    simp only [List.nil_append, Except.ok.injEq, Prod.mk.injEq] at hm
    obtain ⟨rfl, rfl⟩ := hm
    cases scan rest <;> rfl

theorem scan_print {fs : List Fragment} (h : Canonical fs) : scan (print fs).toList = .ok fs := by
  induction fs with
  | nil => simp [print, scan]
  | cons f fs ih =>
    rw [toList_print_cons]
    cases f with
    | text s =>
      obtain ⟨hne, hp, hc, hf⟩ := canonical_text_cons.1 h
      rw [Fragment.print, scan_text (by simpa using hne) hp (opens_print hf), ih hc]
      simp [Except.map]
    | placeholder p =>
      obtain ⟨hp, hc⟩ := canonical_placeholder_cons.1 h
      rw [Fragment.print, scan_placeholder hp, ih hc]
      rfl

theorem print_of_scan {s : List Char} {fs : List Fragment} (h : scan s = .ok fs) :
    (print fs).toList = s ∧ Canonical fs ∧ (Opens s → ∀ f ∈ fs.head?, f.isText = false) := by
  fun_induction scan s generalizing fs with
  | case1 =>
    cases h
    exact ⟨by simp [print], canonical_nil, by simp⟩
  | case2 => simp at h
  | case3 c r literal ho path rest hp ih =>
    obtain ⟨gs, hg, rfl⟩ : ∃ gs, scan rest = .ok gs ∧ .placeholder ⟨path, literal⟩ :: gs = fs := by
      cases hs : scan rest <;> simp_all [bind, Except.bind, pure, Except.pure]
    obtain ⟨hprint, hcanon, -⟩ := ih hg
    obtain ⟨names, hne, rfl, hid, hrest⟩ := readPath_ok hp
    obtain ⟨r', hr'⟩ := opener?_eq_some_iff.1 ho
    rw [List.cons.injEq] at hr'
    obtain ⟨rfl, rfl⟩ := hr'
    refine ⟨?_, canonical_placeholder_cons.2 ⟨⟨by simpa using hne, by simpa using hid⟩, hcanon⟩,
      by simp [Fragment.isText]⟩
    rw [toList_print_cons, hprint, Fragment.print, toList_text]
    simp only [List.drop_succ_cons, List.drop_zero] at hrest
    simp [hrest, Placeholder.sigil]
  | case4 c r hn ih =>
    obtain ⟨gs, hg, rfl⟩ : ∃ gs, scan (splitText r).2 = .ok gs ∧
        .text (String.ofList (c :: (splitText r).1)) :: gs = fs := by
      cases hs : scan (splitText r).2 <;> simp_all [bind, Except.bind, pure, Except.pure]
    obtain ⟨hprint, hcanon, hhead⟩ := ih hg
    have hsplit : splitText (c :: r) = (c :: (splitText r).1, (splitText r).2) := by
      rw [splitText, hn]
    have hp := plain_splitText (c :: r)
    rw [hsplit] at hp
    refine ⟨?_, canonical_text_cons.2 ⟨by simp, by simpa using hp, hcanon, ?_⟩,
      fun ho ↦ absurd ho (opener?_eq_none_iff.1 hn)⟩
    · rw [toList_print_cons, hprint, Fragment.print, String.toList_ofList, List.cons_append,
        splitText_append]
    · obtain he | ho := splitText_snd r
      · rw [he, scan] at hg
        cases hg
        simp
      · exact hhead ho

theorem print_of_parse {source : String} {t : Template} (h : parse source = .ok t) :
    print t.fragments = source ∧ Canonical t.fragments := by
  unfold parse at h
  split at h
  · next fs hs =>
    cases h
    obtain ⟨hp, hc, -⟩ := print_of_scan hs
    exact ⟨String.toList_inj.1 hp, hc⟩
  · simp at h

theorem parse_of_scan {source : String} {fs : List Fragment} (h : scan source.toList = .ok fs) :
    parse source = .ok ⟨source, fs⟩ := by rw [parse, h]

end BoundSql.Template
