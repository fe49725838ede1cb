import BoundSql.MySql.Plan
import Mathlib.Data.List.TakeWhile

namespace BoundSql

variable {s : List Char} {c : Char}

theorem Text.not_isBlank_of_isLetter (h : MySql.Url.isLetter c = true) : isBlank c = false := by
  simp only [MySql.Url.isLetter, Bool.or_eq_true, Bool.and_eq_true, decide_eq_true_eq, Char.le_def,
    UInt32.le_iff_toNat_le] at h
  change (97 ≤ c.toNat ∧ c.toNat ≤ 122) ∨ 65 ≤ c.toNat ∧ c.toNat ≤ 90 at h
  simp only [isBlank, blankRanges, List.any_cons, List.any_nil, Bool.or_false,
    Bool.or_eq_false_iff, Bool.and_eq_false_iff, decide_eq_false_iff_not]
  omega

theorem Text.isBlank_of_trim_eq_nil (h : trim s = []) : ∀ c ∈ s, isBlank c = true := by
  have hrest : ∀ c ∈ skipBlanks s, isBlank c = true := by
    intro c hc
    rw [trim, trimEnd, List.reverse_eq_nil_iff, skipBlanks, List.dropWhile_eq_nil_iff] at h
    exact h c (List.mem_reverse.2 hc)
  intro c hc
  rw [← List.takeWhile_append_dropWhile (p := isBlank) (l := s)] at hc
  obtain hc | hc := List.mem_append.1 hc
  · exact List.mem_takeWhile_imp hc
  · exact hrest c hc

theorem Settings.splitScheme_eq_some {scheme rest : List Char}
    (h : splitScheme s = some (scheme, rest)) : s = scheme ++ ':' :: '/' :: '/' :: rest := by
  fun_induction splitScheme s generalizing scheme with
  | case1 => cases h
  | case2 rest => cases h; rfl
  | case3 c r _ ih =>
    obtain ⟨p, hp, heq⟩ := Option.map_eq_some_iff.1 h
    cases heq
    rw [ih hp]
    rfl

theorem Settings.url_of_sqlite {s : Settings} {path : String} (h : s.backend = .ok (.sqlite path)) :
    ∃ rest, s.url.toList = "sqlite".toList ++ ':' :: '/' :: '/' :: rest ∨
      s.url.toList = "sqlite3".toList ++ ':' :: '/' :: '/' :: rest := by
  rw [backend] at h
  split at h
  · cases h
  · next scheme rest hs =>
    rw [splitScheme_eq_some hs]
    refine ⟨rest, ?_⟩
    split at h
    · cases h
    · next hname => exact .inl (by rw [← hname, String.toList_ofList])
    · next hname => exact .inr (by rw [← hname, String.toList_ofList])
    · cases h

namespace MySql.Url

def counts (c : Char) : Bool := 0x20 < c.toNat

theorem dropWhile_of_counts {front : List Char} (hf : ∀ c ∈ front, counts c = true) (hne : front ≠ [])
    (s : List Char) : (front ++ s).dropWhile (fun c ↦ decide (c.toNat ≤ 0x20)) = front ++ s := by
  obtain ⟨c, r, rfl⟩ := List.exists_cons_of_ne_nil hne
  have hlt : 0x20 < c.toNat := of_decide_eq_true (hf c List.mem_cons_self)
  rw [List.cons_append, List.dropWhile_cons_of_neg (by simpa using hlt)]

theorem clean_append {front : List Char} (hf : ∀ c ∈ front, counts c = true) (hne : front ≠ [])
    (s : List Char) : ∃ t, clean (front ++ s) = front ++ t := by
  have hkept : front.filter (fun c ↦ c != '\t' && c != '\n' && c != '\r') = front := by
    refine List.filter_eq_self.2 fun c hc ↦ ?_
    have hlt := hf c hc
    simp only [Bool.and_eq_true, bne_iff_ne]
    refine ⟨⟨?_, ?_⟩, ?_⟩ <;> (rintro rfl; exact nomatch hlt)
  have hrev : front.reverse.dropWhile (fun c ↦ decide (c.toNat ≤ 0x20)) = front.reverse := by
    have h := dropWhile_of_counts (fun c hc ↦ hf c (List.mem_reverse.1 hc))
      (List.reverse_ne_nil_iff.2 hne) []
    rwa [List.append_nil] at h
  rw [clean, dropWhile_of_counts hf hne, List.reverse_append, List.dropWhile_append, hrev]
  split
  · exact ⟨[], by rw [List.reverse_reverse, hkept, List.append_nil]⟩
  · exact ⟨_, by rw [List.reverse_append, List.reverse_reverse, List.filter_append, hkept]⟩

theorem exists_scheme_of_parse {p : Parts} (h : parse s = .ok p) :
    ∃ after, scheme? (clean s) = some (p.scheme, after) := by
  rw [parse] at h
  split at h
  · cases h
  · next scheme after hs =>
    refine ⟨after, ?_⟩
    have hscheme : p.scheme = scheme := by
      dsimp only at h
      generalize (if isSpecial scheme = true then _ else _) = server? at h
      cases server? with
      | none => cases h; rfl
      | some server =>
        dsimp only at h
        split at h
        · nomatch h
        · cases ha : authority (isSpecial scheme)
              (server.takeWhile fun c ↦ !endsAuthority (isSpecial scheme) c) with
          | error => rw [ha] at h; nomatch h
          | ok b => rw [ha] at h; cases h; rfl
    rw [hs, hscheme]

theorem exists_scheme_of_check {url : String} (h : check url = .ok ()) :
    ∃ after, scheme? (clean url.toList) = some ("mysql".toList, after) := by
  rw [check] at h
  cases hp : parse url.toList with
  | error => rw [hp] at h; nomatch h
  | ok p =>
    rw [hp] at h
    obtain ⟨after, ha⟩ := exists_scheme_of_parse hp
    have hscheme : p.scheme = "mysql".toList := by
      by_contra hne
      change (if (!p.hasHost) = true then _ else if p.scheme ≠ "mysql".toList then _ else _) = _ at h
      rw [if_pos hne] at h
      split at h <;> nomatch h
    exact ⟨after, hscheme ▸ ha⟩

theorem parameters_of_not_mem {rest : List Char} (h : '?' ∉ rest) : parameters rest = [] := by
  have hquery : ((rest.takeWhile (· ≠ '#')).dropWhile (· ≠ '?')).drop 1 = [] := by
    rw [List.dropWhile_eq_nil_iff.2, List.drop_nil]
    intro c hc
    have hne : c ≠ '?' := fun he ↦ h (he ▸ (List.takeWhile_sublist _).mem hc)
    exact decide_eq_true hne
  have hparts : "".splitOn "&" = [""] := by
    rw [String.splitOn, String.splitOnAux]
    rfl
  unfold parameters
  rw [hquery]
  change (("".splitOn "&").filter (· ≠ "")).map _ = []
  rw [hparts]
  rfl

theorem check_of_parse {url : String} {p : Parts} (h : parse url.toList = .ok p)
    (hhost : p.hasHost = true) (hscheme : p.scheme = "mysql".toList) (hquery : '?' ∉ p.rest) :
    check url = .ok () := by
  rw [check, h]
  change (if (!p.hasHost) = true then _ else if p.scheme ≠ "mysql".toList then _ else _) = _
  rw [hhost, hscheme, parameters_of_not_mem hquery]
  rfl

theorem mem_of_mem_clean (h : c ∈ clean s) : c ∈ s := by
  have hinner := List.mem_reverse.1 (List.mem_filter.1 h).1
  have hfront := List.mem_reverse.1 ((List.dropWhile_sublist _).mem hinner)
  exact (List.dropWhile_sublist _).mem hfront

theorem trim_ne_nil_of_scheme {scheme after : List Char}
    (h : scheme? (clean s) = some (scheme, after)) : Text.trim s ≠ [] := by
  intro htrim
  rw [scheme?] at h
  split at h
  · next c r rest htake _ =>
    have hc : c ∈ clean s := (List.takeWhile_sublist _).mem (by rw [htake]; simp)
    have hblank := Text.isBlank_of_trim_eq_nil htrim c (mem_of_mem_clean hc)
    split at h
    · next hletter => exact nomatch hblank.symm.trans (Text.not_isBlank_of_isLetter hletter)
    · cases h
  · cases h

theorem scheme?_append {r : List Char} (hl : isLetter c = true)
    (hs : ∀ d ∈ c :: r, isSchemeChar d = true) (t : List Char) :
    scheme? (c :: r ++ ':' :: t) = some ((c :: r).map Char.toLower, t) := by
  have hend : isSchemeChar ':' = false := by decide
  have htake : (c :: r ++ ':' :: t).takeWhile isSchemeChar = c :: r := by
    rw [List.takeWhile_append_of_pos hs, List.takeWhile_cons, hend]
    simp
  have hdrop : (c :: r ++ ':' :: t).dropWhile isSchemeChar = ':' :: t := by
    rw [List.dropWhile_append_of_pos hs, List.dropWhile_cons, hend]
    simp
  rw [scheme?, htake, hdrop]
  exact if_pos hl

theorem scheme?_clean {r : List Char} (hl : isLetter c = true)
    (hs : ∀ d ∈ c :: r, isSchemeChar d = true) (hc : ∀ d ∈ c :: r ++ [':'], counts d = true)
    (t : List Char) :
    ∃ after, scheme? (clean (c :: r ++ ':' :: t)) = some ((c :: r).map Char.toLower, after) := by
  obtain ⟨after, hclean⟩ := clean_append hc (by simp) t
  rw [List.append_assoc, List.append_assoc, List.singleton_append] at hclean
  exact ⟨after, hclean ▸ scheme?_append hl hs after⟩

theorem toLower_eq_of_check {url : String} {r rest : List Char} (h : check url = .ok ())
    (hurl : url.toList = c :: r ++ ':' :: rest) (hl : isLetter c = true)
    (hs : (c :: r).all isSchemeChar = true) (hc : (c :: r ++ [':']).all counts = true) :
    (c :: r).map Char.toLower = "mysql".toList := by
  obtain ⟨_, hscheme⟩ := exists_scheme_of_check h
  obtain ⟨_, hfront⟩ := scheme?_clean hl (List.all_eq_true.1 hs) (List.all_eq_true.1 hc) rest
  rw [hurl, hfront] at hscheme
  exact congrArg Prod.fst (Option.some.inj hscheme)

theorem backend_ne_sqlite {s : Settings} (h : check s.url = .ok ()) (path : String) :
    s.backend ≠ .ok (.sqlite path) := by
  intro hb
  obtain ⟨rest, hurl | hurl⟩ := Settings.url_of_sqlite hb
  · exact absurd (toLower_eq_of_check h hurl rfl rfl rfl) (by decide)
  · exact absurd (toLower_eq_of_check h hurl rfl rfl rfl) (by decide)

end MySql.Url

end BoundSql
