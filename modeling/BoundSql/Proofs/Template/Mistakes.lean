import BoundSql.Proofs.Template.Offsets
import BoundSql.Proofs.Template.RoundTrip
import Mathlib.Data.Nat.Find

namespace BoundSql

namespace Template

def lineAt? (s : List Char) : Nat → Option (List Char)
  | 0 => none
  | n + 1 => (s.splitOn '\n')[n]?

/-- What stands in `s` before the character in column `column` of line `line`, where newlines part
the lines and both count from one. -/
def upTo? (s : List Char) (line column : Nat) : Option (List Char) := do
  let text ← lineAt? s line
  if 0 < column ∧ column ≤ text.length + 1 then
    some (((s.splitOn '\n').take (line - 1)).flatMap (· ++ ['\n']) ++ text.take (column - 1))
  else none

/-- The report names the place after `before` and shows the line it lies in, with a caret under that
place. -/
structure Report.Shows (r : Report) (source before : List Char) : Prop where
  place : upTo? source r.line r.column = some before
  snippet : ∃ text, lineAt? source r.line = some text ∧
    r.snippet = String.ofList (text ++ '\n' :: List.replicate (r.column - 1) ' ' ++ ['^'])

theorem length_splitOn (s : List Char) : (s.splitOn '\n').length = s.count '\n' + 1 := by
  induction s with
  | nil => rfl
  | cons c s ih =>
    rw [List.splitOn_cons_eq_if_modifyHead]
    split <;> simp_all

theorem flatMap_splitOn (s : List Char) :
    (s.splitOn '\n').flatMap (· ++ ['\n']) = s ++ ['\n'] := by
  induction s with
  | nil => rfl
  | cons c s ih =>
    rw [List.splitOn_cons_eq_if_modifyHead]
    obtain ⟨line, lines, hl⟩ := List.exists_cons_of_ne_nil (List.splitOn_ne_nil '\n' s)
    rw [hl] at ih ⊢
    split <;> simp_all

theorem exists_splitOn (s : List Char) :
    ∃ after, s.splitOn '\n' = s.takeWhile (· ≠ '\n') :: after := by
  induction s with
  | nil => exact ⟨[], rfl⟩
  | cons c s ih =>
    obtain ⟨after, ha⟩ := ih
    rw [List.splitOn_cons_eq_if_modifyHead, ha]
    split <;> simp_all

theorem splitOn_append (before rest : List Char) :
    ∃ done after, (before ++ rest).splitOn '\n' =
        done ++ (Mistake.lineHead before ++ rest.takeWhile (· ≠ '\n')) :: after ∧
      done.length = before.count '\n' ∧
      done.flatMap (· ++ ['\n']) ++ Mistake.lineHead before = before := by
  induction before using List.reverseRecOn generalizing rest with
  | nil =>
    obtain ⟨after, ha⟩ := exists_splitOn rest
    exact ⟨[], after, ha, rfl, rfl⟩
  | append_singleton before c ih =>
    by_cases hc : c = '\n'
    · subst hc
      obtain ⟨after, ha⟩ := exists_splitOn rest
      have hh : Mistake.lineHead (before ++ ['\n']) = [] := by simp [Mistake.lineHead]
      refine ⟨before.splitOn '\n', after, ?_, ?_, ?_⟩
      · rw [List.append_assoc, List.singleton_append, List.splitOn_append_cons_self, ha, hh]
        rfl
      · rw [length_splitOn, List.count_append, List.count_singleton_self]
      · rw [hh, List.append_nil, flatMap_splitOn]
    · obtain ⟨done, after, hs, hl, hb⟩ := ih (c :: rest)
      have hh : Mistake.lineHead (before ++ [c]) = Mistake.lineHead before ++ [c] := by
        simp [Mistake.lineHead, hc]
      refine ⟨done, after, ?_, ?_, ?_⟩
      · rw [List.append_assoc, List.singleton_append, hs, hh]
        simp [hc]
      · rw [hl, List.count_append, List.count_singleton]
        simp [hc]
      · rw [hh, ← List.append_assoc, hb]

theorem report_shows {source before rest : List Char} (fault : Fault)
    (h : source = before ++ rest) :
    (Mistake.report source ⟨fault, rest⟩).Shows source before := by
  obtain ⟨done, after, hs, hl, hb⟩ := splitOn_append before rest
  rw [← h] at hs
  have hbefore : (Mistake.mk fault rest).before source = before := by simp [Mistake.before, h]
  have hline : lineAt? source (Mistake.lineOf before) =
      some (Mistake.lineHead before ++ rest.takeWhile (· ≠ '\n')) := by
    rw [Mistake.lineOf, ← hl, lineAt?, hs]
    simp
  constructor
  · rw [Mistake.report, hbefore]
    simp only [upTo?, hline, Option.bind_eq_bind, Option.bind_some]
    simp [Mistake.columnOf, Mistake.lineOf, hs, ← hl, hb]
  · rw [Mistake.report, hbefore]
    exact ⟨_, hline, rfl⟩

def Begins (s : List Char) : Prop :=
  ∃ p after, Placeholder.WellFormed p ∧ s = p.text.toList ++ after

/-- Past `opening` stands the first of what begins like a placeholder and begins no well-formed
one. -/
structure FirstMalformed (source opening rest : List Char) : Prop where
  eq_append : source = opening ++ rest
  opens : Opens rest
  malformed : ¬Begins rest
  first : ∀ before after, source = before ++ after → before.length < opening.length →
    Opens after → Begins after

theorem Opens.append {s : List Char} (h : Opens s) (t : List Char) : Opens (s ++ t) := by
  obtain ⟨c, r, rfl, hc⟩ := h
  exact ⟨c, r ++ t, rfl, hc⟩

theorem Opens.ne_nil {s : List Char} (h : Opens s) : s ≠ [] := by
  obtain ⟨c, r, rfl, -⟩ := h
  simp

theorem exists_firstMalformed {source : List Char} (h : ¬WellPlaced source) :
    ∃ opening rest, FirstMalformed source opening rest := by
  classical
  have hex : ∃ n opening rest, opening.length = n ∧ source = opening ++ rest ∧ Opens rest ∧
      ¬Begins rest := by
    simp only [WellPlaced, not_forall] at h
    obtain ⟨opening, rest, he, ho, hb⟩ := h
    exact ⟨_, opening, rest, rfl, he, ho, hb⟩
  obtain ⟨opening, rest, hn, he, ho, hb⟩ := Nat.find_spec hex
  refine ⟨opening, rest, he, ho, hb, fun before after hs hl hopens ↦ ?_⟩
  by_contra hnot
  exact Nat.find_min hex (hn ▸ hl) ⟨before, after, rfl, hs, hopens, hnot⟩

section

variable {source opening rest : List Char}

theorem FirstMalformed.wellPlaced (h : FirstMalformed source opening rest) :
    WellPlaced opening := by
  intro before after he ho
  have hl : before.length < opening.length := by
    have := List.length_pos_of_ne_nil ho.ne_nil
    rw [he, List.length_append]
    omega
  obtain ⟨p, tail, hp, ht⟩ := h.first before (after ++ rest) (by simp [h.eq_append, he]) hl
    (ho.append rest)
  obtain ⟨c, hc, -⟩ | ⟨c, hne, hc, hr⟩ := append_cases ht.symm
  · exact ⟨p, c, hp, hc⟩
  · obtain ⟨d, a, rfl⟩ := List.exists_cons_of_ne_nil ho.ne_nil
    exact absurd (hr ▸ h.opens) (not_opens_inside hp hc hne)

theorem scan_print_append {fs : List Fragment} (hc : Canonical fs) (ho : Opens rest) :
    scan ((print fs).toList ++ rest) = (scan rest).map (fs ++ ·) := by
  induction fs with
  | nil => cases h : scan rest <;> simp [print, h, Except.map]
  | cons f fs ih =>
    rw [toList_print_cons, List.append_assoc]
    cases f with
    | text s =>
      obtain ⟨hne, hp, hc, hf⟩ := canonical_text_cons.1 hc
      have hr : Opens ((print fs).toList ++ rest) := by
        obtain he | hopens := opens_print hf
        · rwa [he, List.nil_append]
        · exact hopens.append rest
      rw [Fragment.print, scan_text (by simpa using hne) hp (.inr hr), ih hc]
      cases scan rest <;> simp [Except.map]
    | placeholder p =>
      obtain ⟨hp, hc⟩ := canonical_placeholder_cons.1 hc
      rw [Fragment.print, scan_placeholder hp, ih hc]
      cases scan rest <;> simp [Except.map]

theorem scan_of_malformed (ho : Opens rest) (hm : ¬Begins rest) :
    ∃ m, readPath rest [] (rest.drop 2) = .error m ∧ scan rest = .error m := by
  obtain ⟨literal, hopener⟩ := Option.isSome_iff_exists.1 (opener?_isSome_iff.2 ho)
  obtain ⟨r, hr⟩ := opener?_eq_some_iff.1 hopener
  cases hp : readPath rest [] (rest.drop 2) with
  | error m =>
    refine ⟨m, rfl, ?_⟩
    rw [hr] at hopener hp ⊢
    rw [scan, hopener]
    dsimp only
    split <;> simp_all
  | ok found =>
    obtain ⟨names, after⟩ := found
    obtain ⟨new, hne, rfl, hid, he⟩ := readPath_ok hp
    refine absurd ⟨⟨names, literal⟩, after, ⟨hne, hid⟩, ?_⟩ hm
    rw [hr, List.drop_succ_cons, List.drop_succ_cons, List.drop_zero] at he
    rw [hr, he, toList_text]
    simp [Placeholder.sigil]

def groups (names : List String) : List Char := names.flatMap fun name ↦ name.toList ++ ['.']

def NoGroup (s : List Char) : Prop :=
  ∀ name after, IsIdentifier name → s ≠ name.toList ++ '.' :: after

/-- `s` begins with `names`, each followed by a point, `tail` comes after them, and no longer run of
names is so followed. -/
structure LongestRun (s : List Char) (names : List String) (tail : List Char) : Prop where
  eq_append : s = groups names ++ tail
  isIdentifier : ∀ name ∈ names, IsIdentifier name
  longest : ∀ names' tail', (∀ name ∈ names', IsIdentifier name) → s = groups names' ++ tail' →
    names' <+: names

/-- What goes wrong where `names` have been read, each with its point, and `tail` comes next. -/
inductive Fault.Arises (names : List String) : List Char → Fault → Prop
  | unterminated : Arises names [] .unterminated
  | unclosed {c : Char} {r : List Char} : c.isAlpha → Arises names (c :: r) .unclosed
  | nested {s : List Char} : Opens s → Arises names s .nested
  | empty {r : List Char} : names = [] → Arises names ('\x7d' :: r) .empty
  | identifierExpected {c : Char} {r : List Char} : ¬c.isAlpha → ¬Opens (c :: r) →
      (c = '\x7d' → names ≠ []) → Arises names (c :: r) .identifierExpected

/-- Whether the mistake is found past the opener and reported there. -/
def Fault.within : Fault → Bool
  | .nested | .identifierExpected => true
  | .unterminated | .empty | .unclosed => false

theorem takeWhile_identifier {name : String} (h : IsIdentifier name) (s : List Char) :
    (name.toList ++ '.' :: s).takeWhile isWord = name.toList := by
  obtain ⟨c, r, hn, hc, hr⟩ := h
  have hw : ∀ d ∈ name.toList, isWord d := by
    rw [hn]
    intro d hd
    obtain rfl | hd := List.mem_cons.1 hd
    · simp [isWord, Char.isAlphanum, hc]
    · exact hr d hd
  rw [List.takeWhile_append_of_pos hw, List.takeWhile_cons_of_neg (by decide), List.append_nil]

theorem groups_cons_append (name : String) (names : List String) (tail : List Char) :
    groups (name :: names) ++ tail = name.toList ++ '.' :: (groups names ++ tail) := by
  simp [groups]

theorem noGroup_nil : NoGroup [] := by
  intro name after _ h
  simp at h

theorem noGroup_cons {c : Char} {r : List Char} (h : ¬c.isAlpha) : NoGroup (c :: r) := by
  rintro name after ⟨d, w, hn, hd, -⟩ he
  rw [hn, List.cons_append, List.cons.injEq] at he
  exact h (he.1 ▸ hd)

theorem prefix_of_groups {names : List String} {tail : List Char}
    (hn : ∀ name ∈ names, IsIdentifier name) (ht : NoGroup tail) (names' : List String)
    (tail' : List Char) (hn' : ∀ name ∈ names', IsIdentifier name)
    (h : groups names ++ tail = groups names' ++ tail') : names' <+: names := by
  induction names' generalizing names with
  | nil => exact List.nil_prefix
  | cons name' names' ih =>
    cases names with
    | nil =>
      rw [groups_cons_append] at h
      exact absurd h (ht name' _ (hn' _ (.head _)))
    | cons name names =>
      rw [groups_cons_append, groups_cons_append] at h
      have hnames : name = name' := by
        have hw := congrArg (List.takeWhile isWord) h
        rw [takeWhile_identifier (hn _ (.head _)), takeWhile_identifier (hn' _ (.head _))] at hw
        exact String.toList_inj.1 hw
      subst hnames
      rw [List.append_cancel_left_eq, List.cons.injEq] at h
      rw [List.cons_prefix_cons]
      exact ⟨rfl, ih (fun n hm ↦ hn n (.tail _ hm)) (fun n hm ↦ hn' n (.tail _ hm)) h.2⟩

theorem readPath_error {start s : List Char} {path : List String} {m : Mistake}
    (h : readPath start path s = .error m) :
    ∃ names tail, s = groups names ++ tail ∧ (∀ name ∈ names, IsIdentifier name) ∧
      NoGroup tail ∧ m.fault.Arises (path ++ names) tail ∧
      m.rest = if m.fault.within then tail else start := by
  fun_induction readPath start path s with
  | case1 path =>
    cases h
    exact ⟨[], [], rfl, by simp, noGroup_nil, .unterminated, rfl⟩
  | case2 path c r hc path' rest' hd ih =>
    obtain ⟨names, tail, rfl, hn, ht, ha, hm⟩ := ih h
    have hr := List.takeWhile_append_dropWhile (p := isWord) (l := r)
    refine ⟨String.ofList (c :: r.takeWhile isWord) :: names, tail, ?_, ?_, ht, ?_, hm⟩
    · rw [groups_cons_append, String.toList_ofList, List.cons_append, ← hd, hr]
    · intro name hm
      obtain rfl | hm := List.mem_cons.1 hm
      · exact isIdentifier_run hc r
      · exact hn name hm
    · simpa [path'] using ha
  | case3 path c r hc path' rest' hd => cases h
  | case4 path c r hc h₁ h₂ =>
    cases h
    refine ⟨[], c :: r, rfl, by simp, ?_, .unclosed hc, rfl⟩
    rintro name after ⟨d, w, hn, -, hw⟩ he
    rw [hn, List.cons_append, List.cons.injEq] at he
    refine h₁ after ?_
    rw [he.2, List.dropWhile_append_of_pos hw, List.dropWhile_cons_of_neg (by decide)]
  | case5 path c r hc ho =>
    cases h
    exact ⟨[], c :: r, rfl, by simp, noGroup_cons hc, .nested (opener?_isSome_iff.1 ho), rfl⟩
  | case6 path c r hc ho he =>
    cases h
    obtain ⟨rfl, rfl⟩ := he
    exact ⟨[], _, rfl, by simp, noGroup_cons hc, .empty rfl, rfl⟩
  | case7 path c r hc ho he =>
    cases h
    refine ⟨[], _, rfl, by simp, noGroup_cons hc, .identifierExpected hc ?_ ?_, rfl⟩
    · rwa [← opener?_isSome_iff]
    · rintro rfl hp
      exact he ⟨rfl, by simpa using hp⟩

end

theorem FirstMalformed.scan_eq {source opening rest : List Char}
    (h : FirstMalformed source opening rest) :
    ∃ m, readPath rest [] (rest.drop 2) = .error m ∧ scan source = .error m := by
  obtain ⟨fs, hf⟩ := h.wellPlaced.exists_scan
  obtain ⟨hprint, hc, -⟩ := print_of_scan hf
  obtain ⟨m, hp, hm⟩ := scan_of_malformed h.opens h.malformed
  refine ⟨m, hp, ?_⟩
  rw [h.eq_append, ← hprint, scan_print_append hc h.opens, hm]
  rfl

/-- The report is about what opens past `opening`, where `names` have been read and `tail` comes
next. It names the opener, or for a mistake found further on the first character after the names,
which is no letter. -/
structure Report.Explains (r : Report) (fault : Fault) (opening rest : List Char)
    (names : List String) (tail : List Char) : Prop where
  message : r.message = fault.message
  run : LongestRun (rest.drop 2) names tail
  arises : fault.Arises names tail
  place : r.Shows (opening ++ rest)
    (if fault.within then opening ++ rest.take 2 ++ groups names else opening)
  next : fault.within → ∃ c s, tail = c :: s ∧ ¬c.isAlpha

theorem FirstMalformed.exists_report {source : String} {opening rest : List Char}
    (h : FirstMalformed source.toList opening rest) :
    ∃ report fault names tail, parse source = .error (.template report) ∧
      report.Explains fault opening rest names tail := by
  obtain ⟨⟨fault, place⟩, hp, hs⟩ := h.scan_eq
  obtain ⟨names, tail, he, hn, ht, ha, hm⟩ := readPath_error hp
  change place = if fault.within then tail else rest at hm
  refine ⟨_, fault, names, tail, by rw [parse, hs], rfl, ⟨he, hn, ?_⟩, by simpa using ha, ?_, ?_⟩
  · intro names' tail' hn' h'
    exact prefix_of_groups hn ht names' tail' hn' (he ▸ h')
  · rw [h.eq_append]
    apply report_shows
    rw [hm]
    split
    · rw [List.append_assoc, List.append_assoc, ← he, List.take_append_drop]
    · rfl
  · intro hw
    cases ha with
    | nested ho =>
      obtain ⟨c, s, rfl, rfl | rfl⟩ := ho <;> exact ⟨_, _, rfl, by decide⟩
    | identifierExpected hc => exact ⟨_, _, rfl, hc⟩
    | unterminated | unclosed | empty => cases hw

/-- Source is only ever cut between characters, and it is rejected exactly if there is a first
malformed place. Then the source before this place can be parsed, and the report explains what is
wrong with the place. -/
theorem rejected_source_explained (source : String) :
    parse? source = some (parse source) ∧
    ((∃ e, parse source = .error e) ↔
      ∃ opening rest, FirstMalformed source.toList opening rest) ∧
    ∀ opening rest, FirstMalformed source.toList opening rest →
      (∃ t, parse (String.ofList opening) = .ok t) ∧
      ∃ report fault names tail, parse source = .error (.template report) ∧
        report.Explains fault opening rest names tail := by
  refine ⟨parse?_eq source, ⟨?_, ?_⟩, fun opening rest h ↦ ⟨?_, h.exists_report⟩⟩
  · rintro ⟨e, he⟩
    apply exists_firstMalformed
    intro hw
    obtain ⟨fs, hf⟩ := hw.exists_scan
    rw [parse, hf] at he
    cases he
  · rintro ⟨opening, rest, h⟩
    obtain ⟨report, -, -, -, hr, -⟩ := h.exists_report
    exact ⟨_, hr⟩
  · obtain ⟨fs, hf⟩ := h.wellPlaced.exists_scan
    exact ⟨_, parse_of_scan (by rwa [String.toList_ofList])⟩

example : parse "x\né !\x7bb.#\x7bc" = .error (.template
    ⟨"Placeholders cannot be nested", 2, 7, "é !\x7bb.#\x7bc\n      ^"⟩) := by decide +kernel

end Template

end BoundSql
