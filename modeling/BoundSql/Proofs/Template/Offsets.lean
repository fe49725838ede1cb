import BoundSql.Proofs.Template.Reading
import BoundSql.Proofs.Text.Bytes

namespace BoundSql.Template

open Utf8

def isSigil (c : Char) : Bool := c == '#' || c == '!'

def opensAt (bs : Bytes) (pos : Nat) : Bool :=
  holdsAt isSigil bs pos && holdsAt (· == '{') bs (pos + 1)

def reportAt? (source : String) (fault : Fault) (offset : Nat) : Option Report := do
  let before ← cut? source 0 offset
  let after ← cut? source offset source.utf8ByteSize
  let lineStart := (rfind? (· == '\n') (encode before)).elim 0 (· + 1)
  let lineEnd := (find? (· == '\n') (encode after)).elim source.utf8ByteSize (offset + ·)
  let head ← cut? source lineStart offset
  let text ← cut? source lineStart lineEnd
  let column := head.length + 1
  return {
    message := fault.message
    line := before.toList.count '\n' + 1
    column := column
    snippet := text ++ "\n" ++ String.ofList (List.replicate (column - 1) ' ') ++ "^" }

theorem le_runEnd (p : Char → Bool) (bs : Bytes) (pos : Nat) : pos ≤ runEnd p bs pos := by
  fun_induction runEnd p bs pos with
  | case1 => omega
  | case2 => rfl

def pathAt? (source : String) (opening : Nat) (path : List String) (pos : Nat) :
    Option (Except Report (List String × Nat)) :=
  if source.utf8ByteSize ≤ pos then (reportAt? source .unterminated opening).map .error
  else if holdsAt Char.isAlpha (encode source) pos then
    let stop := runEnd isWord (encode source) pos
    match cut? source pos stop with
    | none => none
    | some name =>
      if holdsAt (· == '.') (encode source) stop then
        pathAt? source opening (path ++ [name]) (stop + 1)
      else if holdsAt (· == '\x7d') (encode source) stop then
        some (.ok (path ++ [name], stop + 1))
      else (reportAt? source .unclosed opening).map .error
  else if opensAt (encode source) pos then (reportAt? source .nested pos).map .error
  else if holdsAt (· == '\x7d') (encode source) pos ∧ path = [] then
    (reportAt? source .empty opening).map .error
  else (reportAt? source .identifierExpected pos).map .error
termination_by source.utf8ByteSize - pos
decreasing_by
  have := le_runEnd isWord (encode source) pos
  omega

theorem lt_of_pathAt? {source : String} {opening pos stop : Nat} {path names : List String}
    (h : pathAt? source opening path pos = some (.ok (names, stop))) : pos < stop := by
  fun_induction pathAt? source opening path pos with
  | case1 => simp at h
  | case2 => simp at h
  | case3 path pos _ _ s name _ _ ih =>
    have := le_runEnd isWord (encode source) pos
    have := ih h
    omega
  | case4 path pos _ _ s name _ _ _ =>
    have := le_runEnd isWord (encode source) pos
    simp at h
    omega
  | case5 => simp at h
  | case6 => simp at h
  | case7 => simp at h
  | case8 => simp at h

def pushText? (source : String) (fs : List Fragment) (start stop : Nat) : Option (List Fragment) :=
  if start = stop then some fs
  else do
    let text ← cut? source start stop
    match fs.getLast? with
    | some (.text s) => some (fs.dropLast ++ [.text (s ++ text)])
    | _ => some (fs ++ [.text text])

/-- Reads on at `pos`, where `fs` has been read up to `textStart` and the source from there to `pos`
is text. -/
def fragmentsAt? (source : String) (fs : List Fragment) (textStart pos : Nat) :
    Option (Except Report (List Fragment)) :=
  if pos < source.utf8ByteSize then
    if opensAt (encode source) pos then
      match pushText? source fs textStart pos with
      | none => none
      | some fs =>
        match _h : pathAt? source pos [] (pos + 2) with
        | none => none
        | some (.error r) => some (.error r)
        | some (.ok (path, stop)) =>
          let literal := holdsAt (· == '!') (encode source) pos
          fragmentsAt? source (fs ++ [.placeholder ⟨path, literal⟩]) stop stop
    else fragmentsAt? source fs textStart (pos + 1)
  else (pushText? source fs textStart source.utf8ByteSize).map .ok
termination_by source.utf8ByteSize - pos
decreasing_by
  · have := lt_of_pathAt? _h
    omega
  · omega

def parse? (source : String) : Option (Except Error Template) :=
  (fragmentsAt? source [] 0 0).map fun
    | .ok fs => .ok ⟨source, fs⟩
    | .error r => .error (.template r)

section

variable {source : String} {before rest opened start : List Char} {p : Char → Bool}

theorem holdsAt_source (h : source.toList = before ++ rest) (hp : OnlyAscii p) :
    holdsAt p (encode source) (size before) = rest.head?.any p := by
  rw [encode_eq_bytes, h]
  exact holdsAt_bytes hp before rest

theorem utf8ByteSize_source (h : source.toList = before ++ rest) :
    source.utf8ByteSize = size before + size rest := by
  rw [← size_append, ← h, size_eq_utf8ByteSize, String.ofList_toList]

theorem size_lt_utf8ByteSize {c : Char} {r : List Char} (h : source.toList = before ++ c :: r) :
    size before < source.utf8ByteSize := by
  have := c.utf8Size_pos
  rw [utf8ByteSize_source h, size_cons]
  omega

theorem onlyAscii_eq {d : Char} (h : d.toNat < 128) : OnlyAscii (· == d) := by
  intro c hc
  rwa [beq_iff_eq.1 hc]

theorem onlyAscii_isSigil : OnlyAscii isSigil := by
  intro c hc
  simp only [isSigil, Bool.or_eq_true, beq_iff_eq] at hc
  obtain rfl | rfl := hc <;> decide

theorem onlyAscii_isWord : OnlyAscii isWord := by
  intro c hc
  change ((decide ('A'.val ≤ c.val ∧ c.val ≤ 'Z'.val) ||
    (decide ('a'.val ≤ c.val) && decide (c.val ≤ 'z'.val)) ||
    (decide ('0'.val ≤ c.val) && decide (c.val ≤ '9'.val))) || c == '_') = true at hc
  simp only [Bool.or_eq_true, Bool.and_eq_true, decide_eq_true_eq, beq_iff_eq] at hc
  have below : ∀ d : Char, d.toNat < 128 → c.val ≤ d.val → c.toNat < 128 :=
    fun d hd hle ↦ Nat.lt_of_le_of_lt (UInt32.le_iff_toNat_le.1 hle) hd
  obtain ((⟨-, h⟩ | ⟨-, h⟩) | ⟨-, h⟩) | rfl := hc
  · exact below 'Z' (by decide) h
  · exact below 'z' (by decide) h
  · exact below '9' (by decide) h
  · decide

theorem onlyAscii_isAlpha : OnlyAscii Char.isAlpha :=
  fun c hc ↦ onlyAscii_isWord c (by simp [isWord, Char.isAlphanum, hc])

theorem opensAt_source (h : source.toList = before ++ rest) :
    opensAt (encode source) (size before) = (opener? rest).isSome := by
  rw [opensAt, holdsAt_source h onlyAscii_isSigil]
  cases rest with
  | nil => rfl
  | cons c r =>
    cases hc : isSigil c with
    | false =>
      have ho : opener? (c :: r) = none := by
        rw [opener?_eq_none_iff]
        simp only [isSigil, Bool.or_eq_false_iff, beq_eq_false_iff_ne] at hc
        exact not_opens_cons hc.1 hc.2
      simp [hc, ho]
    | true =>
      have hs : size (before ++ [c]) = size before + 1 := by
        rw [size_append, size_cons, utf8Size_eq_one (onlyAscii_isSigil c hc), size_nil]
      have hb : holdsAt (· == '{') (encode source) (size (before ++ [c])) =
          r.head?.any (· == '{') :=
        holdsAt_source (by simpa using h) (onlyAscii_eq (by decide))
      rw [← hs, hb, Bool.eq_iff_iff, opener?_isSome_iff]
      have hd : c = '#' ∨ c = '!' := by simpa [isSigil] using hc
      cases r with
      | nil => simp [Opens]
      | cons d r => simp [Opens, hc, hd]

theorem lineHead_suffix (s : List Char) : Mistake.lineHead s <:+ s := by
  rw [Mistake.lineHead, ← List.reverse_prefix, List.reverse_reverse]
  exact List.takeWhile_prefix _

theorem reportAt?_eq (fault : Fault) (h : source.toList = before ++ rest) :
    reportAt? source fault (size before) =
      some (Mistake.report source.toList ⟨fault, rest⟩) := by
  have hnl : OnlyAscii (· == '\n') := onlyAscii_eq (by decide)
  have hne : (fun c : Char ↦ !(c == '\n')) = fun c ↦ decide (c ≠ '\n') := by
    funext c
    by_cases hc : c = '\n' <;> simp [hc]
  obtain ⟨lead, hl⟩ := lineHead_suffix before
  have hbefore : (Mistake.mk fault rest).before source.toList = before := by
    simp [Mistake.before, h]
  have hsize : size before = size lead + size (Mistake.lineHead before) := by
    rw [← size_append, hl]
  have hstart : (rfind? (· == '\n') (bytes before)).elim 0 (· + 1) = size lead := by
    have hr := rfind?_bytes hnl before
    rw [hne] at hr
    change _ + size (Mistake.lineHead before) = _ at hr
    omega
  have hend : (find? (· == '\n') (bytes rest)).elim source.utf8ByteSize (size before + ·) =
      size before + size (rest.takeWhile (· ≠ '\n')) := by
    rw [← hne, ← find?_bytes hnl rest, utf8ByteSize_source h]
    cases find? (· == '\n') (bytes rest) <;> rfl
  have hcut₁ : cut? source 0 (size before) = some (String.ofList before) := by
    simpa using cut?_eq [] before rest h
  have hcut₂ : cut? source (size before) source.utf8ByteSize = some (String.ofList rest) := by
    rw [utf8ByteSize_source h]
    exact cut?_eq before rest [] (by simpa using h)
  have hcut₃ : cut? source (size lead) (size before) =
      some (String.ofList (Mistake.lineHead before)) := by
    rw [hsize]
    exact cut?_eq lead _ rest (by rw [h, hl])
  have hcut₄ : cut? source (size lead) (size before + size (rest.takeWhile (· ≠ '\n'))) =
      some (String.ofList (Mistake.lineHead before ++ rest.takeWhile (· ≠ '\n'))) := by
    rw [hsize, Nat.add_assoc, ← size_append]
    apply cut?_eq lead _ (rest.dropWhile (· ≠ '\n'))
    rw [h, List.append_assoc, List.append_assoc, List.takeWhile_append_dropWhile,
      ← List.append_assoc, hl]
  rw [reportAt?, hcut₁, hcut₂]
  simp only [encode_eq_bytes, String.toList_ofList, hstart, hend, Option.bind_eq_bind,
    Option.bind_some, hcut₃, hcut₄, String.length_ofList]
  simp only [Mistake.report, hbefore, Mistake.lineOf, Mistake.columnOf, Mistake.snippetOf]
  congr 2
  simp [← String.toList_inj]

def placed (source : String) :
    Except Mistake (List String × List Char) → Except Report (List String × Nat)
  | .ok (names, rest) => .ok (names, source.utf8ByteSize - size rest)
  | .error m => .error (m.report source.toList)

theorem size_append_ascii {d : Char} (h : d.toNat < 128) (s : List Char) :
    size (s ++ [d]) = size s + 1 := by
  rw [size_append, size_cons, utf8Size_eq_one h, size_nil]

theorem pathAt?_name {opening : Nat} {path : List String} {c : Char} {r : List Char}
    (h : source.toList = before ++ c :: r) (hc : c.isAlpha) :
    let word := c :: r.takeWhile isWord
    let after := r.dropWhile isWord
    source.toList = before ++ word ++ after ∧
      pathAt? source opening path (size before) =
        if after.head? = some '.' then
          pathAt? source opening (path ++ [String.ofList word]) (size (before ++ word) + 1)
        else if after.head? = some '\x7d' then
          some (.ok (path ++ [String.ofList word], size (before ++ word) + 1))
        else (reportAt? source .unclosed opening).map .error := by
  intro word after
  have hw : c :: r = word ++ after := by
    rw [List.cons_append, List.takeWhile_append_dropWhile]
  have hs : source.toList = before ++ word ++ after := by rw [h, hw, List.append_assoc]
  refine ⟨hs, ?_⟩
  have hrun : runEnd isWord (encode source) (size before) = size (before ++ word) := by
    rw [encode_eq_bytes, h, runEnd_bytes onlyAscii_isWord, size_append,
      List.takeWhile_cons_of_pos (by simp [isWord, Char.isAlphanum, hc])]
  have hcut : cut? source (size before) (size (before ++ word)) = some (String.ofList word) := by
    rw [size_append]
    exact cut?_eq before word after hs
  have hat : ∀ d : Char, d.toNat < 128 →
      (holdsAt (· == d) (encode source) (size (before ++ word)) ↔ after.head? = some d) := by
    intro d hd
    rw [holdsAt_source hs (onlyAscii_eq hd)]
    cases after <;> simp
  have hlt := Nat.not_le_of_lt (size_lt_utf8ByteSize h)
  rw [pathAt?, if_neg hlt, if_pos (by simp [holdsAt_source h onlyAscii_isAlpha, hc])]
  simp only [hrun, hcut, hat '.' (by decide), hat '\x7d' (by decide)]

theorem pathAt?_other {opening : Nat} {path : List String} {c : Char} {r : List Char}
    (h : source.toList = before ++ c :: r) (hc : ¬c.isAlpha) :
    pathAt? source opening path (size before) =
      if (opener? (c :: r)).isSome then (reportAt? source .nested (size before)).map .error
      else if c = '\x7d' ∧ path = [] then (reportAt? source .empty opening).map .error
      else (reportAt? source .identifierExpected (size before)).map .error := by
  have hlt := Nat.not_le_of_lt (size_lt_utf8ByteSize h)
  have hclose := holdsAt_source (p := (· == '\x7d')) h (onlyAscii_eq (by decide))
  rw [pathAt?, if_neg hlt, if_neg (by simp [holdsAt_source h onlyAscii_isAlpha, hc]),
    opensAt_source h, hclose]
  simp

theorem pathAt?_eq (hs : source.toList = opened ++ start) (path : List String) :
    ∀ before, source.toList = before ++ rest →
      pathAt? source (size opened) path (size before) =
        some (placed source (readPath start path rest)) := by
  fun_induction readPath start path rest with
  | case1 path =>
    intro before hr
    rw [pathAt?, if_pos (by simp [utf8ByteSize_source hr]), reportAt?_eq _ hs]
    rfl
  | case2 path c r hc path' rest' hd ih =>
    intro before hr
    obtain ⟨hsource, hpath⟩ := pathAt?_name hr hc
    rw [hpath, hd, List.head?_cons, if_pos rfl, ← size_append_ascii (d := '.') (by decide)]
    exact ih _ (by simpa [hd] using hsource)
  | case3 path c r hc path' rest' hd =>
    intro before hr
    obtain ⟨hsource, hpath⟩ := pathAt?_name hr hc
    have hend := utf8ByteSize_source hsource
    rw [hd, size_cons, utf8Size_eq_one (by decide)] at hend
    rw [hpath, hd, List.head?_cons, if_neg (by simp), if_pos rfl, placed, hend]
    congr 4
    omega
  | case4 path c r hc h₁ h₂ =>
    intro before hr
    obtain ⟨-, hpath⟩ := pathAt?_name hr hc
    have hdot : (r.dropWhile isWord).head? ≠ some '.' := by
      rw [Ne, List.head?_eq_some_iff]
      rintro ⟨after, ha⟩
      exact h₁ after ha
    have hclose : (r.dropWhile isWord).head? ≠ some '\x7d' := by
      rw [Ne, List.head?_eq_some_iff]
      rintro ⟨after, ha⟩
      exact h₂ after ha
    rw [hpath, if_neg hdot, if_neg hclose, reportAt?_eq _ hs]
    rfl
  | case5 path c r hc ho =>
    intro before hr
    rw [pathAt?_other hr hc, if_pos ho, reportAt?_eq _ hr]
    rfl
  | case6 path c r hc ho he =>
    intro before hr
    rw [pathAt?_other hr hc, if_neg ho, if_pos he, reportAt?_eq _ hs]
    rfl
  | case7 path c r hc ho he =>
    intro before hr
    rw [pathAt?_other hr hc, if_neg ho, if_neg he, reportAt?_eq _ hr]
    rfl

theorem pushText?_self (fs : List Fragment) (pos : Nat) :
    pushText? source fs pos pos = some fs := by
  rw [pushText?, if_pos rfl]

theorem pushText?_text {text : List Char} {fs : List Fragment} (hne : text ≠ [])
    (h : source.toList = before ++ text ++ rest) (hf : ∀ f ∈ fs.getLast?, f.isText = false) :
    pushText? source fs (size before) (size before + size text) =
      some (fs ++ [.text (String.ofList text)]) := by
  have hpos : size before ≠ size before + size text := by
    obtain ⟨c, r, rfl⟩ := List.exists_cons_of_ne_nil hne
    have := c.utf8Size_pos
    rw [size_cons]
    omega
  rw [pushText?, if_neg hpos, cut?_eq _ _ _ h]
  cases hl : fs.getLast? with
  | none => rfl
  | some f =>
    cases f with
    | text s => simpa [Fragment.isText] using hf _ hl
    | placeholder p => rfl

theorem opensAt_within {c : Char} {r : List Char} (h : source.toList = before ++ c :: r)
    (ho : opener? (c :: r) = none) {k : Nat} (hk : k < c.utf8Size) :
    opensAt (encode source) (size before + k) = false := by
  rcases Nat.eq_zero_or_pos k with rfl | h₀
  · rw [Nat.add_zero, opensAt_source h, ho]
    rfl
  · rw [opensAt, encode_eq_bytes, h, holdsAt_within h₀ hk]
    rfl

variable {fs : List Fragment} {textStart : Nat}

theorem fragmentsAt?_char {c : Char} {r : List Char} (h : source.toList = before ++ c :: r)
    (ho : opener? (c :: r) = none) :
    fragmentsAt? source fs textStart (size before) =
      fragmentsAt? source fs textStart (size (before ++ [c])) := by
  have hk : ∀ k ≤ c.utf8Size, fragmentsAt? source fs textStart (size before) =
      fragmentsAt? source fs textStart (size before + k) := by
    intro k hk
    induction k with
    | zero => rfl
    | succ k ih =>
      have hpos : size before + k < source.utf8ByteSize := by
        rw [utf8ByteSize_source h, size_cons]
        omega
      rw [ih (by omega), fragmentsAt?, if_pos hpos, if_neg (by simp [opensAt_within h ho hk])]
      rfl
  rw [hk _ (Nat.le_refl _), size_append, size_cons, size_nil, Nat.add_zero]

theorem fragmentsAt?_splitText : ∀ before, source.toList = before ++ rest →
    fragmentsAt? source fs textStart (size before) =
      fragmentsAt? source fs textStart (size (before ++ (splitText rest).1)) := by
  fun_induction splitText rest with
  | case1 => intro before _; rw [List.append_nil]
  | case2 => intro before _; rw [List.append_nil]
  | case3 c r ho text after hs ih =>
    intro before h
    rw [hs] at ih
    rw [fragmentsAt?_char h ho, ih (before ++ [c]) (by simp [h])]
    simp

theorem fragmentsAt?_push {gs : List Fragment} (h : source.toList = before ++ rest)
    (hr : rest = [] ∨ Opens rest) (hp : pushText? source fs textStart (size before) = some gs) :
    fragmentsAt? source fs textStart (size before) =
      fragmentsAt? source gs (size before) (size before) := by
  rw [fragmentsAt?.eq_def source fs, fragmentsAt?.eq_def source gs]
  obtain rfl | ho := hr
  · have hpos := utf8ByteSize_source h
    rw [size_nil, Nat.add_zero] at hpos
    rw [hpos, if_neg (Nat.lt_irrefl _), if_neg (Nat.lt_irrefl _), hp, pushText?_self]
  · have hopens := opener?_isSome_iff.2 ho
    obtain ⟨c, r, rfl, -⟩ := ho
    have hpos := size_lt_utf8ByteSize h
    rw [opensAt_source h, hopens, if_pos hpos, if_pos hpos, hp, pushText?_self]
    rfl

def continued (source : String) (fs : List Fragment) :
    Except Mistake (List Fragment) → Except Report (List Fragment)
  | .ok gs => .ok (fs ++ gs)
  | .error m => .error (m.report source.toList)

theorem fragmentsAt?_opener {literal : Bool} {c : Char} {r : List Char}
    (h : source.toList = before ++ c :: r) (ho : opener? (c :: r) = some literal) :
    fragmentsAt? source fs (size before) (size before) =
      match readPath (c :: r) [] (r.drop 1) with
      | .error m => some (.error (m.report source.toList))
      | .ok (path, rest) =>
        fragmentsAt? source (fs ++ [.placeholder ⟨path, literal⟩])
          (source.utf8ByteSize - size rest) (source.utf8ByteSize - size rest) := by
  obtain ⟨after, he⟩ := opener?_eq_some_iff.1 ho
  obtain ⟨hc, rfl⟩ := List.cons.inj he
  have hsigil : c.toNat < 128 := by
    rw [hc]
    cases literal <;> decide
  have hopen : size (before ++ [c, '{']) = size before + 2 := by
    rw [size_append, size_cons, utf8Size_eq_one hsigil, size_cons, utf8Size_eq_one (by decide),
      size_nil]
  have hpath := pathAt?_eq h [] (before ++ [c, '{']) (by simpa using h)
  rw [hopen] at hpath
  have hliteral : holdsAt (· == '!') (encode source) (size before) = literal := by
    rw [holdsAt_source h (onlyAscii_eq (by decide)), hc]
    cases literal <;> rfl
  rw [fragmentsAt?, if_pos (size_lt_utf8ByteSize h), if_pos (by simp [opensAt_source h, ho]),
    pushText?_self, hliteral, List.drop_one, List.tail_cons]
  cases hr : readPath (c :: '{' :: after) [] after with
  | error m =>
    rw [hr, placed] at hpath
    dsimp only
    split <;> simp_all
  | ok found =>
    rw [hr, placed] at hpath
    dsimp only
    split <;> simp_all

theorem fragmentsAt?_eq : ∀ before fs, source.toList = before ++ rest →
    (∀ f ∈ fs.getLast?, f.isText = false) ∨ rest = [] ∨ Opens rest →
      fragmentsAt? source fs (size before) (size before) =
        some (continued source fs (scan rest)) := by
  fun_induction scan rest with
  | case1 =>
    intro before fs h _
    have hpos := utf8ByteSize_source h
    rw [size_nil, Nat.add_zero] at hpos
    rw [fragmentsAt?, hpos, if_neg (Nat.lt_irrefl _), pushText?_self]
    simp [continued]
  | case2 c r literal ho m hm =>
    intro before fs h _
    rw [fragmentsAt?_opener h ho, hm]
    rfl
  | case3 c r literal ho path rest hp ih =>
    intro before fs h _
    obtain ⟨b, hb⟩ : ∃ b, source.toList = b ++ rest := by
      obtain ⟨names, -, -, -, hr⟩ := readPath_ok hp
      refine ⟨before ++ c :: r.take 1 ++ (".".intercalate names).toList ++ ['\x7d'], ?_⟩
      rw [h]
      simpa [hr] using (List.take_append_drop 1 r).symm
    have hpos := utf8ByteSize_source hb
    rw [fragmentsAt?_opener h ho, hp]
    simp only [hpos, Nat.add_sub_cancel]
    rw [ih b _ hb (.inl (by simp [Fragment.isText]))]
    cases scan rest <;> simp [continued, bind, Except.bind, pure, Except.pure]
  | case4 c r hn ih =>
    intro before fs h hl
    have hsplit : splitText (c :: r) = (c :: (splitText r).1, (splitText r).2) := by
      rw [splitText, hn]
    have hf : ∀ f ∈ fs.getLast?, f.isText = false := by
      obtain hf | hc | ho := hl
      · exact hf
      · simp at hc
      · exact absurd ho (opener?_eq_none_iff.1 hn)
    have hs : source.toList = before ++ c :: (splitText r).1 ++ (splitText r).2 := by
      rw [List.append_assoc, List.cons_append, splitText_append, h]
    have hpush := pushText?_text (List.cons_ne_nil _ _) hs hf
    rw [← size_append] at hpush
    rw [fragmentsAt?_splitText before h, hsplit, fragmentsAt?_push hs (splitText_snd r) hpush,
      ih _ _ hs (.inr (splitText_snd r))]
    cases scan (splitText r).2 <;> simp [continued, bind, Except.bind, pure, Except.pure]

theorem parse?_eq (source : String) : parse? source = some (parse source) := by
  have h : fragmentsAt? source [] 0 0 = some (continued source [] (scan source.toList)) :=
    fragmentsAt?_eq [] [] rfl (.inl (by simp))
  rw [parse?, h, parse]
  cases scan source.toList <;> rfl

end

end BoundSql.Template
