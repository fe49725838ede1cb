import BoundSql.Argument.Declaration
import BoundSql.Proofs.Effect.Keyed
import BoundSql.Proofs.Template.Reading
import BoundSql.Proofs.Template.Rendering

namespace BoundSql

namespace Argument

def below? (a : Argument) : List String → Option Argument
  | [] => some a
  | name :: rest => (a.child? name).bind fun b ↦ b.below? rest

/-- Why the rest of a path gives no value: a name in it leads nowhere, or the node at its end has no
single value. -/
inductive Fails (path : List String) (a : Argument) : List String → Error → Prop
  | missing {before after : List String} {name : String} {b : Argument} :
      a.below? before = some b → b.child? name = none →
      Fails path a (before ++ name :: after) (unresolved path name)
  | unbindable {rest : List String} {b : Argument} {u : Unbindable} :
      a.below? rest = some b → b.binding = .error u → Fails path a rest (u.error path)

variable {path rest : List String} {a : Argument} {e : Error}

theorem Fails.cons {name : String} {b : Argument} (hc : a.child? name = some b)
    (h : Fails path b rest e) : Fails path a (name :: rest) e := by
  have below (names : List String) : a.below? (name :: names) = b.below? names := by
    rw [below?, hc, Option.bind_some]
  cases h with
  | @missing before after _ _ hb hm =>
    rw [← List.cons_append]
    exact .missing (by rwa [below]) hm
  | unbindable hb hu => exact .unbindable (by rwa [below]) hu

theorem fails_of_walk (h : a.walk path rest = .error e) : Fails path a rest e := by
  induction rest generalizing a with
  | nil =>
    rw [walk] at h
    cases hb : a.binding with
    | ok v => rw [hb] at h; cases h
    | error u => rw [hb] at h; cases h; exact .unbindable rfl hb
  | cons name rest ih =>
    rw [walk] at h
    cases hc : a.child? name with
    | none =>
      rw [hc] at h
      cases h
      rw [← List.nil_append (name :: rest)]
      exact .missing rfl hc
    | some b => rw [hc] at h; exact (ih h).cons hc

end Argument

namespace Declaration

def Declares (d : Declaration) (name : String) : Prop :=
  ∃ f ∈ d.fields, f.name = name ∧ f.skipped = false

/-- A placeholder whose path starts with a declared name. -/
def Covers (d : Declaration) (p : Placeholder) : Prop :=
  ∃ root rest, p.path = root :: rest ∧ d.Declares root

variable {d : Declaration} {name root : String} {nodes : List Argument} {a : Argument}

theorem mem_parameterNames : name ∈ d.parameterNames ↔ d.Declares name := by
  simp only [parameterNames, Declares, List.mem_map, List.mem_filter, Bool.not_eq_true']
  constructor
  · rintro ⟨f, ⟨hf, hs⟩, hn⟩
    exact ⟨f, hf, hn, hs⟩
  · rintro ⟨f, hf, hn, hs⟩
    exact ⟨f, ⟨hf, hs⟩, hn⟩

theorem mem_reachable : (name, a) ∈ d.reachable nodes ↔
    ∃ f, (f, a) ∈ d.fields.zip nodes ∧ f.name = name ∧ f.skipped = false := by
  simp only [reachable, List.mem_map, List.mem_filter, Bool.not_eq_true', Prod.exists,
    Prod.mk.injEq]
  constructor
  · rintro ⟨f, b, ⟨hm, hs⟩, hn, rfl⟩
    exact ⟨f, hm, hn, hs⟩
  · rintro ⟨f, hm, hn, hs⟩
    exact ⟨f, a, ⟨hm, hs⟩, hn, rfl⟩

theorem names_reachable (hn : nodes.length = d.fields.length) :
    (d.reachable nodes).map Prod.fst = d.parameterNames := by
  have hz : (d.fields.zip nodes).map Prod.fst = d.fields := List.map_fst_zip hn.ge
  have hf : ((d.fields.zip nodes).filter fun p ↦ !p.1.skipped).map Prod.fst =
      d.fields.filter fun f ↦ !f.skipped := by
    conv_rhs => rw [← hz, List.filter_map]
    rfl
  rw [reachable, parameterNames, ← hf, List.map_map, List.map_map]
  rfl

theorem declares_of_lookup (h : (d.reachable nodes).lookup name = some a) : d.Declares name := by
  obtain ⟨f, hm, hn, hs⟩ := mem_reachable.1 (Memory.mem_of_lookup h)
  exact ⟨f, (List.of_mem_zip hm).1, hn, hs⟩

theorem exists_lookup (hn : nodes.length = d.fields.length) (hd : d.Declares name) :
    ∃ a, (d.reachable nodes).lookup name = some a := by
  rw [← mem_parameterNames, ← names_reachable hn, List.mem_map] at hd
  obtain ⟨p, hp, rfl⟩ := hd
  cases hl : (d.reachable nodes).lookup p.1 with
  | some a => exact ⟨a, rfl⟩
  | none => exact absurd rfl (Memory.lookup_eq_none_iff_ne.1 hl p hp)

theorem lookup_reachable (hd : d.parameterNames.Nodup) (hn : nodes.length = d.fields.length)
    {f : Parameter} (hf : (f, a) ∈ d.fields.zip nodes) (hs : f.skipped = false) :
    (d.reachable nodes).lookup f.name = some a := by
  have hm : (f.name, a) ∈ d.reachable nodes := mem_reachable.2 ⟨f, hf, rfl, hs⟩
  obtain ⟨b, hb⟩ := exists_lookup hn ⟨f, (List.of_mem_zip hf).1, rfl, hs⟩
  rw [← names_reachable hn] at hd
  have he := List.inj_on_of_nodup_map hd (Memory.mem_of_lookup hb) hm rfl
  rw [hb, (Prod.mk.inj he).2]

theorem resolve_declared {rest : List String}
    (h : (d.arguments nodes).argument? root = some a) :
    (d.arguments nodes).resolve (root :: rest) = a.walk (root :: rest) rest := by
  rw [Arguments.resolve, h]

theorem resolve_undeclared (h : ¬d.Declares root) (nodes : List Argument) (rest : List String) :
    (d.arguments nodes).resolve (root :: rest) =
      .error (Argument.unresolved (root :: rest) root) := by
  have hl : (d.arguments nodes).argument? root = none := by
    cases hl : (d.reachable nodes).lookup root with
    | none => exact hl
    | some a => exact absurd (declares_of_lookup hl) h
  rw [Arguments.resolve, hl]

/-- Of the names that start paths, `root` is the first that is not declared. -/
def FirstUndeclared (d : Declaration) (fs : List Fragment) (root : String) : Prop :=
  ∃ before p after rest, fs = before ++ .placeholder p :: after ∧
    (∀ q, .placeholder q ∈ before → d.Covers q) ∧ p.path = root :: rest ∧ ¬d.Declares root

def undeclared? (d : Declaration) (fs : List Fragment) : Option String :=
  ((fs.filterMap Fragment.path?).filterMap List.head?).find? fun root ↦
    !d.parameterNames.contains root

end Declaration

namespace Template

theorem find?_distinct (q : List String → Bool) (paths : List (List String)) :
    (distinct paths).find? q = paths.find? q := by
  suffices h : ∀ seen : List (List String),
      (paths.foldl (fun seen p ↦ if p ∈ seen then seen else seen ++ [p]) seen).find? q =
        (seen ++ paths).find? q from h []
  induction paths with
  | nil => simp
  | cons p paths ih =>
    intro seen
    rw [List.foldl_cons, ih]
    split
    · next hp =>
      -- A path met before was found then, or does not have the property.
      simp only [List.find?_append, List.find?_cons]
      cases hs : seen.find? q with
      | some r => simp
      | none =>
        have hq := List.find?_eq_none.1 hs p hp
        simp [hq]
    · rw [List.append_assoc, List.singleton_append]

theorem exists_report {source : String} {e : Error} (h : parse source = .error e) :
    ∃ report, e = .template report := by
  unfold parse at h
  split at h
  · cases h
  · cases h
    exact ⟨_, rfl⟩

end Template

namespace Declaration

variable {d : Declaration} {source root : String} {t : Template} {fs : List Fragment} {e : Error}

theorem bind_of_parse (h : Template.parse source = .ok t) :
    d.bind source = match d.undeclared? t.fragments with
      | some root => .error (.missingTemplateArgument root d.typeName)
      | none => .ok t := by
  have hu : (t.arguments.filterMap List.head?).find? (fun root ↦ !d.parameterNames.contains root) =
      d.undeclared? t.fragments := by
    rw [undeclared?, List.find?_filterMap, List.find?_filterMap, Template.arguments,
      Template.find?_distinct]
  rw [bind, h, ← hu]
  rfl

theorem bind_of_parse_error (h : Template.parse source = .error e) : d.bind source = .error e := by
  rw [bind, h]
  rfl

theorem undeclared?_text (s : String) : d.undeclared? (.text s :: fs) = d.undeclared? fs := rfl

theorem undeclared?_covered {p : Placeholder} (h : d.Covers p) :
    d.undeclared? (.placeholder p :: fs) = d.undeclared? fs := by
  obtain ⟨root, rest, hp, hd⟩ := h
  simp [undeclared?, Fragment.path?, hp, mem_parameterNames.2 hd]

theorem undeclared?_uncovered {p : Placeholder} {rest : List String} (hp : p.path = root :: rest)
    (h : ¬d.Declares root) : d.undeclared? (.placeholder p :: fs) = some root := by
  have hc : root ∉ d.parameterNames := fun hm ↦ h (mem_parameterNames.1 hm)
  simp [undeclared?, Fragment.path?, hp, hc]

theorem undeclared?_append {before : List Fragment}
    (h : ∀ q, .placeholder q ∈ before → d.Covers q) :
    d.undeclared? (before ++ fs) = d.undeclared? fs := by
  induction before with
  | nil => rfl
  | cons f before ih =>
    have ih := ih fun q hq ↦ h q (.tail _ hq)
    cases f with
    | text s => rw [List.cons_append, undeclared?_text, ih]
    | placeholder q => rw [List.cons_append, undeclared?_covered (h q (.head _)), ih]

theorem undeclared?_of_covers (h : ∀ p, .placeholder p ∈ fs → d.Covers p) :
    d.undeclared? fs = none := by
  rw [← List.append_nil fs, undeclared?_append h]
  rfl

theorem FirstUndeclared.undeclared? (h : d.FirstUndeclared fs root) :
    d.undeclared? fs = some root := by
  obtain ⟨before, p, after, rest, rfl, hc, hp, hd⟩ := h
  rw [undeclared?_append hc, undeclared?_uncovered hp hd]

/-- Among placeholders that have a path at all, either each starts with a declared name or there is
a first one that does not. -/
theorem covers_or_first (hw : ∀ p, .placeholder p ∈ fs → p.path ≠ []) :
    (∀ p, .placeholder p ∈ fs → d.Covers p) ∨ ∃ root, d.FirstUndeclared fs root := by
  induction fs using List.reverseRecOn with
  | nil => exact .inl (by simp)
  | append_singleton fs f ih =>
    obtain hc | ⟨root, before, p, after, rest, rfl, h⟩ := ih fun p hp ↦ hw p (by simp [hp])
    · by_cases hf : ∀ p, .placeholder p = f → d.Covers p
      · refine .inl fun p hp ↦ ?_
        obtain hp | hp := List.mem_append.1 hp
        · exact hc p hp
        · exact hf p (List.mem_singleton.1 hp)
      · push Not at hf
        obtain ⟨p, rfl, hn⟩ := hf
        obtain ⟨root, rest, hp⟩ := List.exists_cons_of_ne_nil (hw p (by simp))
        exact .inr ⟨root, fs, p, [], rest, rfl, hc, hp, fun hd ↦ hn ⟨root, rest, hp, hd⟩⟩
    · exact .inr ⟨root, before, p, after ++ [f], rest, by simp, h⟩

theorem bind_cases (h : Template.parse source = .ok t) :
    (d.bind source = .ok t ∧ ∀ p, .placeholder p ∈ t.fragments → d.Covers p) ∨
      ∃ root, d.bind source = .error (.missingTemplateArgument root d.typeName) ∧
        d.FirstUndeclared t.fragments root := by
  have hw : ∀ p, .placeholder p ∈ t.fragments → p.path ≠ [] :=
    fun p hp ↦ ((Template.print_of_parse h).2.wellFormed p hp).path_ne_nil
  rw [bind_of_parse h]
  obtain hc | ⟨root, hf⟩ := covers_or_first (d := d) hw
  · exact .inl ⟨by rw [undeclared?_of_covers hc], hc⟩
  · exact .inr ⟨root, by rw [hf.undeclared?], hf⟩

theorem bind_eq_ok_iff : d.bind source = .ok t ↔
    Template.parse source = .ok t ∧ ∀ p, .placeholder p ∈ t.fragments → d.Covers p := by
  constructor
  · intro h
    cases hs : Template.parse source with
    | error e =>
      rw [bind_of_parse_error hs] at h
      cases h
    | ok s =>
      obtain ⟨hb, hc⟩ | ⟨root, hb, -⟩ := bind_cases (d := d) hs
      · rw [hb] at h
        cases h
        exact ⟨rfl, hc⟩
      · rw [hb] at h
        cases h
  · rintro ⟨hs, hc⟩
    rw [bind_of_parse hs, undeclared?_of_covers hc]

theorem bind_eq_error_iff : d.bind source = .error e ↔
    (∃ report, e = .template report ∧ Template.parse source = .error e) ∨
    ∃ t root, e = .missingTemplateArgument root d.typeName ∧ Template.parse source = .ok t ∧
      d.FirstUndeclared t.fragments root := by
  constructor
  · intro h
    cases hs : Template.parse source with
    | error e' =>
      rw [bind_of_parse_error hs] at h
      cases h
      obtain ⟨report, rfl⟩ := Template.exists_report hs
      exact .inl ⟨report, rfl, rfl⟩
    | ok t =>
      obtain ⟨hb, -⟩ | ⟨root, hb, hf⟩ := bind_cases (d := d) hs
      · rw [hb] at h
        cases h
      · rw [hb] at h
        cases h
        exact .inr ⟨t, root, rfl, rfl, hf⟩
  · rintro (⟨report, -, hs⟩ | ⟨t, root, rfl, hs, hf⟩)
    · exact bind_of_parse_error hs
    · rw [bind_of_parse hs, hf.undeclared?]

variable {nodes : List Argument}

theorem Covers.reaches {p : Placeholder} (h : d.Covers p) (hd : d.parameterNames.Nodup)
    (hn : nodes.length = d.fields.length) :
    ∃ f a rest, (f, a) ∈ d.fields.zip nodes ∧ f.skipped = false ∧ p.path = f.name :: rest ∧
      (d.arguments nodes).argument? f.name = some a ∧
      (d.arguments nodes).resolve p.path = a.walk p.path rest := by
  obtain ⟨root, rest, hp, f, hf, rfl, hs⟩ := h
  have hz : (d.fields.zip nodes).map Prod.fst = d.fields := List.map_fst_zip hn.ge
  obtain ⟨⟨g, a⟩, hm, rfl⟩ := List.mem_map.1 (hz ▸ hf)
  have ha : (d.arguments nodes).argument? g.name = some a := lookup_reachable hd hn hm hs
  exact ⟨g, a, rest, hm, hs, hp, ha, hp ▸ resolve_declared ha⟩

theorem exists_of_render_error {args : Arguments} {g g' : Marker.Generator}
    (h : t.render args g = (.error (.error e), g')) :
    ∃ p, .placeholder p ∈ t.fragments ∧ args.resolve p.path = .error e := by
  rw [Template.render_eq_renderWith] at h
  obtain ⟨gs, p, hs, ht, -, hp⟩ := Template.exists_of_renderWith_error h
  cases hp with
  | path he => exact ⟨p, by simp [ht], he⟩

/-- The check at the time of binding is what resolving needs of the first names of paths. A source
is bound exactly if it parses and each of its placeholders starts with a declared parameter; else
the mistake in the source or the first name that is not declared is reported. Once it is bound, for
every value of the record each placeholder starts from the node of its field, and rendering fails
only further down that path or at a node without a single value. A path from a name that is not
declared resolves for no value. -/
theorem bind_checks_roots (d : Declaration) (hd : d.parameterNames.Nodup) (source : String) :
    (∀ t, d.bind source = .ok t ↔
      Template.parse source = .ok t ∧ ∀ p, .placeholder p ∈ t.fragments → d.Covers p) ∧
    (∀ e, d.bind source = .error e ↔
      (∃ report, e = .template report ∧ Template.parse source = .error e) ∨
      ∃ t root, e = .missingTemplateArgument root d.typeName ∧ Template.parse source = .ok t ∧
        d.FirstUndeclared t.fragments root) ∧
    (∀ t nodes, d.bind source = .ok t → nodes.length = d.fields.length →
      (∀ p, .placeholder p ∈ t.fragments →
        ∃ f a rest, (f, a) ∈ d.fields.zip nodes ∧ f.skipped = false ∧ p.path = f.name :: rest ∧
          (d.arguments nodes).argument? f.name = some a ∧
          (d.arguments nodes).resolve p.path = a.walk p.path rest) ∧
      ∀ g e g', t.render (d.arguments nodes) g = (.error (.error e), g') →
        ∃ p f a rest, .placeholder p ∈ t.fragments ∧ (f, a) ∈ d.fields.zip nodes ∧
          f.skipped = false ∧ p.path = f.name :: rest ∧ Argument.Fails p.path a rest e) ∧
    ∀ root rest nodes, ¬d.Declares root →
      (d.arguments nodes).resolve (root :: rest) =
        .error (Argument.unresolved (root :: rest) root) := by
  refine ⟨fun t ↦ bind_eq_ok_iff, fun e ↦ bind_eq_error_iff, fun t nodes hb hn ↦ ?_,
    fun root rest nodes h ↦ resolve_undeclared h nodes rest⟩
  have hc := (bind_eq_ok_iff.1 hb).2
  refine ⟨fun p hp ↦ (hc p hp).reaches hd hn, fun g e g' hr ↦ ?_⟩
  obtain ⟨p, hp, he⟩ := exists_of_render_error hr
  obtain ⟨f, a, rest, hm, hs, hpath, -, hw⟩ := (hc p hp).reaches hd hn
  rw [hw] at he
  exact ⟨p, f, a, rest, hp, hm, hs, hpath, Argument.fails_of_walk he⟩

def member : Declaration := ⟨"Member", [⟨"name", false⟩, ⟨"tier", false⟩, ⟨"secret", true⟩]⟩

def memberQuery : Template :=
  ⟨"SELECT #\x7btier\x7d, !\x7bname.first\x7d",
    [.text "SELECT ", .placeholder ⟨["tier"], false⟩, .text ", ",
      .placeholder ⟨["name", "first"], true⟩]⟩

theorem bind_checks_roots_member :
    member.parameterNames.Nodup ∧ member.bind memberQuery.source = .ok memberQuery ∧
    (∀ name tier secret p, .placeholder p ∈ memberQuery.fragments →
      ∃ f a rest, (f, a) ∈ member.fields.zip [name, tier, secret] ∧ f.skipped = false ∧
        p.path = f.name :: rest ∧
        (member.arguments [name, tier, secret]).argument? f.name = some a ∧
        (member.arguments [name, tier, secret]).resolve p.path = a.walk p.path rest) ∧
    ∀ rest nodes, (member.arguments nodes).resolve ("secret" :: rest) =
      .error (Argument.unresolved ("secret" :: rest) "secret") := by
  have hd : member.parameterNames.Nodup := by decide
  have tier : member.Declares "tier" := ⟨⟨"tier", false⟩, by decide, rfl, rfl⟩
  have name : member.Declares "name" := ⟨⟨"name", false⟩, by decide, rfl, rfl⟩
  have secret : ¬member.Declares "secret" := by
    rw [← mem_parameterNames]
    decide
  obtain ⟨hok, -, hvalue, hnone⟩ := bind_checks_roots member hd memberQuery.source
  have hb : member.bind memberQuery.source = .ok memberQuery := by
    refine (hok memberQuery).2 ⟨by decide +kernel, fun p hp ↦ ?_⟩
    simp only [memberQuery, List.mem_cons, List.not_mem_nil, or_false, reduceCtorEq, false_or,
      Fragment.placeholder.injEq] at hp
    obtain rfl | rfl := hp
    · exact ⟨"tier", [], rfl, tier⟩
    · exact ⟨"name", ["first"], rfl, name⟩
  exact ⟨hd, hb, fun _ _ _ ↦ (hvalue memberQuery _ hb rfl).1,
    fun rest nodes ↦ hnone "secret" rest nodes secret⟩

end Declaration

end BoundSql
