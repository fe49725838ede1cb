import BoundSql.Proofs.Argument.Wrapping

namespace BoundSql

namespace Argument

/-- The nodes one name below a node, by the kind of the node. -/
inductive Child (name : String) : Argument → Argument → Prop
  | entry {entries : List (String × Argument)} {b : Argument} :
      entries.lookup name = some b → Child name (.mapping entries) b
  | field {fields : List (String × Argument)} {b : Argument} :
      fields.lookup name = some b → Child name (.record fields) b
  | member {ms : List (String × Json)} {j : Json} :
      ms.lookup name = some j → Child name (.document (.object ms)) (.document j)
  | valueMember {ms : List (String × Json)} {j : Json} :
      ms.lookup name = some j → Child name (.value (.json (.object ms))) (.document j)
  | present {a b : Argument} : Child name a b → Child name (.present a) b
  | indirect {a b : Argument} : Child name a b → Child name (.indirect a) b

/-- The node that a path leads to, name by name. -/
inductive Leads : Argument → List String → Argument → Prop
  | here (a : Argument) : Leads a [] a
  | down {a b c : Argument} {name : String} {rest : List String} :
      Child name a b → Leads b rest c → Leads a (name :: rest) c

/-- The nodes without a single value, and what is said of them. -/
inductive Refuses : Argument → String → Prop
  | mapping (entries : List (String × Argument)) :
      Refuses (.mapping entries) "a mapping cannot be bound as a single value"
  | record (fields : List (String × Argument)) :
      Refuses (.record fields) "a record cannot be bound as a single value"
  | present {a : Argument} {reason : String} : Refuses a reason → Refuses (.present a) reason
  | indirect {a : Argument} {reason : String} : Refuses a reason → Refuses (.indirect a) reason

variable {a b : Argument} {name reason : String} {path names rest : List String}

theorem child?_eq_some_iff : a.child? name = some b ↔ Child name a b := by
  induction a using wrapping_induction with
  | absent => exact iff_of_false nofun nofun
  | value v =>
    cases v with
    | json j =>
      cases j with
      | object ms =>
        refine Option.map_eq_some_iff.trans ⟨?_, fun h ↦ ?_⟩
        · rintro ⟨j, hj, rfl⟩
          exact .valueMember hj
        · cases h with
          | valueMember hj => exact ⟨_, hj, rfl⟩
      | _ => exact iff_of_false nofun nofun
    | _ => exact iff_of_false nofun nofun
  | document j =>
    cases j with
    | object ms =>
      refine Option.map_eq_some_iff.trans ⟨?_, fun h ↦ ?_⟩
      · rintro ⟨j, hj, rfl⟩
        exact .member hj
      · cases h with
        | member hj => exact ⟨_, hj, rfl⟩
    | _ => exact iff_of_false nofun nofun
  | mapping entries => exact ⟨.entry, fun | .entry h => h⟩
  | record fields => exact ⟨.field, fun | .field h => h⟩
  | present a ih => exact ih.trans ⟨.present, fun | .present h => h⟩
  | indirect a ih => exact ih.trans ⟨.indirect, fun | .indirect h => h⟩

theorem below?_eq_some_iff : a.below? path = some b ↔ a.Leads path b := by
  induction path generalizing a with
  | nil =>
    constructor
    · rintro ⟨⟩
      exact .here _
    · rintro ⟨⟩
      rfl
  | cons name rest ih =>
    rw [below?, Option.bind_eq_some_iff]
    constructor
    · rintro ⟨c, hc, hb⟩
      exact .down (child?_eq_some_iff.1 hc) (ih.1 hb)
    · intro h
      cases h with
      | down hc hb => exact ⟨_, child?_eq_some_iff.2 hc, ih.2 hb⟩

theorem below?_append (h : a.below? names = some b) (rest : List String) :
    a.below? (names ++ rest) = b.below? rest := by
  induction names generalizing a with
  | nil =>
    obtain rfl := Option.some.inj h
    rfl
  | cons name names ih =>
    obtain ⟨c, hc, hb⟩ := Option.bind_eq_some_iff.1 h
    rw [List.cons_append, below?, hc]
    exact ih hb

theorem refuses_iff : a.Refuses reason ↔ ∃ u, a.binding = .error u ∧ u.reason = reason := by
  induction a using wrapping_induction with
  | value | document | absent => exact iff_of_false nofun nofun
  | mapping entries =>
    constructor
    · rintro ⟨⟩
      exact ⟨.mapping, rfl, rfl⟩
    · rintro ⟨u, ⟨⟩, rfl⟩
      exact .mapping entries
  | record fields =>
    constructor
    · rintro ⟨⟩
      exact ⟨.record, rfl, rfl⟩
    · rintro ⟨u, ⟨⟩, rfl⟩
      exact .record fields
  | present a ih => exact Iff.trans ⟨fun | .present h => h, .present⟩ ih
  | indirect a ih => exact Iff.trans ⟨fun | .indirect h => h, .indirect⟩ ih

theorem pathText_ne_of_append {before after : List String} (hb : before ≠ []) (ha : after ≠ []) :
    pathText (before ++ after) ≠ pathText before := by
  intro h
  rw [pathText, String.intercalate_append_of_ne_nil hb ha, String.append_assoc] at h
  have hempty := String.append_eq_left_iff.1 h
  exact absurd (String.append_eq_empty_iff.1 hempty).1 (by decide)

theorem eq_of_pathText_eq_empty (hp : path ≠ []) (h : pathText path = "") : path = [""] := by
  obtain ⟨name, rest, rfl⟩ := List.exists_cons_of_ne_nil hp
  cases rest with
  | nil => exact congrArg (fun name ↦ [name]) (String.intercalate_singleton.symm.trans h)
  | cons other rest =>
    rw [pathText, String.intercalate_cons_cons, String.append_assoc] at h
    have hdot := (String.append_eq_empty_iff.1 (String.append_eq_empty_iff.1 h).2).1
    exact absurd hdot (by decide)

end Argument

namespace Arguments

open Argument

/-- The nodes that a root has under a name. -/
inductive Binds (name : String) : Arguments → Argument → Prop
  | entry {entries : List (String × Argument)} {a : Argument} :
      entries.lookup name = some a → Binds name (.mapping entries) a
  | member {ms : List (String × Json)} {j : Json} :
      ms.lookup name = some j → Binds name (.members ms) (.document j)
  | field {fields : List (String × Argument)} {a : Argument} :
      fields.lookup name = some a → Binds name (.record fields) a

/-- The node that a path leads to from a root. -/
inductive Leads (args : Arguments) : List String → Argument → Prop
  | root {name : String} {rest : List String} {a b : Argument} :
      args.Binds name a → a.Leads rest b → Leads args (name :: rest) b

def Finds (args : Arguments) (names : List String) : Prop := names = [] ∨ ∃ a, args.Leads names a

/-- Of the names of a path, the first from the left that is not found. -/
def FirstMissing (args : Arguments) (path : List String) (name : String) : Prop :=
  ∃ before after, path = before ++ name :: after ∧ args.Finds before ∧
    ¬args.Finds (before ++ [name])

variable {args : Arguments} {name reason : String} {path names rest : List String} {a : Argument}
  {e : Error}

theorem argument?_eq_some_iff : args.argument? name = some a ↔ args.Binds name a := by
  cases args with
  | none => exact iff_of_false nofun nofun
  | mapping entries => exact ⟨.entry, fun | .entry h => h⟩
  | members ms =>
    refine Option.map_eq_some_iff.trans ⟨?_, fun h ↦ ?_⟩
    · rintro ⟨j, hj, rfl⟩
      exact .member hj
    · cases h with
      | member hj => exact ⟨_, hj, rfl⟩
  | record fields => exact ⟨.field, fun | .field h => h⟩

theorem node?_eq_some_iff : args.node? path = some a ↔ args.Leads path a := by
  cases path with
  | nil => exact iff_of_false nofun nofun
  | cons name rest =>
    rw [node?, Option.bind_eq_some_iff]
    constructor
    · rintro ⟨b, hb, ha⟩
      exact .root (argument?_eq_some_iff.1 hb) (below?_eq_some_iff.1 ha)
    · intro h
      cases h with
      | root hb ha => exact ⟨_, argument?_eq_some_iff.2 hb, below?_eq_some_iff.2 ha⟩

theorem node?_append (h : args.node? names = some a) (rest : List String) :
    args.node? (names ++ rest) = a.below? rest := by
  cases names with
  | nil => cases h
  | cons name names =>
    obtain ⟨b, hb, ha⟩ := Option.bind_eq_some_iff.1 h
    rw [List.cons_append, node?, hb]
    exact below?_append ha rest

theorem finds_or_firstMissing (args : Arguments) (path : List String) :
    args.Finds path ∨ ∃ name, args.FirstMissing path name := by
  induction path using List.reverseRecOn with
  | nil => exact .inl (.inl rfl)
  | append_singleton path name ih =>
    -- The last name counts only where all names before it are found.
    obtain hf | ⟨first, before, after, rfl, h⟩ := ih
    · by_cases hn : args.Finds (path ++ [name])
      · exact .inl hn
      · exact .inr ⟨name, path, [], rfl, hf, hn⟩
    · exact .inr ⟨first, before, after ++ [name], by simp, h⟩

theorem leads_or_firstMissing (args : Arguments) (hp : path ≠ []) :
    (∃ a, args.Leads path a) ∨ ∃ name, args.FirstMissing path name :=
  (args.finds_or_firstMissing path).imp_left fun h ↦ h.resolve_left hp

theorem resolve_of_leads (h : args.Leads path a) :
    args.resolve path = a.binding.mapError (Unbindable.error path) := by
  have hr := resolve_append (node?_eq_some_iff.2 h) []
  rw [List.append_nil] at hr
  exact hr

theorem FirstMissing.resolve (h : args.FirstMissing path name) :
    args.resolve path = .error (unresolved path name) := by
  obtain ⟨before, after, rfl, rfl | ⟨a, ha⟩, hn⟩ := h
  · cases hr : args.argument? name with
    | none => rw [List.nil_append, Arguments.resolve, hr]
    | some a => exact absurd (.inr ⟨a, .root (argument?_eq_some_iff.1 hr) (.here a)⟩) hn
  · have hnode := node?_eq_some_iff.2 ha
    rw [resolve_append hnode, walk]
    cases hc : a.child? name with
    | none => rfl
    | some b =>
      have hb : args.node? (before ++ [name]) = some b := by
        rw [node?_append hnode, below?, hc]
        rfl
      exact absurd (.inr ⟨b, node?_eq_some_iff.1 hb⟩) hn

theorem resolve_of_refuses (h : args.Leads path a) (hr : a.Refuses reason) :
    args.resolve path = .error (.argumentResolution (pathText path) reason) := by
  obtain ⟨u, hu, rfl⟩ := refuses_iff.1 hr
  rw [resolve_of_leads h, hu]
  rfl

theorem exists_resolve (h : args.Leads path a) (hr : ∀ reason, ¬a.Refuses reason) :
    ∃ v, args.resolve path = .ok v := by
  rw [resolve_of_leads h]
  cases hb : a.binding with
  | ok v => exact ⟨v, rfl⟩
  | error u => exact absurd (refuses_iff.2 ⟨u, hb, rfl⟩) (hr u.reason)

theorem resolve_cases (args : Arguments) (hp : path ≠ []) :
    (∃ a v, args.Leads path a ∧ (∀ reason, ¬a.Refuses reason) ∧ args.resolve path = .ok v) ∨
    (∃ a reason, args.Leads path a ∧ a.Refuses reason ∧
      args.resolve path = .error (.argumentResolution (pathText path) reason)) ∨
    ∃ name, args.FirstMissing path name ∧
      args.resolve path = .error (unresolved path name) := by
  obtain ⟨a, ha⟩ | ⟨name, hn⟩ := args.leads_or_firstMissing hp
  · by_cases hr : ∃ reason, a.Refuses reason
    · obtain ⟨reason, hr⟩ := hr
      exact .inr (.inl ⟨a, reason, ha, hr, resolve_of_refuses ha hr⟩)
    · push Not at hr
      obtain ⟨v, hv⟩ := exists_resolve ha hr
      exact .inl ⟨a, v, ha, hr, hv⟩
  · exact .inr (.inr ⟨name, hn, hn.resolve⟩)

theorem resolve_eq_error_iff (args : Arguments) (hp : path ≠ []) :
    args.resolve path = .error e ↔ ∃ reason, e = .argumentResolution (pathText path) reason ∧
      ((∃ name, args.FirstMissing path name ∧ reason = s!"no key or attribute '{name}'") ∨
        ∃ a, args.Leads path a ∧ a.Refuses reason) := by
  constructor
  · intro h
    obtain ⟨a, v, -, -, hv⟩ | ⟨a, reason, ha, hr, he⟩ | ⟨name, hn, he⟩ := args.resolve_cases hp
    · cases hv.symm.trans h
    · cases he.symm.trans h
      exact ⟨reason, rfl, .inr ⟨a, ha, hr⟩⟩
    · cases he.symm.trans h
      exact ⟨_, rfl, .inl ⟨name, hn, rfl⟩⟩
  · rintro ⟨reason, rfl, ⟨name, hn, rfl⟩ | ⟨a, ha, hr⟩⟩
    · exact hn.resolve
    · exact resolve_of_refuses ha hr

/-- Resolving a path fails with the text of all its names: at the first name from the left that is
not found, or, where all are found, at a mapping or a record. In every other case there is a value.
The text is not that of fewer names; it is empty for the one empty name alone. -/
theorem failures_tell_whole_path (args : Arguments) (path : List String) (hp : path ≠ []) :
    (∀ e, args.resolve path = .error e ↔
      ∃ reason, e = .argumentResolution (pathText path) reason ∧
        ((∃ name, args.FirstMissing path name ∧ reason = s!"no key or attribute '{name}'") ∨
          ∃ a, args.Leads path a ∧ a.Refuses reason)) ∧
    ((∃ v, args.resolve path = .ok v) ↔ ∃ a, args.Leads path a ∧ ∀ reason, ¬a.Refuses reason) ∧
    (∀ before after, before ≠ [] → after ≠ [] → path = before ++ after →
      pathText path ≠ pathText before) ∧
    (pathText path = "" → path = [""]) := by
  refine ⟨fun e ↦ args.resolve_eq_error_iff hp, ?_, ?_, eq_of_pathText_eq_empty hp⟩
  · constructor
    · rintro ⟨v, hv⟩
      obtain ⟨a, -, ha, hr, -⟩ | ⟨a, reason, -, -, he⟩ | ⟨name, -, he⟩ := args.resolve_cases hp
      · exact ⟨a, ha, hr⟩
      · cases he.symm.trans hv
      · cases he.symm.trans hv
    · rintro ⟨a, ha, hr⟩
      exact exists_resolve ha hr
  · rintro before after hb ha rfl
    exact pathText_ne_of_append hb ha

def resident : Arguments :=
  mapping [("user", .indirect (.present (.record
    [("home", .mapping [("city", .value (.string "Oslo"))]), ("zip", .absent)])))]

theorem failures_tell_whole_path_resident :
    ["user", "home"] ≠ [] ∧ ["user", "zip", "first", "digit"] ≠ [] ∧
    resident.resolve ["user", "home"] = .error
      (.argumentResolution "user.home" "a mapping cannot be bound as a single value") ∧
    resident.resolve ["user", "zip", "first", "digit"] = .error
      (.argumentResolution "user.zip.first.digit" "no key or attribute 'first'") := by
  have hhome : resident.Leads ["user", "home"] (.mapping [("city", .value (.string "Oslo"))]) :=
    node?_eq_some_iff.1 rfl
  have hzip : resident.Leads ["user", "zip"] .absent := node?_eq_some_iff.1 rfl
  have hfirst : ¬resident.Finds ["user", "zip", "first"] := by
    rintro (h | ⟨a, ha⟩)
    · cases h
    · cases node?_eq_some_iff.2 ha
  refine ⟨by simp, by simp, ?_, ?_⟩
  · refine ((failures_tell_whole_path resident _ (by simp)).1 _).2 ⟨_, rfl, .inr ?_⟩
    exact ⟨_, hhome, .mapping _⟩
  · refine ((failures_tell_whole_path resident _ (by simp)).1 _).2 ⟨_, rfl, .inl ?_⟩
    exact ⟨"first", ⟨["user", "zip"], ["digit"], rfl, .inr ⟨_, hzip⟩, hfirst⟩, rfl⟩

end Arguments

end BoundSql
