import Mathlib.Data.List.Induction
import Mathlib.Logic.Function.Iterate
import BoundSql.Template.Parser
import BoundSql.Template.Render

namespace BoundSql

namespace Fragment

def bound? : Fragment → Option (List String)
  | .placeholder ⟨path, false⟩ => some path
  | _ => none

def piece (value : List String → Value) (m : String) : Fragment → String
  | .text s => s
  | .placeholder p => if p.literal then (value p.path).text else m

end Fragment

namespace Template

/-- The paths of the bound placeholders, repeated ones included. -/
def bound (fs : List Fragment) : List (List String) := fs.filterMap Fragment.bound?

/-- A bound placeholder with `k` bound ones before it stands in the text as marker number `k`. -/
def pieces (value : List String → Value) (markers : Nat → String) (fs : List Fragment) :
    List String :=
  fs.mapIdx fun i f ↦ f.piece value (markers (bound (fs.take i)).length)

section

variable (path : List String) (s : String) (fs : List Fragment)

@[simp]
theorem bound_nil : bound [] = [] := rfl

@[simp]
theorem bound_text : bound (.text s :: fs) = bound fs := rfl

@[simp]
theorem bound_literal : bound (.placeholder ⟨path, true⟩ :: fs) = bound fs := rfl

@[simp]
theorem bound_bound : bound (.placeholder ⟨path, false⟩ :: fs) = path :: bound fs := rfl

variable (value : List String → Value) (markers : Nat → String)

@[simp]
theorem pieces_nil : pieces value markers [] = [] := rfl

@[simp]
theorem pieces_text : pieces value markers (.text s :: fs) = s :: pieces value markers fs := by
  simp [pieces, List.mapIdx_cons, Fragment.piece]

@[simp]
theorem pieces_literal : pieces value markers (.placeholder ⟨path, true⟩ :: fs) =
    (value path).text :: pieces value markers fs := by
  simp [pieces, List.mapIdx_cons, Fragment.piece]

@[simp]
theorem pieces_bound : pieces value markers (.placeholder ⟨path, false⟩ :: fs) =
    markers 0 :: pieces value (fun k ↦ markers (k + 1)) fs := by
  simp [pieces, List.mapIdx_cons, Fragment.piece]

end

section

variable {G : Type} (draw : G → Except String String × G)

/-- The state of a generator that has been asked for `n` markers. -/
def skip (n : Nat) (g : G) : G := (fun g ↦ (draw g).2)^[n] g

def marker (g : G) (k : Nat) : Except String String := (draw (skip draw k g)).1

@[simp]
theorem skip_zero (g : G) : skip draw 0 g = g := rfl

theorem skip_draw (n : Nat) (g : G) : skip draw n (draw g).2 = skip draw (n + 1) g :=
  (Function.iterate_succ_apply _ n g).symm

theorem draw_skip (n : Nat) (g : G) : (draw (skip draw n g)).2 = skip draw (n + 1) g :=
  (Function.iterate_succ_apply' (fun g ↦ (draw g).2) n g).symm

theorem marker_draw (g : G) (k : Nat) : marker draw (draw g).2 k = marker draw g (k + 1) := by
  rw [marker, marker, skip_draw]

/-- Rendering reads the state of a generator and may end badly. -/
abbrev Rendering (G : Type) := ExceptT BoundSql.Fault (StateM G)

def ask : Rendering G String := ExceptT.mk fun g ↦ (Outcome.ofChecked (draw g).1, (draw g).2)

def look (resolve : List String → Except Error Value) (path : List String) : Rendering G Value :=
  ExceptT.mk (pure (Outcome.ofResult (resolve path)))

/-- Renders with any generator and any way to resolve paths. -/
def renderWith (resolve : List String → Except Error Value) (t : Template) :
    Rendering G Rendered :=
  renderFrom (look resolve) (ask draw) [] t.fragments

variable (resolve : List String → Except Error Value)

/-- Every path of the fragments resolves, and the generator has a marker for every bound placeholder
of them. -/
structure Passes (fs : List Fragment) (g : G) : Prop where
  resolves : ∀ p, .placeholder p ∈ fs → ∃ v, resolve p.path = .ok v
  draws : ∀ k < (bound fs).length, ∃ m, marker draw g k = .ok m

end

theorem render_eq_renderWith (t : Template) (args : Arguments) :
    t.render args = renderWith Marker.Generator.next args.resolve t := rfl

section

variable {G α β : Type} {draw : G → Except String String × G}
  {resolve : List String → Except Error Value} {x : Rendering G α} {f : α → Rendering G β} {a : α}
  {e : Error} {fault : BoundSql.Fault} {message : String} {g g' : G} {resolved : Resolved}
  {path : List String} {v : Value} {value : List String → Value} {markers : Nat → String}
  {fs gs hs : List Fragment} {p : Placeholder}

theorem bind_of_ok (h : x g = (.ok a, g')) : (x >>= f) g = f a g' := by
  change ExceptT.bindCont f (x g).1 (x g).2 = f a g'
  rw [h]
  rfl

theorem bind_of_error (h : x g = (.error fault, g')) : (x >>= f) g = (.error fault, g') := by
  change ExceptT.bindCont f (x g).1 (x g).2 = _
  rw [h]
  rfl

theorem ask_of_ok {m : String} (h : marker draw g 0 = .ok m) :
    ask draw g = (.ok m, (draw g).2) := by
  change (Outcome.ofChecked (marker draw g 0), (draw g).2) = _
  rw [h]
  rfl

theorem ask_of_error (h : marker draw g 0 = .error message) :
    ask draw g = (.error (.panic message), (draw g).2) := by
  change (Outcome.ofChecked (marker draw g 0), (draw g).2) = _
  rw [h]
  rfl

def Faithful (resolve : List String → Except Error Value) (resolved : Resolved) : Prop :=
  ∀ path v, resolved.lookup path = some v → resolve path = .ok v

theorem faithful_nil : Faithful resolve [] := fun _ _ h ↦ by simp at h

theorem Faithful.cons (h : Faithful resolve resolved) (hv : resolve path = .ok v) :
    Faithful resolve ((path, v) :: resolved) := by
  intro q w hw
  by_cases hq : q = path
  · subst hq
    simp only [List.lookup_cons_self, Option.some.injEq] at hw
    rw [hv, hw]
  · rw [List.lookup_cons, beq_false_of_ne hq] at hw
    exact h q w hw

theorem remember_of_ok (h : Faithful resolve resolved) (hv : resolve path = .ok v) (g : G) :
    ∃ known, Faithful resolve known ∧
      remember (look resolve) resolved path g = (.ok (v, known), g) := by
  cases hl : resolved.lookup path with
  | some w =>
    have hw : w = v := by simpa [hv] using (h path w hl).symm
    refine ⟨resolved, h, ?_⟩
    rw [remember, hl, hw]
    rfl
  | none =>
    refine ⟨(path, v) :: resolved, h.cons hv, ?_⟩
    rw [remember, hl]
    exact bind_of_ok (by rw [look, hv]; rfl)

theorem remember_of_error (h : Faithful resolve resolved) (he : resolve path = .error e) (g : G) :
    remember (look resolve) resolved path g = (.error (.error e), g) := by
  cases hl : resolved.lookup path with
  | some w =>
    have hw := h path w hl
    rw [he] at hw
    cases hw
  | none =>
    rw [remember, hl]
    exact bind_of_error (by rw [look, he]; rfl)

theorem renderFrom_ok (hv : ∀ p, .placeholder p ∈ fs → resolve p.path = .ok (value p.path))
    (hm : ∀ k < (bound fs).length, marker draw g k = .ok (markers k))
    (hr : Faithful resolve resolved) :
    renderFrom (look resolve) (ask draw) resolved fs g =
      (.ok ⟨String.join (pieces value markers fs), (bound fs).map value⟩,
        skip draw (bound fs).length g) := by
  induction fs generalizing resolved g markers with
  | nil => rfl
  | cons f fs ih =>
    have hf : ∀ p, .placeholder p ∈ fs → resolve p.path = .ok (value p.path) :=
      fun p hp ↦ hv p (.tail _ hp)
    cases f with
    | text s =>
      rw [renderFrom, bind_of_ok (ih hf hm hr), pieces_text, String.join_cons]
      rfl
    | placeholder p =>
      obtain ⟨known, hk, he⟩ := remember_of_ok hr (hv p (.head _)) g
      obtain ⟨path, literal⟩ := p
      rw [renderFrom, bind_of_ok he]
      cases literal with
      | true =>
        simp only [↓reduceIte]
        rw [bind_of_ok (ih hf hm hk), pieces_literal, String.join_cons]
        rfl
      | false =>
        have hrest : ∀ k < (bound fs).length, marker draw (draw g).2 k = .ok (markers (k + 1)) :=
          fun k hk ↦ (marker_draw draw g k).trans (hm (k + 1) (Nat.succ_lt_succ hk))
        simp only [Bool.false_eq_true, ↓reduceIte]
        rw [bind_of_ok (ask_of_ok (hm 0 (Nat.succ_pos _))), bind_of_ok (ih hf hrest hk), skip_draw,
          pieces_bound, String.join_cons]
        rfl

theorem Passes.renderFrom_append (hg : Passes draw resolve gs g)
    (hrest : ∀ known, Faithful resolve known →
      renderFrom (look resolve) (ask draw) known fs (skip draw (bound gs).length g) =
        (.error fault, g'))
    (hr : Faithful resolve resolved) :
    renderFrom (look resolve) (ask draw) resolved (gs ++ fs) g = (.error fault, g') := by
  induction gs generalizing resolved g with
  | nil => exact hrest resolved hr
  | cons f gs ih =>
    have hv : ∀ q, .placeholder q ∈ gs → ∃ v, resolve q.path = .ok v :=
      fun q hq ↦ hg.resolves q (.tail _ hq)
    rw [List.cons_append]
    cases f with
    | text s =>
      rw [renderFrom]
      exact bind_of_error (ih ⟨hv, hg.draws⟩ hrest hr)
    | placeholder q =>
      obtain ⟨v, hq⟩ := hg.resolves q (.head _)
      obtain ⟨known, hk, hm⟩ := remember_of_ok hr hq g
      obtain ⟨path, literal⟩ := q
      rw [renderFrom, bind_of_ok hm]
      cases literal with
      | true => exact bind_of_error (ih ⟨hv, hg.draws⟩ hrest hk)
      | false =>
        obtain ⟨m, ha⟩ := hg.draws 0 (Nat.succ_pos _)
        have hd : ∀ k < (bound gs).length, ∃ m, marker draw (draw g).2 k = .ok m := fun k hk ↦ by
          rw [marker_draw]
          exact hg.draws (k + 1) (Nat.succ_lt_succ hk)
        simp only [Bool.false_eq_true, ↓reduceIte]
        rw [bind_of_ok (ask_of_ok ha)]
        refine bind_of_error (ih ⟨hv, hd⟩ ?_ hk)
        rw [skip_draw]
        exact hrest

theorem renderFrom_error (he : resolve p.path = .error e) (hr : Faithful resolve resolved) (g : G) :
    renderFrom (look resolve) (ask draw) resolved (.placeholder p :: fs) g =
      (.error (.error e), g) :=
  bind_of_error (remember_of_error hr he g)

theorem renderFrom_panic (hl : p.literal = false) (hv : resolve p.path = .ok v)
    (hm : marker draw g 0 = .error message) (hr : Faithful resolve resolved) :
    renderFrom (look resolve) (ask draw) resolved (.placeholder p :: fs) g =
      (.error (.panic message), (draw g).2) := by
  obtain ⟨known, -, he⟩ := remember_of_ok hr hv g
  rw [renderFrom, bind_of_ok he, hl]
  simp only [Bool.false_eq_true, ↓reduceIte]
  exact bind_of_error (ask_of_error hm)

theorem bound_append (gs hs : List Fragment) : bound (gs ++ hs) = bound gs ++ bound hs :=
  List.filterMap_append

namespace Passes

theorem nil (g : G) : Passes draw resolve [] g := ⟨nofun, nofun⟩

theorem append (hg : Passes draw resolve gs g)
    (hh : Passes draw resolve hs (skip draw (bound gs).length g)) :
    Passes draw resolve (gs ++ hs) g where
  resolves p hp := (List.mem_append.1 hp).elim (hg.resolves p) (hh.resolves p)
  draws k hk := by
    rw [bound_append, List.length_append] at hk
    by_cases hlt : k < (bound gs).length
    · exact hg.draws k hlt
    · obtain ⟨m, hm⟩ := hh.draws (k - (bound gs).length) (by omega)
      refine ⟨m, ?_⟩
      rw [marker, skip, skip, ← Function.iterate_add_apply, Nat.sub_add_cancel (by omega)] at hm
      exact hm

theorem exists_value (h : Passes draw resolve fs g) :
    ∃ value : List String → Value, ∀ p, .placeholder p ∈ fs →
      resolve p.path = .ok (value p.path) := by
  refine ⟨fun path ↦ (resolve path).toOption.getD .null, fun p hp ↦ ?_⟩
  obtain ⟨v, hv⟩ := h.resolves p hp
  change resolve p.path = .ok ((resolve p.path).toOption.getD .null)
  rw [hv]
  rfl

theorem exists_markers (h : Passes draw resolve fs g) :
    ∃ markers : Nat → String, ∀ k < (bound fs).length, marker draw g k = .ok (markers k) := by
  refine ⟨fun k ↦ (marker draw g k).toOption.getD "", fun k hk ↦ ?_⟩
  obtain ⟨m, hm⟩ := h.draws k hk
  change marker draw g k = .ok ((marker draw g k).toOption.getD "")
  rw [hm]
  rfl

end Passes

/-- Why rendering ends at a placeholder when its generator is in the state `g`. -/
inductive Stops (draw : G → Except String String × G) (resolve : List String → Except Error Value)
    (p : Placeholder) (g : G) : BoundSql.Fault → G → Prop
  | path {e : Error} : resolve p.path = .error e → Stops draw resolve p g (.error e) g
  | marker {v : Value} {message : String} {g' : G} : p.literal = false → resolve p.path = .ok v →
      draw g = (.error message, g') → Stops draw resolve p g (.panic message) g'

theorem Stops.renderFrom (h : Stops draw resolve p g fault g') (hr : Faithful resolve resolved) :
    renderFrom (look resolve) (ask draw) resolved (.placeholder p :: fs) g = (.error fault, g') := by
  cases h with
  | path he => exact renderFrom_error he hr g
  | marker hl hv hd =>
    refine (renderFrom_panic hl hv (congrArg Prod.fst hd) hr).trans ?_
    rw [hd]

theorem passes_or_stops (draw : G → Except String String × G)
    (resolve : List String → Except Error Value) (fs : List Fragment) (g : G) :
    Passes draw resolve fs g ∨ ∃ gs p hs fault g', fs = gs ++ .placeholder p :: hs ∧
      Passes draw resolve gs g ∧ Stops draw resolve p (skip draw (bound gs).length g) fault g' := by
  induction fs using List.reverseRecOn with
  | nil => exact .inl (.nil g)
  | append_singleton fs f ih =>
    obtain hfs | ⟨gs, p, hs, fault, g', rfl, hgs, hp⟩ := ih
    case inr => exact .inr ⟨gs, p, hs ++ [f], fault, g', by simp, hgs, hp⟩
    -- What comes before the last fragment passes, so that one decides.
    cases f with
    | text s => exact .inl (hfs.append ⟨nofun, nofun⟩)
    | placeholder p =>
      cases hv : resolve p.path with
      | error e => exact .inr ⟨fs, p, [], _, _, rfl, hfs, .path hv⟩
      | ok v =>
        have hresolves : ∀ q, Fragment.placeholder q ∈ [.placeholder p] →
            ∃ v, resolve q.path = .ok v := by
          intro q hq
          rw [Fragment.placeholder.inj (List.mem_singleton.1 hq)]
          exact ⟨v, hv⟩
        obtain ⟨path, _ | _⟩ := p
        case true => exact .inl (hfs.append ⟨hresolves, nofun⟩)
        cases hd : draw (skip draw (bound fs).length g) with
        | mk r g' =>
          cases r with
          | error message => exact .inr ⟨fs, _, [], _, g', rfl, hfs, .marker rfl hv hd⟩
          | ok m =>
            refine .inl (hfs.append ⟨hresolves, fun k hk ↦ ⟨m, ?_⟩⟩)
            obtain rfl : k = 0 := Nat.lt_one_iff.1 hk
            exact congrArg Prod.fst hd

theorem mem_distinct {paths : List (List String)} : path ∈ distinct paths ↔ path ∈ paths := by
  have hf : ∀ seen : List (List String),
      path ∈ paths.foldl (fun seen p ↦ if p ∈ seen then seen else seen ++ [p]) seen ↔
        path ∈ seen ∨ path ∈ paths := by
    induction paths with
    | nil => simp
    | cons p paths ih =>
      intro seen
      rw [List.foldl_cons, ih]
      split <;> grind
  rw [distinct, hf]
  simp

theorem mem_arguments {t : Template} :
    path ∈ t.arguments ↔ ∃ p, .placeholder p ∈ t.fragments ∧ p.path = path := by
  rw [arguments, mem_distinct, List.mem_filterMap]
  constructor
  · rintro ⟨f, hf, hp⟩
    cases f with
    | text s => cases hp
    | placeholder p => exact ⟨p, hf, Option.some.inj hp⟩
  · rintro ⟨p, hp, rfl⟩
    exact ⟨_, hp, rfl⟩

theorem passes_iff {t : Template} : Passes draw resolve t.fragments g ↔
    (∀ path ∈ t.arguments, ∃ v, resolve path = .ok v) ∧
      ∀ k < (bound t.fragments).length, ∃ m, marker draw g k = .ok m := by
  constructor
  · rintro ⟨hv, hm⟩
    refine ⟨fun path hp ↦ ?_, hm⟩
    obtain ⟨p, hm, rfl⟩ := mem_arguments.1 hp
    exact hv p hm
  · rintro ⟨hv, hm⟩
    exact ⟨fun p hp ↦ hv _ (mem_arguments.2 ⟨p, hp, rfl⟩), hm⟩

theorem renderWith_ok {t : Template} (hv : ∀ path ∈ t.arguments, resolve path = .ok (value path))
    (hm : ∀ k < (bound t.fragments).length, marker draw g k = .ok (markers k)) :
    renderWith draw resolve t g =
      (.ok ⟨String.join (pieces value markers t.fragments), (bound t.fragments).map value⟩,
        skip draw (bound t.fragments).length g) :=
  renderFrom_ok (fun p hp ↦ hv _ (mem_arguments.2 ⟨p, hp, rfl⟩)) hm faithful_nil

theorem Passes.renderWith {t : Template} (h : Passes draw resolve t.fragments g) :
    ∃ (value : List String → Value) (markers : Nat → String),
      (∀ path ∈ t.arguments, resolve path = .ok (value path)) ∧
      (∀ k < (bound t.fragments).length, marker draw g k = .ok (markers k)) ∧
      renderWith draw resolve t g =
        (.ok ⟨String.join (pieces value markers t.fragments), (bound t.fragments).map value⟩,
          skip draw (bound t.fragments).length g) := by
  obtain ⟨value, hv⟩ := h.exists_value
  obtain ⟨markers, hm⟩ := h.exists_markers
  have hall : ∀ path ∈ t.arguments, resolve path = .ok (value path) := by
    intro path hp
    obtain ⟨p, hm, rfl⟩ := mem_arguments.1 hp
    exact hv p hm
  exact ⟨value, markers, hall, hm, renderWith_ok hall hm⟩

theorem Stops.renderWith {t : Template} (ht : t.fragments = gs ++ .placeholder p :: hs)
    (hg : Passes draw resolve gs g)
    (hp : Stops draw resolve p (skip draw (bound gs).length g) fault g') :
    renderWith draw resolve t g = (.error fault, g') := by
  rw [Template.renderWith, ht]
  exact hg.renderFrom_append (fun _ hr ↦ hp.renderFrom hr) faithful_nil

theorem exists_of_renderWith_ok {t : Template} {r : Rendered}
    (h : renderWith draw resolve t g = (.ok r, g')) :
    ∃ (value : List String → Value) (markers : Nat → String),
      (∀ path ∈ t.arguments, resolve path = .ok (value path)) ∧
      (∀ k < (bound t.fragments).length, marker draw g k = .ok (markers k)) ∧
      r.sql = String.join (pieces value markers t.fragments) ∧
      r.params = (bound t.fragments).map value ∧ g' = skip draw (bound t.fragments).length g := by
  obtain hpass | ⟨gs, p, hs, fault, g'', ht, hg, hp⟩ :=
    passes_or_stops draw resolve t.fragments g
  · obtain ⟨value, markers, hv, hm, hr⟩ := hpass.renderWith
    rw [hr] at h
    cases h
    exact ⟨value, markers, hv, hm, rfl, rfl, rfl⟩
  · rw [hp.renderWith ht hg] at h
    cases h

theorem exists_of_renderWith_error {t : Template} (h : renderWith draw resolve t g = (.error fault, g')) :
    ∃ gs p hs, t.fragments = gs ++ .placeholder p :: hs ∧ Passes draw resolve gs g ∧
      Stops draw resolve p (skip draw (bound gs).length g) fault g' := by
  obtain hpass | ⟨gs, p, hs, fault', g'', ht, hg, hp⟩ :=
    passes_or_stops draw resolve t.fragments g
  · obtain ⟨value, markers, -, -, hr⟩ := hpass.renderWith
    rw [hr] at h
    cases h
  · rw [hp.renderWith ht hg] at h
    cases h
    exact ⟨gs, p, hs, ht, hg, hp⟩

end

/-- Rendering succeeds exactly if every argument of the template resolves and the generator has a
marker for every bound placeholder. The text then has the markers in turn where parameters are
bound, and the parameters are the values of these places. Otherwise the first path that fails gives
the error, or the first marker that fails the panic, whichever comes first, and the generator has
been asked for the markers of the bound placeholders before it. -/
theorem render_spec {G : Type} (draw : G → Except String String × G)
    (resolve : List String → Except Error Value) (t : Template) (g : G) :
    (∀ args, t.render args = renderWith Marker.Generator.next args.resolve t) ∧
    ((∃ r g', renderWith draw resolve t g = (.ok r, g')) ↔
      (∀ path ∈ t.arguments, ∃ v, resolve path = .ok v) ∧
        ∀ k < (bound t.fragments).length, ∃ m, marker draw g k = .ok m) ∧
    (∀ r g', renderWith draw resolve t g = (.ok r, g') ↔
      ∃ (value : List String → Value) (markers : Nat → String),
        (∀ path ∈ t.arguments, resolve path = .ok (value path)) ∧
        (∀ k < (bound t.fragments).length, marker draw g k = .ok (markers k)) ∧
        r.sql = String.join (pieces value markers t.fragments) ∧
        r.params = (bound t.fragments).map value ∧
        g' = skip draw (bound t.fragments).length g) ∧
    (∀ e g', renderWith draw resolve t g = (.error (.error e), g') ↔
      ∃ gs p hs, t.fragments = gs ++ .placeholder p :: hs ∧ Passes draw resolve gs g ∧
        resolve p.path = .error e ∧ g' = skip draw (bound gs).length g) ∧
    (∀ message g', renderWith draw resolve t g = (.error (.panic message), g') ↔
      ∃ gs p hs v, t.fragments = gs ++ .placeholder p :: hs ∧ Passes draw resolve gs g ∧
        resolve p.path = .ok v ∧ p.literal = false ∧
        marker draw g (bound gs).length = .error message ∧
        g' = skip draw ((bound gs).length + 1) g) := by
  refine ⟨render_eq_renderWith t, ⟨?_, ?_⟩, fun r g' ↦ ⟨exists_of_renderWith_ok, ?_⟩,
    fun e g' ↦ ⟨?_, ?_⟩, fun message g' ↦ ⟨?_, ?_⟩⟩
  · rintro ⟨r, g', hr⟩
    obtain ⟨value, markers, hv, hm, -⟩ := exists_of_renderWith_ok hr
    exact ⟨fun path hp ↦ ⟨_, hv path hp⟩, fun k hk ↦ ⟨_, hm k hk⟩⟩
  · intro hpass
    obtain ⟨value, markers, -, -, hr⟩ := (passes_iff.2 hpass).renderWith
    exact ⟨_, _, hr⟩
  · rintro ⟨value, markers, hv, hm, hsql, hparams, rfl⟩
    rw [renderWith_ok hv hm, ← hsql, ← hparams]
  · intro hr
    obtain ⟨gs, p, hs, ht, hg, hp⟩ := exists_of_renderWith_error hr
    cases hp with
    | path he => exact ⟨gs, p, hs, ht, hg, he, rfl⟩
  · rintro ⟨gs, p, hs, ht, hg, he, rfl⟩
    exact Stops.renderWith ht hg (.path he)
  · intro hr
    obtain ⟨gs, p, hs, ht, hg, hp⟩ := exists_of_renderWith_error hr
    cases hp with
    | marker hl hv hd =>
      have hnext := congrArg Prod.snd hd
      rw [draw_skip] at hnext
      exact ⟨gs, p, hs, _, ht, hg, hv, hl, congrArg Prod.fst hd, hnext.symm⟩
  · rintro ⟨gs, p, hs, v, ht, hg, hv, hl, hm, rfl⟩
    exact Stops.renderWith ht hg (.marker hl hv (Prod.ext hm (draw_skip draw _ g)))

/-- The last number of its range is in the hands of a generator that does not give it away. -/
theorem render_panics_at_last_number :
    let t : Template := ⟨"#\x7ba\x7d", [.placeholder ⟨["a"], false⟩]⟩
    let args : Arguments := .mapping [("a", .value (.int .i64 .one))]
    parse t.source = .ok t ∧ (∀ path ∈ t.arguments, ∃ v, args.resolve path = .ok v) ∧
      (t.render args).run.run (.numbered "$" 18446744073709551615) =
        (.error (.panic "attempt to add with overflow"), .numbered "$" 18446744073709551615) := by
  refine ⟨by decide +kernel, ?_, by rfl⟩
  intro path hp
  obtain rfl : path = ["a"] := List.mem_singleton.1 hp
  exact ⟨_, rfl⟩

end Template

end BoundSql
