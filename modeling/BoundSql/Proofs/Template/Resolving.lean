import BoundSql.Proofs.Template.Rendering
import Mathlib.Data.List.Basic

namespace BoundSql.Template

section

variable {known paths : List (List String)} {path : List String}

def missing (known : List (List String)) : List (List String) → List (List String)
  | [] => []
  | p :: r => if known.contains p then missing known r else p :: missing (p :: known) r

theorem missing_of_mem {p : List String} (h : p ∈ known) :
    missing known (p :: paths) = missing known paths := by
  rw [missing, if_pos (by simpa using h)]

theorem missing_of_notMem {p : List String} (h : p ∉ known) :
    missing known (p :: paths) = p :: missing (p :: known) paths := by
  rw [missing, if_neg (by simpa using h)]

theorem missing_congr {known' : List (List String)} (h : ∀ p, p ∈ known ↔ p ∈ known') :
    missing known paths = missing known' paths := by
  induction paths generalizing known known' with
  | nil => rfl
  | cons p r ih =>
    by_cases hp : p ∈ known
    · rw [missing_of_mem hp, missing_of_mem ((h p).1 hp), ih h]
    · have hr : missing (p :: known) r = missing (p :: known') r := ih fun q ↦ by simp [h q]
      rw [missing_of_notMem hp, missing_of_notMem (mt (h p).2 hp), hr]

theorem distinct_eq_missing (paths : List (List String)) : distinct paths = missing [] paths := by
  suffices h : ∀ seen : List (List String),
      paths.foldl (fun seen p ↦ if p ∈ seen then seen else seen ++ [p]) seen =
        seen ++ missing seen paths from h []
  induction paths with
  | nil => simp [missing]
  | cons p r ih =>
    intro seen
    rw [List.foldl_cons, ih]
    by_cases hp : p ∈ seen
    · rw [if_pos hp, missing_of_mem hp]
    · have hr : missing (seen ++ [p]) r = missing (p :: seen) r :=
        missing_congr fun q ↦ by simp [or_comm]
      rw [if_neg hp, missing_of_notMem hp, hr, List.append_assoc, List.singleton_append]

theorem notMem_of_mem_missing (h : path ∈ missing known paths) : path ∉ known := by
  induction paths generalizing known with
  | nil => simp [missing] at h
  | cons p r ih =>
    by_cases hp : p ∈ known
    · exact ih (missing_of_mem hp ▸ h)
    · rw [missing_of_notMem hp] at h
      obtain rfl | h := List.mem_cons.1 h
      · exact hp
      · have hn := ih h
        simp only [List.mem_cons, not_or] at hn
        exact hn.2

theorem pairwise_missing (known paths : List (List String)) :
    (missing known paths).Pairwise fun p q ↦ paths.idxOf p < paths.idxOf q := by
  induction paths generalizing known with
  | nil => simp [missing]
  | cons p r ih =>
    have later : ∀ {known'}, (∀ q ∈ missing known' r, q ≠ p) →
        (missing known' r).Pairwise fun a b ↦ (p :: r).idxOf a < (p :: r).idxOf b := by
      intro known' hne
      refine (ih known').imp_of_mem ?_
      intro a b ha hb hab
      rw [List.idxOf_cons_ne _ (hne a ha).symm, List.idxOf_cons_ne _ (hne b hb).symm]
      omega
    by_cases hp : p ∈ known
    · rw [missing_of_mem hp]
      refine later fun q hq ↦ ?_
      rintro rfl
      exact notMem_of_mem_missing hq hp
    · rw [missing_of_notMem hp]
      have hne : ∀ q ∈ missing (p :: known) r, q ≠ p := by
        rintro q hq rfl
        exact notMem_of_mem_missing hq List.mem_cons_self
      refine List.pairwise_cons.2 ⟨fun q hq ↦ ?_, later hne⟩
      rw [List.idxOf_cons_self, List.idxOf_cons_ne _ (hne q hq).symm]
      omega

end

def emit {m : Type → Type} [Monad m] (next : m String) (literal : Bool) (v : Value)
    (rest : m Rendered) : m Rendered :=
  if literal then do return (← rest).addText v.text
  else do
    let marker ← next
    return (← rest).addParam marker v

theorem renderFrom_placeholder {m : Type → Type} [Monad m] (resolve : List String → m Value)
    (next : m String) (resolved : Resolved) (p : Placeholder) (fs : List Fragment) :
    renderFrom resolve next resolved (.placeholder p :: fs) =
      remember resolve resolved p.path >>= fun found ↦
        emit next p.literal found.1 (renderFrom resolve next found.2 fs) := rfl

section

variable {W : Type} (ask : List String → W → Except Error Value × W)

/-- Asks for paths one after the other until one fails: the world before, the paths, those of them
that were asked for, the failure if there was one, and the world after. -/
inductive Asks : W → List (List String) → List (List String) → Option Error → W → Prop
  | done (w : W) : Asks w [] [] none w
  | answered {w w' w'' : W} {path : List String} {paths asked : List (List String)} {v : Value}
      {o : Option Error} :
      ask path w = (.ok v, w') → Asks w' paths asked o w'' →
        Asks w (path :: paths) (path :: asked) o w''
  | refused {w w' : W} {path : List String} {paths : List (List String)} {e : Error} :
      ask path w = (.error e, w') → Asks w (path :: paths) [path] (some e) w'

variable {ask} {w w' : W} {paths asked : List (List String)} {e : Error}

theorem Asks.asked_of_none (h : Asks ask w paths asked none w') : asked = paths := by
  generalize ho : (none : Option Error) = o at h
  induction h with
  | done => rfl
  | answered _ _ ih => rw [ih ho]
  | refused => cases ho

theorem Asks.exists_of_some (h : Asks ask w paths asked (some e) w') :
    ∃ before path after u, paths = before ++ path :: after ∧ asked = before ++ [path] ∧
      Asks ask w before before none u ∧ ask path u = (.error e, w') := by
  generalize ho : some e = o at h
  induction h with
  | done => cases ho
  | @answered w w' w'' path paths asked v o hv _ ih =>
    obtain ⟨before, last, after, u, rfl, rfl, hb, hl⟩ := ih ho
    exact ⟨path :: before, last, after, u, rfl, rfl, .answered hv hb, hl⟩
  | @refused w w' path paths e' hr =>
    obtain rfl := Option.some.inj ho
    exact ⟨[], path, paths, w, rfl, rfl, .done w, hr⟩

end

/-- A world that resolving may change, the paths asked for so far, and a generator of markers. -/
structure Watch (W G : Type) where
  world : W
  asked : List (List String)
  generator : G

namespace Watch

variable {W G : Type} (ask : List String → W → Except Error Value × W) (draw : G → Except String String × G)

def look (path : List String) : Rendering (Watch W G) Value := ExceptT.mk fun s ↦
  (Outcome.ofResult (ask path s.world).1,
    { s with world := (ask path s.world).2, asked := s.asked ++ [path] })

def mark : Rendering (Watch W G) String := ExceptT.mk fun s ↦
  (Outcome.ofChecked (draw s.generator).1, { s with generator := (draw s.generator).2 })

def render (t : Template) : Rendering (Watch W G) Rendered :=
  renderFrom (look ask) (mark draw) [] t.fragments

/-- A rendering that panics has asked for some of the paths, and all of them were answered. -/
def Told {α : Type} (paths asked : List (List String)) (w w' : W) : Outcome α → Prop
  | .ok _ => Asks ask w paths asked none w'
  | .error (.error e) => Asks ask w paths asked (some e) w'
  | .error (.panic _) => asked <+: paths ∧ Asks ask w asked asked none w'

/-- What a rendering from `s` did to the world is to ask for `paths`. -/
def Tells {α : Type} (paths : List (List String)) (s : Watch W G) (o : Outcome α × Watch W G) :
    Prop :=
  ∃ asked, o.2.asked = s.asked ++ asked ∧ Told ask paths asked s.world o.2.world o.1

variable {ask draw} {α β : Type} {paths asked : List (List String)} {s : Watch W G}

theorem Told.answered {path : List String} {v : Value} {w w' w'' : W}
    (hv : ask path w = (.ok v, w')) : ∀ {r : Outcome α}, Told ask paths asked w' w'' r →
      Told ask (path :: paths) (path :: asked) w w'' r
  | .ok _, h | .error (.error _), h => Asks.answered hv h
  | .error (.panic _), ⟨hp, h⟩ => ⟨List.cons_prefix_cons.2 ⟨rfl, hp⟩, .answered hv h⟩

theorem Tells.map {x : Rendering (Watch W G) α} (h : Tells ask paths s (x s)) (f : α → β) :
    Tells ask paths s ((do return f (← x)) s) := by
  cases hx : x s with
  | mk o s' =>
    rw [hx] at h
    obtain ⟨asked, hasked, ht⟩ := h
    cases o with
    | ok a =>
      rw [bind_of_ok hx]
      exact ⟨asked, hasked, ht⟩
    | error e =>
      rw [bind_of_error hx]
      cases e <;> exact ⟨asked, hasked, ht⟩

theorem Tells.marked {f : String → Rendering (Watch W G) α}
    (h : ∀ m g, Tells ask paths { s with generator := g } (f m { s with generator := g })) :
    Tells ask paths s ((mark draw >>= f) s) := by
  cases hd : draw s.generator with
  | mk r g =>
    have hm : mark draw s = (Outcome.ofChecked r, { s with generator := g }) := by
      change (Outcome.ofChecked (draw s.generator).1, _) = _
      rw [hd]
    cases r with
    | ok m =>
      rw [bind_of_ok hm]
      exact h m g
    | error message =>
      rw [bind_of_error hm]
      exact ⟨[], (List.append_nil _).symm, List.nil_prefix, .done _⟩

theorem Tells.looked {path : List String} {f : Value → Rendering (Watch W G) α}
    (h : ∀ v w, ask path s.world = (.ok v, w) →
      Tells ask paths { s with world := w, asked := s.asked ++ [path] }
        (f v { s with world := w, asked := s.asked ++ [path] })) :
    Tells ask (path :: paths) s ((look ask path >>= f) s) := by
  cases ha : ask path s.world with
  | mk o w =>
    have hl : look ask path s =
        (Outcome.ofResult o, { s with world := w, asked := s.asked ++ [path] }) := by
      change (Outcome.ofResult (ask path s.world).1, _) = _
      rw [ha]
    cases o with
    | ok v =>
      obtain ⟨asked, hasked, hasks⟩ := h v w ha
      rw [bind_of_ok hl]
      exact ⟨path :: asked, by simp [hasked], hasks.answered ha⟩
    | error e =>
      rw [bind_of_error hl]
      exact ⟨[path], rfl, .refused ha⟩

theorem Tells.emit {x : Rendering (Watch W G) Rendered} {literal : Bool} {v : Value}
    (h : ∀ s, Tells ask paths s (x s)) :
    Tells ask paths s (Template.emit (mark draw) literal v x s) := by
  cases literal with
  | true => exact (h s).map _
  | false => exact Tells.marked fun m g ↦ (h _).map _

theorem tells_renderFrom (fs : List Fragment) (resolved : Resolved) (s : Watch W G) :
    Tells ask (missing (resolved.map Prod.fst) (fs.filterMap Fragment.path?)) s
      (renderFrom (look ask) (mark draw) resolved fs s) := by
  induction fs generalizing resolved s with
  | nil => exact ⟨[], by simp [renderFrom]; rfl, .done _⟩
  | cons f fs ih =>
    cases f with
    | text t => exact (ih resolved s).map _
    | placeholder p =>
      have hkeys : p.path ∈ resolved.map Prod.fst ↔ resolved.lookup p.path ≠ none := by
        simp
      rw [renderFrom_placeholder, remember, List.filterMap_cons, Fragment.path?]
      cases hl : resolved.lookup p.path with
      | some v =>
        rw [missing_of_mem (hkeys.2 (by simp [hl]))]
        exact Tells.emit fun s ↦ ih resolved s
      | none =>
        rw [missing_of_notMem fun h ↦ hkeys.1 h hl, bind_assoc]
        refine Tells.looked fun v w _ ↦ ?_
        rw [pure_bind]
        exact Tells.emit fun s ↦ ih ((p.path, v) :: resolved) s

theorem tells_render (t : Template) (s : Watch W G) :
    Tells ask t.arguments s (render ask draw t s) := by
  rw [arguments, distinct_eq_missing]
  exact tells_renderFrom t.fragments [] s

theorem asks_of_render_ok {t : Template} {r : Rendered} {s' : Watch W G}
    (h : render ask draw t s = (.ok r, s')) :
    s'.asked = s.asked ++ t.arguments ∧
      Asks ask s.world t.arguments t.arguments none s'.world := by
  have ht : Tells ask t.arguments s (render ask draw t s) := tells_render t s
  rw [h] at ht
  obtain ⟨asked, hasked, hasks⟩ := ht
  obtain rfl := hasks.asked_of_none
  exact ⟨hasked, hasks⟩

theorem asks_of_render_error {t : Template} {e : Error} {s' : Watch W G}
    (h : render ask draw t s = (.error (.error e), s')) :
    ∃ before path after w, t.arguments = before ++ path :: after ∧
      s'.asked = s.asked ++ (before ++ [path]) ∧
      Asks ask s.world before before none w ∧ ask path w = (.error e, s'.world) := by
  have ht : Tells ask t.arguments s (render ask draw t s) := tells_render t s
  rw [h] at ht
  obtain ⟨asked, hasked, hasks⟩ := ht
  obtain ⟨before, path, after, w, hb, rfl, ha, he⟩ := hasks.exists_of_some
  exact ⟨before, path, after, w, hb, hasked, ha, he⟩

theorem asks_of_render_panic {t : Template} {message : String} {s' : Watch W G}
    (h : render ask draw t s = (.error (.panic message), s')) :
    ∃ before, before <+: t.arguments ∧ s'.asked = s.asked ++ before ∧
      Asks ask s.world before before none s'.world := by
  have ht : Tells ask t.arguments s (render ask draw t s) := tells_render t s
  rw [h] at ht
  obtain ⟨before, hasked, hb, hasks⟩ := ht
  exact ⟨before, hb, hasked, hasks⟩

end Watch

/-- Renders fragments with a resolver that is asked at every placeholder. -/
def renderAfresh {m : Type → Type} [Monad m] (resolve : List String → m Value) (next : m String) :
    List Fragment → m Rendered
  | [] => pure ⟨"", []⟩
  | .text s :: r => do return (← renderAfresh resolve next r).addText s
  | .placeholder p :: r => do
    let v ← resolve p.path
    if p.literal then
      return (← renderAfresh resolve next r).addText v.text
    else
      let marker ← next
      return (← renderAfresh resolve next r).addParam marker v

theorem renderAfresh_placeholder {m : Type → Type} [Monad m] (resolve : List String → m Value)
    (next : m String) (p : Placeholder) (fs : List Fragment) :
    renderAfresh resolve next (.placeholder p :: fs) =
      resolve p.path >>= fun v ↦ emit next p.literal v (renderAfresh resolve next fs) := rfl

section

variable {S S' α β : Type} {R : S → S' → Prop} {s s' : S} {u : S'}

theorem exists_of_bind_ok {x : Rendering S α} {f : α → Rendering S β} {b : β}
    (h : (x >>= f) s = (.ok b, s')) : ∃ a s₁, x s = (.ok a, s₁) ∧ f a s₁ = (.ok b, s') := by
  cases hx : x s with
  | mk o s₁ =>
    cases o with
    | ok a =>
      rw [bind_of_ok hx] at h
      exact ⟨a, s₁, rfl, h⟩
    | error e =>
      rw [bind_of_error hx] at h
      cases h

/-- The same outcome in states that correspond. -/
def Alike (R : S → S' → Prop) (o : Outcome α × S) (o' : Outcome α × S') : Prop :=
  o.1 = o'.1 ∧ R o.2 o'.2

theorem Alike.bind {x : Rendering S α} {y : Rendering S' α} {f : α → Rendering S β}
    {f' : α → Rendering S' β} (h : Alike R (x s) (y u))
    (hf : ∀ a s' u', R s' u' → Alike R (f a s') (f' a u')) :
    Alike R ((x >>= f) s) ((y >>= f') u) := by
  cases hx : x s with
  | mk o s' =>
    cases hy : y u with
    | mk o' u' =>
      rw [hx, hy] at h
      obtain ⟨ho, hr⟩ := h
      change o = o' at ho
      subst ho
      cases o with
      | ok a => rw [bind_of_ok hx, bind_of_ok hy]; exact hf a s' u' hr
      | error e => rw [bind_of_error hx, bind_of_error hy]; exact ⟨rfl, hr⟩

theorem Alike.map {x : Rendering S α} {y : Rendering S' α} (h : Alike R (x s) (y u))
    (f : α → β) : Alike R ((do return f (← x)) s) ((do return f (← y)) u) :=
  h.bind fun _ _ _ hr ↦ ⟨rfl, hr⟩

variable {x : List String → Rendering S Value} {y : List String → Rendering S' Value}
  {next : Rendering S String} {next' : Rendering S' String}
  {value : List String → Except Error Value}

theorem Alike.emit {rest : Rendering S Rendered} {rest' : Rendering S' Rendered}
    {literal : Bool} {v : Value} (hn : ∀ s u, R s u → Alike R (next s) (next' u))
    (h : ∀ s u, R s u → Alike R (rest s) (rest' u)) (hr : R s u) :
    Alike R (Template.emit next literal v rest s) (Template.emit next' literal v rest' u) := by
  cases literal with
  | true => exact (h s u hr).map _
  | false => exact (hn s u hr).bind fun _ s' u' hr ↦ (h s' u' hr).map _

theorem alike_renderFrom
    (hx : ∀ path s, ∃ s', x path s = (Outcome.ofResult (value path), s') ∧ ∀ u, R s u → R s' u)
    (hy : ∀ path u, ∃ u', y path u = (Outcome.ofResult (value path), u') ∧ ∀ s, R s u → R s u')
    (hn : ∀ s u, R s u → Alike R (next s) (next' u)) (fs : List Fragment)
    {resolved : Resolved} (hf : Faithful value resolved) (hr : R s u) :
    Alike R (renderFrom x next resolved fs s) (renderAfresh y next' fs u) := by
  induction fs generalizing resolved s u with
  | nil => exact ⟨rfl, hr⟩
  | cons f fs ih =>
    cases f with
    | text t => exact (ih hf hr).map _
    | placeholder p =>
      obtain ⟨u', hu, hru⟩ := hy p.path u
      rw [renderFrom_placeholder, renderAfresh_placeholder, remember]
      cases hl : resolved.lookup p.path with
      | some v =>
        rw [hf p.path v hl] at hu
        rw [bind_of_ok hu]
        exact Alike.emit hn (fun _ _ hr ↦ ih hf hr) (hru s hr)
      | none =>
        obtain ⟨s', hs, hrs⟩ := hx p.path s
        have hr' : R s' u' := hrs u' (hru s hr)
        rw [bind_assoc]
        cases hp : value p.path with
        | ok v =>
          rw [hp] at hs hu
          rw [bind_of_ok hs, bind_of_ok hu, pure_bind]
          exact Alike.emit hn (fun _ _ hr ↦ ih (hf.cons hp) hr) hr'
        | error e =>
          rw [hp] at hs hu
          rw [bind_of_error hs, bind_of_error hu]
          exact ⟨rfl, hr'⟩

end

namespace Watch

variable {W G : Type} {ask : List String → W → Except Error Value × W} {draw : G → Except String String × G}
  {value : List String → Except Error Value} {s u : Watch W G}

theorem look_eq (hv : ∀ path w, (ask path w).1 = value path) (path : List String)
    (s : Watch W G) : ∃ s', look ask path s = (Outcome.ofResult (value path), s') ∧
      s'.generator = s.generator :=
  ⟨_, Prod.ext (congrArg Outcome.ofResult (hv path s.world)) rfl, rfl⟩

theorem alike_afresh (hv : ∀ path w, (ask path w).1 = value path) (t : Template)
    (s : Watch W G) :
    Alike (fun s u ↦ s.generator = u.generator) (render ask draw t s)
      (renderAfresh (look ask) (mark draw) t.fragments s) := by
  refine alike_renderFrom ?_ ?_ ?_ t.fragments (faithful_nil : Faithful value []) rfl
  · intro path s
    obtain ⟨s', hs, hg⟩ := look_eq hv path s
    exact ⟨s', hs, fun u hr ↦ hg.trans hr⟩
  · intro path u
    obtain ⟨u', hu, hg⟩ := look_eq hv path u
    exact ⟨u', hu, fun s hr ↦ hr.trans hg.symm⟩
  · intro s u (hr : s.generator = u.generator)
    refine ⟨?_, ?_⟩
    · change Outcome.ofChecked (draw s.generator).1 = Outcome.ofChecked (draw u.generator).1
      rw [hr]
    · change (draw s.generator).2 = (draw u.generator).2
      rw [hr]

theorem renderWith_alike_afresh (hv : ∀ path w, (ask path w).1 = value path) (t : Template)
    (s : Watch W G) :
    Alike (fun g u ↦ g = u.generator) (renderWith draw value t s.generator)
      (renderAfresh (look ask) (mark draw) t.fragments s) := by
  refine alike_renderFrom ?_ ?_ ?_ t.fragments (faithful_nil : Faithful value []) rfl
  · intro path g
    exact ⟨g, rfl, fun _ hr ↦ hr⟩
  · intro path u
    obtain ⟨u', hu, hg⟩ := look_eq hv path u
    exact ⟨u', hu, fun s hr ↦ hr.trans hg.symm⟩
  · rintro g u rfl
    exact ⟨rfl, rfl⟩

end Watch

/-- Rendering asks for the arguments of the template, which are the paths of its placeholders in the
order of their first appearance: all of them when it succeeds, and else those up to the first that
fails. It remembers nothing from one rendering to the next. Where a path always resolves alike,
asking for it at every placeholder gives the same result and leaves the generator at the same
place, and so does rendering without a watch. -/
theorem resolves_arguments_once {W G : Type} (ask : List String → W → Except Error Value × W)
    (draw : G → Except String String × G) (t : Template) :
    t.arguments.Nodup ∧
    (∀ path, path ∈ t.arguments ↔ path ∈ t.fragments.filterMap Fragment.path?) ∧
    (t.arguments.Pairwise fun p q ↦
      (t.fragments.filterMap Fragment.path?).idxOf p <
        (t.fragments.filterMap Fragment.path?).idxOf q) ∧
    (∀ s r s', Watch.render ask draw t s = (.ok r, s') →
      s'.asked = s.asked ++ t.arguments ∧
        Asks ask s.world t.arguments t.arguments none s'.world) ∧
    (∀ s e s', Watch.render ask draw t s = (.error (.error e), s') →
      ∃ before path after w, t.arguments = before ++ path :: after ∧
        s'.asked = s.asked ++ (before ++ [path]) ∧
        Asks ask s.world before before none w ∧ ask path w = (.error e, s'.world)) ∧
    (∀ s message s', Watch.render ask draw t s = (.error (.panic message), s') →
      ∃ before, before <+: t.arguments ∧ s'.asked = s.asked ++ before ∧
        Asks ask s.world before before none s'.world) ∧
    (∀ s r r' s', (do return (← Watch.render ask draw t, ← Watch.render ask draw t)) s =
        (.ok (r, r'), s') → s'.asked = s.asked ++ t.arguments ++ t.arguments) ∧
    (∀ value : List String → Except Error Value, (∀ path w, (ask path w).1 = value path) →
      ∀ s, Alike (fun s u ↦ s.generator = u.generator) (Watch.render ask draw t s)
          (renderAfresh (Watch.look ask) (Watch.mark draw) t.fragments s) ∧
        Alike (fun g u ↦ g = u.generator) (renderWith draw value t s.generator)
          (renderAfresh (Watch.look ask) (Watch.mark draw) t.fragments s)) ∧
    ∀ args, t.render args = renderWith Marker.Generator.next args.resolve t := by
  have hp : t.arguments.Pairwise fun p q ↦
      (t.fragments.filterMap Fragment.path?).idxOf p <
        (t.fragments.filterMap Fragment.path?).idxOf q := by
    rw [arguments, distinct_eq_missing]
    exact pairwise_missing [] _
  refine ⟨?_, fun path ↦ mem_distinct, hp, fun s r s' ↦ Watch.asks_of_render_ok,
    fun s e s' ↦ Watch.asks_of_render_error, fun s message s' ↦ Watch.asks_of_render_panic, ?_, ?_,
    render_eq_renderWith t⟩
  · refine hp.imp ?_
    rintro p q h rfl
    omega
  · intro s r r' s' h
    obtain ⟨a, s₁, h₁, h⟩ := exists_of_bind_ok h
    obtain ⟨b, s₂, h₂, h⟩ := exists_of_bind_ok h
    cases h
    rw [(Watch.asks_of_render_ok h₂).1, (Watch.asks_of_render_ok h₁).1]
  · intro value hv s
    exact ⟨Watch.alike_afresh hv t s, Watch.renderWith_alike_afresh hv t s⟩

example :
    Watch.render (fun _ (n : Nat) ↦ (.ok .null, n + 1)) Marker.Generator.next
        ⟨"", [.placeholder ⟨["n"], false⟩, .text ", ", .placeholder ⟨["n"], true⟩]⟩
        ⟨0, [], .fixed "?"⟩ =
      (.ok ⟨"?, NULL", [.null]⟩, ⟨1, [["n"]], .fixed "?"⟩) := rfl

end BoundSql.Template
