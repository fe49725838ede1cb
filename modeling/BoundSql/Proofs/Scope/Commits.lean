import BoundSql.Proofs.Scope.Atomicity
import BoundSql.Proofs.Scope.Release

namespace BoundSql

open Memory

variable {σ α β : Type} {h : Host σ} {x x₀ : Context} {b c : Nat} {s s₀ s₁ s' : Runtime σ}
  {es : List Event} {l : List Event} {P : List Event → Prop}

def Conduct.permitting (c : Nat) (P : List Event → Prop) : Conduct where
  rely _ _ := True
  rely_trans _ _ := trivial
  calm _ _ := True
  calm_refl _ := trivial
  asks l _ o := o = .commit c → P l
  answers _ _ := True
  leaves _ := True
  spawns _ := True
  hands _ _ _ := False

def Event.Permitted (c : Nat) (P : List Event → Prop) (l : List Event) : Prop :=
  ∀ before e, before ++ [e] <+: l → e.commits c → P before

namespace Conduct.permitting

theorem upholds (h : Host σ) (x : Context) :
    (permitting c P).Upholds h (Job.run x) fun l _ ↦ Event.Permitted c P l where
  rely _ := trivial
  calm hJ _ := hJ
  act := by
    intro l s o hJ ha
    refine ⟨trivial, fun before e hpre he ↦ ?_⟩
    obtain heq | hpre := List.prefix_concat_iff.1 hpre
    · obtain ⟨rfl, rfl⟩ := List.append_inj' heq rfl |>.imp id List.singleton_inj.1
      refine ha ?_
      cases o with
      | commit d => rw [show d = c from beq_iff_eq.1 he]
      | _ => cases he
    · exact hJ before e hpre he
  spawn hJ _ := hJ
  hand hJ _ := hJ

theorem reaches (hh : h.Plain) {Q : α → Prop} {p : Action α} {q : Suspended α}
    (hp : ∀ m, p.Obeys (permitting c P) (fun a _ _ ↦ Q a) none [] m)
    (hr : Reaches h (Job.run x) (.start p) s₀ es q s) :
    Event.Permitted c P es ∧ ∀ a, q = .done a → Q a := by
  obtain ⟨hq, hes⟩ := hr.upholds (l := []) hh (upholds h x) (fun _ _ _ _ ha _ ↦ ha)
    (fun hJ _ ↦ ⟨trivial, hJ⟩) ⟨by simp, fun m _ ↦ hp m⟩ (fun before e hpre ↦ by simp at hpre)
  refine ⟨hes, ?_⟩
  rintro a rfl
  exact hq

theorem resumes (m m' : Memory) (_ : (permitting c P).rely m m') : True := trivial

theorem ends (b d : Nat) : (permitting c P).Ends (fun _ ↦ True) b d where
  resumes := resumes
  close _ _ _ _ := nofun
  rollback _ _ _ _ := nofun
  handOver _ _ _ _ := .inr ⟨trivial, trivial, trivial⟩
  release _ _ _ _ := ⟨trivial, trivial, fun _ _ _ ↦ nofun⟩
  leaves := trivial
  start _ _ := ⟨trivial, trivial⟩

theorem exit_error {e : Entry} {Q : α → Prop} (err : Error) :
    (permitting c P).Runs (fun _ ↦ True) Q (Async.Entry.exit e (.error err)) :=
  (ends e.binder e.connection).exit nofun nofun

theorem never (hh : h.Plain) {Q : α → Prop} {p : Action α} {q : Suspended α}
    (hp : (permitting c fun _ ↦ False).Keeps (fun _ ↦ True) Q p)
    (hr : Reaches h (Job.run x) (.start p) s₀ es q s) : ∀ e ∈ es, ¬e.commits c := by
  intro e he hc
  obtain ⟨before, after, rfl⟩ := List.append_of_mem he
  have hes := (reaches hh (fun m ↦ (hp [] m trivial).mono fun _ _ _ ha ↦ ha.2) hr).1
  exact hes before e ⟨after, by simp⟩ hc

end Conduct.permitting

theorem Reaches.of_call_ok {p : Call α} {k : α → Call β} {jobs : Job → Call Unit} {y : β}
    (hr : Reaches h jobs (.start (p >>= k).run) s₀ es (.done (.ok y)) s) :
    ∃ a es₁ es₂ s₁, es = es₁ ++ es₂ ∧ Reaches h jobs (.start p.run) s₀ es₁ (.done (.ok a)) s₁ ∧
      Reaches h jobs (.start (k a).run) s₁ es₂ (.done (.ok y)) s := by
  obtain ⟨_, -, -, hq⟩ | ⟨f, -, hq⟩ | hk := hr.of_call_bind
  · cases hq
  · cases hq _ rfl
  · exact hk

def Returned (h : Host σ) (x₀ : Context) (code : Call α) (es : List Event) (a : α) : Prop :=
  ∃ es' s s', es' <:+: es ∧ Reaches h (Job.run x₀) (.start code.run) s es' (.done (.ok a)) s'

theorem Returned.transactionBody {body : Context → Nat → Call α} {a : α}
    (hr : Reaches h (Job.run x₀) (.start (x.transactionBody body c).run) s₀ es (.done (.ok a)) s) :
    Returned h x₀ (body x c) es a := by
  obtain ⟨_, es₁, _, _, rfl, -, hr⟩ := hr.of_call_ok
  obtain ⟨_, es₂, _, _, rfl, -, hr⟩ := hr.of_call_ok
  obtain ⟨v, es₃, es₄, s₃, rfl, hbody, hr⟩ := hr.of_call_ok
  obtain ⟨_, _, _, _, rfl, -, hr⟩ := hr.of_call_ok
  obtain ⟨a', _, _, _, rfl, hv, hr⟩ := hr.of_call_ok
  obtain ⟨_, _, _, _, rfl, -, hend⟩ := hr.of_call_ok
  obtain rfl : v = .ok a' := by
    have hv' := hv.of_done.2.2 _ rfl
    cases v <;> cases hv'
    rfl
  cases hend.of_done.2.2 _ rfl
  obtain ⟨_, -, -, hq⟩ | ⟨r, hbody, hr'⟩ := hbody.of_caught
  · cases hq
  · have hok := hr' _ rfl
    rcases r with (_ | _) | _ <;> cases hok
    refine ⟨es₃, _, _, ?_, hbody⟩
    exact (List.infix_append' es₂ es₃ _).trans (List.suffix_append es₁ _).isInfix

/-- How the operations of a call go by that has a scope to itself, which runs `code` with `body` in
it. -/
inductive ScopeRun (h : Host σ) (x₀ x : Context) (b c : Nat) (code body : Call α) (s₀ : Runtime σ) :
    List Event → Prop
  | entering {es : List Event}
    (he : ∀ e ∈ es, ∃ st, st ≠ .done ∧ e = .operation (.lease b) c st) :
    ScopeRun h x₀ x b c code body s₀ es
  | running {es : List Event} {q : Suspended (Outcome α)} {s₁ s : Runtime σ}
    (hl : Reaches h (Job.run x₀) (.start (Async.enter x.scopes b).run) s₀
      [.operation (.lease b) c .done] (.done (.ok ⟨b, c, true, false, 0⟩)) s₁)
    (hr : Reaches h (Job.run x₀) (.start code.run) s₁ es q s) :
    ScopeRun h x₀ x b c code body s₀ (.operation (.lease b) c .done :: es)
  /-- It leaves the scope, and does not commit unless the body has returned a value. -/
  | leaving {es ts : List Event} {r : Outcome α} {s₁ s : Runtime σ}
    (hl : Reaches h (Job.run x₀) (.start (Async.enter x.scopes b).run) s₀
      [.operation (.lease b) c .done] (.done (.ok ⟨b, c, true, false, 0⟩)) s₁)
    (hr : Reaches h (Job.run x₀) (.start code.run) s₁ es (.done r) s)
    (ht : ∀ e ∈ ts, e.commits c → ∃ a, r = .ok a ∧ Returned h x₀ body es a) :
    ScopeRun h x₀ x b c code body s₀ (.operation (.lease b) c .done :: (es ++ ts))

namespace Async

theorem connection_scopeRun (hh : h.Plain) (hx : x.mode = .async) (hb : x.scopes.lookup b = none)
    (hs : s₀.Fresh c) {code : Context → Nat → Call α} {body : Call α}
    (hbody : ∀ {es s s' a}, Reaches h (Job.run x₀) (.start (code (x.within b c) c).run) s es
      (.done (.ok a)) s' → Returned h x₀ body es a) {q : Suspended (Outcome α)}
    (hr : Reaches h (Job.run x₀) (.start (x.connection b code).run) s₀ es q s) :
    ScopeRun h x₀ x b c (code (x.within b c) c) body s₀ es := by
  rw [Context.connection_of_async hx] at hr
  obtain ⟨q', hp, hn, -⟩ | ⟨f, hp, -⟩ | ⟨e, es₁, es₂, s₁, rfl, hp, hscope⟩ := hr.of_call_bind
  · obtain ⟨hu, -⟩ | ⟨rfl, -⟩ := enter_reaches hh hb hs hp
    · exact .entering hu.events
    · cases hn
  · obtain ⟨hu, -⟩ | ⟨hok, -⟩ := enter_reaches hh hb hs hp
    · exact .entering hu.events
    · cases hok
  · obtain ⟨-, hok⟩ | ⟨he, rfl, -⟩ := enter_reaches hh hb hs hp
    · exact (hok e rfl).elim
    cases he
    rw [List.singleton_append]
    obtain ⟨_, hp', -, -⟩ | ⟨_, hp', -⟩ | ⟨v, es₁, es₃, s₂, rfl, hp', hexit⟩ := hscope.of_call_bind
    · obtain ⟨_, hcode, -⟩ | ⟨_, _, hcode, -⟩ := hp'.of_part
      · exact .running hp hcode
      · exact .running hp hcode
    · obtain ⟨_, hcode, -⟩ | ⟨_, _, hcode, -⟩ := hp'.of_part
      · exact .running hp hcode
      · exact .running hp hcode
    · obtain ⟨_, -, -, hn⟩ | ⟨r, s₃, hcode, -, hv⟩ := hp'.of_part
      · cases hn
      refine .leaving hp hcode fun e he hc ↦ ?_
      have hcaught := hv _ rfl
      cases v with
      | ok a =>
        rcases r with (_ | _) | _ <;> cases hcaught
        exact ⟨a, rfl, hbody hcode⟩
      | error err =>
        have hexits := Conduct.permitting.exit_error (α := α) (c := c) (P := fun _ ↦ False)
          (e := ⟨b, c, true, false, 0⟩) (Q := fun _ ↦ True) err
        exact (Conduct.permitting.never hh hexits hexit e he hc).elim

theorem connection_accounted (hh : h.Plain) (hr : h.Returns) (hx : x.mode = .async)
    (hb : x.scopes.lookup b = none) (hs : s₀.Fresh c) {code : Context → Nat → Call α}
    (hcode : ∀ y d, y.mode = .async →
      (Conduct.custody c True).Runs (Conduct.custody.Leased c) (fun _ ↦ True) (code y d))
    {q : Suspended (Outcome α)}
    (hreach : Reaches h (Job.run x₀) (.start (x.connection b code).run) s₀ es q s) :
    Accounted b c es q s := by
  rw [Context.connection_of_async hx] at hreach
  refine leasing_reaches hh hr hb hs ?_ ?_ ?_ hreach
  · exact Conduct.Keeps.mono (Conduct.custody.scope ⟨b, c, true, false, 0⟩ (hcode (x.within b c) c hx))
      fun _ _ ↦ trivial
  · exact Action.Owes.scope (e := ⟨b, c, true, false, 0⟩) rfl rfl (code (x.within b c) c)
  · exact fun f ↦ ⟨_, rfl⟩

end Async

/-- Asynchronous calls for scopes of the binder `b`, with the code that they run there and its body.
-/
inductive Scoping (x : Context) (b : Nat) : {α : Type} → Call α → (code body : Context → Nat → Call α) → Prop
  | connection {α : Type} {body : Context → Nat → Call α}
    (hbody : ∀ y d, y.mode = .async → AsyncCode (body y d).run) :
    Scoping x b (x.connection b body) body body
  | transaction {α : Type} {body : Context → Nat → Call α}
    (hbody : ∀ y d, y.mode = .async → AsyncCode (body y d).run) :
    Scoping x b (x.transaction b body) (Context.transactionBody body) body
  | execute {f : Bound} (hf : f.binder = b) (count : Count) (args : Arguments)
    (r : Template.Rendered) :
    Scoping x b (x.execute f count args) (Context.executeBody count r) (Context.executeBody count r)
  | query {f : Bound} (hf : f.binder = b) (ret : Return) (args : Arguments)
    (r : Template.Rendered) :
    Scoping x b (x.query f ret args) (Context.queryBody ret r) (Context.queryBody ret r)

namespace Scoping

variable {p : Call α} {code body : Context → Nat → Call α}

theorem custody (hp : Scoping x b p code body) (y : Context) (d : Nat) (hy : y.mode = .async) :
    (Conduct.custody c True).Runs (Conduct.custody.Leased c) (fun _ ↦ True) (code y d) := by
  have hcode : ∀ {γ : Type} {q : Call γ}, AsyncCode q.run →
      (Conduct.custody c True).Runs (Conduct.custody.Leased c) (fun _ ↦ True) q :=
    fun hq ↦ (hq.custody c).mono fun _ _ _ _ ↦ trivial
  cases hp with
  | connection hbody => exact hcode (hbody y d hy)
  | transaction hbody => exact Conduct.custody.transactionBody hy (hcode (hbody y d hy))
  | execute _ count _ r => exact Conduct.custody.executeBody hy count r d
  | query _ ret _ r => exact Conduct.custody.queryBody hy ret r d

theorem returned (hp : Scoping x b p code body) {y : Context} {a : α}
    (hr : Reaches h (Job.run x₀) (.start (code y c).run) s₀ es (.done (.ok a)) s) :
    Returned h x₀ (body y c) es a := by
  cases hp with
  | transaction hbody => exact .transactionBody hr
  | connection _ | execute _ _ _ _ | query _ _ _ _ => exact ⟨es, _, _, List.infix_rfl, hr⟩

/-- The call leases and releases as it should, and its scope commits only if the body has returned a
value. -/
theorem run (hp : Scoping x b p code body) (hh : h.Plain) (hr : h.Returns) (hx : x.mode = .async)
    (hb : x.scopes.lookup b = none) (hs : s₀.Fresh c) {q : Suspended (Outcome α)}
    (hreach : Reaches h (Job.run x₀) (.start p.run) s₀ es q s) :
    Accounted b c es q s ∧ ∃ code body, Scoping x b p code body ∧
      ScopeRun h x₀ x b c (code (x.within b c) c) (body (x.within b c) c) s₀ es := by
  -- All of them are scopes that run the code, once the template is rendered if there is one.
  have hscope : ∀ {code body}, Scoping x b p code body →
      Reaches h (Job.run x₀) (.start (x.connection b code).run) s₀ es q s →
      Accounted b c es q s ∧ ∃ code body, Scoping x b p code body ∧
        ScopeRun h x₀ x b c (code (x.within b c) c) (body (x.within b c) c) s₀ es :=
    fun hp hreach ↦ ⟨Async.connection_accounted hh hr hx hb hs hp.custody hreach, _, _, hp,
      Async.connection_scopeRun hh hx hb hs hp.returned hreach⟩
  cases hp with
  | connection hbody => exact hscope (.connection hbody) hreach
  | transaction hbody =>
    have ht := hreach
    rw [Context.transaction_eq] at ht
    exact hscope (.transaction hbody) ht
  | execute hf count args r =>
    have ht := hreach
    rw [Context.execute_eq, hf] at ht
    obtain ⟨r', hrest⟩ | ⟨rfl, ha, -⟩ := Accounted.of_rendering (b := b) hs ht
    · exact hscope (.execute hf count args r') hrest
    · exact ⟨ha, _, _, .execute hf count args r, .entering nofun⟩
  | query hf ret args r =>
    have ht := hreach
    rw [Context.query_eq, hf] at ht
    obtain ⟨r', hrest⟩ | ⟨rfl, ha, -⟩ := Accounted.of_rendering (b := b) hs ht
    · exact hscope (.query hf ret args r') hrest
    · exact ⟨ha, _, _, .query hf ret args r, .entering nofun⟩

end Scoping

end BoundSql
