import BoundSql.Proofs.Scope.Atomicity
import BoundSql.Proofs.Scope.Sending

namespace BoundSql

open Memory

variable {σ α β : Type} {h : Host σ} {jobs : Job → Call Unit} {s s₀ : Runtime σ} {x : Nat → Context}
  {b c i k n F : Nat} {m m' : Memory} {l : List Event} {L : Nat → List Event}

def Event.works (c : Nat) : Event → Bool
  | .operation o _ _ => o.isWork && o.connection? == some c
  | _ => false

def Memory.worksOf (m : Memory) (c : Nat) : List Event := (m.operations.filter (Event.works c)).reverse

namespace Memory

theorem worksOf_register (o : Operation) (st : Status) (m : Memory) (c : Nat) :
    (m.register o (o.number m) st).worksOf c =
      m.worksOf c ++ [o.event m st].filter (Event.works c) := by
  unfold worksOf operations
  rw [register_trace]
  cases o with
  | instruct _ | idle _ | inTransaction _ =>
    simp [Operation.site?, Operation.event, Event.works, Operation.isWork]
  | _ =>
    simp only [Operation.site?, Option.isSome_some, if_true, List.singleton_append,
      List.filter_cons, Event.isOperation, Operation.event]
    split <;> simp

end Memory

theorem hasLeased_update {e : Event} : HasLeased c (Function.update L i (L i ++ [e]) k) ↔
    HasLeased c (L k) ∨ k = i ∧ e.leases c := by
  by_cases hk : k = i
  · subst hk
    rw [Function.update_self]
    constructor
    · intro hc
      obtain hc | ⟨e', he, hc⟩ := hc.append
      · exact .inl hc
      · rw [List.mem_singleton.1 he] at hc
        exact .inr ⟨rfl, hc⟩
    · rintro (hc | ⟨-, hc⟩)
      · exact hc.later (List.prefix_append ..)
      · exact HasLeased.right ⟨e, List.mem_singleton_self e, hc⟩ _
  · rw [Function.update_of_ne hk]
    simp [hk]

theorem filter_update {e : Event} (w : Event → Bool) :
    (Function.update L i (L i ++ [e]) k).filter w =
      (L k).filter w ++ if k = i then [e].filter w else [] := by
  by_cases hk : k = i
  · subst hk
    rw [Function.update_self, if_pos rfl, List.filter_append]
  · rw [Function.update_of_ne hk, if_neg hk, List.append_nil]

/-- The books of the connections leased since there were `F`: each has been leased by one task, which has
done all the work on it. -/
structure Memory.Divided (F : Nat) (L : Nat → List Event) (m : Memory) : Prop where
  floor : F ≤ m.leases
  range : ∀ i c, HasLeased c (L i) → F < c ∧ c ≤ m.leases
  alone : ∀ i k c, HasLeased c (L i) → HasLeased c (L k) → i = k
  works : ∀ i c, HasLeased c (L i) → m.worksOf c = (L i).filter (Event.works c)
  own : ∀ i c, F < c → ¬HasLeased c (L i) → (L i).filter (Event.works c) = []
  idle : ∀ c, F < c → (∀ i, ¬HasLeased c (L i)) → m.worksOf c = []

namespace Memory.Divided

theorem start (hm : ∀ c, m.leases < c → m.worksOf c = []) : m.Divided m.leases fun _ ↦ [] := by
  have hnone : ∀ c, ¬HasLeased c [] := fun c ⟨_, he, _⟩ ↦ by cases he
  exact ⟨Nat.le_refl _, fun _ c h ↦ absurd h (hnone c), fun _ _ c h ↦ absurd h (hnone c),
    fun _ c h ↦ absurd h (hnone c), fun _ _ _ _ ↦ rfl, fun c hc _ ↦ hm c hc⟩

theorem keep (hd : m.Divided F L) (hl : m'.leases = m.leases) (ho : m'.operations = m.operations) :
    m'.Divided F L := by
  have hw : ∀ c, m'.worksOf c = m.worksOf c := fun c ↦ by rw [worksOf, worksOf, ho]
  exact ⟨hl ▸ hd.floor, hl ▸ hd.range, hd.alone, fun i c h ↦ (hw c).trans (hd.works i c h), hd.own,
    fun c hc h ↦ (hw c).trans (hd.idle c hc h)⟩

theorem perform (hh : h.Plain) (hd : s.memory.Divided F L) {o : Operation}
    (ho : Conduct.minding (fun _ ↦ False) (L i) o) :
    (s.perform h o).2.memory.Divided F (Function.update L i (L i ++ [s.event h o])) := by
  rw [Runtime.memory_perform hh, Runtime.event_eq]
  generalize (h.reaction o s.world).status = st
  have hle := leases_le_register o st s.memory
  have hnext : ∀ c, (o.event s.memory st).leases c → c = s.memory.leases + 1 ∧ _ :=
    fun c hc ↦ Event.leases_event hc
  -- Who works with a connection has leased it, and leasing is no work.
  have hown : ∀ c, ¬HasLeased c (L i) → [o.event s.memory st].filter (Event.works c) = [] := by
    intro c hc
    refine List.filter_eq_nil_iff.2 fun e he hw ↦ hc ?_
    rw [List.mem_singleton.1 he, Operation.event, Event.works, Bool.and_eq_true, beq_iff_eq] at hw
    exact (ho hw.1 c hw.2).resolve_left id
  refine ⟨Nat.le_trans hd.floor hle, fun k c hc ↦ ?_, fun k j c hk hj ↦ ?_, fun k c hc ↦ ?_,
    fun k c hF hc ↦ ?_, fun c hF hc ↦ ?_⟩
  · obtain hc | ⟨-, hc⟩ := hasLeased_update.1 hc
    · exact ⟨(hd.range k c hc).1, Nat.le_trans (hd.range k c hc).2 hle⟩
    · obtain ⟨hn, hr⟩ := hnext c hc
      exact ⟨by rw [hn]; exact Nat.lt_succ_of_le hd.floor, Nat.le_of_eq hr.symm⟩
  · have hlt : ∀ k', HasLeased c (L k') → ¬(o.event s.memory st).leases c := fun k' h' hc ↦ by
      have hr := (hd.range k' c h').2
      rw [(hnext c hc).1] at hr
      exact Nat.not_succ_le_self _ hr
    obtain hk | ⟨hk, hc⟩ := hasLeased_update.1 hk
    · obtain hj | ⟨-, hc⟩ := hasLeased_update.1 hj
      · exact hd.alone k j c hk hj
      · exact absurd hc (hlt k hk)
    · obtain hj | ⟨hj, -⟩ := hasLeased_update.1 hj
      · exact absurd hc (hlt j hj)
      · exact hk.trans hj.symm
  · rw [worksOf_register, filter_update]
    obtain hc | ⟨rfl, hlease⟩ := hasLeased_update.1 hc
    · rw [hd.works k c hc]
      by_cases hk : k = i
      · rw [if_pos hk]
      · rw [if_neg hk, hown c fun hi ↦ hk (hd.alone k i c hc hi)]
    · have hnew : ∀ j, ¬HasLeased c (L j) := fun j hj ↦ by
        have hr := (hd.range j c hj).2
        rw [(hnext c hlease).1] at hr
        exact Nat.not_succ_le_self _ hr
      have hF : F < c := by
        rw [(hnext c hlease).1]
        exact Nat.lt_succ_of_le hd.floor
      rw [hd.idle c hF hnew, hd.own k c hF (hnew k), if_pos rfl]
  · have hc' : ¬HasLeased c (L k) := fun h ↦ hc (hasLeased_update.2 (.inl h))
    rw [filter_update, hd.own k c hF hc']
    by_cases hk : k = i
    · rw [if_pos hk, hown c (hk ▸ hc')]
      rfl
    · rw [if_neg hk]
      rfl
  · have hc' : ∀ j, ¬HasLeased c (L j) := fun j h ↦ hc j (hasLeased_update.2 (.inl h))
    rw [worksOf_register, hd.idle c hF hc', hown c (hc' i)]
    rfl

end Memory.Divided

/-- Threads and tasks that are about to begin, each in its own context and outside all scopes. Tasks that
they start run code of tasks, or clean up. -/
structure Runtime.Launched (jobs : Job → Call Unit) (x : Nat → Context) (s₀ : Runtime σ) : Prop where
  code : ∀ i q, s₀.tasks[i]? = some q → ∃ p, q = .start p ∧ TaskCode (x i) [] p
  outside : ∀ i, (x i).Live [] s₀.memory
  threads : ∀ i k t, (x i).thread? = some t → (x k).thread? = some t → i = k
  spawned : ∀ i, s₀.tasks.length ≤ i → x i = .start .async
  steps : ∀ body todo, TaskCode (.start .async) [] (jobs (.steps body todo)).run
  cleanup : ∀ j, (∀ body todo, j ≠ .steps body todo) → jobs j = j.run (.start .async)
  fresh : ∀ c, s₀.memory.leases < c → s₀.memory.worksOf c = []

abbrev Conduct.ofTask (x : Nat → Context) (i : Nat) : Conduct :=
  .within (x i).thread? (Conduct.minding fun _ ↦ False)

namespace Runtime.Launched

theorem job (hs : s₀.Launched jobs x) (j : Job) (hi : s₀.tasks.length ≤ i) (m : Memory) :
    (jobs j).run.Obeys (.ofTask x i) (fun _ _ _ ↦ True) none [] m := by
  let y := Context.start .async
  have hends : ∀ b d, (Conduct.during y [] (Conduct.minding fun _ ↦ False)).Ends (y.Live []) b d := fun b d ↦
    Conduct.during.ends (fun _ _ _ hw h ↦ by rw [hw] at h; cases h) b
  have hidle : ∀ {o : Operation}, o.isWork = false →
      (Conduct.during y [] (Conduct.minding fun _ ↦ False)).Runs (y.Live []) (fun _ ↦ True) (Call.operate o) :=
    fun ho ↦ .operate Conduct.during.resumes (fun _ _ _ h ↦ by rw [ho] at h; cases h)
      fun _ _ _ _ _ ↦ trivial
  have hjob : (∀ body todo, j ≠ .steps body todo) →
      (Conduct.during y [] (Conduct.minding fun _ ↦ False)).Runs (y.Live []) (fun _ ↦ True) (j.run y) := by
    intro hj
    cases j with
    | close d n => exact hidle (o := .close d n) rfl
    | abandon b d => exact (hends b d).endAbandoned
    | abandonStream b d cursor => exact (hends b d).endAbandonedStream cursor
    | release b d => exact hidle (o := .release b d) rfl
    | steps body todo => exact absurd rfl (hj body todo)
  have hrun : (Conduct.within y.thread? (Conduct.minding fun _ ↦ False)).Keeps (y.Live []) (fun _ ↦ True)
      (jobs j).run := by
    by_cases hj : ∃ body todo, j = .steps body todo
    · obtain ⟨body, todo, rfl⟩ := hj
      exact (hs.steps body todo).keeps (by simp) (by simp)
    · rw [hs.cleanup j fun body todo h ↦ hj ⟨body, todo, h⟩]
      exact (hjob fun body todo h ↦ hj ⟨body, todo, h⟩).during.mono fun _ _ ↦ trivial
  rw [Conduct.ofTask, hs.spawned i hi]
  exact (hrun [] m rfl).mono fun _ _ _ _ ↦ trivial

theorem together (hs : s₀.Launched jobs x) (hh : h.Plain) (hroll : ∀ i, h.Unwinds (x i).thread?) :
    Conduct.Together (.ofTask x) h jobs s₀.tasks.length fun L m ↦ m.Divided s₀.memory.leases L where
  rely_refl i m := .refl _ m
  calm {i k m m'} hki hc := by
    refine ⟨Nat.le_of_eq hc.leases.symm, fun u hu ↦ hc.others u fun h ↦ hki ?_⟩
    exact hs.threads k i u hu h
  perform k o s := by
    rw [Runtime.memory_perform hh]
    exact ⟨leases_le_register .., fun u _ ↦ by rw [activeOn, activeOn, register_active]⟩
  gather k m := .refl _ m
  hands _ _ _ _ := id
  job k j m hk := hs.job j hk m
  kept_calm hd hc := hd.keep hc.leases hc.operations
  kept_act {i L o s} hd ho := by
    refine ⟨fun ht c hr ↦ ?_, hd.perform hh ho⟩
    subst hr
    rw [Runtime.perform_eq hh]
    exact (Outcome.isPanic_map _ _).trans (hroll i ht ..)
  kept_gather hd := hd.keep rfl rfl

theorem inTurn (hs : s₀.Launched jobs x) :
    s₀.InTurn (.ofTask x) s₀.tasks.length (fun L m ↦ m.Divided s₀.memory.leases L) fun _ ↦ [] := by
  refine ⟨Nat.le_refl _, fun _ _ ↦ rfl, fun i q hq ↦ ?_, .start hs.fresh⟩
  obtain ⟨p, rfl, hp⟩ := hs.code i q hq
  refine ⟨by simp, fun m hm ↦ ?_⟩
  exact (hp.keeps (by simp) (by simp) [] m (hm.live (hs.outside i))).mono fun _ _ _ _ ↦ trivial

end Runtime.Launched

theorem Event.on_unique {e : Event} {d : Nat} (hc : e.On c) (hd : e.On d) : c = d := by
  cases e with
  | operation o _ _ => exact Option.some.inj (hc.symm.trans hd)
  | autocommit _ _ | reentered _ => exact hc.elim

theorem Memory.lookup_of_suffix {S T : Async.Scopes} (h : S <:+ T) (hT : (T.map Prod.fst).Nodup)
    (hc : S.lookup b = some c) : T.lookup b = some c := by
  obtain ⟨U, rfl⟩ := h
  induction U with
  | nil => exact hc
  | cons p U ih =>
    rw [List.cons_append, List.map_cons, List.nodup_cons] at hT
    have hne : b ≠ p.1 := by
      rintro rfl
      exact hT.1 (List.mem_map.2 ⟨_, List.mem_append_right U (mem_of_lookup hc), rfl⟩)
    rw [List.cons_append, List.lookup_cons, beq_false_of_ne hne]
    exact ih hT.2

/-- What is nested in the open scopes `T`, from some point in the course of a task. -/
structure Context.Nests (h : Host σ) (jobs : Job → Call Unit) (y : Context) (T : Async.Scopes)
    (s : Runtime σ) : Prop where
  /-- A bound call leases nothing and works on the connection of its binder's scope. -/
  joined : ∀ {b c : Nat} {α : Type} {p : Call α} {es : List Event} {q : Suspended (Outcome α)}
    {s' : Runtime σ}, T.lookup b = some c → y.Calls b p → y.Goes h jobs p.run s es q s' →
      ∀ e ∈ es, e.On c
  /-- When it is over, it has sent its statement there, as its template renders, and no other one. It has
  sent nothing if the template does not render, or if the connection could not be used; that cannot be
  where the others, who do as `R` says, leave it usable. -/
  sends : ∀ {R : Memory → Memory → Prop} {f : Bound} {args : Arguments}
    {send : Nat → Template.Rendered → Operation} {c : Nat} {α : Type} {p : Call α} {es : List Event}
    {r : Outcome α} {s' : Runtime σ}, T.lookup f.binder = some c → y.Sends f args send p →
      (∀ m m', R m m' → m.Beside y.thread? m') → Among h jobs R (.start p.run) s es (.done r) s' →
        ∃ m, Relation.ReflTransGen R s.memory m ∧ f.Sent args (send c) c m
          (s.memory.Usable c ∧ ∀ m m', R m m' → m.Usable c → m'.Usable c) es r
  scopes : ∀ {b c : Nat} {α : Type} (body : Context → Nat → Call α) (s' : Runtime σ),
    T.lookup b = some c → s.memory.Beside y.thread? s'.memory →
      (s'.memory.pools.lookup b).isSome →
        (y.connection b body).run.proceed h jobs s' = (body y c).run.proceed h jobs s' ∧
        (y.transaction b body).run.proceed h jobs s' =
          (y.transactionBody body c).run.proceed h jobs s'
  /-- Where the binder has no scope, a bound call works on a connection that it has leased itself and
  nobody before it. -/
  apart : ∀ {b : Nat} {α : Type} {p : Call α} {es : List Event} {q : Suspended (Outcome α)}
    {s' : Runtime σ}, T.lookup b = none → y.Calls b p → y.Goes h jobs p.run s es q s' →
      ∀ e ∈ es, ∀ c, e.On c → HasLeased c es ∧ s.memory.leases < c
  inner : ∀ {α β : Type} {z : Context} {U : Async.Scopes} {q : Action α} {r : Action β}
    {es : List Event} {s' : Runtime σ}, Begins h jobs y T q s es z U r s' →
      ∀ b c, T.lookup b = some c → U.lookup b = some c
  restored : ∀ {K : List Nat} {α : Type} {q : Action α} {es : List Event} {r : α} {s' : Runtime σ},
    TaskCode y K q → y.Goes h jobs q s es (.done r) s' → y.Live T s'.memory

theorem Context.Finds.nests {y : Context} {T : Async.Scopes} (hf : y.Finds T l s.memory) (hh : h.Plain)
    (hr : h.Unwinds y.thread?) : y.Nests h jobs T s where
  joined hb hp hgo := hp.joined hh hr hf.live hb hgo
  sends hb hp hR hgo := hp.sent hh hr hf.live hb hR hgo
  scopes body s' hb hs hpool := by
    have hlive : y.Live T s'.memory := hs.live hf.live
    rw [transaction_eq, proceed_joined hlive hb, proceed_joined hlive hb, if_pos hpool, if_pos hpool]
    exact ⟨rfl, rfl⟩
  apart hb hp hgo := hp.apart hh hr hf.live hb hgo
  inner hb b c hc := by
    obtain ⟨hf', -, hT⟩ := hb.finds hh hr hf
    exact lookup_of_suffix hT hf'.binders hc
  restored hq hgo := (hq.restores hh hr hf.live hgo).1

/-- Threads and tasks that have come to `s` from `s₀`, with the events of each one's operations. -/
structure Runtime.Isolated (h : Host σ) (jobs : Job → Call Unit) (x : Nat → Context) (s₀ : Runtime σ)
    (L : Nat → List Event) (s : Runtime σ) : Prop where
  goes : ∀ i q, s.tasks[i]? = some q → ∃ p s₁, s₀.Origin jobs i (.start p) s₁ ∧
    (x i).Goes h jobs p s₁ (L i) q s
  alone : ∀ i k c, HasLeased c (L i) → HasLeased c (L k) → i = k
  /-- What that one wants from the connection reaches it in order, and nothing else does. -/
  works : ∀ i c, HasLeased c (L i) → s.memory.worksOf c = (L i).filter (Event.works c)
  strangers : ∀ {i k b c : Nat} {α : Type} {p : Action (Outcome Unit)} {p' : Call α} {y : Context}
    {T : Async.Scopes} {es es' : List Event} {q : Suspended (Outcome α)} {s₁ s₂ s₃ : Runtime σ},
    HasLeased c (L i) → i ≠ k → s₀.Origin jobs k (.start p) s₁ →
      Begins h jobs (x k) [] p s₁ es y T p'.run s₂ → y.Calls b p' → y.Goes h jobs p'.run s₂ es' q s₃ →
        es ++ es' <+: L k → ∀ e ∈ es', ¬e.On c
  disjoint : ∀ {i k : Nat} {β γ : Type} {p p' : Action (Outcome Unit)} {y z : Context}
    {T U : Async.Scopes} {es es' : List Event} {q : Action β} {r : Action γ}
    {s₁ s₂ s₃ s₄ : Runtime σ}, i ≠ k → s₀.Origin jobs i (.start p) s₁ →
      Begins h jobs (x i) [] p s₁ es y T q s₂ → es <+: L i → s₀.Origin jobs k (.start p') s₃ →
        Begins h jobs (x k) [] p' s₃ es' z U r s₄ → es' <+: L k → ∀ t ∈ T, ∀ u ∈ U, t.2 ≠ u.2

namespace Runtime.Launched

theorem outside_origin (hs : s₀.Launched jobs x) {p : Action (Outcome Unit)} {s₁ : Runtime σ}
    (ho : s₀.Origin jobs i (.start p) s₁) : (x i).Finds [] [] s₁.memory := by
  refine ⟨?_, by simp, .nil, .nil⟩
  obtain ⟨-, rfl⟩ | ⟨hi, -⟩ := ho
  · exact hs.outside i
  · rw [hs.spawned i hi]
    rfl

theorem finds (hs : s₀.Launched jobs x) (hh : h.Plain) (hroll : ∀ i, h.Unwinds (x i).thread?)
    {p : Action (Outcome Unit)} {s₁ : Runtime σ} (ho : s₀.Origin jobs i (.start p) s₁) {y : Context}
    {T : Async.Scopes} {es : List Event} {q : Action β}
    (hb : Begins h jobs (x i) [] p s₁ es y T q s) : y.Finds T es s.memory ∧ y.Nests h jobs T s := by
  obtain ⟨hf, ha, -⟩ := hb.finds hh (hroll i) (hs.outside_origin ho)
  have hr : h.Unwinds y.thread? := by
    rw [ha.thread_eq]
    exact hroll i
  exact ⟨hf, hf.nests hh hr⟩

theorem isolated (hs : s₀.Launched jobs x) (hh : h.Plain) (hroll : ∀ i, h.Unwinds (x i).thread?)
    (hrun : Runs h jobs s₀ L s) : Runtime.Isolated h jobs x s₀ L s := by
  have hC := hs.together hh hroll
  have hd := (hrun.inTurn hh hC hs.inTurn).kept
  refine ⟨fun i q hq ↦ ?_, hd.alone, hd.works, ?_, ?_⟩
  · obtain ⟨q₀, s₁, ho, hgo⟩ := hrun.among hh hC hs.inTurn hq
    obtain ⟨p, rfl⟩ : ∃ p, q₀ = .start p := by
      obtain ⟨hq₀, -⟩ | ⟨-, j, hj⟩ := ho
      · obtain ⟨p, hp, -⟩ := hs.code i q₀ hq₀
        exact ⟨p, hp⟩
      · exact ⟨_, hj⟩
    exact ⟨p, s₁, ho, hgo⟩
  · intro i k b c α p p' y T es es' q s₁ s₂ s₃ hc hik ho hb hp hgo hL e he hon
    obtain ⟨hf, hn⟩ := hs.finds hh hroll ho hb
    refine hik (hd.alone i k c hc ?_)
    cases hT : T.lookup b with
    | some d =>
      obtain rfl := Event.on_unique hon (hn.joined hT hp hgo e he)
      exact (hf.own _ (mem_of_lookup hT)).1.later ((List.prefix_append ..).trans hL)
    | none => exact ((hn.apart hT hp hgo e he c hon).1.right es).later hL
  · intro i k β γ p p' y z T U es es' q r s₁ s₂ s₃ s₄ hik ho hb hL ho' hb' hL' t ht u hu htu
    have ht' := ((hs.finds hh hroll ho hb).1.own t ht).1.later hL
    have hu' := ((hs.finds hh hroll ho' hb').1.own u hu).1.later hL'
    exact hik (hd.alone i k _ ht' (htu ▸ hu'))

end Runtime.Launched

/-- Blocking scopes are shared by what is nested in them on their thread, and by nothing else. When a
scope ends, however that goes, the active connections of its thread are what they were before. -/
theorem blocking_scopes_isolated (hh : h.Plain) (hr : h.RollsBack) (hs : s₀.Launched jobs x)
    (hx : ∀ i < s₀.tasks.length, (x i).mode = .blocking) :
    (∀ {i : Nat} {p : Action (Outcome Unit)} {s₁ : Runtime σ}, i < s₀.tasks.length →
      s₀.Origin jobs i (.start p) s₁ → ∀ {β : Type} {es : List Event} {y : Context}
        {T : Async.Scopes} {q : Action β} {s : Runtime σ}, Begins h jobs (x i) [] p s₁ es y T q s →
          s.memory.activeOn (x i).thread = T ∧ y.Finds T es s.memory ∧ y.Nests h jobs T s) ∧
    ∀ {L : Nat → List Event} {s : Runtime σ}, Runtime.Runs h jobs s₀ L s →
      Runtime.Isolated h jobs x s₀ L s := by
  constructor
  · intro i p s₁ hi ho β es y T q s hb
    have hf := hs.finds hh (fun _ _ ↦ hr) ho hb
    have hy := (hb.finds hh (fun _ ↦ hr) (hs.outside_origin ho)).2.1
    have hlive := hf.1.live
    rw [Context.Live, hy.mode, hx i hi, hy.thread] at hlive
    exact ⟨hlive, hf⟩
  · exact hs.isolated hh fun _ _ ↦ hr

namespace Program

def tending : Job → Call Unit
  | .steps _ _ => do let _ ← (Context.start .async).execute Bound.deletion .nothing .none
  | j => j.run (.start .async)

def sweep (x : Context) (_ : Nat) : Call Unit := do
  ExceptT.mk (Action.start (.steps 0 []) >>= fun _ ↦ .done (.ok ()))
  let _ ← x.execute Bound.deletion .nothing .none
  let _ ← x.execute Bound.deletion .nothing .none

def sweepers (x : Nat → Context) : Runtime Unit :=
  ⟨alive.world, [.start ((x 0).connection 0 sweep).run, .start ((x 1).connection 0 sweep).run]⟩

def threads : Nat → Context
  | 0 => ⟨.blocking, 0, []⟩
  | 1 => ⟨.blocking, 1, []⟩
  | _ => .start .async

theorem taskCode_deleting (x : Context) (K : List Nat) :
    TaskCode x K (do let _ ← x.execute Bound.deletion .nothing .none : Call Unit).run := by
  refine .bind (.execute Bound.deletion .nothing .none) fun r ↦ ?_
  cases r <;> exact .done _

theorem taskCode_sweep (x : Context) (K : List Nat) (c : Nat) : TaskCode x K (sweep x c).run := by
  refine .bind (.bind (.spawn 0 []) fun _ ↦ .done _) fun r ↦ ?_
  cases r with
  | error f => exact .done _
  | ok _ =>
    refine .bind (.execute Bound.deletion .nothing .none) fun r ↦ ?_
    cases r with
    | error f => exact .done _
    | ok _ => exact taskCode_deleting x K

theorem launched_sweepers {x : Nat → Context} (hx : ∀ i, (x i).Live [] ready)
    (ht : ∀ i k t, (x i).thread? = some t → (x k).thread? = some t → i = k)
    (hn : ∀ i, 2 ≤ i → x i = .start .async) : (sweepers x).Launched tending x where
  code i q hq := by
    have hsweep : ∀ i, TaskCode (x i) [] ((x i).connection 0 sweep).run :=
      fun i ↦ .connection 0 fun y c _ ↦ taskCode_sweep y [c] c
    match i, hq with
    | 0, hq =>
      cases hq
      exact ⟨_, rfl, hsweep 0⟩
    | 1, hq =>
      cases hq
      exact ⟨_, rfl, hsweep 1⟩
  outside := hx
  threads := ht
  spawned := hn
  steps _ _ := taskCode_deleting (.start .async) []
  cleanup j hj := by
    cases j with
    | steps body todo => exact absurd rfl (hj body todo)
    | _ => rfl
  fresh _ _ := rfl

theorem launched_threads : (sweepers threads).Launched tending threads := by
  refine launched_sweepers (fun i ↦ ?_) (fun i k t hi hk ↦ ?_) fun i hi ↦ ?_
  · match i with
    | 0 | 1 | _ + 2 => rfl
  · match i, k with
    | 0, 0 | 1, 1 => rfl
    | 0, 1 | 1, 0 => cases hi.trans hk.symm
    | _ + 2, _ => cases hi
    | 0, _ + 2 | 1, _ + 2 => cases hk
  · match i with
    | _ + 2 => rfl

def entered : Suspended (Outcome Entry) → Bool
  | .done (.ok _) => true
  | _ => false

theorem begins_sweep {x : Context} {s : Runtime Unit} {n : Nat}
    (he : ((Suspended.start (x.enter 0 true).run).follow (Script.affecting 1) tending
      (List.replicate n none) s).any fun r ↦ entered r.2.1) :
    ∃ es c s', Begins (Script.affecting 1) tending x [] (x.connection 0 sweep).run s es (x.inside 0 c)
      [(0, c)] (sweep (x.inside 0 c) c).run s' := by
  obtain ⟨⟨es, q, s'⟩, hf, hq⟩ := (Option.any_eq_true _ _).1 he
  have hgo := Among.of_follow (Memory.Beside.gather x.thread?) hf
  match q, hq, hgo with
  | .done (.ok e), _, hgo => exact ⟨_, e.connection, s', .leased rfl hgo (.here ..)⟩

end Program

theorem blocking_scopes_isolated_sweeping :
    let x := Program.threads
    let h := Script.affecting 1
    (∃ es c s, Begins h Program.tending (x 0) [] ((x 0).connection 0 Program.sweep).run
        (Program.sweepers x) es (x 0) [(0, c)] (Program.sweep (x 0) c).run s ∧
        s.memory.activeOn 0 = [(0, c)] ∧ (x 0).Nests h Program.tending [(0, c)] s) ∧
    ∃ L s, Runtime.Runs h Program.tending (Program.sweepers x) L s ∧
      s.tasks.all Suspended.isDone ∧ s.memory.leases = 4 ∧
      Runtime.Isolated h Program.tending x (Program.sweepers x) L s := by
  intro x h
  have hx : ∀ i < (Program.sweepers x).tasks.length, (x i).mode = .blocking := fun i hi ↦ by
    match i, hi with
    | 0, _ | 1, _ => rfl
  have hall := blocking_scopes_isolated (Script.plain_affecting 1)
    (Script.lawful_affecting 1).rollback Program.launched_threads hx
  constructor
  · obtain ⟨es, c, s, hb⟩ := Program.begins_sweep (x := x 0) (s := Program.sweepers x) (n := 2)
      (by decide +kernel)
    have hin := hall.1 (i := 0) (by decide) (.inl ⟨rfl, rfl⟩) hb
    exact ⟨es, c, s, hb, hin.1, hin.2.2⟩
  · have hrun : (Runtime.play h Program.tending
        ([0, 1, 0, 1, 2, 3, 0, 1, 2, 3, 0, 1, 2, 3, 0, 1, 2, 3, 0, 1, 2, 3, 0, 1, 2, 3, 0, 1, 2, 3, 0, 1,
          2, 3, 2, 3, 2, 3, 4, 5, 4, 5, 4, 5, 2, 3]) (fun _ ↦ []) (Program.sweepers x)).any
          (fun r ↦ r.2.tasks.all Suspended.isDone && r.2.memory.leases == 4) = true := by
      decide +kernel
    obtain ⟨⟨L, s⟩, hp, hd⟩ := (Option.any_eq_true _ _).1 hrun
    rw [Bool.and_eq_true, beq_iff_eq] at hd
    have hr := Runtime.Runs.refl.of_play hp
    exact ⟨L, s, hr, hd.1, hd.2, hall.2 hr⟩

/-- Asynchronous scopes are shared by what is awaited in them in their task, and by nothing else. -/
theorem async_scopes_isolated (hh : h.Plain) (hs : s₀.Launched jobs x) (hx : ∀ i, (x i).mode = .async) :
    (∀ {i : Nat} {p : Action (Outcome Unit)} {s₁ : Runtime σ}, s₀.Origin jobs i (.start p) s₁ →
      ∀ {β : Type} {es : List Event} {y : Context} {T : Async.Scopes} {q : Action β} {s : Runtime σ},
        Begins h jobs (x i) [] p s₁ es y T q s →
          y.scopes = T ∧ y.Finds T es s.memory ∧ y.Nests h jobs T s) ∧
    ∀ {L : Nat → List Event} {s : Runtime σ}, Runtime.Runs h jobs s₀ L s →
      Runtime.Isolated h jobs x s₀ L s := by
  have hroll : ∀ i, h.Unwinds (x i).thread? := fun i ht ↦ by
    rw [Context.thread?, hx i] at ht
    cases ht
  constructor
  · intro i p s₁ ho β es y T q s hb
    have hf := hs.finds hh hroll ho hb
    have hy := (hb.finds hh (hroll i) (hs.outside_origin ho)).2.1
    have hlive := hf.1.live
    rw [Context.Live, hy.mode, hx i] at hlive
    exact ⟨hlive, hf⟩
  · exact hs.isolated hh hroll

theorem async_scopes_isolated_sweeping :
    let x : Nat → Context := fun _ ↦ .start .async
    let h := Script.affecting 1
    (∃ es c s, Begins h Program.tending (x 0) [] ((x 0).connection 0 Program.sweep).run
        (Program.sweepers x) es ((x 0).inside 0 c) [(0, c)]
        (Program.sweep ((x 0).inside 0 c) c).run s ∧
        ((x 0).inside 0 c).Nests h Program.tending [(0, c)] s) ∧
    ∃ L s, Runtime.Runs h Program.tending (Program.sweepers x) L s ∧
      s.tasks.all Suspended.isDone ∧ s.memory.leases = 4 ∧
      Runtime.Isolated h Program.tending x (Program.sweepers x) L s := by
  intro x h
  have hs : (Program.sweepers x).Launched Program.tending x :=
    Program.launched_sweepers (fun _ ↦ rfl) (fun _ _ _ hi ↦ by cases hi) fun _ _ ↦ rfl
  have hall := async_scopes_isolated (Script.plain_affecting 1) hs fun _ ↦ rfl
  constructor
  · obtain ⟨es, c, s, hb⟩ := Program.begins_sweep (x := x 0) (s := Program.sweepers x) (n := 2)
      (by decide +kernel)
    have hin := hall.1 (i := 0) (.inl ⟨rfl, rfl⟩) hb
    exact ⟨es, c, s, hb, hin.2.2⟩
  · have hrun : (Runtime.play h Program.tending
        ([0, 1, 0, 1, 2, 3, 0, 1, 2, 3, 0, 1, 2, 3, 0, 1, 2, 3, 0, 1, 2, 3, 0, 1, 2, 3, 0, 1, 2, 3, 0, 1,
          2, 3, 0, 1, 2, 3, 0, 1, 2, 3, 4, 5, 0, 1, 4, 5, 0, 1, 4, 5, 0, 1, 2, 3, 0, 1, 6, 7, 6, 7, 6, 7,
          0, 1]) (fun _ ↦ []) (Program.sweepers x)).any
          (fun r ↦ r.2.tasks.all Suspended.isDone && r.2.memory.leases == 4) = true := by
      decide +kernel
    obtain ⟨⟨L, s⟩, hp, hd⟩ := (Option.any_eq_true _ _).1 hrun
    rw [Bool.and_eq_true, beq_iff_eq] at hd
    have hr := Runtime.Runs.refl.of_play hp
    exact ⟨L, s, hr, hd.1, hd.2, hall.2 hr⟩

end BoundSql
