import BoundSql.Proofs.Scope.Detached

namespace BoundSql

open Memory

variable {α β : Type} {x y : Context} {S : Async.Scopes} {b c : Nat} {m : Memory} {l : List Event}
  {A : Nat → Prop} {K : List Nat}

def Conduct.minding (A : Nat → Prop) (l : List Event) (o : Operation) : Prop :=
  o.isWork → ∀ c, o.connection? = some c → A c ∨ HasLeased c l

/-- The contexts belong to one thread, or to one task. -/
structure Context.Alike (x y : Context) : Prop where
  mode : y.mode = x.mode
  thread : y.thread = x.thread

/-- The code of a thread or task, which calls in the context. It is put together from bound calls, from
streams, and from uses of sessions; the connections in `K` are at hand. -/
inductive TaskCode : Context → List Nat → {α : Type} → Action α → Prop
  | done {x : Context} {K : List Nat} {α : Type} (a : α) : TaskCode x K (.done a)
  | bind {x : Context} {K : List Nat} {α β : Type} {p : Action α} {f : α → Action β}
    (hp : TaskCode x K p) (hf : ∀ a, TaskCode x K (f a)) : TaskCode x K (p >>= f)
  | note {x : Context} {K : List Nat} {α : Type} {f : Memory → Memory}
    (hf : ∀ m : Memory, m.Noted (f m)) (k : Memory → α) : TaskCode x K (.memory f fun m ↦ .done (k m))
  | pause {x : Context} {K : List Nat} : TaskCode x K (Call.wait .idle).run
  | spawn {x : Context} {K : List Nat} (body : Nat) (steps : List Step) :
    TaskCode x K (Action.start (.steps body steps))
  | join {x : Context} {K : List Nat} (body : Nat) (steps : List Step) :
    TaskCode x K (Call.wait (.task (.steps body steps))).run
  | statement {x : Context} {K : List Nat} {c : Nat} (hc : c ∈ K) (sql : String) (params : List Value) :
    TaskCode x K (x.locking c (Session.execute c sql params)).run
  | rows {x : Context} {K : List Nat} {c : Nat} (hc : c ∈ K) (sql : String) (params : List Value) :
    TaskCode x K (x.locking c (Session.query c sql params)).run
  | read {x : Context} {K : List Nat} {c : Nat} (hc : c ∈ K) {o : Operation} (ho : o.isRead)
    (hd : o.connection? = some c) : TaskCode x K (Call.operate o).run
  | commit {x : Context} {K : List Nat} {c : Nat} (hc : c ∈ K) :
    TaskCode x K (x.locking c (Session.commit c)).run
  | rollback {x : Context} {K : List Nat} {c : Nat} (hc : c ∈ K) :
    TaskCode x K (x.locking c (Session.rollback c)).run
  | autocommit {x : Context} {K : List Nat} (c : Nat) :
    TaskCode x K (x.locking c (Session.autocommit c)).run
  | setAutocommit {x : Context} {K : List Nat} (c : Nat) (on : Bool) :
    TaskCode x K (x.locking c (Session.setAutocommit c on)).run
  | execute {x : Context} {K : List Nat} (f : Bound) (count : Count) (args : Arguments) :
    TaskCode x K (x.execute f count args).run
  | query {x : Context} {K : List Nat} (f : Bound) (ret : Return) (args : Arguments) :
    TaskCode x K (x.query f ret args).run
  | stream {x : Context} {K : List Nat} (f : Bound) (shape : Shape) (args : Arguments) {β : Type}
    {k : Outcome Stream → Action β} (hf : ∀ f, TaskCode x K (k (.error f)))
    (hk : ∀ c s, s.On x c → TaskCode x (c :: K) (k (.ok s))) :
    TaskCode x K ((x.stream f shape args).run >>= k)
  | next {x : Context} {K : List Nat} {c : Nat} (hc : c ∈ K) {s : Stream} (hs : s.On x c) {β : Type}
    {k : Outcome (Option (Except Error Mapped)) × Stream → Action β}
    (hk : ∀ r, r.2.On x c → TaskCode x K (k r)) : TaskCode x K (x.next s >>= k)
  | drop {x : Context} {K : List Nat} {c : Nat} (hc : c ∈ K) {s : Stream} (hs : s.On x c) :
    TaskCode x K (x.dropStream s).run
  /-- A stream is at hand that a task cleans up after if the code is dropped. -/
  | holding {x : Context} {K : List Nat} {α : Type} {p : Action α} (j : Job) (hp : TaskCode x K p) :
    TaskCode x K (p.orphaning j)
  | connection {x : Context} {K : List Nat} (b : Nat) {α : Type} {body : Context → Nat → Call α}
    (hbody : ∀ y c, x.Alike y → TaskCode y (c :: K) (body y c).run) :
    TaskCode x K (x.connection b body).run
  | transaction {x : Context} {K : List Nat} (b : Nat) {α : Type} {body : Context → Nat → Call α}
    (hbody : ∀ y c, x.Alike y → TaskCode y (c :: K) (body y c).run) :
    TaskCode x K (x.transaction b body).run

namespace Context

theorem alike_refl (x : Context) : x.Alike x := ⟨rfl, rfl⟩

theorem alike_inside (x : Context) (b c : Nat) : x.Alike (x.inside b c) := by
  obtain ⟨_ | _, thread, scopes⟩ := x <;> exact ⟨rfl, rfl⟩

theorem Alike.thread_eq (h : x.Alike y) : y.thread? = x.thread? := by
  unfold thread?
  rw [h.mode, h.thread]

end Context

namespace Conduct

theorem owning_minding (A : Nat → Prop) : Owning (minding A) where
  lease _ _ := nofun
  own _ l _ hl ho _ d hd := by
    rw [ho] at hd
    exact .inr (Option.some.inj hd ▸ hl)

theorem serves_minding (hc : A c) : Serves (minding A) c := by
  intro l o ho _ d hd
  rw [ho] at hd
  exact .inl (Option.some.inj hd ▸ hc)

def alone (l : List Event) (o : Operation) : Prop := ∀ c, o.connection? = some c → HasLeased c l

theorem owning_alone : Owning alone where
  lease _ _ := nofun
  own _ l _ hl ho d hd := by
    rw [ho] at hd
    exact Option.some.inj hd ▸ hl

namespace within

variable {asks : List Event → Operation → Prop}

theorem statement (hj : ∀ c, S.lookup b = some c → Serves asks c)
    (ho : S.lookup b = none → Owning asks) {body : Context → Nat → Call α}
    (hbody : ∀ (asks : List Event → Operation → Prop) y T c, Serves asks c →
      (during y T asks).Runs (y.Live T) (fun _ ↦ True) (body y c)) :
    (within x.thread? asks).Keeps (x.Live S) (fun _ ↦ True) (x.connection b body).run := by
  refine connection ho (fun c hc l m hm ↦ ?_) fun c l m hb hl hm ↦ (ho hb).serving hl ?_
  · exact ((hbody asks x S c (hj c hc) l m hm).during hm).mono fun _ _ _ h ↦ ⟨h.1, trivial⟩
  · have hrun := (hbody (fun l o ↦ o.connection? = some c ∨ asks l o) _ _ c (fun _ _ h ↦ .inl h) l m
      hm).during hm
    rw [(x.alike_inside b c).thread_eq] at hrun
    exact hrun.mono fun _ _ _ h ↦ h.1

theorem execute {f : Bound} (hj : ∀ c, S.lookup f.binder = some c → Serves asks c)
    (ho : S.lookup f.binder = none → Owning asks) (count : Count) (args : Arguments) :
    (within x.thread? asks).Keeps (x.Live S) (fun _ ↦ True) (x.execute f count args).run := by
  have hrender : (during x S asks).Runs (x.Live S) (fun _ ↦ True) (f.render args) := .render f args
  rw [Context.execute_eq]
  have hbody : ∀ r, (within x.thread? asks).Keeps (x.Live S) (fun _ ↦ True)
      (x.connection f.binder (Context.executeBody count r)).run := fun r ↦
    statement hj ho fun asks y T c hs ↦ during.executeBody hs count r
  exact Keeps.mono (Runs.bind hrender.during fun r _ ↦ Keeps.mono (hbody r) fun _ _ _ _ ↦ trivial)
    fun _ _ ↦ trivial

theorem query {f : Bound} (hj : ∀ c, S.lookup f.binder = some c → Serves asks c)
    (ho : S.lookup f.binder = none → Owning asks) (ret : Return) (args : Arguments) :
    (within x.thread? asks).Keeps (x.Live S) (fun _ ↦ True) (x.query f ret args).run := by
  have hrender : (during x S asks).Runs (x.Live S) (fun _ ↦ True) (f.render args) := .render f args
  rw [Context.query_eq]
  have hbody : ∀ r, (within x.thread? asks).Keeps (x.Live S) (fun _ ↦ True)
      (x.connection f.binder (Context.queryBody ret r)).run := fun r ↦
    statement hj ho fun asks y T c hs ↦ during.queryBody hs ret r
  exact Keeps.mono (Runs.bind hrender.during fun r _ ↦ Keeps.mono (hbody r) fun _ _ _ _ ↦ trivial)
    fun _ _ ↦ trivial

theorem transactionBody {body : Context → Nat → Call α}
    (hbody : (within x.thread? asks).Keeps (x.Live S) (fun _ ↦ True) (body x c).run) :
    (within x.thread? asks).Keeps (x.Live S) (fun _ ↦ True) (x.transactionBody body c).run := by
  have hget : (within x.thread? asks).Runs (x.Live S) (fun _ ↦ True)
      (x.locking c (Session.autocommit c)) := (during.locking (during.autocommit c)).during
  have hset : ∀ on, (within x.thread? asks).Runs (x.Live S) (fun _ ↦ True)
      (x.locking c (Session.setAutocommit c on)) := fun on ↦
    (during.locking (during.setAutocommit c on)).during
  have hrun : (within x.thread? asks).Runs (x.Live S) (fun _ ↦ True) (body x c) :=
    Keeps.mono hbody fun _ _ _ _ ↦ trivial
  have hall : (within x.thread? asks).Runs (x.Live S) (fun _ ↦ True) (x.transactionBody body c) := by
    refine hget.bind fun previous _ ↦ (hset false).bind fun _ _ ↦ hrun.caught.bind fun r _ ↦
      (hset previous).caught.bind fun restored _ ↦ ?_
    exact (Runs.ofResult fun _ _ ↦ trivial).bind fun a _ ↦
      (Runs.ofResult fun _ _ ↦ trivial).bind fun _ _ ↦ .pure trivial
  exact Keeps.mono hall fun _ _ ↦ trivial

theorem nested (hS : ∀ b c, S.lookup b = some c → A c) {body : Context → Nat → Call α}
    (hbody : ∀ (A' : Nat → Prop) y (T : Async.Scopes) c, (∀ d, A d → A' d) → A' c → x.Alike y →
      (∀ b d, T.lookup b = some d → A' d) →
      (within y.thread? (minding A')).Keeps (y.Live T) (fun _ ↦ True) (body y c).run) :
    (within x.thread? (minding A)).Keeps (x.Live S) (fun _ ↦ True) (x.connection b body).run := by
  refine connection (fun _ ↦ owning_minding A)
    (fun c hc ↦ hbody A x S c (fun _ h ↦ h) (hS b c hc) x.alike_refl hS) fun c l m hb hl hm ↦ ?_
  have hin : ∀ b' d, ((b, c) :: S).lookup b' = some d → A d ∨ d = c := by
    intro b' d hd
    rw [List.lookup_cons] at hd
    split at hd
    · exact .inr (Option.some.inj hd).symm
    · exact .inl (hS b' d hd)
  have hrun := hbody (fun d ↦ A d ∨ d = c) (x.inside b c) _ c (fun _ ↦ .inl) (.inr rfl)
    (x.alike_inside b c) hin l m hm
  rw [(x.alike_inside b c).thread_eq] at hrun
  refine (hrun.mono fun _ _ _ h ↦ h.1).asking fun l' o hle ho hw d hd ↦ ?_
  obtain (hA | rfl) | hd' := ho hw d hd
  · exact .inl hA
  · exact .inr (hl.later hle)
  · exact .inr hd'

end within

end Conduct

theorem TaskCode.keeps {p : Action α} (hp : TaskCode x K p) (hK : ∀ c ∈ K, A c)
    (hS : ∀ b c, S.lookup b = some c → A c) :
    (Conduct.within x.thread? (Conduct.minding A)).Keeps (x.Live S) (fun _ ↦ True) p := by
  have hany : ∀ {γ : Type} {x : Context} {S : Async.Scopes} {A : Nat → Prop} {P : γ → Prop} {q : Call γ},
      (Conduct.during x S (Conduct.minding A)).Runs (x.Live S) P q →
      (Conduct.within x.thread? (Conduct.minding A)).Keeps (x.Live S) (fun _ ↦ True) q.run :=
    fun hq ↦ Conduct.Keeps.mono hq.during fun _ _ ↦ trivial
  induction hp generalizing S A with
  | done a => exact .done trivial
  | bind _ _ ihp ihf => exact (ihp hK hS).bind fun a _ ↦ ihf a hK hS
  | note hf k =>
    refine .memory (fun m hm ↦ ⟨⟨(hf m).leases, ?_, fun u _ ↦ ?_⟩, hm.of_active (hf m).active⟩)
      fun _ _ ↦ trivial
    · rw [operations, operations, (hf m).trace]
    · rw [activeOn, activeOn, (hf m).active]
  | pause => exact hany (.wait Conduct.during.resumes fun j h ↦ by cases h)
  | spawn body steps => exact .start fun m hm ↦ Conduct.within.starting hm
  | join body steps => exact hany (.wait Conduct.during.resumes fun _ _ ↦ trivial)
  | @statement _ _ c hc sql params =>
    exact hany (Conduct.during.locking (Conduct.during.session (o := .execute c sql params)
      (Conduct.serves_minding (hK c hc)) rfl rfl))
  | @rows _ _ c hc sql params =>
    exact hany (Conduct.during.locking (Conduct.during.session (o := .query c sql params)
      (Conduct.serves_minding (hK c hc)) rfl rfl))
  | @read _ _ c hc o ho hd =>
    exact hany (.operate (P := fun _ ↦ True) Conduct.during.resumes
      (fun l _ _ ↦ Conduct.serves_minding (hK c hc) l o hd) fun _ _ _ _ _ ↦ trivial)
  | @commit _ _ c hc =>
    exact hany (Conduct.during.locking (Conduct.during.session (o := .commit c)
      (Conduct.serves_minding (hK c hc)) rfl rfl))
  | @rollback _ _ c hc =>
    exact hany (Conduct.during.locking (Conduct.during.session (o := .rollback c)
      (Conduct.serves_minding (hK c hc)) rfl rfl))
  | autocommit c => exact hany (Conduct.during.locking (Conduct.during.autocommit c))
  | setAutocommit c on => exact hany (Conduct.during.locking (Conduct.during.setAutocommit c on))
  | execute f count args =>
    exact Conduct.within.execute (fun c hc ↦ Conduct.serves_minding (hS _ c hc))
      (fun _ ↦ Conduct.owning_minding _) count args
  | query f ret args =>
    exact Conduct.within.query (fun c hc ↦ Conduct.serves_minding (hS _ c hc))
      (fun _ ↦ Conduct.owning_minding _) ret args
  | stream f shape args _ _ ihf ihk =>
    refine fun l m hm ↦ .bind ((Conduct.within.stream (fun c hc ↦ Conduct.serves_minding (hS _ c hc))
      (fun _ ↦ Conduct.owning_minding _) shape args hm).mono fun r l m hr ↦ ?_)
    obtain ⟨hm, hs⟩ := hr
    rcases r with f | s
    · exact ihf f hK hS l m hm
    · obtain ⟨c, hon, hc⟩ := hs s rfl
      refine (ihk c s hon (A := fun d ↦ A d ∨ d = c) ?_ (fun b d hd ↦ .inl (hS b d hd)) l m hm).asking
        fun l' o hle ho hw d hd ↦ ?_
      · exact List.forall_mem_cons.2 ⟨.inr rfl, fun d hd ↦ .inl (hK d hd)⟩
      · obtain (hA | rfl) | hd' := ho hw d hd
        · exact .inl hA
        · exact hc.imp (hS _ _) (·.later hle)
        · exact .inr hd'
  | next hc hs _ ih =>
    exact (Conduct.within.next (Conduct.serves_minding (hK _ hc)) hs).bind fun r hr ↦ ih r hr hK hS
  | drop hc hs =>
    exact Conduct.Keeps.mono (Conduct.within.dropStream (Conduct.serves_minding (hK _ hc)) hs)
      fun _ _ ↦ trivial
  | holding j _ ih => exact (ih hK hS).orphaning trivial
  | connection b _ ih =>
    refine Conduct.within.nested hS fun A' y T c hA hc hy hT ↦ ih y c hy ?_ hT
    exact List.forall_mem_cons.2 ⟨hc, fun d hd ↦ hA d (hK d hd)⟩
  | transaction b _ ih =>
    rw [Context.transaction_eq]
    refine Conduct.within.nested hS fun A' y T c hA hc hy hT ↦
      Conduct.within.transactionBody (ih y c hy ?_ hT)
    exact List.forall_mem_cons.2 ⟨hc, fun d hd ↦ hA d (hK d hd)⟩

end BoundSql
