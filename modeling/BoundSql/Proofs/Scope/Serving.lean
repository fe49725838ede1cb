import BoundSql.Proofs.Scope.Active

namespace BoundSql

open Memory

variable {α : Type} {x : Context} {S : Async.Scopes} {c : Nat} {m m' : Memory}
  {asks : List Event → Operation → Prop}

abbrev Conduct.Serves (asks : List Event → Operation → Prop) (c : Nat) : Prop :=
  ∀ l o, o.connection? = some c → asks l o

abbrev Conduct.Attends (asks : List Event → Operation → Prop) (c : Nat) : Prop :=
  ∀ l o, o.connection? = some c → o.isStatement = false → asks l o

theorem Conduct.Serves.attends (hs : Serves asks c) : Attends asks c := fun l o ho _ ↦ hs l o ho

namespace Conduct.during

variable {P : α → Prop} {p : Call α}

theorem resumes (m m' : Memory) (hm : (during x S asks).rely m m') : x.Live S m' := hm

theorem keeps (hl : m'.leases = m.leases) (ho : m'.operations = m.operations)
    (ha : m'.active = m.active) (hm : x.Live S m) :
    (during x S asks).calm m m' ∧ x.Live S m' :=
  ⟨⟨⟨hl, ho, fun u _ ↦ by rw [activeOn, activeOn, ha]⟩, fun hm ↦ hm.of_active ha⟩, hm.of_active ha⟩

theorem started (j : Job) (m : Memory) (hm : x.Live S m) :
    (during x S asks).calm m (m.start j) ∧ x.Live S (m.start j) := by
  unfold Memory.start
  split
  · exact keeps rfl rfl rfl hm
  · exact keeps rfl rfl rfl hm

theorem ends (hs : ∀ l o, o.connection? = some c → o.isWork = false → asks l o) (b : Nat) :
    (during x S asks).Ends (x.Live S) b c where
  resumes := resumes
  close _ _ _ _ := hs _ _ rfl rfl
  rollback _ _ _ _ := hs _ _ rfl rfl
  handOver m hm _ _ := by
    have hgo : (during x S asks).calm m (m.letGo c) ∧ x.Live S (m.letGo c) := keeps rfl rfl rfl hm
    exact .inr ⟨hgo.1, hgo.2, trivial⟩
  release m hm _ _ := by
    have hgo : (during x S asks).calm m (m.letGo c) ∧ x.Live S (m.letGo c) := keeps rfl rfl rfl hm
    exact ⟨hgo.1, hgo.2, fun _ _ _ ↦ hs _ _ rfl rfl⟩
  leaves := trivial
  start m hm := started _ m hm

theorem locking (hp : (during x S asks).Runs (x.Live S) P p) :
    (during x S asks).Runs (x.Live S) P (x.locking c p) := by
  unfold Context.locking
  cases x.mode with
  | blocking => exact hp
  | async => exact .locking resumes hp

theorem session (hs : Serves asks c) {o : Operation} (ho : o.isLocked) (hc : o.connection? = some c) :
    (during x S asks).Runs (x.Live S) (fun _ ↦ True)
      (Session.check c >>= fun _ ↦ Call.operate o) :=
  .checked resumes ho fun l _ _ _ ↦ hs l o hc

theorem query (hs : Serves asks c) (sql : String) (params : List Value) :
    (during x S asks).Runs (x.Live S) (fun cursor ↦ cursor.connection = c)
      (Session.query c sql params) := by
  refine fun l m hm ↦ .check (fun _ ↦ ⟨by simp, fun m₁ hm₁ ↦ ⟨hs l _ rfl, ?_⟩⟩) fun e ↦
    ⟨hm, fun _ h ↦ by cases h⟩
  intro s r m' hr _ hm'
  refine ⟨hm', fun cursor hok ↦ ?_⟩
  obtain ⟨⟨raw, rfl⟩, -⟩ := hr
  cases raw <;> cases hok
  rfl

theorem autocommit (c : Nat) :
    (during x S asks).Runs (x.Live S) (fun _ ↦ True) (Session.autocommit c) :=
  fun _ m hm ↦ .check (fun _ ↦ .inl ⟨(during x S asks).calm_refl m, hm, fun _ _ ↦ trivial⟩) fun _ ↦
    ⟨hm, fun _ _ ↦ trivial⟩

theorem setAutocommit (c : Nat) (on : Bool) :
    (during x S asks).Runs (x.Live S) (fun _ ↦ True) (Session.setAutocommit c on) := by
  refine fun _ m hm ↦ .check (fun _ ↦ ?_) fun _ ↦ ⟨hm, fun _ _ ↦ trivial⟩
  have hset : (during x S asks).calm m (m.setAutocommit c on) ∧ x.Live S (m.setAutocommit c on) :=
    keeps rfl rfl rfl hm
  exact .inl ⟨hset.1, hset.2, fun _ _ ↦ trivial⟩

theorem committing (hs : Attends asks c) (hp : (during x S asks).Runs (x.Live S) P p) :
    (during x S asks).Runs (x.Live S) P (do
      if ← x.locking c (Session.autocommit c) then x.locking c (Session.commit c)
      p) := by
  refine (locking (autocommit c)).bind fun on _ ↦ ?_
  cases on with
  | false => exact hp
  | true =>
    have hcommit : (during x S asks).Runs (x.Live S) (fun _ ↦ True) (Session.commit c) :=
      .checked resumes rfl fun l _ _ _ ↦ hs l (.commit c) rfl rfl
    exact (locking hcommit).bind fun _ _ ↦ hp

theorem executeBody (hs : Serves asks c) (count : Count) (r : Template.Rendered) :
    (during x S asks).Runs (x.Live S) (fun _ ↦ True) (x.executeBody count r c) := by
  refine (locking (session (o := .execute c r.sql r.params) hs rfl rfl)).bind fun n _ ↦ ?_
  exact committing hs.attends (.ofResult fun _ _ ↦ trivial)

section Cursor

variable {cursor : Cursor}

theorem fetches (hs : Attends asks c) (hc : cursor.connection = c) (l : List Event) (m : Memory)
    (o : Operation) (_ : x.Live S m) (ho : Cursor.Fetch cursor.connection cursor.id o) :
    (during x S asks).asks l m o := by
  obtain ⟨i, rfl⟩ := ho
  exact hs l _ (congrArg some hc) rfl

theorem close (hs : Attends asks c) (hc : cursor.connection = c) :
    (during x S asks).Runs (x.Live S) (fun _ ↦ True) cursor.close :=
  cursor.only_close.runs resumes fun l _ o _ ho ↦ by
    rw [ho]
    exact hs l _ (congrArg some hc) rfl

theorem closeQuietly (hs : Attends asks c) (hc : cursor.connection = c) :
    (during x S asks).Runs (x.Live S) (fun _ ↦ True) (Blocking.closeQuietly cursor) :=
  (Runs.caught (close hs hc)).bind fun _ _ ↦ .pure trivial

theorem fetchOne (hs : Attends asks c) (hc : cursor.connection = c) :
    (during x S asks).Runs (x.Live S) (fun r ↦ r.2.connection = c) (Cursor.fetchOne.run cursor) :=
  Keeps.mono (cursor.only_fetchOne.keeps resumes (fetches hs hc)) fun _ hr a ha ↦
    (hr a ha).1.trans hc

theorem reading (hs : Attends asks c) (hc : cursor.connection = c)
    (hp : (during x S asks).Runs (x.Live S) P p) :
    (during x S asks).Runs (x.Live S) P (x.reading c cursor p) := by
  unfold Context.reading
  cases x.mode with
  | blocking =>
    refine hp.outcome.bind fun r hr ↦ ?_
    cases r with
    | ok a => exact .pure (hr a rfl)
    | error f => exact (closeQuietly hs hc).bind fun _ _ ↦ .throw _
  | async => exact .cleaningUp trivial (fun m hm ↦ started _ m hm) hp

theorem delivering (hs : Attends asks c) (hc : cursor.connection = c) (ret : Return) :
    (during x S asks).Runs (x.Live S) (fun _ ↦ True) (do
      let rows ← x.reading c cursor (cursor.pull ret.strategy)
      cursor.close
      let value ← Call.ofResult (ret.ofRows cursor.columns rows)
      if ← x.locking c (Session.autocommit c) then x.locking c (Session.commit c)
      return value) := by
  have hpull : (during x S asks).Runs (x.Live S) (fun _ ↦ True) (cursor.pull ret.strategy) :=
    (cursor.only_pull _).runs resumes (fetches hs hc)
  refine (reading hs hc hpull).bind fun rows _ ↦ (close hs hc).bind fun _ _ ↦ ?_
  refine (Runs.ofResult fun _ _ ↦ trivial).bind fun value (_ : True) ↦ ?_
  exact committing hs (.pure trivial)

end Cursor

theorem queryBody (hs : Serves asks c) (ret : Return) (r : Template.Rendered) :
    (during x S asks).Runs (x.Live S) (fun _ ↦ True) (x.queryBody ret r c) :=
  (locking (query hs r.sql r.params)).bind fun _ hc ↦ delivering hs.attends hc ret

theorem rollbackQuietly_ok (hs : Serves asks c) (hx : x.mode = .blocking) :
    (during x S asks).Keeps (x.Live S) (· = .ok ()) (Session.rollbackQuietly c).run := by
  have hroll : (during x S asks).Keeps (x.Live S) (fun r ↦ Outcome.isPanic r = false)
      (Session.rollback c).run := by
    refine fun l m hm ↦ .check (fun _ ↦ ⟨by simp, fun m₁ _ ↦ ⟨hs l _ rfl, ?_⟩⟩) fun e ↦ ⟨hm, rfl⟩
    intro s r m' _ hans hm'
    exact ⟨hm', hans (by rw [Context.thread?, hx]; rfl) c rfl⟩
  have hout : (during x S asks).Keeps (x.Live S) (fun r ↦ ∃ r', r = .ok r' ∧ Outcome.isPanic r' = false)
      (Session.rollback c).outcome.run := Keeps.bind hroll fun r hr ↦ .done ⟨r, rfl, hr⟩
  refine Keeps.bind hout fun r hr ↦ ?_
  obtain ⟨(err | s) | a, rfl, hr⟩ := hr
  · exact .done rfl
  · cases hr
  · exact .done rfl

end Conduct.during

end BoundSql
