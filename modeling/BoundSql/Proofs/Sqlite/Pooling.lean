import BoundSql.Proofs.Sqlite.Numbering
import BoundSql.Scope.Session

namespace BoundSql

def Memory.room (m : Memory) (pool : Nat) : Nat := ((m.pools.lookup pool).map PoolSpec.maxIdle).getD 0

def Operation.opens (id : Nat) : Operation → List Nat
  | lease _ => [id]
  | _ => []

namespace Sqlite

variable {ε α : Type} {e : Engine ε}

/-- How the engine keeps its one transaction: when opened it is in none, a begin that fails opens none, and a
commit or a rollback that succeeds leaves none open. -/
structure Engine.Settles (e : Engine ε) : Prop where
  opened_closed : ∀ id s, e.opening id = .ok s → ¬ e.inTransaction s
  begin_refused : ∀ s, ¬ e.inTransaction s → (e.begin s).1.isOk = false →
    ¬ e.inTransaction (e.begin s).2
  commit_closes : ∀ s, (e.commit s).1.isOk → ¬ e.inTransaction (e.commit s).2
  rollback_closes : ∀ s, (e.rollback s).1.isOk → ¬ e.inTransaction (e.rollback s).2

theorem Engine.Settles.ends_closes (he : e.Settles) {r : Request} {f : ε → Except Error Unit × ε}
    (hf : r.Ends e f) {s : ε} (hok : (f s).1.isOk) : ¬ e.inTransaction (f s).2 := by
  cases hf with
  | commit => exact he.commit_closes s hok
  | rollback => exact he.rollback_closes s hok

namespace Connection

variable {c : Connection ε}

/-- The connection notes the engine's transaction, if there is one. It may note one that is over. -/
def Covers (e : Engine ε) (c : Connection ε) : Prop := e.inTransaction c.engine → c.begun

theorem Covers.closed (hc : c.Covers e) (hb : c.begun = false) : ¬ e.inTransaction c.engine :=
  fun hopen ↦ Bool.eq_false_iff.1 hb (hc hopen)

theorem covers_of_closed {s : ε} {b : Bool} (hs : ¬ e.inTransaction s) :
    Covers e ⟨s, b⟩ := fun hopen ↦ absurd hopen hs

theorem covers_perform (he : e.Settles) (hc : c.Covers e) (r : Request) :
    (perform e c r).Covers e := by
  obtain hr | ⟨f, hf⟩ := r.statement_or_ends e
  · rw [perform_statement hr]
    cases hs : ground e c with
    | some s => exact fun _ ↦ rfl
    | none =>
      obtain ⟨hb, hfail⟩ := ground_eq_none_iff.1 hs
      exact covers_of_closed (he.begin_refused _ (hc.closed hb) hfail)
  · rw [perform_ends hf]
    split
    case isFalse => exact hc
    case isTrue =>
      cases hok : (f c.engine).1.isOk with
      | true => exact covers_of_closed (he.ends_closes hf hok)
      | false => exact fun _ ↦ rfl

theorem Covers.closed_of_rollback (he : e.Settles) (hc : c.Covers e)
    (hok : ((rollback e).run.run c).1.isOk) : ¬ e.inTransaction (perform e c .rollback).engine := by
  have hfinish : (rollback e).run.run c = (finish e.rollback).run.run c := rfl
  rw [hfinish, run_finish] at hok
  rw [perform_ends .rollback]
  split at hok
  case isTrue hb =>
    rw [if_pos hb]
    exact he.rollback_closes _ hok
  case isFalse hb =>
    rw [if_neg hb]
    exact hc.closed (Bool.eq_false_iff.2 hb)

end Connection

theorem Pool.lease_ok {id : Nat} {pool idle : Pool ε} {c : Connection ε}
    (hl : pool.lease e id = (.ok c, idle)) : c = ⟨c.engine, false⟩ ∧
      (pool = c.engine :: idle ∨ pool = [] ∧ idle = [] ∧ e.opening id = .ok c.engine) := by
  cases pool with
  | nil =>
    rw [lease, Prod.mk.injEq] at hl
    obtain ⟨hopen, rfl⟩ := hl
    cases ho : e.opening id with
    | error err =>
      rw [ho] at hopen
      cases hopen
    | ok s =>
      rw [ho] at hopen
      cases hopen
      exact ⟨rfl, .inr ⟨rfl, rfl, rfl⟩⟩
  | cons s pool =>
    cases hl
    exact ⟨rfl, .inl rfl⟩

theorem Pool.lease_error {id : Nat} {pool idle : Pool ε} {err : Error}
    (hl : pool.lease e id = (.error err, idle)) : pool = [] ∧ e.opening id = .error err := by
  cases pool with
  | nil =>
    rw [lease, Prod.mk.injEq] at hl
    refine ⟨rfl, ?_⟩
    cases ho : e.opening id with
    | error err' =>
      rw [ho] at hl
      cases hl.1
      rfl
    | ok s =>
      rw [ho] at hl
      cases hl.1
  | cons s pool => cases hl

theorem Pool.snd_release (e : Engine ε) (room : Nat) (c : Connection ε) (idle : Pool ε) :
    (release e room c idle).2 =
      if ((Connection.rollback e).run.run c).1.isOk ∧ idle.length < room then
        (Connection.perform e c .rollback).engine :: idle
      else idle := by
  rw [release, Connection.perform]
  rcases (Connection.rollback e).run.run c with ⟨x | _, d⟩
  · rfl
  · simp [Except.isOk, Except.toBool]

namespace Server

open Memory

variable {s : Server ε} {room : Nat → Nat} {b c : Nat} {k : Connection ε} {p : Pool ε}

theorem pool_setPool_self (b : Nat) (p : Pool ε) (s : Server ε) : (s.setPool b p).pool b = p := by
  rw [pool, setPool, lookup_setKey_self]
  rfl

theorem pool_setPool_ne {b' : Nat} (h : b' ≠ b) (p : Pool ε) (s : Server ε) :
    (s.setPool b p).pool b' = s.pool b' := by
  rw [pool, setPool, lookup_setKey_ne h]
  rfl

/-- No pool keeps more than it has room for, what is idle is in no transaction, and what is out notes the
transaction that it is in. -/
structure Clean (e : Engine ε) (room : Nat → Nat) (s : Server ε) : Prop where
  bounded : ∀ b, (s.pool b).length ≤ room b
  closed : ∀ b, ∀ t ∈ s.pool b, ¬ e.inTransaction t
  covered : ∀ c k, s.connections.lookup c = some k → k.Covers e

namespace Clean

theorem empty (e : Engine ε) (room : Nat → Nat) : Clean e room {} :=
  ⟨fun _ ↦ Nat.zero_le _, nofun, nofun⟩

theorem setPool (hs : s.Clean e room) (hlen : p.length ≤ room b)
    (hp : ∀ t ∈ p, ¬ e.inTransaction t) : (s.setPool b p).Clean e room where
  bounded b' := by
    by_cases hb : b' = b
    · rw [hb, pool_setPool_self]
      exact hlen
    · rw [pool_setPool_ne hb]
      exact hs.bounded b'
  closed b' := by
    by_cases hb : b' = b
    · rw [hb, pool_setPool_self]
      exact hp
    · rw [pool_setPool_ne hb]
      exact hs.closed b'
  covered := hs.covered

theorem setConnection (hs : s.Clean e room) (hk : k.Covers e) :
    Clean e room { s with connections := setKey c k s.connections } where
  bounded := hs.bounded
  closed := hs.closed
  covered d j hj := by
    by_cases hd : d = c
    · rw [hd, lookup_setKey_self] at hj
      exact Option.some.inj hj ▸ hk
    · rw [lookup_setKey_ne hd] at hj
      exact hs.covered d j hj

theorem dropConnection (hs : s.Clean e room) :
    Clean e room { s with connections := eraseKey c s.connections } where
  bounded := hs.bounded
  closed := hs.closed
  covered d j hj := by
    by_cases hd : d = c
    · rw [hd, lookup_eraseKey_self] at hj
      nomatch hj
    · rw [lookup_eraseKey_ne hd] at hj
      exact hs.covered d j hj

theorem lease (he : e.Settles) (hs : s.Clean e room) {id : Nat} {idle : Pool ε}
    (hl : (s.pool b).lease e id = (.ok k, idle)) :
    ¬ e.inTransaction k.engine ∧ (s.setPool b idle).Clean e room := by
  have hlen := hs.bounded b
  have hclosed := hs.closed b
  obtain ⟨-, hpool | ⟨-, rfl, hopen⟩⟩ := Pool.lease_ok hl
  · rw [hpool] at hlen hclosed
    obtain ⟨ht, hrest⟩ := List.forall_mem_cons.1 hclosed
    exact ⟨ht, hs.setPool (Nat.le_of_succ_le hlen) hrest⟩
  · exact ⟨he.opened_closed _ _ hopen, hs.setPool (Nat.zero_le _) nofun⟩

theorem release (he : e.Settles) (hs : s.Clean e room) (hk : k.Covers e) (b : Nat) :
    (s.setPool b (Pool.release e (room b) k (s.pool b)).2).Clean e room := by
  rw [Pool.snd_release]
  split
  case isTrue h =>
    refine hs.setPool h.2 (List.forall_mem_cons.2 ⟨?_, hs.closed b⟩)
    exact hk.closed_of_rollback he h.1
  case isFalse => exact hs.setPool (hs.bounded b) (hs.closed b)

theorem use {u : Connection.Use ε α} (hu : ∀ k, k.Covers e → (u.run.run k).2.Covers e)
    (hs : s.Clean e room) (c : Nat) : (s.use c u).2.Clean e room := by
  rw [Server.use]
  split
  · exact hs
  · next k hk => exact hs.setConnection (hu k (hs.covered c k hk))

theorem answer (he : e.Settles) (m : Memory) (hs : s.Clean e m.room) (o : Operation) (id : Nat) :
    (answer e m o id s).2.Clean e m.room := by
  cases o with
  | lease b =>
    rw [Server.answer]
    rcases hl : (s.pool b).lease e id with ⟨err | k, idle⟩
    · exact hs
    · obtain ⟨ht, hleased⟩ := hs.lease he hl
      exact hleased.setConnection (Connection.covers_of_closed ht)
  | execute c sql ps => exact hs.use (fun k hk ↦ Connection.covers_perform he hk (.execute sql ps)) c
  | query c sql ps => exact hs.use (fun k hk ↦ Connection.covers_perform he hk (.query sql ps)) c
  | commit c => exact hs.use (fun k hk ↦ Connection.covers_perform he hk .commit) c
  | rollback c => exact hs.use (fun k hk ↦ Connection.covers_perform he hk .rollback) c
  | release b c =>
    rw [Server.answer]
    split
    · exact hs
    · next k hk => exact (hs.release he (hs.covered c k hk) b).dropConnection
  | fetch | close | instruct | idle | inTransaction => exact hs

end Clean

/-- The numbers of the connections, those that are idle and those that are out. -/
def numbers (s : Server (Nat × ε)) : List Nat :=
  (s.pools.flatMap fun p ↦ p.2.map Prod.fst) ++ s.connections.flatMap fun p ↦ [p.2.number]

section Numbers

variable {m : Memory} {s : Server (Nat × ε)} {d : Engine (Nat × ε)} {c : Nat}

theorem count_setPool_le (n b : Nat) (p : Pool (Nat × ε)) (s : Server (Nat × ε)) :
    (s.setPool b p).numbers.count n + ((s.pool b).map Prod.fst).count n ≤
      s.numbers.count n + (p.map Prod.fst).count n := by
  have hgone := count_eraseKey_add_le (fun p : Pool (Nat × ε) ↦ p.map Prod.fst) n b s.pools
  have hpool : (s.pools.lookup b).elim [] (fun p ↦ p.map Prod.fst) = (s.pool b).map Prod.fst := by
    rw [pool]
    cases s.pools.lookup b <;> rfl
  rw [hpool] at hgone
  simp only [numbers, setPool, setKey, List.flatMap_cons, List.count_append]
  omega

theorem count_dropConnection_le (n c : Nat) (s : Server (Nat × ε)) :
    (numbers { s with connections := eraseKey c s.connections }).count n +
      ((s.connections.lookup c).elim [] fun k ↦ [k.number]).count n ≤ s.numbers.count n := by
  have hgone := count_eraseKey_add_le (fun k : Connection (Nat × ε) ↦ [k.number]) n c s.connections
  simp only [numbers, List.count_append]
  omega

theorem count_setConnection_le (n c : Nat) (k : Connection (Nat × ε)) (s : Server (Nat × ε)) :
    (numbers { s with connections := setKey c k s.connections }).count n +
      ((s.connections.lookup c).elim [] fun k ↦ [k.number]).count n ≤
        s.numbers.count n + [k.number].count n := by
  have hgone := s.count_dropConnection_le n c
  simp only [numbers, setKey, List.flatMap_cons, List.count_append] at hgone ⊢
  omega

theorem count_lease_le (n id b : Nat) (s : Server (Nat × ε)) :
    (answer e.numbered m (.lease b) id s).2.numbers.count n ≤
      s.numbers.count n + [id].count n := by
  rw [answer]
  rcases hl : (s.pool b).lease e.numbered id with ⟨err | k, idle⟩
  · exact Nat.le_add_right ..
  have hpool : [k.number].count n + (idle.map Prod.fst).count n ≤
      ((s.pool b).map Prod.fst).count n + [id].count n := by
    obtain ⟨-, hpool | ⟨hpool, rfl, hopen⟩⟩ := Pool.lease_ok hl
    · rw [hpool, Connection.number]
      simp only [List.map_cons, List.count_cons, List.count_nil]
      omega
    · rw [hpool, Connection.number, Engine.fst_of_opening_numbered hopen]
      exact Nat.le_of_eq (Nat.add_comm _ _)
  have hidle := s.count_setPool_le n b idle
  have hout := count_setConnection_le n id k (s.setPool b idle)
  exact Nat.le_trans (Nat.le_of_add_right_le hout) (by omega)

theorem count_use_le {u : Connection.Use (Nat × ε) α} {v : Connection.Use ε α}
    (h : Connection.Follows u v) (n c : Nat) (s : Server (Nat × ε)) :
    (s.use c u).2.numbers.count n ≤ s.numbers.count n := by
  rw [use]
  split
  · exact Nat.le_refl _
  · next k hk =>
    have hout := s.count_setConnection_le n c (u.run.run k).2
    rw [hk, Option.elim, (h k).2] at hout
    exact Nat.le_of_add_le_add_right hout

theorem number_perform_rollback (k : Connection (Nat × ε)) :
    (Connection.perform e.numbered k .rollback).engine.1 = k.number :=
  (Connection.Follows.rollback (e := e) k).2

theorem count_release_add_le {k : Connection (Nat × ε)} (hk : s.connections.lookup c = some k)
    (n b id : Nat) : (answer d m (.release b c) id s).2.numbers.count n + [k.number].count n +
      ((s.pool b).map Prod.fst).count n ≤ s.numbers.count n +
        ((Pool.release d (m.room b) k (s.pool b)).2.map Prod.fst).count n := by
  have hidle := s.count_setPool_le n b (Pool.release d (m.room b) k (s.pool b)).2
  have hout := count_dropConnection_le n c (s.setPool b (Pool.release d (m.room b) k (s.pool b)).2)
  have hlookup : (s.setPool b (Pool.release d (m.room b) k (s.pool b)).2).connections.lookup c =
    some k := hk
  rw [hlookup, Option.elim] at hout
  rw [answer, hk]
  exact Nat.le_trans (Nat.add_le_add_right hout _) hidle

theorem count_release_le (n b c id : Nat) (s : Server (Nat × ε)) :
    (answer e.numbered m (.release b c) id s).2.numbers.count n ≤ s.numbers.count n := by
  cases hk : s.connections.lookup c with
  | none =>
    have hsame : (answer e.numbered m (.release b c) id s).2 = s := by rw [answer, hk]
    exact Nat.le_of_eq (congrArg (fun s ↦ s.numbers.count n) hsame)
  | some k =>
    have hle := count_release_add_le (d := e.numbered) (m := m) hk n b id
    rw [Pool.snd_release] at hle
    split at hle
    · rw [List.map_cons, number_perform_rollback] at hle
      simp only [List.count_cons, List.count_nil] at hle
      omega
    · omega

theorem count_release_refused_le {k : Connection (Nat × ε)} (hk : s.connections.lookup c = some k)
    (hfail : ((Connection.rollback e).run.run k.erase).1.isOk = false) (n b id : Nat) :
    (answer e.numbered m (.release b c) id s).2.numbers.count n + [k.number].count n ≤
      s.numbers.count n := by
  have hle := count_release_add_le (d := e.numbered) (m := m) hk n b id
  rw [(Connection.Follows.rollback k).1] at hfail
  rw [Pool.snd_release, if_neg (by simp [hfail])] at hle
  omega

theorem count_answer_le (n id : Nat) (o : Operation) (s : Server (Nat × ε)) :
    (answer e.numbered m o id s).2.numbers.count n ≤
      s.numbers.count n + (o.opens id).count n := by
  cases o with
  | lease b => exact count_lease_le n id b s
  | execute c sql ps => exact count_use_le (.execute sql ps) n c s
  | query c sql ps => exact count_use_le (.query (e := e) sql ps) n c s
  | commit c => exact count_use_le .commit n c s
  | rollback c => exact count_use_le .rollback n c s
  | release b c => exact count_release_le n b c id s
  | fetch | close | instruct | idle | inTransaction => exact Nat.le_refl _

end Numbers

end Server

/-- What the users of pools do: they lease connections, ask for anything, set the flags of connections,
and give connections back. -/
inductive Move
  | lease (binder : Nat)
  | operate (o : Operation)
  | setAutocommit (c : Nat) (on : Bool)
  | release (binder c : Nat)

namespace Move

variable {σ : Type} {h : Host σ} {cb : Callback σ} {w : World σ}

def call : Move → Call Unit
  | lease b => do let _ ← Binder.lease b
  | operate o => do let _ ← Call.operate o
  | setAutocommit c on => Call.modify (Memory.setAutocommit c on)
  | release b c => do
    Call.modify (Memory.letGo c)
    Call.operate (.release b c)

def step (h : Host σ) (cb : Callback σ) (w : World σ) (v : Move) : World σ :=
  (Call.exec h cb v.call w).2

def play (h : Host σ) (cb : Callback σ) (w : World σ) (vs : List Move) : World σ :=
  vs.foldl (step h cb) w

section Keeps

variable {P : World σ → Prop} (hop : ∀ o w, P w → P (h.perform cb o w).2)
  (hmem : ∀ (f : Memory → Memory) (w : World σ), (f w.memory).pools = w.memory.pools →
    (f w.memory).leases = w.memory.leases → P w → P { w with memory := f w.memory })

include hop hmem

theorem lease_keeps (hw : P w) (b : Nat) : P (Call.exec h cb (Binder.lease b) w).2 := by
  rw [Binder.lease]
  refine Call.exec_bind_cases (Q := fun r ↦ P r.2) (P := P) ?_ (fun _ _ hw ↦ hw) fun p w hw ↦ ?_
  · rw [Binder.pool, Call.exec_bind, Call.exec_read]
    dsimp only
    split <;> exact hw
  · exact Call.exec_bind_cases (Q := fun r ↦ P r.2) (hop _ w hw) (fun _ _ hw ↦ hw)
      fun c w hw ↦ hmem (Memory.hold c p.autocommit) w rfl rfl hw

theorem step_keeps (hw : P w) (v : Move) : P (step h cb w v) := by
  cases v with
  | lease b =>
    exact Call.exec_bind_cases (Q := fun r ↦ P r.2) (lease_keeps hop hmem hw b) (fun _ _ hw ↦ hw)
      fun _ _ hw ↦ hw
  | operate o =>
    exact Call.exec_bind_cases (Q := fun r ↦ P r.2) (hop o w hw) (fun _ _ hw ↦ hw) fun _ _ hw ↦ hw
  | setAutocommit c on => exact hmem (Memory.setAutocommit c on) w rfl rfl hw
  | release b c => exact hop _ _ (hmem (Memory.letGo c) w rfl rfl hw)

theorem play_keeps (hw : P w) (vs : List Move) : P (play h cb w vs) := by
  induction vs generalizing w with
  | nil => exact hw
  | cons v vs ih => exact ih (step_keeps hop hmem hw v)

end Keeps

theorem step_erase {cb : Callback (Server ε)} (cb' : Callback (Server (Nat × ε)))
    (w : World (Server (Nat × ε))) (v : Move) :
    step (Server.host e) cb w.erase v = (step (Server.numberedHost e) cb' w v).erase :=
  congrArg Prod.snd (Action.runInSequence_erase cb' v.call.run w)

theorem play_erase {cb : Callback (Server ε)} (cb' : Callback (Server (Nat × ε)))
    (w : World (Server (Nat × ε))) (vs : List Move) :
    play (Server.host e) cb w.erase vs = (play (Server.numberedHost e) cb' w vs).erase := by
  induction vs generalizing w with
  | nil => rfl
  | cons v vs ih =>
    rw [play, List.foldl_cons, step_erase cb']
    exact ih _

end Move

theorem register_pools (o : Operation) (id : Nat) (st : Status) (m : Memory) :
    (m.register o id st).pools = m.pools := by
  unfold Memory.register
  cases o <;> rfl

def Tidy (e : Engine ε) (m : Memory) (w : World (Server ε)) : Prop :=
  w.memory.pools = m.pools ∧ w.host.Clean e m.room

theorem Tidy.play (he : e.Settles) {cb : Callback (Server ε)} {m : Memory} {w : World (Server ε)}
    (hw : Tidy e m w) (vs : List Move) : Tidy e m (Move.play (Server.host e) cb w vs) := by
  refine Move.play_keeps ?_ ?_ hw vs
  · rintro o w ⟨hpools, hclean⟩
    refine ⟨(register_pools ..).trans hpools, ?_⟩
    have hroom : w.memory.room = m.room := funext fun b ↦ by rw [Memory.room, hpools, Memory.room]
    rw [← hroom] at hclean ⊢
    exact hclean.answer he w.memory o _
  · exact fun f w hf _ hw ↦ ⟨hf.trans hw.1, hw.2⟩

/-- In the later world there is nothing new but the connections of the leases since, each once at most. -/
structure Later (w w' : World (Server (Nat × ε))) : Prop where
  leases_le : w.memory.leases ≤ w'.memory.leases
  count_le : ∀ n, w'.host.numbers.count n ≤
    w.host.numbers.count n + if w.memory.leases < n ∧ n ≤ w'.memory.leases then 1 else 0

namespace Later

variable {w w' w'' : World (Server (Nat × ε))} {cb : Callback (Server (Nat × ε))}

theorem refl (w : World (Server (Nat × ε))) : Later w w :=
  ⟨Nat.le_refl _, fun _ ↦ Nat.le_add_right ..⟩

theorem trans (h : Later w w') (h' : Later w' w'') : Later w w'' where
  leases_le := Nat.le_trans h.leases_le h'.leases_le
  count_le n := by
    have hle := h.leases_le
    have hle' := h'.leases_le
    have hcount := h.count_le n
    have hcount' := h'.count_le n
    split_ifs at hcount hcount' ⊢ <;> omega

theorem perform (o : Operation) (w : World (Server (Nat × ε))) :
    Later w ((Server.numberedHost e).perform cb o w).2 := by
  have hcount (n : Nat) := Server.count_answer_le (e := e) (m := w.memory) n (o.number w.memory) o w.host
  cases o with
  | lease b =>
    refine ⟨Nat.le_succ _, fun n ↦ Nat.le_trans (hcount n) (Nat.add_le_add_left ?_ _)⟩
    change [w.memory.leases + 1].count n ≤
      if w.memory.leases < n ∧ n ≤ w.memory.leases + 1 then 1 else 0
    simp only [List.count_singleton, beq_iff_eq]
    split_ifs <;> omega
  | _ => exact ⟨Nat.le_refl _, fun n ↦ Nat.le_add_right_of_le (hcount n)⟩

theorem play (w : World (Server (Nat × ε))) (vs : List Move) :
    Later w (Move.play (Server.numberedHost e) cb w vs) := by
  refine Move.play_keeps (P := Later w) ?_ ?_ (refl w) vs
  · exact fun o w' hw ↦ hw.trans (perform o w')
  · rintro f w' - hf ⟨hle, hcount⟩
    exact ⟨Nat.le_trans hle (Nat.le_of_eq hf.symm), fun n ↦ hf.symm ▸ hcount n⟩

theorem count_numbers_le {m : Memory} (h : Later ⟨m, {}⟩ w) (n : Nat) :
    w.host.numbers.count n ≤ if n ≤ w.memory.leases then 1 else 0 := by
  refine Nat.le_trans (h.count_le n) ?_
  change 0 + _ ≤ _
  split_ifs <;> omega

theorem nodup_numbers {m : Memory} (h : Later ⟨m, {}⟩ w) : w.host.numbers.Nodup :=
  List.nodup_iff_count_le_one.2 fun n ↦ Nat.le_trans (h.count_numbers_le n) (by split <;> decide)

theorem notMem_numbers_refused {m : Memory} {b c : Nat} {k : Connection (Nat × ε)} (h : Later ⟨m, {}⟩ w)
    (hk : w.host.connections.lookup c = some k)
    (hfail : ((Connection.rollback e).run.run k.erase).1.isOk = false) (vs : List Move) :
    k.number ∉ (Move.play (Server.numberedHost e) cb w (.release b c :: vs)).host.numbers := by
  let w₁ := Move.step (Server.numberedHost e) cb w (.release b c)
  have hgone := Server.count_release_refused_le (m := w.memory.letGo c) hk hfail k.number b 0
  change w₁.host.numbers.count k.number + [k.number].count k.number ≤ _ at hgone
  rw [List.count_singleton_self] at hgone
  have hbefore := h.count_numbers_le k.number
  have hafter : Later w₁ (Move.play (Server.numberedHost e) cb w₁ vs) := play w₁ vs
  have hlater := hafter.count_le k.number
  have hleases : w₁.memory.leases = w.memory.leases := rfl
  rw [hleases] at hlater
  rw [← List.count_eq_zero]
  change (Move.play (Server.numberedHost e) cb w₁ vs).host.numbers.count k.number = 0
  split_ifs at hbefore hlater <;> omega

end Later

section Lease

variable (cb : Callback (Server ε)) {w : World (Server ε)} {b : Nat} {p : PoolSpec} {idle : Pool ε}

theorem exec_pool (hp : w.memory.pools.lookup b = some p) :
    Call.exec (Server.host e) cb (Binder.pool b) w = (.ok p, w) := by
  rw [Binder.pool, Call.exec_bind, Call.exec_read]
  dsimp only
  rw [hp]
  rfl

theorem perform_lease {r : Outcome Unit} {s : Server ε}
    (hr : Server.answer e w.memory (.lease b) (w.memory.leases + 1) w.host = (r, s)) :
    (Server.host e).perform cb (.lease b) w = (r.map fun _ ↦ w.memory.leases + 1,
      ⟨w.memory.register (.lease b) (w.memory.leases + 1) (if r.isOk then .done else .refused), s⟩) := by
  have hid : (Operation.lease b).number w.memory = w.memory.leases + 1 := rfl
  rw [Host.perform, Server.host, hid]
  dsimp only
  rw [hr]
  cases r <;> rfl

theorem exec_binder_lease (hp : w.memory.pools.lookup b = some p) {r : Outcome Nat}
    {w' : World (Server ε)} (hr : (Server.host e).perform cb (.lease b) w = (r, w')) :
    Call.exec (Server.host e) cb (Binder.lease b) w =
      (r, { w' with memory := r.toOption.elim w'.memory fun c ↦ w'.memory.hold c p.autocommit }) := by
  refine (Call.exec_bind (Binder.pool b) _).trans ?_
  rw [exec_pool cb hp]
  refine (Call.exec_bind (Call.operate (.lease b)) _).trans ?_
  rw [Call.exec_operate, hr]
  cases r <;> rfl

theorem exec_lease (hp : w.memory.pools.lookup b = some p) {k : Connection ε}
    (hl : (w.host.pool b).lease e (w.memory.leases + 1) = (.ok k, idle)) :
    ∃ w', Call.exec (Server.host e) cb (Binder.lease b) w = (.ok (w.memory.leases + 1), w') ∧
      w'.host.connections.lookup (w.memory.leases + 1) = some k ∧ w'.host.pool b = idle ∧
      w'.memory.held.lookup (w.memory.leases + 1) = some p.autocommit := by
  let s : Server ε :=
    { w.host.setPool b idle with
      connections := Memory.setKey (w.memory.leases + 1) k w.host.connections }
  have hanswer : Server.answer e w.memory (.lease b) (w.memory.leases + 1) w.host = (.ok (), s) := by
    rw [Server.answer, hl]
  exact ⟨_, exec_binder_lease cb hp (perform_lease cb hanswer), Memory.lookup_setKey_self,
    Server.pool_setPool_self b idle w.host, Memory.lookup_setKey_self⟩

theorem exec_lease_refused (hp : w.memory.pools.lookup b = some p) {err : Error}
    (hl : (w.host.pool b).lease e (w.memory.leases + 1) = (.error err, idle)) :
    ∃ w', Call.exec (Server.host e) cb (Binder.lease b) w = (.error (.error err), w') ∧
      w'.host = w.host := by
  have hanswer : Server.answer e w.memory (.lease b) (w.memory.leases + 1) w.host =
      (.error (.error err), w.host) := by
    rw [Server.answer, hl]
  exact ⟨_, exec_binder_lease cb hp (perform_lease cb hanswer), rfl⟩

end Lease

/-- Whatever is done with the connections of pools, and whatever of it fails: a pool keeps no more than it has
room for, and nothing in a transaction. Who leases from it gets a connection that is in none and notes none,
with the pool's flag: the first idle one, or a new one where none is idle. Only then can a lease fail, and it
takes nothing from the pool. The numbers, which change nothing, show that no connection is in two places, and
that one that cannot be rolled back on its release is not seen again. -/
theorem pools_hand_out_clean_connections (he : e.Settles) (cb : Callback (Server ε))
    (cb' : Callback (Server (Nat × ε))) (m : Memory) (vs : List Move) :
    let w := Move.play (Server.host e) cb ⟨m, {}⟩ vs
    let l := Move.play (Server.numberedHost e) cb' ⟨m, {}⟩ vs
    (∀ b p, m.pools.lookup b = some p →
      (w.host.pool b).length ≤ p.maxIdle ∧ (∀ s ∈ w.host.pool b, ¬ e.inTransaction s) ∧
      ((∃ s w', Call.exec (Server.host e) cb (Binder.lease b) w = (.ok (w.memory.leases + 1), w') ∧
        w'.host.connections.lookup (w.memory.leases + 1) = some ⟨s, false⟩ ∧ ¬ e.inTransaction s ∧
        w'.memory.held.lookup (w.memory.leases + 1) = some p.autocommit ∧
        (w.host.pool b = s :: w'.host.pool b ∨
          w.host.pool b = [] ∧ e.opening (w.memory.leases + 1) = .ok s)) ∨
      ∃ err w', w.host.pool b = [] ∧ e.opening (w.memory.leases + 1) = .error err ∧
        Call.exec (Server.host e) cb (Binder.lease b) w = (.error (.error err), w') ∧
        w'.host = w.host)) ∧
    l.erase = w ∧ l.host.numbers.Nodup ∧
    ∀ b c k, l.host.connections.lookup c = some k →
      ((Connection.rollback e).run.run k.erase).1.isOk = false →
      ∀ vs', k.number ∉
        (Move.play (Server.numberedHost e) cb' l (.release b c :: vs')).host.numbers := by
  intro w l
  have htidy : Tidy e m w := Tidy.play he ⟨rfl, .empty e m.room⟩ vs
  have hlater : Later ⟨m, {}⟩ l := Later.play _ vs
  obtain ⟨hpools, hclean⟩ := htidy
  refine ⟨fun b p hp ↦ ?_, (Move.play_erase cb' _ vs).symm, hlater.nodup_numbers,
    fun b c k hk hfail ↦ hlater.notMem_numbers_refused hk hfail⟩
  have hroom : m.room b = p.maxIdle := by
    rw [Memory.room, hp]
    rfl
  refine ⟨hroom ▸ hclean.bounded b, hclean.closed b, ?_⟩
  rcases hl : (w.host.pool b).lease e (w.memory.leases + 1) with ⟨err | k, idle⟩
  · obtain ⟨hempty, hopen⟩ := Pool.lease_error hl
    obtain ⟨w', hlease, hhost⟩ := exec_lease_refused cb (hpools ▸ hp) hl
    exact .inr ⟨err, w', hempty, hopen, hlease, hhost⟩
  · obtain ⟨hbegun, hfrom⟩ := Pool.lease_ok hl
    obtain ⟨w', hlease, hout, hidle, hheld⟩ := exec_lease cb (hpools ▸ hp) hl
    refine .inl ⟨k.engine, w', hlease, hbegun ▸ hout, (hclean.lease he hl).1, hheld, ?_⟩
    rw [hidle]
    exact hfrom.imp_right fun h ↦ ⟨h.1, h.2.2⟩

theorem Database.engine_settles : Database.engine.Settles where
  opened_closed := by
    rintro id s ⟨⟩
    nofun
  begin_refused := by
    rintro ⟨tables, _ | saved, changes⟩ hclosed hfail
    · nomatch hfail
    · exact absurd rfl hclosed
  commit_closes := Database.engine_transactional.commit_closes
  rollback_closes := Database.engine_transactional.rollback_closes

/-- Of two connections the first has ended its transaction behind its own back. Its release fails, and the
pool hands out the second one again, with the pool's flag. -/
theorem pools_hand_out_clean_connections_second :
    let cb : Callback (Server (Nat × Database)) := fun _ w ↦ (.step (.ok .unit) [] [] none, w)
    let m : Memory := { pools := [(0, ⟨true, .questionMark, 1⟩)] }
    let vs : List Move := [.lease 0, .lease 0, .operate (.execute 1 "CREATE TABLE t (a)" []),
      .operate (.execute 1 "COMMIT" []), .setAutocommit 2 false]
    let back : List Move := [.release 0 1, .release 0 2, .lease 0]
    let l := Move.play (Server.numberedHost Database.engine) cb ⟨m, {}⟩ (vs ++ back)
    (1 ∉ l.host.numbers ∧ l.host.numbers.Nodup) ∧
      (l.host.connections.lookup 3).map Connection.number = some 2 ∧
      l.memory.held.lookup 3 = some true := by
  intro cb m vs back l
  let l₀ := Move.play (Server.numberedHost Database.engine) cb ⟨m, {}⟩ vs
  have hplay : l = Move.play (Server.numberedHost Database.engine) cb l₀ back := List.foldl_append
  let cb₀ : Callback (Server Database) := fun _ w ↦ (.step (.ok .unit) [] [] none, w)
  obtain ⟨-, -, -, haway⟩ :=
    pools_hand_out_clean_connections Database.engine_settles cb₀ cb m vs
  obtain ⟨-, -, hnodup, -⟩ :=
    pools_hand_out_clean_connections Database.engine_settles cb₀ cb m (vs ++ back)
  refine ⟨⟨?_, hnodup⟩, by decide +kernel⟩
  have hfirst : (l₀.host.connections.lookup 1).any (fun k ↦ k.number == 1 &&
      !((Connection.rollback Database.engine).run.run k.erase).1.isOk) = true := by
    decide +kernel
  obtain ⟨k, hk, hbad⟩ := (Option.any_eq_true ..).1 hfirst
  rw [Bool.and_eq_true, beq_iff_eq, Bool.not_eq_true'] at hbad
  obtain ⟨hnumber, hfail⟩ := hbad
  rw [hplay, ← hnumber]
  exact haway 0 1 k hk hfail [.release 0 2, .lease 0]

end Sqlite

end BoundSql
