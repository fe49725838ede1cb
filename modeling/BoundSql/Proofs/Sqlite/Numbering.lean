import BoundSql.Sqlite.Pool
import BoundSql.Proofs.Effect.Keyed
import BoundSql.Proofs.Effect.Sequence
import BoundSql.Proofs.Sqlite.Transactions

namespace BoundSql.Sqlite

variable {ε α β : Type}

/-- The engine on numbered states; a connection keeps the number under which it is opened. -/
def Engine.numbered (e : Engine ε) : Engine (Nat × ε) where
  opening id := (e.opening id).map (Prod.mk id)
  inTransaction s := e.inTransaction s.2
  begin := along e.begin
  commit := along e.commit
  rollback := along e.rollback
  execute sql ps := along (e.execute sql ps)
  query sql ps := along (e.query sql ps)
where
  along {γ : Type} (f : ε → Except Error γ × ε) (s : Nat × ε) : Except Error γ × (Nat × ε) :=
    ((f s.2).1, (s.1, (f s.2).2))

variable {e : Engine ε}

theorem Engine.fst_of_opening_numbered {id : Nat} {s : Nat × ε} (hs : e.numbered.opening id = .ok s) :
    s.1 = id := by
  change (e.opening id).map (Prod.mk id) = .ok s at hs
  cases ho : e.opening id with
  | error err =>
    rw [ho] at hs
    cases hs
  | ok t =>
    rw [ho] at hs
    cases hs
    rfl

namespace Connection

def number (c : Connection (Nat × ε)) : Nat := c.engine.1

def erase (c : Connection (Nat × ε)) : Connection ε := ⟨c.engine.2, c.begun⟩

def Follows (p : Use (Nat × ε) α) (q : Use ε α) : Prop :=
  ∀ c : Connection (Nat × ε), q.run.run c.erase = ((p.run.run c).1, (p.run.run c).2.erase) ∧
    (p.run.run c).2.number = c.number

namespace Follows

theorem pure (a : α) : Follows (Pure.pure a : Use (Nat × ε) α) (Pure.pure a) :=
  fun _ ↦ ⟨rfl, rfl⟩

theorem onEngine (f : ε → Except Error α × ε) :
    Follows (Connection.onEngine (Engine.numbered.along f)) (Connection.onEngine f) :=
  fun _ ↦ ⟨rfl, rfl⟩

theorem setBegun (b : Bool) :
    Follows (Connection.setBegun b : Use (Nat × ε) Unit) (Connection.setBegun b) :=
  fun _ ↦ ⟨rfl, rfl⟩

theorem bind {p : Use (Nat × ε) α} {q : Use ε α} {k : α → Use (Nat × ε) β} {l : α → Use ε β}
    (hp : Follows p q) (hk : ∀ a, Follows (k a) (l a)) : Follows (p >>= k) (q >>= l) := by
  intro c
  obtain ⟨hrun, hnumber⟩ := hp c
  rw [run_bind, run_bind, hrun]
  rcases hd : p.run.run c with ⟨x | a, d⟩
  all_goals rw [hd] at hnumber
  · exact ⟨rfl, hnumber⟩
  · exact ⟨(hk a d).1, (hk a d).2.trans hnumber⟩

theorem switch (f : ε → Except Error Unit × ε) (b : Bool) :
    Follows (Connection.switch (Engine.numbered.along f) b) (Connection.switch f b) :=
  (onEngine f).bind fun _ ↦ setBegun b

theorem begin : Follows (Connection.begin e.numbered) (Connection.begin e) := by
  rintro ⟨s, _ | _⟩
  · exact switch e.begin true ⟨s, false⟩
  · exact ⟨rfl, rfl⟩

theorem finish (f : ε → Except Error Unit × ε) :
    Follows (Connection.finish (Engine.numbered.along f)) (Connection.finish f) := by
  rintro ⟨s, _ | _⟩
  · exact ⟨rfl, rfl⟩
  · exact switch f false ⟨s, true⟩

theorem commit : Follows (Connection.commit e.numbered) (Connection.commit e) :=
  finish e.commit

theorem rollback : Follows (Connection.rollback e.numbered) (Connection.rollback e) :=
  finish e.rollback

theorem execute (sql : String) (ps : List Value) :
    Follows (Connection.execute e.numbered sql ps) (Connection.execute e sql ps) :=
  begin.bind fun _ ↦ onEngine _

theorem query (sql : String) (ps : List Value) :
    Follows (Connection.query e.numbered sql ps) (Connection.query e sql ps) :=
  begin.bind fun _ ↦ (onEngine _).bind fun _ ↦ pure _

end Follows

end Connection

namespace Server

open Memory

def erase (s : Server (Nat × ε)) : Server ε where
  pools := s.pools.map (Prod.map id (List.map Prod.snd))
  connections := s.connections.map (Prod.map id Connection.erase)

/-- Every connection is opened under the number of the lease that opens it. -/
def numberedHost (e : Engine ε) : Host (Server (Nat × ε)) := host e.numbered

theorem pool_erase (s : Server (Nat × ε)) (b : Nat) : s.erase.pool b = (s.pool b).map Prod.snd := by
  rw [pool, pool, erase, lookup_map]
  cases s.pools.lookup b <;> rfl

theorem setPool_erase (s : Server (Nat × ε)) (b : Nat) (p : Pool (Nat × ε)) :
    s.erase.setPool b (p.map Prod.snd) = (s.setPool b p).erase := by
  rw [setPool, erase, setKey_map]
  rfl

theorem lookup_erase (s : Server (Nat × ε)) (c : Nat) :
    s.erase.connections.lookup c = (s.connections.lookup c).map Connection.erase :=
  lookup_map _ _ _

theorem setConnection_erase (s : Server (Nat × ε)) (c : Nat) (k : Connection (Nat × ε)) :
    { s.erase with connections := setKey c k.erase s.erase.connections } =
      Server.erase { s with connections := setKey c k s.connections } := by
  rw [erase, setKey_map]
  rfl

theorem dropConnection_erase (s : Server (Nat × ε)) (c : Nat) :
    { s.erase with connections := eraseKey c s.erase.connections } =
      Server.erase { s with connections := eraseKey c s.connections } := by
  rw [erase, eraseKey_map]
  rfl

theorem use_erase {p : Connection.Use (Nat × ε) α} {q : Connection.Use ε α}
    (h : Connection.Follows p q) (s : Server (Nat × ε)) (c : Nat) :
    s.erase.use c q = ((s.use c p).1, (s.use c p).2.erase) := by
  rw [use, use, lookup_erase]
  cases s.connections.lookup c with
  | none => rfl
  | some k =>
    dsimp only [Option.map]
    rw [(h k).1]
    exact congrArg (Prod.mk _) (s.setConnection_erase c _)

theorem lease_erase (id : Nat) (idle : Pool (Nat × ε)) : Pool.lease e id (idle.map Prod.snd) =
    ((Pool.lease e.numbered id idle).1.map Connection.erase,
      (Pool.lease e.numbered id idle).2.map Prod.snd) := by
  cases idle with
  | nil =>
    have hopen : e.numbered.opening id = (e.opening id).map (Prod.mk id) := rfl
    rw [List.map_nil, Pool.lease, Pool.lease, hopen]
    cases e.opening id <;> rfl
  | cons s idle => rfl

theorem release_erase (room : Nat) (c : Connection (Nat × ε)) (idle : Pool (Nat × ε)) :
    Pool.release e room c.erase (idle.map Prod.snd) =
      ((Pool.release e.numbered room c idle).1,
        (Pool.release e.numbered room c idle).2.map Prod.snd) := by
  rw [Pool.release, Pool.release, (Connection.Follows.rollback (e := e) c).1]
  rcases (Connection.rollback e.numbered).run.run c with ⟨x | _, d⟩
  · rfl
  · dsimp only
    rw [List.length_map]
    split <;> rfl

theorem answer_erase (m : Memory) (o : Operation) (id : Nat) (s : Server (Nat × ε)) :
    answer e m o id s.erase = ((answer e.numbered m o id s).1,
      (answer e.numbered m o id s).2.erase) := by
  cases o with
  | lease b =>
    rw [answer, answer, pool_erase, lease_erase]
    rcases Pool.lease e.numbered id (s.pool b) with ⟨err | k, idle⟩
    · rfl
    · dsimp only [Except.map]
      rw [setPool_erase]
      exact congrArg (Prod.mk _) (setConnection_erase _ id k)
  | execute c sql ps => exact use_erase (.execute sql ps) s c
  | query c sql ps =>
    simp only [answer]
    rw [use_erase (.query (e := e) sql ps) s c]
  | commit c => exact use_erase .commit s c
  | rollback c => exact use_erase .rollback s c
  | release b c =>
    rw [answer, answer, lookup_erase]
    cases s.connections.lookup c with
    | none => rfl
    | some k =>
      dsimp only [Option.map]
      rw [pool_erase, release_erase]
      dsimp only
      rw [setPool_erase]
      exact congrArg (Prod.mk _) (dropConnection_erase _ c)
  | idle b => simp only [answer, pool_erase, List.length_map]
  | inTransaction c =>
    simp only [answer, lookup_erase, Option.map_map]
    rfl
  | fetch | close | instruct => rfl

end Server

end BoundSql.Sqlite

namespace BoundSql

open Sqlite

variable {ε α : Type} {e : Engine ε} {cb : Callback (Server ε)}

def World.erase (w : World (Server (Nat × ε))) : World (Server ε) := ⟨w.memory, w.host.erase⟩

theorem Host.perform_erase (cb' : Callback (Server (Nat × ε))) (o : Operation)
    (w : World (Server (Nat × ε))) :
    (Server.host e).perform cb o w.erase = (((Server.numberedHost e).perform cb' o w).1,
      ((Server.numberedHost e).perform cb' o w).2.erase) := by
  have h := Server.answer_erase (e := e) w.memory o (o.number w.memory) w.host
  unfold perform Server.numberedHost Server.host
  dsimp only [World.erase]
  rw [h]

theorem Action.runInSequence_erase (cb' : Callback (Server (Nat × ε))) (p : Action α)
    (w : World (Server (Nat × ε))) :
    p.runInSequence (Server.host e) cb w.erase =
      ((p.runInSequence (Server.numberedHost e) cb' w).1,
        (p.runInSequence (Server.numberedHost e) cb' w).2.erase) := by
  induction p generalizing w with
  | done a => rfl
  | memory f k ih => exact ih w.memory { w with memory := f w.memory }
  | operation o js k ih =>
    rw [runInSequence, Host.perform_erase cb']
    exact ih _ _
  | wait t js k ih => cases t <;> exact ih _ _

end BoundSql
