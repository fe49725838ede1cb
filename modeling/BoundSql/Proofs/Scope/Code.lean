import BoundSql.Program.Execution
import BoundSql.Proofs.Scope.Named

namespace BoundSql

open Memory

variable {σ α β : Type} {h : Host σ} {cb : Callback σ} {w : World σ} {a K : List Nat}

/-- Code that leases and releases nothing itself. It is put together from bound calls and from uses
of sessions; the sessions of the connections in `K` are at hand, others may have been kept under
names. -/
inductive Code : List Nat → {α : Type} → Action α → Prop
  | done {K : List Nat} {α : Type} (x : α) : Code K (.done x)
  | bind {K : List Nat} {α β : Type} {p : Action α} {f : α → Action β}
    (hp : Code K p) (hf : ∀ x, Code K (f x)) : Code K (p >>= f)
  /-- Looks at the memory, or notes something that concerns no connection. -/
  | note {K : List Nat} {α : Type} {f : Memory → Memory} (hf : ∀ m, SameBooks m (f m))
    (k : Memory → α) : Code K (.memory f fun m ↦ .done (k m))
  | idle {K : List Nat} : Code K (Call.wait .idle).run
  | loose {K : List Nat} {o : Operation} (ho : o.isLoose) : Code K (Call.operate o).run
  | execute {K : List Nat} {c : Nat} (hc : c ∈ K) (sql : String) (params : List Value) :
    Code K (Session.execute c sql params).run
  | query {K : List Nat} {c : Nat} (hc : c ∈ K) (sql : String) (params : List Value) :
    Code K (Session.query c sql params).run
  | commit {K : List Nat} {c : Nat} (hc : c ∈ K) : Code K (Session.commit c).run
  | rollback {K : List Nat} {c : Nat} (hc : c ∈ K) : Code K (Session.rollback c).run
  | autocommit {K : List Nat} {c : Nat} (hc : c ∈ K) : Code K (Session.autocommit c).run
  | setAutocommit {K : List Nat} {c : Nat} (hc : c ∈ K) (on : Bool) :
    Code K (Session.setAutocommit c on).run
  /-- Keeps a session under a name, from where it may outlive its scope. -/
  | keep {K : List Nat} {c : Nat} (hc : c ∈ K) (name : String) :
    Code K (Desk.change fun d ↦ { d with sessions := setKey name c d.sessions }).run
  | useKept {K : List Nat} {α : Type} (name : String) {p : Nat → Call α}
    (hp : ∀ c, Code (c :: K) (p c).run) : Code K (Desk.find Desk.sessions name >>= p).run
  | connection {K : List Nat} {α : Type} (thread b : Nat) {body : Nat → Call α}
    (hbody : ∀ c, Code (c :: K) (body c).run) : Code K (Blocking.connection thread b body).run
  | stream {K : List Nat} {x : Context} (hx : x.mode = .blocking) {b : Bound} {shape : Shape}
    (hb : b.form = .stream shape) (args : Arguments) (name : Option String) :
    Code K (Step.callBound x b args name).run
  | pull {K : List Nat} {x : Context} (hx : x.mode = .blocking) (name : String) (n : Nat) :
    Code K (Step.pullNamed x name n).run
  | drop {K : List Nat} {x : Context} (hx : x.mode = .blocking) (name : String) :
    Code K (Step.dropNamed x name).run
  | sweep {K : List Nat} {x : Context} (hx : x.mode = .blocking) (stopped : Bool) :
    Code K (Step.finish x stopped).run

theorem Action.Sound.keep {c : Nat} (hc : c ∈ K) (name : String) : Sound h cb K
    (Desk.change fun d ↦ { d with sessions := setKey name c d.sessions }).run :=
  of_quiet fun _ _ _ hK ↦ quiet_session (hK c hc) name

theorem Action.Sound.useKept (name : String) {p : Nat → Call α}
    (hp : ∀ c, Sound h cb (c :: K) (p c).run) :
    Sound h cb K (Desk.find Desk.sessions name >>= p).run := by
  intro a w hm hK
  change Keeps a w.memory (Call.exec h cb (Desk.find Desk.sessions name >>= p) w).2.memory
  rw [Call.exec_bind, Desk.find, Call.exec_bind, Call.exec_read]
  dsimp only
  cases hc : w.memory.desk.sessions.lookup name with
  | none => exact .refl hm
  | some c => exact hp c a w hm (List.forall_mem_cons.2 ⟨hm.session _ (mem_of_lookup hc), hK⟩)

theorem Code.sound (hl : h.Lawful) (hcb : cb.Sound) {p : Action α} (hp : Code K p) :
    p.Sound h cb K := by
  induction hp with
  | done x => exact .done x
  | bind _ _ ihp ihf => exact .bind ihp ihf
  | note hf k => exact .note hf k
  | idle => exact fun _ _ hm _ ↦ .refl hm
  | loose ho => exact .loose hl ho
  | execute hc sql params => exact .execute hl hcb hc sql params
  | query hc sql params => exact .query hl hcb hc sql params
  | commit hc => exact .commit hl hc
  | rollback hc => exact .rollback hl hc
  | autocommit hc => exact .autocommit hc
  | setAutocommit hc on => exact .setAutocommit hc on
  | keep hc name => exact .keep hc name
  | useKept name _ ih => exact .useKept name ih
  | connection thread b _ ih => exact .connection hl ih
  | stream hx hb args name => exact .callStream hl hcb hx hb args name
  | pull hx name n => exact .pullNamed hl hx name n
  | drop hx name => exact .dropNamed hl hx name
  | sweep hx stopped => exact .finish hl hx stopped

/-- Callbacks that run such code, with callbacks of the same kind. -/
inductive Callback.Reenters (h : Host σ) : Callback σ → Prop
  | never : Reenters h fun _ w ↦ (.step (.ok .unit) [] [] none, w)
  | run {cb : Callback σ} (hcb : Reenters h cb) {p : Step → Action Record}
    (hp : ∀ s, s.isBound → Code [] (p s)) : Reenters h fun s w ↦ (p s).runInSequence h cb w

theorem Callback.Reenters.sound (hl : h.Lawful) (hcb : cb.Reenters h) : cb.Sound := by
  induction hcb with
  | never => exact fun _ _ _ _ hm ↦ .refl hm
  | run _ hp ih => exact fun s hs a w hm ↦ (hp s hs).sound hl ih a w hm (by simp)

theorem Host.reenters {run : Step → Action Record} (hp : ∀ s, s.isBound → Code [] (run s))
    (depth : Nat) : Callback.Reenters h (h.reenter run depth) := by
  induction depth with
  | zero => exact .never
  | succ depth ih => exact .run ih hp

theorem Reads.code {p : Action α} (hp : Reads p) : Code K p := by
  induction hp with
  | done x => exact .done x
  | bind _ _ ihp ihf => exact .bind ihp ihf
  | operate ho => exact .loose (Operation.isLoose_of_isRead ho)

namespace Blocking

def executeBody (count : Count) (r : Template.Rendered) (c : Nat) : Call Mapped := do
  let n ← Session.execute c r.sql r.params
  if ← Session.autocommit c then Session.commit c
  Call.ofResult (count.ofAffected n)

def queryBody (ret : Return) (r : Template.Rendered) (c : Nat) : Call Mapped := do
  let cursor ← Session.query c r.sql r.params
  let rows ← closingOnFailure cursor (cursor.pull ret.strategy)
  cursor.close
  let value ← Call.ofResult (ret.ofRows cursor.columns rows)
  if ← Session.autocommit c then Session.commit c
  return value

end Blocking

namespace Code

variable {p : Call α} {k : α → Call β}

theorem ret (r : Outcome α) : Code K (ExceptT.mk (.done r) : Call α).run := .done r

theorem call_bind (hp : Code K p.run) (hk : ∀ x, Code K (k x).run) : Code K (p >>= k).run := by
  refine hp.bind fun r ↦ ?_
  cases r with
  | ok x => exact hk x
  | error f => exact .done _

theorem outcome (hp : Code K p.run) : Code K p.outcome.run := hp.bind fun _ ↦ .done _

theorem lift {p : Action α} (hp : Code K p) : Code K (ExceptT.lift p : Call α).run :=
  hp.bind fun _ ↦ .done _

theorem look : Code K Action.read := .note (fun _ ↦ ⟨rfl, rfl, rfl, rfl, rfl, rfl, rfl⟩) _

theorem update {f : Memory → Memory} (hf : ∀ m, SameBooks m (f m)) : Code K (Action.modify f) :=
  .note hf _

theorem read : Code K Call.read.run := .lift .look

theorem modify {f : Memory → Memory} (hf : ∀ m, SameBooks m (f m)) :
    Code K (Call.modify f).run := .lift (.update hf)

theorem caught (hp : Code K p.run) : Code K (Blocking.caught p).run := by
  refine hp.outcome.call_bind fun r ↦ ?_
  rcases r with (_ | _) | _ <;> exact .ret _

theorem marker (b : Nat) : Code K (Bound.marker b).run := by
  refine read.call_bind fun m ↦ ?_
  cases m.pools.lookup b <;> exact .ret _

theorem render (b : Bound) (args : Arguments) : Code K (b.render args).run :=
  (marker b.binder).call_bind fun _ ↦ .ret _

section Bound

variable {x : Context} {b : Bound}

theorem executeBody (count : Count) (r : Template.Rendered) (c : Nat) :
    Code (c :: K) (Blocking.executeBody count r c).run := by
  have hc : c ∈ c :: K := List.mem_cons_self
  refine (Code.execute hc _ _).call_bind fun n ↦ (Code.autocommit hc).call_bind fun on ↦ ?_
  cases on with
  | false => exact .ret _
  | true => exact (Code.commit hc).call_bind fun _ ↦ .ret _

theorem queryBody (ret : Return) (r : Template.Rendered) (c : Nat) :
    Code (c :: K) (Blocking.queryBody ret r c).run := by
  have hc : c ∈ c :: K := List.mem_cons_self
  refine (Code.query hc _ _).call_bind fun cursor ↦ ?_
  refine (Reads.closingOnFailure cursor (.pullRows cursor _)).code.call_bind fun rows ↦ ?_
  refine (Reads.close cursor).code.call_bind fun _ ↦ (Code.ret _).call_bind fun value ↦ ?_
  refine (Code.autocommit hc).call_bind fun on ↦ ?_
  cases on with
  | false => exact .ret _
  | true => exact (Code.commit hc).call_bind fun _ ↦ .ret _

theorem bound_execute (thread : Nat) (b : Bound) (count : Count) (args : Arguments) :
    Code K (Blocking.execute thread b count args).run :=
  (render b args).call_bind fun r ↦ .connection _ _ (executeBody count r)

theorem bound_query (thread : Nat) (b : Bound) (ret : Return) (args : Arguments) :
    Code K (Blocking.query thread b ret args).run :=
  (render b args).call_bind fun r ↦ .connection _ _ (queryBody ret r)

theorem transaction (thread b : Nat) {body : Nat → Call α}
    (hbody : ∀ c, Code (c :: K) (body c).run) :
    Code K (Blocking.transaction thread b body).run := by
  refine .connection _ _ fun c ↦ ?_
  have hc : c ∈ c :: K := List.mem_cons_self
  refine (Code.autocommit hc).call_bind fun previous ↦ ?_
  refine (Code.setAutocommit hc _).call_bind fun _ ↦ (hbody c).caught.call_bind fun r ↦ ?_
  refine (Code.setAutocommit hc _).caught.call_bind fun restored ↦ ?_
  exact (Code.ret _).call_bind fun _ ↦ (Code.ret _).call_bind fun _ ↦ .ret _

end Bound

end Code

end BoundSql
