import BoundSql.Proofs.Scope.Lifecycle

namespace BoundSql

open Memory Call

variable {σ α : Type} {h : Host σ} {cb : Callback σ} {w : World σ} {a K : List Nat}

/-- The pool and the connection end every scope as they are asked to. -/
structure Host.Obliges (h : Host σ) (pool c : Nat) : Prop where
  commit : ∀ m n s, Outcome.isOk (h.answer m (.commit c) n s).1.outcome
  rollback : ∀ m n s, Outcome.isOk (h.answer m (.rollback c) n s).1.outcome
  release : ∀ m n s, Outcome.isOk (h.answer m (.release pool c) n s).1.outcome

def Event.terminal (c : Nat) (ok : Bool) : Event :=
  .operation (if ok then .commit c else .rollback c) c .done

def Event.closing (pool c : Nat) (ok : Bool) : List Event :=
  [terminal c ok, .operation (.release pool c) c .done]

theorem Outcome.eq_ok {r : Outcome Unit} (hr : Outcome.isOk r) : r = .ok () := by
  cases r with
  | error f => cases hr
  | ok x => rfl

theorem Outcome.isOk_ofResult (r : Except Error α) :
    Outcome.isOk (Outcome.ofResult r) = r.isOk := by
  cases r <;> rfl

namespace Host

theorem isOk_act {o : Operation} (ho : Outcome.isOk (h.reaction o w).outcome) :
    Outcome.isOk (h.act o w).1 := by
  unfold act
  rcases hr : (h.reaction o w).outcome with _ | _
  · rw [hr] at ho
    cases ho
  · rfl

theorem Lawful.act_memory (hl : h.Lawful) {o : Operation} (ho : Outcome.isOk (h.act o w).1) :
    (h.act o w).2.memory = w.memory.register o (o.number w.memory) .done := by
  rw [Host.act_memory, hl.isOk_iff.1 ho]

end Host

namespace Host.Obliges

variable {pool c : Nat}

theorem isOk_commit (ho : h.Obliges pool c) (w : World σ) :
    Outcome.isOk (h.act (.commit c) w).1 := isOk_act (ho.commit _ _ _)

theorem isOk_rollback (ho : h.Obliges pool c) (w : World σ) :
    Outcome.isOk (h.act (.rollback c) w).1 := isOk_act (ho.rollback _ _ _)

theorem isOk_release (ho : h.Obliges pool c) (w : World σ) :
    Outcome.isOk (h.act (.release pool c) w).1 := isOk_act (ho.release _ _ _)

variable {e : Entry}

theorem settled (hl : h.Lawful) (ho : h.Obliges e.binder e.connection) (ok : Bool) (w : World σ) :
    (e.settled h ok w).memory = w.memory.log (.terminal e.connection ok) := by
  unfold Entry.settled
  cases ok with
  | false => exact hl.act_memory (ho.isOk_rollback w)
  | true =>
    simp only [if_true, if_pos (ho.isOk_commit w)]
    exact hl.act_memory (ho.isOk_commit w)

theorem endsOf_closed (hl : h.Lawful) (ho : h.Obliges e.binder e.connection) (ok : Bool)
    (w : World σ) : (e.closed h ok w).memory.endsOf e.connection =
      w.memory.endsOf e.connection ++ Event.closing e.binder e.connection ok := by
  have ht : (e.closed h ok w).memory.trace =
      .operation (.release e.binder e.connection) e.connection .done ::
        .terminal e.connection ok :: w.memory.trace := by
    unfold Entry.closed Entry.handBack
    rw [hl.act_memory (ho.isOk_release _), ho.settled hl]
    exact congrArg (List.cons _) (Entry.leave_trace _)
  unfold endsOf
  rw [ht]
  cases ok <;> simp [Event.closing, Event.terminal, Event.ends]

theorem exec_scope (hl : h.Lawful) (ho : h.Obliges e.binder e.connection) (hown : e.owner)
    {p : Call α} {r : Outcome α} {w' : World σ} (hp : exec h cb p w = (r, w'))
    (hu : w'.memory.Usable e.connection) :
    exec h cb (Blocking.Entry.guarded e (Blocking.caught p) >>= Blocking.Entry.exit e) w =
      (r, e.closed h (Outcome.isOk r) w') := by
  have hrel : ∀ w : World σ, (e.handBack h w).1 = .ok () := fun w ↦
    Outcome.eq_ok (ho.isOk_release { w with memory := e.leave w.memory })
  refine Prod.ext ?_ (Blocking.Entry.exec_scope_snd hl hown p hp hu)
  rw [Blocking.Entry.exec_scope, hp]
  rcases r with (err | m) | x
  · dsimp only
    rw [Blocking.Entry.exec_exit_of_settle hl hown (Blocking.Entry.exec_settle_error hl hu err)
      (Entry.usable_settled _ hu), hrel]
    rfl
  · rfl
  · obtain ⟨m, hm, -⟩ | ⟨r, hs, hr⟩ := Blocking.Entry.exec_settle_ok hl cb hu x
    · have hok := ho.isOk_commit w'
      rw [hm] at hok
      cases hok
    · dsimp only
      rw [Blocking.Entry.exec_exit_of_settle hl hown hs (Entry.usable_settled _ hu), hrel,
        hr (ho.isOk_commit w')]
      rfl

end Host.Obliges

theorem Memory.Spares.trans {c : Nat} {m m' m'' : Memory} (h : Spares a c m m')
    (h' : Spares a c m' m'') : Spares a c m m'' :=
  ⟨h.keeps.trans h'.keeps, h'.flag.trans h.flag, h'.ends.trans h.ends⟩

theorem Memory.Read.spares {m m' : Memory} (h : m.Read m') (hm : m.Balanced a) (c : Nat) :
    Spares a c m m' :=
  ⟨(h.quiet a).keeps hm, by rw [h.held], h.endsOf c⟩

def Event.early (c : Nat) (on : Bool) : List Event := if on then [terminal c true] else []

theorem Memory.endsOf_early (m : Memory) (c : Nat) (on : Bool) :
    (m.logAll (Event.early c on)).endsOf c = m.endsOf c ++ Event.early c on := by
  cases on <;> simp [Event.early, Event.terminal, endsOf, logAll, Event.ends]

namespace Blocking

variable {pool c : Nat}

theorem exec_early (hl : h.Lawful) (cb : Callback σ) (ho : h.Obliges pool c) (hu : w.memory.Usable c)
    (rest : Call α) :
    ∃ w' : World σ, w'.memory =
        w.memory.logAll (Event.early c ((w.memory.held.lookup c).getD false)) ∧
      exec h cb (do
        if ← Session.autocommit c then Session.commit c
        rest) w = exec h cb rest w' := by
  rw [exec_bind, Session.exec_autocommit hu]
  dsimp only
  cases (w.memory.held.lookup c).getD false with
  | false => exact ⟨w, rfl, rfl⟩
  | true =>
    have hok := ho.isOk_commit w
    refine ⟨(h.act (.commit c) w).2, hl.act_memory hok, ?_⟩
    simp only [if_true]
    rw [exec_bind, Session.exec_commit hl hu]
    have hr : (h.act (.commit c) w).1 = .ok () := Outcome.eq_ok hok
    generalize h.act (.commit c) w = r at hr
    obtain ⟨r, w'⟩ := r
    cases hr
    rfl

end Blocking

namespace Memory.Spares

variable {c : Nat} {m m' : Memory}

theorem usable (h : Spares a c m m') (hs : m.Shared a c) (hu : m.Usable c) : m'.Usable c :=
  ⟨(h.keeps.frame.kept c hu.1 hs.2).1, by rw [h.keeps.busy]; exact hu.2⟩

theorem early (h : Spares a c m m') (on : Bool) :
    (m'.logAll (Event.early c on)).endsOf c = m.endsOf c ++ Event.early c on := by
  rw [endsOf_early, h.ends]

end Memory.Spares

section Body

variable {pool c : Nat}

def Memory.flag (m : Memory) (c : Nat) : Bool := (m.held.lookup c).getD false

theorem exec_early_spared {m : Memory} (hl : h.Lawful) (cb : Callback σ) (ho : h.Obliges pool c)
    (hs : m.Shared a c) (hu : m.Usable c) (hk : Spares a c m w.memory) (rest : Call α) :
    ∃ w' : World σ, w'.memory.endsOf c = m.endsOf c ++ Event.early c (m.flag c) ∧
      exec h cb (do
        if ← Session.autocommit c then Session.commit c
        rest) w = exec h cb rest w' := by
  obtain ⟨w', hw, he⟩ := Blocking.exec_early hl cb ho (hk.usable hs hu) rest
  refine ⟨w', ?_, he⟩
  rw [hw, hk.flag]
  exact hk.early _

theorem exec_executeBody (hl : h.Lawful) (hcb : cb.Sound) (ho : h.Obliges pool c)
    (hm : w.memory.Balanced a) (hs : w.memory.Shared a c) (hu : w.memory.Usable c) (count : Count)
    (x : Template.Rendered) :
    let r := exec h cb (Blocking.executeBody count x c) w
    match (exec h cb (Session.execute c x.sql x.params) w).1 with
    | .error f => r.1 = .error f ∧ r.2.memory.endsOf c = w.memory.endsOf c
    | .ok n => r.1 = Outcome.ofResult (count.ofAffected n) ∧
        r.2.memory.endsOf c = w.memory.endsOf c ++ Event.early c (w.memory.flag c) := by
  have hk : Spares a c w.memory (exec h cb (Session.execute c x.sql x.params) w).2.memory :=
    spares_execute hl hcb hm hs.1 (fun hn ↦ hs.2 (List.mem_append_right _ hn)) _ _
  dsimp only
  rw [Blocking.executeBody, exec_bind]
  generalize exec h cb (Session.execute c x.sql x.params) w = q at hk
  obtain ⟨f | n, w₁⟩ := q
  · exact ⟨rfl, hk.ends⟩
  · obtain ⟨w', hw, he⟩ := exec_early_spared hl cb ho hs hu hk
      (Call.ofResult (count.ofAffected n))
    dsimp only
    rw [he]
    exact ⟨rfl, hw⟩

/-- Nothing was committed in a body that failed, and in one that succeeded no more than autocommit
asks for. -/
def CommittedLast (m : Memory) (c : Nat) (r : Outcome α × World σ) : Prop :=
  (Outcome.isOk r.1 = false ∧ r.2.memory.endsOf c = m.endsOf c) ∨
    Outcome.isOk r.1 ∧ r.2.memory.endsOf c = m.endsOf c ++ Event.early c (m.flag c)

theorem exec_queryBody (hl : h.Lawful) (hcb : cb.Sound) (ho : h.Obliges pool c)
    (hm : w.memory.Balanced a) (hs : w.memory.Shared a c) (hu : w.memory.Usable c) (ret : Return)
    (x : Template.Rendered) :
    CommittedLast w.memory c (exec h cb (Blocking.queryBody ret x c) w) := by
  have hq : Spares a c w.memory (exec h cb (Session.query c x.sql x.params) w).2.memory :=
    spares_query hl hcb hm hs.1 (fun hn ↦ hs.2 (List.mem_append_right _ hn)) _ _
  have hread : ∀ {γ : Type} {p : Call γ}, Reads p.run → ∀ w' : World σ,
      Spares a c w.memory w'.memory → Spares a c w.memory (exec h cb p w').2.memory := by
    intro γ p hp w' hk
    exact hk.trans ((hp.read hl w').spares hk.keeps.balanced c)
  have hfail : ∀ (f : Fault) (w' : World σ), Spares a c w.memory w'.memory →
      CommittedLast w.memory c ((.error f, w') : Outcome Mapped × World σ) :=
    fun f w' hk ↦ .inl ⟨rfl, hk.ends⟩
  refine exec_bind_cases (P := fun w' ↦ Spares a c w.memory w'.memory) hq hfail fun cursor w₁ hk ↦ ?_
  refine exec_bind_cases (P := fun w' ↦ Spares a c w.memory w'.memory)
    (hread (.closingOnFailure cursor (.pullRows cursor ret.strategy)) w₁ hk) hfail
    fun rows w₂ hk ↦ ?_
  refine exec_bind_cases (P := fun w' ↦ Spares a c w.memory w'.memory)
    (hread (.close cursor) w₂ hk) hfail fun _ w₃ hk ↦ ?_
  rw [exec_bind, exec_ofResult]
  cases ret.ofRows cursor.columns rows with
  | error err => exact .inl ⟨rfl, hk.ends⟩
  | ok value =>
    obtain ⟨w', hw, he⟩ := exec_early_spared hl cb ho hs hu hk (pure value)
    refine .inr ?_
    dsimp only [Outcome.ofResult]
    rw [he]
    exact ⟨rfl, hw⟩

end Body

/-- The call failed before it had a connection. -/
def Unleased (w : World σ) (r : Outcome α × World σ) : Prop :=
  Outcome.isOk r.1 = false ∧ ∀ c, r.2.memory.leasesOf c = w.memory.leasesOf c

/-- The call leased the connection and gave it back. Its body went from `w₁` as `q` tells, and so did
the call. -/
structure Scoped (b c : Nat) (w₁ : World σ) (q r : Outcome α × World σ) : Prop where
  leased : r.2.memory.leasesOf c = 1
  released : r.2.memory.releasesOf c = 1
  result : r.1 = q.1
  fresh : w₁.memory.endsOf c = []
  ends : r.2.memory.endsOf c = q.2.memory.endsOf c ++ Event.closing b c (Outcome.isOk q.1)

theorem Blocking.flag_enter (hl : h.Lawful) {thread b : Nat} {register : Bool} {e : Entry}
    {w' : World σ} (ha : w.memory.active.lookup (thread, b) = none)
    (he : exec h cb (Blocking.enter thread b register) w = (.ok e, w')) :
    ∃ p, w.memory.pools.lookup b = some p ∧ w'.memory.flag e.connection = p.autocommit := by
  cases hp : w.memory.pools.lookup b with
  | none =>
    rw [Blocking.exec_enter_of_unset hp] at he
    cases he
  | some p =>
    refine ⟨p, rfl, ?_⟩
    rw [Blocking.exec_enter_of_none ha hp, Blocking.exec_lease hl hp] at he
    generalize h.act (.lease b) w = r at he
    obtain ⟨f | c, w₁⟩ := r
    · cases he
    · have hc : ∀ k : Nat, (setKey k p.autocommit w₁.memory.held).lookup k = some p.autocommit :=
        fun _ ↦ lookup_setKey_self
      cases register <;> cases he <;> exact congrArg (Option.getD · false) (hc c)

theorem InOrder.scoped (hl : h.Lawful) (hm : InOrder h cb a K w.memory) {thread b : Nat}
    (ha : w.memory.active.lookup (thread, b) = none) (ho : h.Obliges b (w.memory.leases + 1))
    {body : Nat → Call α} (hbody : ∀ c, Code (c :: K) (body c).run) :
    let c := w.memory.leases + 1
    let r := exec h cb (Blocking.connection thread b body) w
    Unleased w r ∨ ∃ w₁, exec h cb (Blocking.enter thread b true) w =
        (.ok ⟨b, c, true, true, thread⟩, w₁) ∧
      Opens a ⟨b, c, true, true, thread⟩ w.memory w₁.memory ∧
      Scoped b c w₁ (exec h cb (body c) w₁) r := by
  have henter : Enters a thread b true w (exec h cb (Blocking.enter thread b true) w).1
      (exec h cb (Blocking.enter thread b true) w).2 := enters hl hm.balanced thread b true
  unfold Unleased
  dsimp only
  rw [Blocking.connection, exec_bind]
  generalize exec h cb (Blocking.enter thread b true) w = r at henter ⊢
  obtain ⟨r, w₁⟩ := r
  cases henter with
  | failed hq he => exact .inl ⟨rfl, hq.leasesOf⟩
  | joined ha' =>
    rw [ha] at ha'
    cases ha'
  | @leased e _ he _ hop =>
    rw [hop.connection] at he
    subst he
    have hk := (hbody (w.memory.leases + 1)).sound hl (hm.callback.sound hl) a w₁ hop.balanced
      (hop.shared rfl hm.shared)
    obtain ⟨hu, -⟩ := hop.keeps hk
    have hscope : exec h cb (Blocking.Entry.guarded ⟨b, w.memory.leases + 1, true, true, thread⟩
        (Blocking.caught (body (w.memory.leases + 1))) >>= Blocking.Entry.exit _) w₁ = _ :=
      ho.exec_scope (e := ⟨b, w.memory.leases + 1, true, true, thread⟩) hl rfl rfl hu
    have hleave := Entry.leaves_closed hl ⟨b, w.memory.leases + 1, true, true, thread⟩
      (Outcome.isOk (exec h cb (body (w.memory.leases + 1)) w₁).1)
      (exec h cb (body (w.memory.leases + 1)) w₁).2
    obtain ⟨hrel, hlea⟩ := hk.balanced.unreleased _ hu.1
    refine .inr ⟨w₁, rfl, hop, ?_⟩
    change Scoped b _ w₁ _ (exec h cb (Blocking.Entry.guarded _ (Blocking.caught _) >>=
      Blocking.Entry.exit _) w₁)
    rw [hscope]
    exact
      { leased := (hleave.leasesOf _).trans hlea
        released := (hleave.releasesOf _).trans (by rw [if_pos rfl]; exact congrArg (· + 1) hrel)
        result := rfl
        fresh := (hop.fresh hm.balanced).2
        ends := ho.endsOf_closed (e := ⟨b, w.memory.leases + 1, true, true, thread⟩) hl _ _ }

namespace Count

def width? : Count → Option Width
  | nothing => none
  | int w => some w
  | size => some .u64

def Fits (count : Count) (n : Nat) : Prop := ∀ w ∈ count.width?, (n : Int) ≤ w.hi

theorem isOk_sized (name : String) (w : Width) (n : Nat) :
    (sized name w n).isOk ↔ (n : Int) ≤ w.hi := by
  have hlo : w.lo ≤ n := Int.le_trans w.lo_nonpos (Int.natCast_nonneg n)
  by_cases hn : (n : Int) ≤ w.hi
  · rw [sized, Sized.ofInt?_of_contains ⟨hlo, hn⟩]
    exact iff_of_true rfl hn
  · rw [sized, Sized.ofInt?_of_not_contains fun h ↦ hn h.2]
    exact iff_of_false nofun hn

theorem isOk_ofAffected (count : Count) (n : Nat) :
    (count.ofAffected n).isOk ↔ count.Fits n := by
  cases count with
  | nothing => simp [ofAffected, Fits, width?, Except.isOk, Except.toBool]
  | int w =>
    have hs := isOk_sized w.name w n
    unfold ofAffected
    dsimp only
    simp only [Fits, width?, Option.mem_some, forall_eq']
    rw [← hs]
    cases sized w.name w n <;> rfl
  | size =>
    have hs := isOk_sized "usize" .u64 n
    unfold ofAffected
    dsimp only
    simp only [Fits, width?, Option.mem_some, forall_eq']
    rw [← hs]
    cases sized "usize" .u64 n <;> rfl

end Count

/-- The end of a connection's scope agrees with the result of the call: all is committed after a
success, and nothing after a failure. -/
def AsReported (b c : Nat) (r : Outcome α × World σ) : Prop :=
  if Outcome.isOk r.1 then ∃ es, (∀ e ∈ es, e = Event.terminal c true) ∧
    r.2.memory.endsOf c = es ++ Event.closing b c true
  else r.2.memory.endsOf c = Event.closing b c false

/-- With autocommit on, the statement changes more rows than its count can tell. -/
def Overruns (h : Host σ) (cb : Callback σ) (thread : Nat) (b : Bound) (count : Count)
    (args : Arguments) (w : World σ) : Prop :=
  ∃ p x w₁ n, w.memory.pools.lookup b.binder = some p ∧ p.autocommit ∧
    (exec h cb (b.render args) w).1 = .ok x ∧
    exec h cb (Blocking.enter thread b.binder true) w =
      (.ok ⟨b.binder, w.memory.leases + 1, true, true, thread⟩, w₁) ∧
    (exec h cb (Session.execute (w.memory.leases + 1) x.sql x.params) w₁).1 = .ok n ∧
    ¬count.Fits n

def LeasedOnce (c : Nat) (r : Outcome α × World σ) : Prop :=
  r.2.memory.leasesOf c = 1 ∧ r.2.memory.releasesOf c = 1

theorem Event.mem_early {c : Nat} {on : Bool} {e : Event} (he : e ∈ early c on) :
    e = terminal c true := by
  cases on with
  | false => cases he
  | true => exact List.mem_singleton.1 he

namespace Scoped

variable {b c : Nat} {w₁ : World σ} {q r : Outcome α × World σ}

theorem asReported_of_ok (hs : Scoped b c w₁ q r) {on : Bool} (hq : Outcome.isOk q.1)
    (he : q.2.memory.endsOf c = w₁.memory.endsOf c ++ Event.early c on) : AsReported b c r := by
  unfold AsReported
  rw [hs.result, if_pos hq, hs.ends, he, hs.fresh, hq]
  exact ⟨Event.early c on, fun _ ↦ Event.mem_early, rfl⟩

theorem ends_of_error (hs : Scoped b c w₁ q r) {on : Bool} (hq : Outcome.isOk q.1 = false)
    (he : q.2.memory.endsOf c = w₁.memory.endsOf c ++ Event.early c on) :
    r.2.memory.endsOf c = Event.early c on ++ Event.closing b c false := by
  rw [hs.ends, he, hs.fresh, hq]
  rfl

theorem asReported_of_error (hs : Scoped b c w₁ q r) (hq : Outcome.isOk q.1 = false)
    (he : q.2.memory.endsOf c = w₁.memory.endsOf c) : AsReported b c r := by
  unfold AsReported
  rw [hs.result, if_neg (by rw [hq]; exact Bool.false_ne_true)]
  have he' : q.2.memory.endsOf c = w₁.memory.endsOf c ++ Event.early c false :=
    he.trans (List.append_nil _).symm
  exact hs.ends_of_error hq he'

end Scoped

/-- The call failed, although its work was committed. -/
def Misreported (b c : Nat) (r : Outcome α × World σ) : Prop :=
  Outcome.isOk r.1 = false ∧
    r.2.memory.endsOf c = Event.terminal c true :: Event.closing b c false

theorem Scoped.executed {b c : Nat} {w₁ : World σ} {q r : Outcome Mapped × World σ}
    {q' : Outcome Nat} {count : Count} {on : Bool} (hs : Scoped b c w₁ q r)
    (hq : match q' with
      | .error f => q.1 = .error f ∧ q.2.memory.endsOf c = w₁.memory.endsOf c
      | .ok n => q.1 = Outcome.ofResult (count.ofAffected n) ∧
          q.2.memory.endsOf c = w₁.memory.endsOf c ++ Event.early c on) :
    (on ∧ ∃ n, q' = .ok n ∧ ¬count.Fits n) ∧ Misreported b c r ∨
      ¬(on ∧ ∃ n, q' = .ok n ∧ ¬count.Fits n) ∧ AsReported b c r := by
  cases q' with
  | error f =>
    refine .inr ⟨?_, hs.asReported_of_error (by rw [hq.1]; rfl) hq.2⟩
    rintro ⟨-, n, hn, -⟩
    cases hn
  | ok n =>
    obtain ⟨hres, hends⟩ := hq
    have hok : Outcome.isOk q.1 = (count.ofAffected n).isOk := by
      rw [hres]
      exact Outcome.isOk_ofResult _
    by_cases hf : count.Fits n
    · refine .inr ⟨?_, hs.asReported_of_ok (hok.trans ((count.isOk_ofAffected n).2 hf)) hends⟩
      rintro ⟨-, n', hn', hf'⟩
      cases hn'
      exact hf' hf
    · -- The body fails after its commit, if there was one.
      have hno := hok.trans (Bool.eq_false_iff.2 (mt (count.isOk_ofAffected n).1 hf))
      cases on with
      | false =>
        rw [show Event.early c false = [] from rfl, List.append_nil] at hends
        exact .inr ⟨fun ho ↦ absurd ho.1 Bool.false_ne_true, hs.asReported_of_error hno hends⟩
      | true =>
        refine .inl ⟨⟨rfl, n, rfl, hf⟩, ?_, hs.ends_of_error hno hends⟩
        rw [hs.result]
        exact hno

theorem overruns_iff {thread : Nat} {b : Bound} {count : Count} {args : Arguments}
    {x : Template.Rendered} {w₁ : World σ} {p : PoolSpec}
    (hx : exec h cb (b.render args) w = (.ok x, w))
    (he : exec h cb (Blocking.enter thread b.binder true) w =
      (.ok ⟨b.binder, w.memory.leases + 1, true, true, thread⟩, w₁))
    (hp : w.memory.pools.lookup b.binder = some p) :
    Overruns h cb thread b count args w ↔ p.autocommit ∧ ∃ n,
      (exec h cb (Session.execute (w.memory.leases + 1) x.sql x.params) w₁).1 = .ok n ∧
        ¬count.Fits n := by
  constructor
  · rintro ⟨p', x', w', n, hp', ha, hx', he', hn, hf⟩
    rw [hp, Option.some.injEq] at hp'
    rw [hx, Except.ok.injEq] at hx'
    rw [he, Prod.mk.injEq] at he'
    rw [hp', hx', he'.2]
    exact ⟨ha, n, hn, hf⟩
  · rintro ⟨ha, n, hn, hf⟩
    exact ⟨p, x, w₁, n, hp, ha, by rw [hx], he, hn, hf⟩

namespace InOrder

variable {thread : Nat} {b : Bound}

theorem queried (hl : h.Lawful) (hm : InOrder h cb a K w.memory)
    (ha : w.memory.active.lookup (thread, b.binder) = none)
    (ho : h.Obliges b.binder (w.memory.leases + 1)) (ret : Return) (args : Arguments) :
    let r := exec h cb (Blocking.query thread b ret args) w
    Unleased w r ∨ LeasedOnce (w.memory.leases + 1) r ∧
      AsReported b.binder (w.memory.leases + 1) r := by
  have hq : Blocking.query thread b ret args = b.render args >>= fun x ↦
      Blocking.connection thread b.binder (Blocking.queryBody ret x) := rfl
  obtain ⟨x, hx⟩ : ∃ r, exec h cb (b.render args) w = (r, w) :=
    ⟨_, b.exec_render args w⟩
  dsimp only
  rw [hq, exec_bind, hx]
  cases x with
  | error f => exact .inl ⟨rfl, fun _ ↦ rfl⟩
  | ok x =>
    obtain hun | ⟨w₁, he, hop, hs⟩ := hm.scoped hl ha ho (Code.queryBody ret x)
    · exact .inl hun
    · refine .inr ⟨⟨hs.leased, hs.released⟩, ?_⟩
      obtain ⟨hb, hends⟩ | ⟨hb, hends⟩ := exec_queryBody hl (hm.callback.sound hl) ho hop.balanced
        (hop.shared rfl hm.shared _ List.mem_cons_self) hop.usable ret x
      · exact hs.asReported_of_error hb hends
      · exact hs.asReported_of_ok hb hends

theorem executed (hl : h.Lawful) (hm : InOrder h cb a K w.memory)
    (ha : w.memory.active.lookup (thread, b.binder) = none)
    (ho : h.Obliges b.binder (w.memory.leases + 1)) (count : Count) (args : Arguments) :
    let r := exec h cb (Blocking.execute thread b count args) w
    Unleased w r ∨ LeasedOnce (w.memory.leases + 1) r ∧
      (Overruns h cb thread b count args w ∧ Misreported b.binder (w.memory.leases + 1) r ∨
        ¬Overruns h cb thread b count args w ∧ AsReported b.binder (w.memory.leases + 1) r) := by
  have hq : Blocking.execute thread b count args = b.render args >>= fun x ↦
      Blocking.connection thread b.binder (Blocking.executeBody count x) := rfl
  obtain ⟨x, hx⟩ : ∃ r, exec h cb (b.render args) w = (r, w) :=
    ⟨_, b.exec_render args w⟩
  dsimp only
  rw [hq, exec_bind, hx]
  cases x with
  | error f => exact .inl ⟨rfl, fun _ ↦ rfl⟩
  | ok x =>
    obtain hun | ⟨w₁, he, hop, hs⟩ := hm.scoped hl ha ho (Code.executeBody count x)
    · exact .inl hun
    · refine .inr ⟨⟨hs.leased, hs.released⟩, ?_⟩
      obtain ⟨p, hp, hflag⟩ := Blocking.flag_enter hl ha he
      have hbody := exec_executeBody hl (hm.callback.sound hl) ho hop.balanced
        (hop.shared rfl hm.shared _ List.mem_cons_self) hop.usable count x
      rw [overruns_iff hx he hp, ← hflag]
      exact hs.executed hbody

end InOrder

/-- A bound statement or query with a scope to itself commits its work if it succeeds, and commits
nothing if it fails. There is one exception: with autocommit on, a statement whose count of affected
rows is too large for its type has been committed when that is found out. -/
theorem commits_as_reported (hl : h.Lawful) (hr : Reached h cb a K w) {thread : Nat} {b : Bound}
    (ha : w.memory.active.lookup (thread, b.binder) = none)
    (ho : h.Obliges b.binder (w.memory.leases + 1)) (args : Arguments) :
    (∀ count : Count,
      let r := exec h cb (Blocking.execute thread b count args) w
      Unleased w r ∨ LeasedOnce (w.memory.leases + 1) r ∧
        (Overruns h cb thread b count args w ∧ Misreported b.binder (w.memory.leases + 1) r ∨
          ¬Overruns h cb thread b count args w ∧ AsReported b.binder (w.memory.leases + 1) r)) ∧
    ∀ ret : Return,
      let r := exec h cb (Blocking.query thread b ret args) w
      Unleased w r ∨ LeasedOnce (w.memory.leases + 1) r ∧
        AsReported b.binder (w.memory.leases + 1) r :=
  have hm := hr.inOrder hl
  ⟨fun count ↦ hm.executed hl ha ho count args, fun ret ↦ hm.queried hl ha ho ret args⟩

def Bound.deletion : Bound := ⟨0, .execute (.int .i32), ⟨"DELETE", [.text "DELETE"]⟩, "()"⟩

def Program.ready : Memory :=
  { Program.memory false true with pools := [(0, ⟨true, .questionMark, 1⟩)] }

theorem Reached.pooled (hcb : cb.Reenters h) (pools : List (Nat × PoolSpec)) (s : σ) :
    Reached h cb [] [] ⟨{ Program.memory false true with pools }, s⟩ :=
  (Reached.start hcb false true s).after (p := (Call.modify fun m ↦ { m with pools }).run)
    (.modify fun _ ↦ ⟨rfl, rfl, rfl, rfl, rfl, rfl, rfl⟩)

theorem Script.obliges_affecting (n pool c : Nat) : (Script.affecting n).Obliges pool c :=
  ⟨fun _ _ _ ↦ rfl, fun _ _ _ ↦ rfl, fun _ _ _ ↦ rfl⟩

theorem commits_as_reported_overrun :
    ∃ cb,
      let r := exec (Script.affecting (2 ^ 31)) cb
        (Blocking.execute 0 Bound.deletion (.int .i32) .none) ⟨Program.ready, ()⟩
      LeasedOnce 1 r ∧ Misreported 0 1 r := by
  have hr : Reached (Script.affecting (2 ^ 31)) _ [] [] ⟨Program.ready, ()⟩ :=
    (Reached.start .never false true ()).after (p := (Call.modify fun m ↦
      { m with pools := [(0, ⟨true, .questionMark, 1⟩)] }).run)
      (.modify fun _ ↦ ⟨rfl, rfl, rfl, rfl, rfl, rfl, rfl⟩)
  refine ⟨fun _ w ↦ (.step (.ok .unit) [] [] none, w), ?_⟩
  have ha : Program.ready.active.lookup (0, Bound.deletion.binder) = none := rfl
  obtain ⟨hexec, -⟩ := commits_as_reported (Script.lawful_affecting (2 ^ 31)) hr ha
    (Script.obliges_affecting _ _ _) .none
  obtain hun | ⟨hone, hends⟩ := hexec (.int .i32)
  · exact absurd (hun.2 1) (by decide +kernel)
  · refine ⟨hone, ?_⟩
    obtain h | h := hends
    · exact h.2
    · refine absurd ?_ h.1
      exact ⟨_, _, _, 2 ^ 31, rfl, rfl, rfl, rfl, rfl, fun hf ↦ absurd (hf .i32 rfl) (by decide)⟩

end BoundSql
