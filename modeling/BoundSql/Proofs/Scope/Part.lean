import BoundSql.Proofs.Scope.Movement
import BoundSql.Program.Run

namespace BoundSql

open Memory

variable {σ α β : Type} {h : Host σ} {cb : Callback σ} {w : World σ} {a K : List Nat} {c : Nat}

def Callback.Sound (cb : Callback σ) : Prop :=
  ∀ s, s.isBound → ∀ a (w : World σ), w.memory.Balanced a → Keeps a w.memory (cb s w).2.memory

def Action.Sound (h : Host σ) (cb : Callback σ) (K : List Nat) (p : Action α) : Prop :=
  ∀ a (w : World σ), w.memory.Balanced a → (∀ c ∈ K, w.memory.Shared a c) →
    Keeps a w.memory (p.runInSequence h cb w).2.memory

namespace Memory

variable {m : Memory}

theorem Balanced.busy (hm : m.Balanced a) (hc : c ≤ m.leases) (hn : c ∉ m.owned) :
    { m with busy := c :: m.busy }.Balanced a :=
  { hm with
    busy_le := fun d hd ↦ by
      obtain rfl | hd := List.mem_cons.1 hd
      · exact hc
      · exact hm.busy_le d hd
    stream := fun p hp e he ↦ by
      have hs := hm.stream p hp e he
      refine hs.mono ⟨hs.usable.1, fun hb ↦ ?_⟩ List.suffix_rfl
      obtain rfl | hb := List.mem_cons.1 hb
      · exact hn (mem_owned.2 ⟨p, hp, e, he, rfl⟩)
      · exact hs.usable.2 hb }

theorem Balanced.idle (hm : m.Balanced a) : { m with busy := m.busy.erase c }.Balanced a :=
  { hm with
    busy_le := fun d hd ↦ hm.busy_le d (List.mem_of_mem_erase hd)
    stream := fun p hp e he ↦ by
      have hs := hm.stream p hp e he
      exact hs.mono ⟨hs.usable.1, mt List.mem_of_mem_erase hs.usable.2⟩ List.suffix_rfl }

theorem frame_busy (bs : List Nat) : Frame a a m { m with busy := bs } :=
  { Frame.refl a m with }

theorem quiet_reentered (r : Record) : Quiet a m (m.reentered r) where
  leases := Nat.le_refl _
  holds _ := Iff.rfl
  flag _ _ := rfl
  busy := rfl
  active := rfl
  streams := rfl
  sessions _ hp := .inl hp
  trace := ⟨[.reentered _], rfl, by simp [Event.leases, Event.releases], by simp [Event.ends]⟩

end Memory

theorem spares_perform (hl : h.Lawful) (hcb : cb.Sound) {o : Operation} (ho : o.isStatement)
    (hoc : o.connection? = some c) (hm : w.memory.Balanced a) (hc : c ≤ w.memory.leases)
    (hn : c ∉ w.memory.owned) :
    Spares a c w.memory (h.perform cb o w).2.memory := by
  have hq : Quiet a w.memory (h.act o w).2.memory := quiet_statement ho _ _
  have hr := hq.keeps hm
  have hh : (h.act o w).2.memory.held = w.memory.held := register_held _ _ _ _
  have he : (h.act o w).2.memory.endsOf c = w.memory.endsOf c := by
    cases o <;> first | rfl | cases ho
  cases hs : (h.reaction o w).callback with
  | none =>
    rw [Host.perform_of_callback hs]
    exact ⟨hr, by rw [hh], he⟩
  | some s =>
    -- While the step runs, the connection is busy, and steps leave alone what is busy.
    rw [Host.perform_of_step hs hoc]
    have hi : (h.interrupted o c w).memory.Balanced a := by
      refine hr.balanced.busy (Nat.le_trans hc hr.frame.leases) ?_
      rw [hq.owned]
      exact hn
    have hk := hcb s (hl.step _ _ _ _ _ hs) a (h.interrupted o c w) hi
    generalize cb s (h.interrupted o c w) = r at hk
    have hb : r.2.memory.busy = c :: (h.act o w).2.memory.busy := hk.busy
    have hb' : r.2.memory.busy.erase c = (h.act o w).2.memory.busy := by
      rw [hb, List.erase_cons_head]
    have hu := hk.frame.untouched c List.mem_cons_self
    refine ⟨⟨?_, ?_, hb'.trans hr.busy, hk.active.trans hr.active⟩, hu.1.trans (by rw [← hh]; rfl),
      hu.2.trans he⟩
    · exact (quiet_reentered _).balanced hk.balanced.idle
    · have h₁ : Frame a a (h.act o w).2.memory r.2.memory :=
        (frame_busy _).trans hk.frame (List.subset_cons_self _ _)
      have h₂ : Frame a a (h.act o w).2.memory
          { r.2.memory with busy := r.2.memory.busy.erase c } :=
        h₁.trans (frame_busy _) (by rw [hb]; exact List.subset_cons_self _ _)
      have h₃ := h₂.trans (quiet_reentered r.1).frame (by rw [← hb']; exact List.Subset.refl _)
      exact hr.frame.trans h₃ (by rw [hr.busy]; exact List.Subset.refl _)

theorem spares_statement (hl : h.Lawful) (hcb : cb.Sound) {o : Operation} (ho : o.isStatement)
    (hoc : o.connection? = some c) (hm : w.memory.Balanced a) (hc : c ≤ w.memory.leases)
    (hn : c ∉ w.memory.owned) :
    Spares a c w.memory (Call.exec h cb (Session.check c >>= fun _ ↦ Call.operate o) w).2.memory := by
  by_cases hu : w.memory.Usable c
  · rw [Session.exec_check_bind _ hu]
    exact spares_perform hl hcb ho hoc hm hc hn
  · obtain ⟨e, he⟩ : ∃ e, Call.exec h cb (Session.check c >>= fun _ ↦ Call.operate o) w =
        (.error (.error e), w) := Session.exec_check_bind_of_not _ hu
    rw [he]
    exact ⟨.refl hm, rfl, rfl⟩

theorem spares_execute (hl : h.Lawful) (hcb : cb.Sound) (hm : w.memory.Balanced a)
    (hc : c ≤ w.memory.leases) (hn : c ∉ w.memory.owned) (sql : String) (params : List Value) :
    Spares a c w.memory (Call.exec h cb (Session.execute c sql params) w).2.memory :=
  spares_statement (o := .execute c sql params) hl hcb rfl rfl hm hc hn

theorem spares_query (hl : h.Lawful) (hcb : cb.Sound) (hm : w.memory.Balanced a)
    (hc : c ≤ w.memory.leases) (hn : c ∉ w.memory.owned) (sql : String) (params : List Value) :
    Spares a c w.memory (Call.exec h cb (Session.query c sql params) w).2.memory :=
  spares_statement (o := .query c sql params) hl hcb rfl rfl hm hc hn

inductive Enters (a : List Nat) (thread b : Nat) (register : Bool) (w : World σ) :
    Outcome Entry → World σ → Prop
  | failed {f : Fault} {w' : World σ} (hq : Quiet a w.memory w'.memory)
    (he : ∀ c, w'.memory.endsOf c = w.memory.endsOf c) :
    Enters a thread b register w (.error f) w'
  | joined {c : Nat} (ha : w.memory.active.lookup (thread, b) = some c) :
    Enters a thread b register w (.ok ⟨b, c, false, false, thread⟩) w
  | leased {e : Entry} {w' : World σ} (he : e = ⟨b, e.connection, true, register, thread⟩)
    (ha : w.memory.active.lookup (thread, b) = none) (ho : Opens a e w.memory w'.memory) :
    Enters a thread b register w (.ok e) w'

theorem enters (hl : h.Lawful) (hm : w.memory.Balanced a) (thread b : Nat) (register : Bool) :
    Enters a thread b register w (Call.exec h cb (Blocking.enter thread b register) w).1
      (Call.exec h cb (Blocking.enter thread b register) w).2 := by
  cases hp : w.memory.pools.lookup b with
  | none =>
    rw [Blocking.exec_enter_of_unset hp]
    exact .failed (SameBooks.quiet ⟨rfl, rfl, rfl, rfl, rfl, rfl, rfl⟩ a) fun _ ↦ rfl
  | some p =>
    cases ha : w.memory.active.lookup (thread, b) with
    | some c =>
      rw [Blocking.exec_enter_of_some ha (by rw [hp]; rfl)]
      exact .joined ha
    | none =>
      rw [Blocking.exec_enter_of_none ha hp, Blocking.exec_lease hl hp]
      cases hc : (h.act (.lease b) w).1 with
      | error f =>
        rw [show h.act (.lease b) w = (.error f, (h.act (.lease b) w).2) from Prod.ext hc rfl]
        exact .failed (Entry.quiet_act_lease hl hc) fun _ ↦ rfl
      | ok c =>
        rw [show h.act (.lease b) w = (.ok c, (h.act (.lease b) w).2) from Prod.ext hc rfl]
        obtain ⟨rfl, hw⟩ := Entry.act_lease hl hc
        have ho := hm.opens b register thread p.autocommit
        rw [← hw] at ho
        refine .leased rfl ha ?_
        cases register <;> exact ho

theorem Memory.Opens.keeps {e : Entry} {m m' m'' : Memory} (ho : Opens a e m m')
    (hk : Keeps a m' m'') : m''.Usable e.connection ∧ e.connection ∉ a ++ m''.owned := by
  obtain ⟨hh, hn⟩ := hk.frame.kept _ ho.usable.1 ho.apart
  refine ⟨⟨hh, ?_⟩, hn⟩
  rw [hk.busy]
  exact ho.usable.2

theorem Memory.Opens.shared {e : Entry} {m m' : Memory} (ho : Opens a e m m') (hr : e.registered)
    (hK : ∀ c ∈ K, m.Shared a c) : ∀ c ∈ e.connection :: K, m'.Shared a c := by
  have hm := ho.balanced
  rw [if_pos hr] at hm
  exact List.forall_mem_cons.2 ⟨⟨hm.holds_le _ ho.usable.1, ho.apart⟩,
    fun c hc ↦ (ho.frame.shared (hK c hc)).tail⟩

theorem keeps_scope (hl : h.Lawful) {e : Entry} (hr : e.registered) {m m' : Memory}
    (ho : Opens a e m m') (hn : m.active.lookup (e.thread, e.binder) = none)
    (hk : Keeps a m' w.memory) (ok : Bool) : Keeps a m (e.closed h ok w).memory := by
  obtain ⟨hu, hap⟩ := ho.keeps hk
  have hleave := Entry.leaves_closed hl e ok w
  refine ⟨hleave.balanced hk.balanced hu (ho.cameFrom hk.frame.trace) hap, ?_, ?_, ?_⟩
  · have hf := ho.frame.trans (hk.frame.cons e.connection) (by
      rw [ho.busy]
      exact List.Subset.refl _)
    refine hf.trans (hleave.frame hu) ?_
    rw [hk.busy, ho.busy]
    exact List.Subset.refl _
  · rw [hleave.busy, hk.busy, ho.busy]
  · rw [hleave.active, hk.active, ho.active, if_pos hr, if_pos hr, eraseKey_setKey,
      eraseKey_of_lookup hn]

namespace Action.Sound

variable {p : Action α}

theorem of_quiet (hp : ∀ (a : List Nat) (w : World σ), w.memory.Balanced a →
    (∀ c ∈ K, w.memory.Shared a c) →
    Quiet a w.memory (p.runInSequence h cb w).2.memory) : Sound h cb K p :=
  fun a w hm hK ↦ (hp a w hm hK).keeps hm

theorem done (x : α) : Sound h cb K (.done x) := fun _ _ hm _ ↦ .refl hm

theorem bind {f : α → Action β} (hp : Sound h cb K p) (hf : ∀ x, Sound h cb K (f x)) :
    Sound h cb K (p >>= f) := by
  intro a w hm hK
  rw [runInSequence_bind]
  have hk := hp a w hm hK
  exact hk.trans (hf _ a _ hk.balanced fun c hc ↦ hk.frame.shared (hK c hc))

theorem note {f : Memory → Memory} (hf : ∀ m, SameBooks m (f m)) (k : Memory → α) :
    Sound h cb K (.memory f fun m ↦ .done (k m)) :=
  of_quiet fun a w _ _ ↦ (hf w.memory).quiet a

theorem loose (hl : h.Lawful) {o : Operation} (ho : o.isLoose) :
    Sound h cb K (Call.operate o).run := by
  refine of_quiet fun a w _ _ ↦ ?_
  change Quiet a w.memory (h.perform cb o w).2.memory
  rw [hl.perform_eq (by cases o <;> first | rfl | cases ho)]
  exact quiet_loose ho _ _

section Session

theorem check (hc : c ∈ K) {p : Call α} (hp : ∀ (a : List Nat) (w : World σ), w.memory.Balanced a →
    w.memory.Shared a c → w.memory.Usable c →
    Keeps a w.memory (Call.exec h cb p w).2.memory) :
    Sound h cb K (Session.check c >>= fun _ ↦ p).run := by
  intro a w hm hK
  change Keeps a w.memory (Call.exec h cb (Session.check c >>= fun _ ↦ p) w).2.memory
  by_cases hu : w.memory.Usable c
  · rw [Session.exec_check_bind p hu]
    exact hp a w hm (hK c hc) hu
  · obtain ⟨e, he⟩ : ∃ e, Call.exec h cb (Session.check c >>= fun _ ↦ p) w =
        (.error (.error e), w) := Session.exec_check_bind_of_not p hu
    rw [he]
    exact .refl hm

theorem execute (hl : h.Lawful) (hcb : cb.Sound) (hc : c ∈ K) (sql : String)
    (params : List Value) : Sound h cb K (Session.execute c sql params).run := fun _ _ hm hK ↦
  (spares_execute hl hcb hm (hK c hc).1 (fun hn ↦ (hK c hc).2 (List.mem_append_right _ hn)) sql
    params).keeps

theorem query (hl : h.Lawful) (hcb : cb.Sound) (hc : c ∈ K) (sql : String)
    (params : List Value) : Sound h cb K (Session.query c sql params).run := fun _ _ hm hK ↦
  (spares_query hl hcb hm (hK c hc).1 (fun hn ↦ (hK c hc).2 (List.mem_append_right _ hn)) sql
    params).keeps

theorem commit (hl : h.Lawful) (hc : c ∈ K) : Sound h cb K (Session.commit c).run :=
  check hc (p := Call.operate (.commit c)) fun a w hm hs hu ↦ by
    change Keeps a w.memory (h.perform cb (.commit c) w).2.memory
    rw [hl.perform_eq rfl]
    exact (quiet_commit hs.1 hu.2 _ _).keeps hm

theorem rollback (hl : h.Lawful) (hc : c ∈ K) : Sound h cb K (Session.rollback c).run :=
  check hc (p := Call.operate (.rollback c)) fun a w hm hs hu ↦ by
    change Keeps a w.memory (h.perform cb (.rollback c) w).2.memory
    rw [hl.perform_eq rfl]
    exact (quiet_rollback hs.1 hu.2 _ _).keeps hm

theorem autocommit (hc : c ∈ K) : Sound h cb K (Session.autocommit c).run :=
  check hc fun _ _ hm _ _ ↦ .refl hm

theorem setAutocommit (hc : c ∈ K) (on : Bool) : Sound h cb K (Session.setAutocommit c on).run :=
  check hc fun _ _ hm _ hu ↦ (quiet_setAutocommit hu.2 on).keeps hm

end Session

section Scope

open Call

variable {thread b : Nat}

theorem connection (hl : h.Lawful) {body : Nat → Call α}
    (hbody : ∀ c, Sound h cb (c :: K) (body c).run) :
    Sound h cb K (Blocking.connection thread b body).run := by
  intro a w hm hK
  change Keeps a w.memory (exec h cb (Blocking.connection thread b body) w).2.memory
  have henter : Enters a thread b true w (exec h cb (Blocking.enter thread b true) w).1
      (exec h cb (Blocking.enter thread b true) w).2 := enters hl hm thread b true
  rw [Blocking.connection, exec_bind]
  generalize exec h cb (Blocking.enter thread b true) w = r at henter ⊢
  obtain ⟨r, w₁⟩ := r
  cases henter with
  | failed hq he => exact hq.keeps hm
  | @joined c ha =>
    change Keeps a w₁.memory (exec h cb (Blocking.Entry.guarded _ (Blocking.caught (body c)) >>=
      Blocking.Entry.exit _) w₁).2.memory
    rw [Blocking.Entry.exec_scope_joined rfl]
    exact hbody c a w₁ hm (List.forall_mem_cons.2 ⟨hm.active _ (mem_of_lookup ha), hK⟩)
  | @leased e _ he ha ho =>
    have hr : e.registered = true := by rw [he]
    have hk := hbody e.connection a w₁ (by simpa [hr] using ho.balanced)
      (ho.shared hr hK)
    change Keeps a w.memory (exec h cb (Blocking.Entry.guarded e
      (Blocking.caught (body e.connection)) >>= Blocking.Entry.exit e) w₁).2.memory
    rw [Blocking.Entry.exec_scope_snd hl (by rw [he]) _ rfl (ho.keeps hk).1]
    exact keeps_scope hl hr ho (by rw [he]; exact ha) hk _

end Scope

end Action.Sound

end BoundSql
