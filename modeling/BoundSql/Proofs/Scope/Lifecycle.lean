import BoundSql.Pool.Scripted
import BoundSql.Proofs.Scope.Program

namespace BoundSql

open Memory

variable {σ α : Type} {h : Host σ} {cb : Callback σ} {w : World σ} {a K : List Nat}

/-- The points that a run gets to, in its scopes and in the statements that run steps. At each the
callback is known with which the run goes on, the connections of streams that are being opened, and
those whose sessions are at hand. -/
inductive Reached (h : Host σ) : Callback σ → List Nat → List Nat → World σ → Prop
  | start {cb : Callback σ} (hcb : cb.Reenters h) (tasks logged : Bool) (s : σ) :
    Reached h cb [] [] ⟨Program.memory tasks logged, s⟩
  | after {cb : Callback σ} {a K : List Nat} {w : World σ} (hr : Reached h cb a K w) {α : Type}
    {p : Action α} (hp : Code K p) : Reached h cb a K (p.runInSequence h cb w).2
  | inScope {cb : Callback σ} {a K : List Nat} {w w' : World σ} (hr : Reached h cb a K w)
    {thread b : Nat} {e : Entry}
    (he : Call.exec h cb (Blocking.enter thread b true) w = (.ok e, w')) :
    Reached h cb a (e.connection :: K) w'
  | inStream {cb : Callback σ} {a K : List Nat} {w w' : World σ} (hr : Reached h cb a K w)
    {thread b : Nat} {e : Entry} (ho : e.owner)
    (he : Call.exec h cb (Blocking.enter thread b false) w = (.ok e, w')) :
    Reached h cb (e.connection :: a) K w'
  | inStatement {cb cb' : Callback σ} {a K : List Nat} {w : World σ} (hr : Reached h cb a K w)
    (hcb : cb'.Reenters h) {o : Operation} (ho : o.isStatement) {c : Nat}
    (hoc : o.connection? = some c) (hc : c ∈ K ∨ c ∈ a) : Reached h cb' a K (h.interrupted o c w)

structure InOrder (h : Host σ) (cb : Callback σ) (a K : List Nat) (m : Memory) : Prop where
  callback : cb.Reenters h
  balanced : m.Balanced a
  shared : ∀ c ∈ K, m.Shared a c
  holds : ∀ c, m.Holds c → c ∈ K ∨ c ∈ a ++ m.owned

theorem InOrder.of_passes {b : List Nat} {m m' : Memory} (hm : InOrder h cb a K m)
    (hp : Passes a b m m') : InOrder h cb b K m' where
  callback := hm.callback
  balanced := hp.balanced
  shared c hc := hp.frame.shared (hm.shared c hc)
  holds c hc := by
    obtain ho | ⟨hc, ho⟩ := hp.frame.holds c hc
    · exact .inr ho
    · exact .inl ((hm.holds c hc).resolve_right ho)

theorem balanced_start (tasks logged : Bool) : (Program.memory tasks logged).Balanced [] where
  holds_le _ hc := by cases hc
  busy_le := by simp [Program.memory]
  leased_le _ hc := by cases hc
  ended_le _ _ := rfl
  leased_once _ := Nat.zero_le _
  released _ _ := rfl
  unreleased _ hc := by cases hc
  settled _ _ hc := absurd rfl hc
  names := List.nodup_nil
  owned_nodup := List.nodup_nil
  inHand := by simp
  stream := by simp [Program.memory]
  ended := by simp [Program.memory]
  session := by simp [Program.memory]
  active := by simp [Program.memory]

theorem Reached.inOrder (hl : h.Lawful) (hr : Reached h cb a K w) : InOrder h cb a K w.memory := by
  -- Only an entry that leases changes who has what; all else keeps the books.
  induction hr with
  | start hcb tasks logged s =>
    exact ⟨hcb, balanced_start tasks logged, by simp, fun _ hc ↦ by cases hc⟩
  | @after cb a K w hr _ p hp ih =>
    exact ih.of_passes (hp.sound hl (ih.callback.sound hl) a w ih.balanced ih.shared)
  | @inScope cb a K w w' hr thread b e he ih =>
    have henter : Enters a thread b true w (Call.exec h cb (Blocking.enter thread b true) w).1
        (Call.exec h cb (Blocking.enter thread b true) w).2 := enters hl ih.balanced thread b true
    rw [he] at henter
    cases henter with
    | joined ha =>
      refine ⟨ih.callback, ih.balanced, ?_, fun d hd ↦ ?_⟩
      · exact List.forall_mem_cons.2 ⟨ih.balanced.active _ (mem_of_lookup ha), ih.shared⟩
      · exact (ih.holds d hd).imp_left (List.mem_cons_of_mem _)
    | leased he' ha ho =>
      have hreg : e.registered = true := by rw [he']
      have hb := ho.balanced
      rw [if_pos hreg] at hb
      refine ⟨ih.callback, hb, ho.shared hreg ih.shared, fun d hd ↦ ?_⟩
      obtain hm | ⟨hd, hn⟩ := ho.frame.holds d hd
      · obtain rfl | hm := List.mem_cons.1 hm
        · exact .inl List.mem_cons_self
        · exact .inr hm
      · exact .inl (List.mem_cons_of_mem _ ((ih.holds d hd).resolve_right hn))
  | @inStream cb a K w w' hr thread b e ho he ih =>
    have henter : Enters a thread b false w (Call.exec h cb (Blocking.enter thread b false) w).1
        (Call.exec h cb (Blocking.enter thread b false) w).2 := enters hl ih.balanced thread b false
    rw [he] at henter
    cases henter with
    | joined ha => cases ho
    | leased he' ha hop => exact ih.of_passes (hop.passes (by rw [he']))
  | @inStatement cb cb' a K w hr hcb o ho c hoc hc ih =>
    -- No stream has the statement's connection to itself, for a session of it is at hand.
    have hq : Quiet a w.memory (h.act o w).2.memory := quiet_statement ho _ _
    have hk := ih.of_passes (hq.keeps ih.balanced)
    have hc' : c ≤ (h.act o w).2.memory.leases ∧ c ∉ (h.act o w).2.memory.owned := by
      obtain hc | hc := hc
      · have hs := hk.shared c hc
        exact ⟨hs.1, fun hn ↦ hs.2 (List.mem_append_right _ hn)⟩
      · refine ⟨hk.balanced.holds_le _ (hk.balanced.inHand c hc), fun hn ↦ ?_⟩
        exact (List.nodup_append.1 hk.balanced.owned_nodup).2.2 c hc c hn rfl
    exact ⟨hcb, hk.balanced.busy hc'.1 hc'.2, hk.shared, hk.holds⟩

/-- The connection was never leased; or it was leased once and released once, right after the terminal
actions of its scope. -/
def Memory.Over (m : Memory) (c : Nat) : Prop :=
  m.leasesOf c = 0 ∧ m.releasesOf c = 0 ∨ m.leasesOf c = 1 ∧ m.releasesOf c = 1 ∧ m.Settled c

/-- The scope of the entry has just ended: there is its connection's end in the trace, and it is in
nobody's hands any more. -/
def Entry.Ends (e : Entry) (ok : Bool) (m m' : Memory) : Prop :=
  ∃ es, Closing e.binder e.connection ok es ∧ m'.trace = es.reverse ++ m.trace ∧
    ¬m'.Holds e.connection

/-- An entry that finds no scope obtains no connection; or it obtains a new one, and ends its scope
as its body went. -/
def OwnScope (h : Host σ) (cb : Callback σ) (thread b : Nat) (body : Nat → Call α) (w : World σ) :
    Prop :=
  let w' := (Call.exec h cb (Blocking.connection thread b body) w).2
  (∃ f, Call.exec h cb (Blocking.enter thread b true) w = (.error f, w') ∧
    ∀ c, w'.memory.leasesOf c = w.memory.leasesOf c) ∨
  ∃ e w₁ r w₂, Call.exec h cb (Blocking.enter thread b true) w = (.ok e, w₁) ∧
    e = ⟨b, e.connection, true, true, thread⟩ ∧ w.memory.leasesOf e.connection = 0 ∧
    Call.exec h cb (body e.connection) w₁ = (r, w₂) ∧ w₂.memory.releasesOf e.connection = 0 ∧
    e.Ends (Outcome.isOk r) w₂.memory w'.memory

/-- A stream that finds no scope obtains no connection; or it obtains a new one, and either keeps it
or ends its scope at once. -/
def OwnStream (thread : Nat) (b : Bound) (w : World σ) (r : Outcome Stream) (m : Memory) : Prop :=
  (Outcome.isOk r = false ∧ ∀ c, m.leasesOf c = w.memory.leasesOf c) ∨
  ∃ e : Entry, e = ⟨b.binder, e.connection, true, false, thread⟩ ∧
    w.memory.leasesOf e.connection = 0 ∧
    ((∃ s, r = .ok s ∧ s.entry = some e ∧ s.finished = false ∧ s.Entitled m ∧
      m.endsOf e.connection = []) ∨
    (Outcome.isOk r = false ∧ ∃ m', m'.endsOf e.connection = [] ∧ e.Ends false m' m))

/-- A stream keeps its connection while it gives rows, and ends its scope with its first error or when
it is exhausted; should it panic, it is still there to be dropped. -/
def Pulls (e : Entry) (w : World σ) (r : Outcome (List (Except Error Mapped) × Bool)) (s : Stream)
    (m : Memory) : Prop :=
  (w.memory.Read m ∧ s.entry = some e ∧ s.Entitled m ∧
    ∀ items ended, r = .ok (items, ended) → ended = false ∧ s.finished = false ∧
      ∀ i ∈ items, i.isOk) ∨
  (s.entry = none ∧ s.finished ∧ ∃ m' ok, w.memory.Read m' ∧ e.Ends ok m' m)

/-- What holds of connections, scopes and streams at a point of a run, whatever goes on from there. -/
structure Lifecycle (h : Host σ) (cb : Callback σ) (a K : List Nat) (w : World σ) : Prop where
  /-- A connection that was leased has had its end and was released, once, or it is on its way: it
  belongs to an entry or to a stream. -/
  once : ∀ c, w.memory.Over c ∨
    w.memory.leasesOf c = 1 ∧ w.memory.releasesOf c = 0 ∧ (c ∈ K ∨ c ∈ a ∨ c ∈ w.memory.owned)
  /-- An entry that joins a scope does nothing but to run its body. -/
  joined : ∀ {α : Type} {thread b c : Nat} (body : Nat → Call α),
    w.memory.active.lookup (thread, b) = some c → (w.memory.pools.lookup b).isSome →
    Call.exec h cb (Blocking.connection thread b body) w = Call.exec h cb (body c) w
  outermost : ∀ {α : Type} {thread b : Nat} (body : Nat → Call α),
    (∀ c, Code (c :: K) (body c).run) → w.memory.active.lookup (thread, b) = none →
    OwnScope h cb thread b body w
  opened : ∀ {thread : Nat} {b : Bound} (shape : Shape) (args : Arguments),
    w.memory.active.lookup (thread, b.binder) = none →
    let r := Call.exec h cb (Blocking.stream thread b shape args) w
    OwnStream thread b w r.1 r.2.memory
  borrowed : ∀ {thread c : Nat} {b : Bound} (shape : Shape) (args : Arguments),
    w.memory.active.lookup (thread, b.binder) = some c →
    let r := Call.exec h cb (Blocking.stream thread b shape args) w
    r.2.memory.endsOf c = w.memory.endsOf c ∧ ∀ s, r.1 = .ok s → s.entry = none
  named : ∀ p ∈ w.memory.desk.streams,
    p.2.Entitled w.memory ∧ (p.2.finished → p.2.entry = none)
  pulled : ∀ {s : Stream} {e : Entry} {x : Context} (n : Nat), x.mode = .blocking →
    s.Entitled w.memory → s.entry = some e → s.finished = false →
    let r := (x.pull s n).runInSequence h cb w
    Pulls e w r.1.1 r.1.2 r.2.memory
  dropped : ∀ {s : Stream} {e : Entry}, s.Entitled w.memory → s.entry = some e →
    ∃ m, w.memory.Read m ∧
      e.Ends false m (Call.exec h cb (Blocking.dropStream s) w).2.memory
  plain : ∀ {s : Stream} {x : Context} (n : Nat), x.mode = .blocking → s.entry = none →
    w.memory.Read ((x.pull s n).runInSequence h cb w).2.memory ∧
    ((x.pull s n).runInSequence h cb w).1.2.entry = none ∧
    w.memory.Read (Call.exec h cb (Blocking.dropStream s) w).2.memory

theorem Entry.ends_closed (hl : h.Lawful) (e : Entry) (ok : Bool) (w : World σ) :
    e.Ends ok w.memory (e.closed h ok w).memory := by
  have hleave := Entry.leaves_closed hl e ok w
  obtain ⟨es, hes, ht⟩ := hleave.trace
  exact ⟨es, hes, ht, fun hh ↦ (hleave.holds_iff.1 hh).1 rfl⟩

namespace InOrder

theorem once (hm : InOrder h cb a K w.memory) (c : Nat) : w.memory.Over c ∨
    w.memory.leasesOf c = 1 ∧ w.memory.releasesOf c = 0 ∧ (c ∈ K ∨ c ∈ a ∨ c ∈ w.memory.owned) := by
  by_cases hc : w.memory.Holds c
  · obtain ⟨hr, hl⟩ := hm.balanced.unreleased c hc
    refine .inr ⟨hl, hr, ?_⟩
    rw [← List.mem_append]
    exact hm.holds c hc
  · have hr := hm.balanced.released c hc
    obtain hl | hl := Nat.le_one_iff_eq_zero_or_eq_one.1 (hm.balanced.leased_once c)
    · exact .inl (.inl ⟨hl, hr.trans hl⟩)
    · exact .inl (.inr ⟨hl, hr.trans hl, hm.balanced.settled c hc (by omega)⟩)

theorem joined {thread b c : Nat} (body : Nat → Call α)
    (ha : w.memory.active.lookup (thread, b) = some c) (hp : (w.memory.pools.lookup b).isSome) :
    Call.exec h cb (Blocking.connection thread b body) w = Call.exec h cb (body c) w := by
  rw [Blocking.connection, Call.exec_bind, Blocking.exec_enter_of_some ha hp]
  exact Blocking.Entry.exec_scope_joined rfl _ _

theorem outermost (hl : h.Lawful) (hm : InOrder h cb a K w.memory) {thread b : Nat}
    (body : Nat → Call α) (hbody : ∀ c, Code (c :: K) (body c).run)
    (ha : w.memory.active.lookup (thread, b) = none) : OwnScope h cb thread b body w := by
  have henter : Enters a thread b true w (Call.exec h cb (Blocking.enter thread b true) w).1
      (Call.exec h cb (Blocking.enter thread b true) w).2 := enters hl hm.balanced thread b true
  unfold OwnScope
  rw [Blocking.connection, Call.exec_bind]
  generalize Call.exec h cb (Blocking.enter thread b true) w = r at henter ⊢
  obtain ⟨r, w₁⟩ := r
  cases henter with
  | failed hq he => exact .inl ⟨_, rfl, hq.leasesOf⟩
  | joined ha' =>
    rw [ha] at ha'
    cases ha'
  | @leased e _ he _ ho =>
    have hreg : e.registered = true := by rw [he]
    have hb := ho.balanced
    rw [if_pos hreg] at hb
    have hk := (hbody e.connection).sound hl (hm.callback.sound hl) a w₁ hb
      (ho.shared hreg hm.shared)
    have hu := (ho.keeps hk).1
    refine .inr ⟨e, w₁, _, _, rfl, he, (ho.fresh hm.balanced).1, rfl,
      (hk.balanced.unreleased _ hu.1).1, ?_⟩
    change e.Ends _ _ (Call.exec h cb (Blocking.Entry.guarded e
      (Blocking.caught (body e.connection)) >>= Blocking.Entry.exit e) w₁).2.memory
    rw [Blocking.Entry.exec_scope_snd hl (by rw [he]) _ rfl hu]
    exact Entry.ends_closed hl e _ _

theorem opened (hl : h.Lawful) (hm : InOrder h cb a K w.memory) {thread : Nat} {b : Bound}
    (shape : Shape) (args : Arguments)
    (ha : w.memory.active.lookup (thread, b.binder) = none) :
    let r := Call.exec h cb (Blocking.stream thread b shape args) w
    OwnStream thread b w r.1 r.2.memory := by
  have hopen : Stream.Opened h a thread b.binder w
      (Call.exec h cb (Blocking.stream thread b shape args) w).1
      (Call.exec h cb (Blocking.stream thread b shape args) w).2 :=
    Stream.opened_stream hl (hm.callback.sound hl) hm.balanced _ _ _ _
  generalize Call.exec h cb (Blocking.stream thread b shape args) w = r at hopen
  obtain ⟨r, w'⟩ := r
  cases hopen with
  | failed hr hq he => exact .inl ⟨hr, hq.leasesOf⟩
  | joined ha' hk hs =>
    rw [ha] at ha'
    cases ha'
  | @opened s e w₁ _ he ha ho hk hs hf =>
    obtain ⟨hn, hends⟩ := ho.fresh hm.balanced
    have hu : s.Entitled w'.memory :=
      (Stream.Opened.passes (Stream.Opened.opened (h := h) he ha ho hk hs hf)).2.1
    exact .inr ⟨e, he, hn, .inl ⟨s, rfl, hs, hf, hu, hk.ends.trans hends⟩⟩
  | @closed _ e w₁ w₂ hr he _ ho hk =>
    obtain ⟨hn, hends⟩ := ho.fresh hm.balanced
    exact .inr ⟨e, he, hn, .inr ⟨hr, w₂.memory, hk.ends.trans hends, Entry.ends_closed hl e _ _⟩⟩

theorem borrowed (hl : h.Lawful) (hm : InOrder h cb a K w.memory) {thread c : Nat} {b : Bound}
    (shape : Shape) (args : Arguments)
    (ha : w.memory.active.lookup (thread, b.binder) = some c) :
    let r := Call.exec h cb (Blocking.stream thread b shape args) w
    r.2.memory.endsOf c = w.memory.endsOf c ∧ ∀ s, r.1 = .ok s → s.entry = none := by
  have hopen : Stream.Opened h a thread b.binder w
      (Call.exec h cb (Blocking.stream thread b shape args) w).1
      (Call.exec h cb (Blocking.stream thread b shape args) w).2 :=
    Stream.opened_stream hl (hm.callback.sound hl) hm.balanced _ _ _ _
  generalize Call.exec h cb (Blocking.stream thread b shape args) w = r at hopen
  obtain ⟨r, w'⟩ := r
  cases hopen with
  | failed hr hq he =>
    refine ⟨he c, fun s hs ↦ ?_⟩
    rw [show r = .ok s from hs] at hr
    cases hr
  | joined ha' hk hs =>
    rw [ha, Option.some.injEq] at ha'
    subst ha'
    exact ⟨hk.ends, hs⟩
  | opened he ha' ho hk hs hf =>
    rw [ha] at ha'
    cases ha'
  | closed hr he ha' ho hk =>
    rw [ha] at ha'
    cases ha'

theorem pulled (hl : h.Lawful) {s : Stream} {e : Entry} {x : Context} (n : Nat)
    (hx : x.mode = .blocking) (hs : s.Entitled w.memory) (he : s.entry = some e)
    (hf : s.finished = false) :
    let r := (x.pull s n).runInSequence h cb w
    Pulls e w r.1.1 r.1.2 r.2.memory := by
  have hp : Stream.Pulled h s w ((x.pull s n).runInSequence h cb w).1.1
      ((x.pull s n).runInSequence h cb w).1.2 ((x.pull s n).runInSequence h cb w).2 :=
    Stream.pulled_pull hl hx n hs fun h' ↦ absurd h' (by rw [hf]; exact Bool.false_ne_true)
  generalize (x.pull s n).runInSequence h cb w = r at hp
  obtain ⟨⟨r, s'⟩, w'⟩ := r
  cases hp with
  | opened hr he' hf' hi =>
    refine .inl ⟨hr, he'.trans he, (hr.entitled hs).of_entry he', fun items ended h' ↦ ?_⟩
    cases h'
    exact ⟨rfl, hf'.trans hf, hi⟩
  | panicked hr he' =>
    exact .inl ⟨hr, he'.trans he, (hr.entitled hs).of_entry he', fun items ended h' ↦ by cases h'⟩
  | ended hr he' hn hf' ok =>
    rw [he, Option.some.injEq] at he'
    subst he'
    exact .inr ⟨hn, hf', _, ok, hr, Entry.ends_closed hl e ok _⟩
  | joined hr he' hn =>
    rw [he] at he'
    cases he'

theorem dropped (hl : h.Lawful) {s : Stream} {e : Entry} (hs : s.Entitled w.memory)
    (he : s.entry = some e) :
    ∃ m, w.memory.Read m ∧ e.Ends false m (Call.exec h cb (Blocking.dropStream s) w).2.memory := by
  obtain ⟨w', hr, hw⟩ : ∃ w' : World σ, w.memory.Read w'.memory ∧
      (Call.exec h cb (Blocking.dropStream s) w).2 = _ := Stream.exec_dropStream hl hs
  rw [he] at hw
  rw [hw]
  exact ⟨w'.memory, hr, Entry.ends_closed hl e false w'⟩

theorem plain (hl : h.Lawful) {s : Stream} {x : Context} (n : Nat) (hx : x.mode = .blocking)
    (hn : s.entry = none) :
    w.memory.Read ((x.pull s n).runInSequence h cb w).2.memory ∧
    ((x.pull s n).runInSequence h cb w).1.2.entry = none ∧
    w.memory.Read (Call.exec h cb (Blocking.dropStream s) w).2.memory := by
  have hs : s.Entitled w.memory := Stream.entitled_of_none hn _
  have hp : Stream.Pulled h s w ((x.pull s n).runInSequence h cb w).1.1
      ((x.pull s n).runInSequence h cb w).1.2 ((x.pull s n).runInSequence h cb w).2 :=
    Stream.pulled_pull hl hx n hs fun _ ↦ hn
  obtain ⟨hr, he⟩ := hp.read hn
  obtain ⟨w', hr', hw⟩ : ∃ w' : World σ, w.memory.Read w'.memory ∧
      (Call.exec h cb (Blocking.dropStream s) w).2 = _ := Stream.exec_dropStream hl hs
  rw [hn] at hw
  rw [hw]
  exact ⟨hr, he, hr'⟩

theorem lifecycle (hl : h.Lawful) (hm : InOrder h cb a K w.memory) : Lifecycle h cb a K w where
  once := hm.once
  joined := joined
  outermost := hm.outermost hl
  opened := hm.opened hl
  borrowed := hm.borrowed hl
  named p hp := ⟨hm.balanced.stream p hp, hm.balanced.ended p hp⟩
  pulled n := pulled hl n
  dropped := dropped hl
  plain n := plain hl n

end InOrder

theorem Program.owned_run (hl : h.Lawful) {l : List Step} (hs : Step.allBound l)
    (hm : InOrder h cb [] [] w.memory) :
    ((Program.run .blocking l).runInSequence h cb w).2.memory.owned = [] := by
  have hrest : Action.Sound h cb [] (do
      let body ← Desk.openBody
      (Step.runAll (.start .blocking) body l).run) :=
    (Code.openBody.bind fun body ↦ Code.steps rfl body l hs []).sound hl (hm.callback.sound hl)
  have hk := (hrest [] w hm.balanced (by simp)).balanced
  rw [Action.runInSequence_bind] at hk
  unfold Program.run
  simp only [Action.runInSequence_bind]
  exact (Action.Sound.passes_finish hl rfl hk _).2

theorem Program.all_over (hl : h.Lawful) (s : σ) (logged : Bool) {l : List Step}
    (hs : Step.allBound l) (c : Nat) :
    (Program.runInSequence h s .blocking logged l).2.memory.Over c := by
  have hr : Reached h _ [] [] ⟨Program.memory false logged, s⟩ :=
    .start (Program.reenters h (Step.sizeAll l)) false logged s
  obtain ho | ⟨-, -, hc⟩ := ((hr.after (Code.program hs)).inOrder hl).once c
  · exact ho
  · rw [Program.owned_run hl hs (hr.inOrder hl)] at hc
    simp at hc

/-- Whatever succeeds, fails or panics, every connection that is leased is released once, right after
the terminal actions of its scope, by the entry that leased it or by the stream that has the scope to
itself. -/
theorem connections_released_once (hl : h.Lawful) :
    (∀ (cb : Callback σ) (a K : List Nat) (w : World σ), Reached h cb a K w → Lifecycle h cb a K w) ∧
    ∀ (s : σ) (logged : Bool) (l : List Step), Step.allBound l →
      ∀ c, (Program.runInSequence h s .blocking logged l).2.memory.Over c :=
  ⟨fun _ _ _ _ hr ↦ (hr.inOrder hl).lifecycle hl,
    fun s logged _ hs ↦ Program.all_over hl s logged hs⟩

def Script.affecting (n : Nat) : Host Unit :=
  ⟨fun _ o id _ ↦ ((Script.comply o id { replies := [.affected n] }).1, ())⟩

theorem Script.lawful_affecting (n : Nat) : (Script.affecting n).Lawful where
  step _ o _ _ _ hs := by cases o <;> cases hs
  callback _ o _ _ _ := by cases o <;> rfl
  fault _ o _ _ hf := by cases o <;> cases hf
  rollback _ _ _ _ := rfl

def Program.nested : List Step :=
  [.binder "accounts" (some ⟨false, .questionMark, 1⟩),
    .connection "accounts" none [.connection "accounts" none [] (.value 1)] (.value 2)]

theorem connections_released_once_nested :
    let m := (Program.runInSequence (Script.affecting 1) () .blocking true Program.nested).2.memory
    m.leasesOf 1 = 1 ∧ m.Over 1 ∧
      ∃ cb, Lifecycle (Script.affecting 1) cb [] [] ⟨Program.memory false true, ()⟩ := by
  obtain ⟨hpoints, hruns⟩ := connections_released_once (Script.lawful_affecting 1)
  refine ⟨by decide +kernel, hruns () true Program.nested (by decide) 1, ?_⟩
  exact ⟨_, hpoints _ _ _ _ (.start .never false true ())⟩

end BoundSql
