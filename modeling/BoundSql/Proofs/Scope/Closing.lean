import BoundSql.Proofs.Scope.Obtaining

namespace BoundSql

open Memory

variable {σ α β : Type} {h : Host σ} {x : Context} {n w : Nat} {e due : Option Nat} {t t' t'' : Tenure}
  {l es es' : List Event} {s s' s'' : Runtime σ}

def Event.isQuery : Event → Bool
  | .operation (.query _ _ _) _ _ => true
  | _ => false

theorem Event.isQuery_of_opens {e : Event} (he : e.opens) : e.isQuery := by
  cases e with
  | operation o d st => cases o <;> first | rfl | cases he
  | _ => cases he

def Event.JustOpened (l : List Event) : Prop := ∃ e ∈ l.getLast?, Event.opens e

theorem Event.JustOpened.append (hl : Event.JustOpened es) (l : List Event) :
    Event.JustOpened (l ++ es) := by
  obtain ⟨e, he, ho⟩ := hl
  rw [Option.mem_def] at he
  exact ⟨e, by simp [List.getLast?_append, he], ho⟩

def Tenure.room : Tenure → Nat
  | before => 1
  | held | after => 0

/-- What a turn leaves as it was. Until the action is through with the cursor it starts nothing, and
nothing is released. -/
structure Tenure.Moves (n : Nat) (t : Tenure) (s : Runtime σ) (es : List Event) (t' : Tenure)
    (s' : Runtime σ) : Prop where
  aside : t' ≠ .after → t ≠ .after ∧ s'.tasks = s.tasks ∧ s'.memory.started = s.memory.started ∧
    ∀ c, s'.memory.releasesOf c = s.memory.releasesOf c
  queries : t ≠ .before → t' ≠ .before ∧ es.countP Event.isQuery = 0
  closes : s.memory.closesOf n + es.countP (Event.closes n) ≤ s'.memory.closesOf n

namespace Tenure

theorem Moves.refl (n : Nat) (t : Tenure) (s : Runtime σ) : t.Moves n s [] t s :=
  ⟨fun ht ↦ ⟨ht, rfl, rfl, fun _ ↦ rfl⟩, fun ht ↦ ⟨ht, rfl⟩, Nat.le_refl _⟩

theorem Moves.trans (hm : t.Moves n s es t' s') (hm' : t'.Moves n s' es' t'' s'') :
    t.Moves n s (es ++ es') t'' s'' := by
  refine ⟨?_, ?_, ?_⟩
  · intro ht
    obtain ⟨ht', htasks', hstarted', hreleases'⟩ := hm'.aside ht
    obtain ⟨ht, htasks, hstarted, hreleases⟩ := hm.aside ht'
    exact ⟨ht, htasks'.trans htasks, hstarted'.trans hstarted,
      fun c ↦ (hreleases' c).trans (hreleases c)⟩
  · intro ht
    obtain ⟨ht', hes⟩ := hm.queries ht
    obtain ⟨ht'', hes'⟩ := hm'.queries ht'
    exact ⟨ht'', by rw [List.countP_append, hes, hes']⟩
  · have hcloses := hm.closes
    have hcloses' := hm'.closes
    rw [List.countP_append]
    omega

theorem To.moves (ht : t.To t') (n : Nat) (s : Runtime σ) : t.Moves n s [] t' s := by
  cases ht with
  | refl => exact .refl n t s
  | giveUp => exact ⟨fun ht ↦ absurd rfl ht, fun ht ↦ absurd rfl ht, Nat.le_refl _⟩

theorem To.weight (ht : t.To t') : t'.weight = t.weight := by
  cases ht <;> rfl

theorem To.room_le (ht : t.To t') : t'.room ≤ t.room := by
  cases ht <;> simp [room]

end Tenure

theorem Memory.releasesOf_of_operations {m m' : Memory} (ho : m'.operations = m.operations) (c : Nat) :
    m'.releasesOf c = m.releasesOf c := by
  have hp : ∀ e, Event.releases c e → e.isOperation := fun e he ↦ by
    cases e <;> first | rfl | cases he
  rw [releasesOf, releasesOf, List.countP_eq_length_filter, List.countP_eq_length_filter,
    ← filter_operations hp, ← filter_operations hp, ho]

theorem Memory.releasesOf_register {o : Operation} (ho : ∀ b d, o ≠ .release b d) (st : Status)
    (m : Memory) (c : Nat) : (m.register o (o.number m) st).releasesOf c = m.releasesOf c := by
  rw [releasesOf, releasesOf, List.countP_eq_length_filter, List.countP_eq_length_filter,
    filter_register, List.filter_cons_of_neg]
  · rfl
  · cases o with
    | release b d => exact absurd rfl (ho b d)
    | _ => exact Bool.false_ne_true
  · intro o d st ho
    cases o <;> first | rfl | cases ho

theorem Event.countP_concat (p : Event → Bool) (l : List Event) (e : Event) :
    (l ++ [e]).countP p = l.countP p + (p e).toNat := by
  rw [List.countP_append, List.countP_singleton]
  cases p e <;> rfl

namespace Operation.Suits

variable {o : Operation} {js : List Job} {m : Memory} {st : Status} {r : Outcome o.Answer}

theorem weight_next (ho : o.Suits n t js) (hr : Outcome.isOk r ↔ st = .done) :
    (Event.closes n (o.event m st)).toNat + (t.next n o r).weight =
      t.weight + (Event.opens (o.event m st)).toNat := by
  cases o with
  | query d sql ps =>
    obtain ⟨rfl, -⟩ := ho
    cases r with
    | ok cursor =>
      obtain rfl := hr.1 rfl
      rfl
    | error f =>
      have hst : st ≠ .done := fun h ↦ nomatch hr.2 h
      cases st <;> first | rfl | exact absurd rfl hst
  | close d k =>
    by_cases hk : k = n
    · obtain rfl := ho.1 hk
      subst hk
      simp [Tenure.next, Event.closes, Event.opens, event, Tenure.weight]
    · simp [Tenure.next, Event.closes, Event.opens, event, hk]
  | _ => exact Nat.zero_add _

theorem room_next (ho : o.Suits n t js) (m : Memory) (st : Status) (r : Outcome o.Answer) :
    (Event.isQuery (o.event m st)).toNat + (t.next n o r).room ≤ t.room := by
  cases o with
  | query d sql ps =>
    obtain ⟨rfl, -⟩ := ho
    cases r <;> exact Nat.le_refl 1
  | close d k =>
    have hle : (if k = n then Tenure.after else t).room ≤ t.room := by
      split
      · exact Nat.zero_le _
      · exact Nat.le_refl _
    exact (Nat.zero_add _).symm ▸ hle
  | _ => exact Nat.le_of_eq (Nat.zero_add _)

theorem moves (ho : o.Suits n t js) (hh : h.Plain) (s : Runtime σ) :
    t.Moves n s [s.event h o] (t.next n o (s.perform h o).1) (s.perform h o).2 := by
  have hroom := ho.room_next s.memory (h.reaction o s.world).status (s.perform h o).1
  rw [← Runtime.event_eq] at hroom
  refine ⟨?_, ?_, ?_⟩
  · intro ht
    have hafter : t ≠ .after := by
      rintro rfl
      refine ht ?_
      cases o with
      | query _ _ _ => cases ho.1
      | close d k => exact ite_self _
      | _ => rfl
    refine ⟨hafter, rfl, ?_, fun c ↦ ?_⟩
    · rw [Runtime.memory_perform hh, register_started]
    · rw [Runtime.memory_perform hh]
      refine releasesOf_register ?_ _ _ c
      rintro b d rfl
      exact hafter ho.1
  · intro ht
    have hno : t.room = 0 := by
      cases t with
      | before => exact absurd rfl ht
      | held | after => rfl
    refine ⟨fun hb ↦ ?_, ?_⟩
    · rw [hb, hno] at hroom
      exact absurd hroom (by simp [Tenure.room])
    · rw [List.countP_singleton]
      cases hq : Event.isQuery (s.event h o) with
      | false => rfl
      | true =>
        rw [hq, hno] at hroom
        exact absurd hroom (by simp)
  · rw [Runtime.memory_perform hh, closesOf_register, ← Runtime.event_eq, List.countP_singleton]
    cases Event.closes n (s.event h o) <;> exact Nat.le_refl _

theorem leaves_next (ho : o.Suits n t js) (hr : Outcome.isOk r ↔ st = .done) :
    (t.next n o r).Leaves n js ∨ Event.JustOpened [o.event m st] ∧ t.next n o r = .held ∧
      Tenure.after.Leaves n js := by
  cases o with
  | query d sql ps =>
    obtain ⟨rfl, hjs⟩ := ho
    cases r with
    | ok cursor =>
      obtain rfl := hr.1 rfl
      exact .inr ⟨⟨_, rfl, rfl⟩, rfl, hjs⟩
    | error f => exact .inl hjs
  | close d k => exact .inl ho.2
  | release b d => exact .inl ho.2
  | _ => exact .inl ho

end Operation.Suits

theorem Memory.cursors_register (o : Operation) (st : Status) (m : Memory) :
    (m.register o (o.number m) st).cursors = m.cursors + (Event.isQuery (o.event m st)).toNat := by
  cases o <;> rfl

/-- The books on a cursor, while the action has its turns that stands to it as `t` says, and that has
left the events `l`. The cursor has been closed, or the task has it of the number `due`, or a task has
been started that closes it, or the action has it, or `w` others. `e` is the number of the action if it
is a task itself. -/
structure Runtime.Books (n w : Nat) (e due : Option Nat) (t : Tenure) (l : List Event)
    (s : Runtime σ) : Prop where
  alive : s.memory.tasks = true
  started : ∀ j ∈ s.memory.started, j.tidies
  tasks : ∀ i q, s.tasks[i]? = some q → e ≠ some i →
    q.Minds n (fun t _ ↦ t = .after) True (if due = some i then .held else .after)
  pending : ∀ i, due = some i → i < s.tasks.length ∧ e ≠ some i
  balance : s.memory.closesOf n + due.isSome.toNat + s.memory.started.countP (Job.closes n) +
    t.weight + w = l.countP Event.opens
  room : l.countP Event.isQuery + t.room ≤ 1
  number : s.memory.cursors + 1 = n + l.countP Event.isQuery

theorem Runtime.gather_of_started {jobs : Job → Call Unit} (hs : s.memory.started = []) :
    s.gather jobs = s := by
  obtain ⟨⟨m, w⟩, tasks⟩ := s
  cases m
  cases hs
  simp [gather, withMemory]

namespace Runtime.Books

theorem opens_le (hs : s.Books n w e due t l) : l.countP Event.opens ≤ 1 := by
  have hle : l.countP Event.opens ≤ l.countP Event.isQuery :=
    List.countP_mono_left fun _ _ ↦ Event.isQuery_of_opens
  have hroom := hs.room
  omega

theorem become (hs : s.Books n w e due t l) (ht : t.To t') : s.Books n w e due t' l := by
  obtain ⟨halive, hstarted, htasks, hpending, hbalance, hroom, hnumber⟩ := hs
  refine ⟨halive, hstarted, htasks, hpending, ht.weight ▸ hbalance, ?_, hnumber⟩
  have hle := ht.room_le
  omega

theorem change (hs : s.Books n w e due t l) {m : Memory} (hm : t.Changes n s.memory m) :
    (s.withMemory m).Books n w e due t l := by
  obtain ⟨js, hjs, -, htidy⟩ := hm.started
  have hcount : m.started.countP (Job.closes n) = s.memory.started.countP (Job.closes n) := by
    have hnone : js.countP (Job.closes n) = 0 :=
      List.countP_eq_zero.2 fun j hj ↦ by rw [(htidy j hj).2]; exact Bool.false_ne_true
    rw [hjs, List.countP_append, hnone, Nat.add_zero]
  refine ⟨hm.tasks.trans hs.alive, fun j hj ↦ ?_, hs.tasks, hs.pending, ?_, hs.room, ?_⟩
  · rw [memory_withMemory, hjs] at hj
    obtain hj | hj := List.mem_append.1 hj
    · exact hs.started j hj
    · exact (htidy j hj).1
  · rw [memory_withMemory, closesOf_of_operations hm.operations, hcount]
    exact hs.balance
  · rw [memory_withMemory, hm.cursors]
    exact hs.number

theorem handOver (hs : s.Books n w e due .held l) {j : Job} (hj : j.closes n) :
    (s.withMemory (s.memory.start j)).Books n w e due .after l := by
  have hm : s.memory.start j = { s.memory with started := s.memory.started ++ [j] } :=
    if_pos hs.alive
  rw [hm]
  refine ⟨hs.alive, fun i hi ↦ ?_, hs.tasks, hs.pending, ?_, hs.room, hs.number⟩
  · obtain hi | hi := List.mem_append.1 hi
    · exact hs.started i hi
    · rw [List.mem_singleton.1 hi]
      exact Job.tidies_of_closes hj
  · have hbalance := hs.balance
    change s.memory.closesOf n + _ + (s.memory.started ++ [j]).countP (Job.closes n) + 0 + w = _
    rw [List.countP_append, List.countP_singleton, if_pos hj]
    simp only [Tenure.weight] at hbalance
    omega

theorem join (hs : s.Books n w none due t l) {j : Job} {js : List Job}
    (hj : s.memory.started = j :: js) (x : Context) :
    ((s.withMemory { s.memory with started := js }).spawn (Job.run x) j).Books n w none
      (if j.closes n then some s.tasks.length else due) t l := by
  have hbalance := hs.balance
  have hle := hs.opens_le
  have htidy : j.tidies := hs.started j (by simp [hj])
  have hmem : ∀ i ∈ js, i ∈ s.memory.started := fun i hi ↦ by simp [hj, hi]
  have hdue : ∀ i, due = some i → i < s.tasks.length := fun i hi ↦ (hs.pending i hi).1
  have hlen : ((s.withMemory { s.memory with started := js }).spawn (Job.run x) j).tasks.length =
      s.tasks.length + 1 := by simp [Runtime.spawn]
  rw [hj, List.countP_cons] at hbalance
  have hnone : j.closes n → due = none := by
    intro hn
    rw [if_pos hn] at hbalance
    cases due with
    | none => rfl
    | some i =>
      simp only [Option.isSome_some, Bool.toNat_true] at hbalance
      omega
  refine ⟨hs.alive, fun i hi ↦ hs.started i (hmem i hi), fun i q hq _ ↦ ?_, fun i hi ↦ ?_, ?_,
    hs.room, hs.number⟩
  · change (s.tasks ++ [Suspended.start (j.run x).run])[i]? = some q at hq
    rw [List.getElem?_append] at hq
    split at hq
    · rename_i hlt
      have hnot : (none : Option Nat) ≠ some i := Option.some_ne_none i |>.symm
      have hq' := hs.tasks i q hq hnot
      by_cases hn : j.closes n
      · rw [hnone hn, if_neg hnot] at hq'
        rw [if_pos hn, if_neg fun hi ↦ Nat.ne_of_gt hlt (Option.some.inj hi)]
        exact hq'
      · rwa [if_neg hn]
    · rename_i hge
      have hi : i = s.tasks.length := by
        have hlt := (List.getElem?_eq_some_iff.1 hq).1
        rw [List.length_singleton] at hlt
        omega
      rw [List.mem_singleton.1 (List.mem_of_getElem? hq)]
      have hminds := Job.minds (n := n) htidy x
      have hstart : (if (if j.closes n then some s.tasks.length else due) = some i then
          Tenure.held else .after) = if j.closes n then .held else .after := by
        by_cases hn : j.closes n
        · simp [hn, hi]
        · rw [if_neg hn, if_neg hn, if_neg]
          exact fun hd ↦ Nat.lt_irrefl _ (hi ▸ hdue i hd)
      rw [hstart]
      refine ⟨?_, hminds⟩
      by_cases hn : j.closes n
      · rw [if_pos hn]
        exact .inr ⟨trivial, rfl, .nil Tenure.noConfusion⟩
      · rw [if_neg hn]
        exact .inl (.nil Tenure.noConfusion)
  · refine ⟨?_, (Option.some_ne_none i).symm⟩
    rw [hlen]
    by_cases hn : j.closes n
    · rw [if_pos hn] at hi
      have := Option.some.inj hi
      omega
    · rw [if_neg hn] at hi
      exact Nat.lt_succ_of_lt (hdue i hi)
  · change s.memory.closesOf n + _ + js.countP (Job.closes n) + _ + _ = _
    by_cases hn : j.closes n
    · rw [hnone hn, if_pos hn] at hbalance
      rw [if_pos hn]
      simp only [Option.isSome_none, Option.isSome_some, Bool.toNat_false, Bool.toNat_true] at hbalance ⊢
      omega
    · rw [if_neg hn] at hbalance
      rwa [if_neg hn]

theorem gather (hs : s.Books n w none due t l) (x : Context) :
    ∃ due, (s.gather (Job.run x)).Books n w none due t l := by
  generalize hjs : s.memory.started = js
  induction js generalizing s due with
  | nil =>
    rw [gather_of_started hjs]
    exact ⟨due, hs⟩
  | cons j js ih =>
    have hrest : s.gather (Job.run x) =
        ((s.withMemory { s.memory with started := js }).spawn (Job.run x) j).gather (Job.run x) := by
      simp [Runtime.gather, Runtime.spawn, withMemory, hjs]
    rw [hrest]
    exact ih (hs.join hjs x) rfl

theorem spawn (hs : s.Books n w e due t l) {j : Job} (hj : j.tidies) (hn : j.closes n = false)
    (x : Context) : (s.spawn (Job.run x) j).Books n w e due t l := by
  refine ⟨hs.alive, hs.started, fun i q hq hi ↦ ?_, fun i hi ↦ ?_, hs.balance, hs.room, hs.number⟩
  · change (s.tasks ++ [Suspended.start (j.run x).run])[i]? = some q at hq
    rw [List.getElem?_append] at hq
    split at hq
    · exact hs.tasks i q hq hi
    · rename_i hge
      have hdue : due ≠ some i := fun hd ↦ hge (hs.pending i hd).1
      have hminds := Job.minds (n := n) hj x
      rw [hn, if_neg Bool.false_ne_true] at hminds
      rw [List.mem_singleton.1 (List.mem_of_getElem? hq), if_neg hdue]
      exact ⟨.inl (.nil nofun), hminds⟩
  · obtain ⟨hlt, he⟩ := hs.pending i hi
    refine ⟨?_, he⟩
    simp only [Runtime.spawn, List.length_append, List.length_singleton]
    omega

theorem perform (hh : h.Plain) (hs : s.Books n w e due t l) {o : Operation} {js : List Job}
    (ho : o.Suits n t js) :
    (s.perform h o).2.Books n w e due (t.next n o (s.perform h o).1) (l ++ [s.event h o]) := by
  have hm := memory_perform hh o s
  have hok := (answers_perform hh o s).2
  have hweight := ho.weight_next (m := s.memory) hok
  have hroom := ho.room_next s.memory (h.reaction o s.world).status (s.perform h o).1
  have hcloses := closesOf_register (n := n) o (h.reaction o s.world).status s.memory
  have hcursors := cursors_register o (h.reaction o s.world).status s.memory
  rw [← hm] at hcloses hcursors
  rw [event_eq]
  refine ⟨?_, fun j hj ↦ ?_, hs.tasks, hs.pending, ?_, ?_, ?_⟩
  · rw [hm]
    cases o <;> exact hs.alive
  · rw [hm, register_started] at hj
    exact hs.started j hj
  · have hbalance := hs.balance
    have hstarted : (s.perform h o).2.memory.started = s.memory.started := by
      rw [hm, register_started]
    rw [hcloses, hstarted, Event.countP_concat]
    omega
  · have hbefore := hs.room
    rw [Event.countP_concat]
    omega
  · have hnumber := hs.number
    rw [hcursors, Event.countP_concat]
    omega

theorem gives (hh : h.Plain) (hs : s.Books n w e due t l) {o : Operation} {js : List Job}
    (ho : o.Suits n t js) : o.Gives n (s.perform h o).1 := by
  cases o with
  | query d sql ps =>
    obtain ⟨rfl, -⟩ := ho
    have hroom : l.countP Event.isQuery + 1 ≤ 1 := hs.room
    have hnumber := hs.number
    rintro cursor hc
    obtain ⟨⟨raw, hraw⟩, -⟩ := answers_perform hh (.query d sql ps) s
    rw [hraw] at hc
    cases raw with
    | error f => cases hc
    | ok a =>
      cases hc
      change s.memory.cursors + 1 = n
      omega
  | _ => trivial

end Runtime.Books

/-- Where a turn has led an action: how it stands to the cursor now, and the books. -/
structure Turn.Minds (n w : Nat) (e due : Option Nat) (Q : Tenure → α → Prop) (t : Tenure)
    (l : List Event) (s : Runtime σ) (turn : Turn σ α) (t' : Tenure) : Prop where
  next : turn.next.Minds n Q (Event.JustOpened turn.events) t'
  books : turn.runtime.Books n w e due t' (l ++ turn.events)
  moves : t.Moves n s turn.events t' turn.runtime

variable {Q : Tenure → α → Prop}

theorem Suspended.Minds.mono {F F' : Prop} {q : Suspended α} (hF : F → F') (hq : q.Minds n Q F t) :
    q.Minds n Q F' t := by
  cases q with
  | ready js p => exact ⟨hq.1.imp_right (And.imp_left hF), hq.2⟩
  | done _ | asked _ _ _ | waiting _ _ _ => exact hq

theorem Turn.Minds.after {turn : Turn σ α} (hm : t.Moves n s es t' s')
    (ht : turn.Minds n w e due Q t' (l ++ es) s' t'') : (turn.after es).Minds n w e due Q t l s t'' := by
  refine ⟨ht.next.mono fun hF ↦ hF.append es, ?_, hm.trans ht.moves⟩
  rw [Turn.after, ← List.append_assoc]
  exact ht.books

theorem Turn.Minds.moved {turn : Turn σ α} (hm : t.Moves n s [] t' s')
    (ht : turn.Minds n w e due Q t' l s' t'') : turn.Minds n w e due Q t l s t'' :=
  ⟨ht.next, ht.books, hm.trans ht.moves⟩

theorem Tenure.Changes.moves {m : Memory} (hc : t.Changes n s.memory m) :
    t.Moves n s [] t (s.withMemory m) := by
  obtain ⟨js, hjs, hnone, -⟩ := hc.started
  refine ⟨fun ht ↦ ⟨ht, rfl, ?_, fun c ↦ ?_⟩, fun ht ↦ ⟨ht, rfl⟩, ?_⟩
  · rw [Runtime.memory_withMemory, hjs, hnone ht, List.append_nil]
  · exact releasesOf_of_operations hc.operations c
  · exact Nat.le_of_eq (closesOf_of_operations hc.operations).symm

section

variable (hh : h.Plain) (hr : h.Returns)
include hh hr

theorem Operation.Suits.turn {o : Operation} {js : List Job} {k : Outcome o.Answer → Action α}
    (ho : o.Suits n t js)
    (hk : ∀ r, Outcome.isPanic r = false → o.Gives n r → (k r).Minds n Q (t.next n o r))
    (hs : s.Books n w e due t l) :
    (Turn.mk [s.event h o] (.ready js (k (s.perform h o).1)) (s.perform h o).2).Minds n w e due Q t l s
      (t.next n o (s.perform h o).1) := by
  have hpanic : Outcome.isPanic (s.perform h o).1 = false := by
    rw [Runtime.perform_eq hh]
    exact (Outcome.isPanic_map _ _).trans (hr _ _ _ _)
  have hok := (Runtime.answers_perform hh o s).2
  exact ⟨⟨ho.leaves_next hok, hk _ hpanic (hs.gives hh ho)⟩, hs.perform hh ho, ho.moves hh s⟩

theorem Action.Minds.proceed {p : Action α} (hp : p.Minds n Q t) (hs : s.Books n w e due t l) :
    ∃ t', (p.proceed h (Job.run x) s).Minds n w e due Q t l s t' := by
  induction p generalizing s t with
  | done a =>
    refine ⟨t, hp, ?_, .refl n t s⟩
    rw [Action.proceed, List.append_nil]
    exact hs
  | memory f k ih =>
    obtain ⟨t₁, hto, hk⟩ := hp
    have hs₁ := hs.become hto
    obtain ⟨hc, hk⟩ | ⟨rfl, ⟨j, hj, hf⟩, hk⟩ := hk s.memory hs.alive
    · obtain ⟨t', ht'⟩ := ih s.memory hk (hs₁.change hc)
      exact ⟨t', ht'.moved ((hto.moves n s).trans hc.moves)⟩
    · have hm : f s.memory = { s.memory with started := s.memory.started ++ [j] } :=
        hf.trans (if_pos hs.alive)
      have hstart : Tenure.held.Moves n s [] .after (s.withMemory (f s.memory)) :=
        ⟨fun ht ↦ absurd rfl ht, fun _ ↦ ⟨Tenure.noConfusion, rfl⟩, by rw [hm]; exact Nat.le_refl _⟩
      obtain ⟨t', ht'⟩ := ih s.memory hk (s := s.withMemory (f s.memory)) (hf ▸ hs₁.handOver hj)
      exact ⟨t', ht'.moved ((hto.moves n s).trans hstart)⟩
  | operation o js k ih =>
    obtain ⟨t₁, hto, ho, hk⟩ := hp
    unfold Action.proceed
    split
    · exact ⟨_, (ho.turn hh hr hk (hs.become hto)).moved (hto.moves n s)⟩
    · refine ⟨t, ⟨t₁, hto, ho, hk⟩, ?_, .refl n t s⟩
      rw [List.append_nil]
      exact hs
  | wait v js k ih =>
    obtain ⟨t₁, hto, hjs, hv, hk⟩ := hp
    have hs₁ := hs.become hto
    refine ⟨t₁, ?_⟩
    cases v with
    | task j =>
      obtain ⟨rfl, hj, hn⟩ := hv j rfl
      refine ⟨⟨hjs, fun r ↦ hk r trivial⟩, ?_, fun ht ↦ absurd rfl ht,
        fun ht ↦ ⟨Tenure.noConfusion, rfl⟩, Nat.le_refl _⟩
      rw [Action.proceed, List.append_nil]
      exact hs₁.spawn hj hn x
    | idle | access c =>
      refine ⟨⟨.inl hjs, hk _ rfl⟩, ?_, hto.moves n s⟩
      change s.Books n w e due t₁ (l ++ [])
      rw [List.append_nil]
      exact hs₁

theorem Suspended.Minds.turn {F : Prop} {q : Suspended α} (hq : q.Minds n Q F t)
    (hs : s.Books n w e due t l) {turn : Turn σ α} (ht : q.turn h (Job.run x) s = some turn) :
    ∃ t', turn.Minds n w e due Q t l s t' := by
  cases q with
  | done a => cases ht
  | ready js p =>
    cases ht
    exact hq.2.proceed hh hr hs
  | asked o js k =>
    obtain ⟨t₁, hto, ho, hk⟩ := hq
    have hturn := ho.turn hh hr hk (hs.become hto)
    unfold Suspended.turn at ht
    dsimp only at ht
    split at ht
    · cases ht
      obtain ⟨t', ht'⟩ := hturn.next.2.proceed hh hr hturn.books
      exact ⟨t', ht'.after ((hto.moves n s).trans hturn.moves)⟩
    · cases ht
      exact ⟨_, hturn.moved (hto.moves n s)⟩
  | waiting i js k =>
    unfold Suspended.turn at ht
    dsimp only at ht
    split at ht
    · cases ht
      exact (hq.2 _).proceed hh hr hs
    · cases ht

end

namespace Runtime.Books

theorem toTask (hs : s.Books n w none due t l) (i : Nat) :
    s.Books n (w + t.weight) (some i) (if due = some i then none else due)
      (if due = some i then .held else .after) l := by
  have hbalance := hs.balance
  have hroom := hs.room
  by_cases hd : due = some i
  · subst hd
    rw [if_pos rfl, if_pos rfl]
    refine ⟨hs.alive, hs.started, fun k p hp hk ↦ ?_, nofun, ?_, ?_, hs.number⟩
    · rw [if_neg nofun]
      have hp' := hs.tasks k p hp nofun
      rwa [if_neg hk] at hp'
    · simp only [Option.isSome_some, Option.isSome_none, Bool.toNat_true, Bool.toNat_false,
        Tenure.weight] at hbalance ⊢
      omega
    · exact Nat.le_trans (Nat.le_add_right _ _) hroom
  · rw [if_neg hd, if_neg hd]
    refine ⟨hs.alive, hs.started, fun k p hp _ ↦ hs.tasks k p hp nofun, fun k hk ↦ ?_, ?_, ?_,
      hs.number⟩
    · refine ⟨(hs.pending k hk).1, fun h ↦ hd ?_⟩
      rw [hk, h]
    · simp only [Tenure.weight] at hbalance ⊢
      omega
    · exact Nat.le_trans (Nat.le_add_right _ _) hroom

theorem ofTask (hroom : l.countP Event.isQuery + t.room ≤ 1) {i : Nat} {F : Prop}
    (hs : s.Books n (w + t.weight) (some i) due t' (l ++ es)) (hes : es.countP Event.isQuery = 0)
    (ht : t' ≠ .before) (hi : i < s.tasks.length) {q : Suspended (Outcome Unit)}
    (hq : q.Minds n (fun t _ ↦ t = .after) F t') :
    ({ s with tasks := s.tasks.set i q } : Runtime σ).Books n w none
      (if t' = .held then some i else due) t l := by
  have hopens : es.countP Event.opens = 0 := by
    have hle : es.countP Event.opens ≤ es.countP Event.isQuery :=
      List.countP_mono_left fun _ _ ↦ Event.isQuery_of_opens
    omega
  have hbalance := hs.balance
  have hle := hs.opens_le
  have hnumber := hs.number
  rw [List.countP_append, hopens, Nat.add_zero] at hbalance hle
  rw [List.countP_append, hes, Nat.add_zero] at hnumber
  have hdue : t' = .held → due = none := by
    rintro rfl
    cases due with
    | none => rfl
    | some i =>
      simp only [Option.isSome_some, Bool.toNat_true, Tenure.weight] at hbalance
      omega
  have hother : due ≠ some i := fun h ↦ (hs.pending i h).2 rfl
  refine ⟨hs.alive, hs.started, fun k p hp _ ↦ ?_, fun k hk ↦ ⟨?_, nofun⟩, ?_, hroom, hnumber⟩
  · by_cases hki : k = i
    · subst hki
      have hp' : q = p := by
        change (s.tasks.set k q)[k]? = some p at hp
        rw [List.getElem?_set_self hi] at hp
        exact Option.some.inj hp
      have hstand : (if (if t' = .held then some k else due) = some k then Tenure.held else .after) =
          t' := by
        cases t' with
        | before => exact absurd rfl ht
        | held => simp
        | after => simp [hother]
      rw [hstand, ← hp']
      exact hq.mono fun _ ↦ trivial
    · have hp' : s.tasks[k]? = some p := by
        change (s.tasks.set i q)[k]? = some p at hp
        rwa [List.getElem?_set_ne (Ne.symm hki)] at hp
      have hk := hs.tasks k p hp' fun h ↦ hki (Option.some.inj h).symm
      by_cases hheld : t' = .held
      · rw [hdue hheld, if_neg nofun] at hk
        rw [if_pos hheld, if_neg fun h ↦ hki (Option.some.inj h).symm]
        exact hk
      · rwa [if_neg hheld]
  · rw [List.length_set]
    split at hk
    · obtain rfl := Option.some.inj hk
      exact hi
    · exact (hs.pending k hk).1
  · change s.memory.closesOf n + _ + s.memory.started.countP (Job.closes n) + _ + _ = _
    cases t' with
    | before => exact absurd rfl ht
    | held =>
      rw [hdue rfl] at hbalance
      simp only [Option.isSome_none, Option.isSome_some, Bool.toNat_false, Bool.toNat_true, if_true,
        Tenure.weight] at hbalance ⊢
      omega
    | after =>
      rw [if_neg nofun]
      simp only [Tenure.weight] at hbalance ⊢
      omega

theorem step (hh : h.Plain) (hr : h.Returns) (hs : s.Books n w none due t l)
    (hstep : s.Step h (Job.run x) s') :
    (∃ due, s'.Books n w none due t l) ∧ s.memory.closesOf n ≤ s'.memory.closesOf n := by
  cases hstep with
  | gather => exact ⟨hs.gather x, Nat.le_refl _⟩
  | @task _ i ht =>
    obtain ⟨q, turn, hi, hturn, rfl⟩ := Runtime.turn_eq_some ht
    obtain ⟨t', hn, hb, hm⟩ := (hs.tasks i q hi nofun).turn hh hr (hs.toTask i) hturn
    have hbefore : (if due = some i then Tenure.held else .after) ≠ .before := by
      split <;> exact nofun
    obtain ⟨ht', hes⟩ := hm.queries hbefore
    have hlt : i < turn.runtime.tasks.length :=
      Nat.lt_of_lt_of_le (List.getElem?_eq_some_iff.1 hi).1 (Suspended.turn_linked hturn).length_le
    exact ⟨⟨_, ofTask hs.room hb hes ht' hlt hn⟩, Nat.le_trans (Nat.le_add_right _ _) hm.closes⟩

theorem steps (hh : h.Plain) (hr : h.Returns) (hs : s.Books n w none due t l)
    (hsteps : Relation.ReflTransGen (Runtime.Step h (Job.run x)) s s') :
    (∃ due, s'.Books n w none due t l) ∧ s.memory.closesOf n ≤ s'.memory.closesOf n := by
  induction hsteps with
  | refl => exact ⟨⟨due, hs⟩, Nat.le_refl _⟩
  | tail _ hstep ih =>
    obtain ⟨⟨due', hs'⟩, hle⟩ := ih
    obtain ⟨hs'', hle'⟩ := hs'.step hh hr hstep
    exact ⟨hs'', Nat.le_trans hle hle'⟩

theorem closed (hs : s.Books n w none due .after l) (hl : s.Linked) (hq : s.Quiet h (Job.run x)) :
    s.memory.closesOf n + w = l.countP Event.opens := by
  have hdue : due = none := by
    cases due with
    | none => rfl
    | some i =>
      obtain ⟨hlt, -⟩ := hs.pending i rfl
      have hi := List.getElem?_eq_getElem hlt
      have hdone := hl.isDone hq hi
      have hminds := hs.tasks i _ hi nofun
      rw [if_pos rfl] at hminds
      generalize s.tasks[i] = q at hdone hminds
      cases q with
      | done r => cases hminds
      | ready _ _ | asked _ _ _ | waiting _ _ _ => cases hdone
  have hbalance := hs.balance
  rw [hdue, hq.1] at hbalance
  exact hbalance

theorem leave (hs : s.Books n 0 e due t l) {js : List Job} (hjs : ∀ j ∈ js, j.tidies)
    (hw : js.countP (Job.closes n) + w = t.weight) : (s.orphaned js).Books n w e due .after l := by
  have hm : (s.orphaned js).memory = { s.memory with started := s.memory.started ++ js } :=
    foldl_start hs.alive js
  refine ⟨?_, fun j hj ↦ ?_, hs.tasks, hs.pending, ?_, ?_, ?_⟩
  · rw [hm]
    exact hs.alive
  · rw [hm] at hj
    obtain hj | hj := List.mem_append.1 hj
    · exact hs.started j hj
    · exact hjs j hj
  · have hbalance := hs.balance
    rw [hm]
    change s.memory.closesOf n + _ + (s.memory.started ++ js).countP (Job.closes n) + 0 + w = _
    rw [List.countP_append]
    omega
  · exact Nat.le_trans (Nat.le_add_right _ _) hs.room
  · rw [hm]
    exact hs.number

end Runtime.Books

def Attends (n : Nat) (Q : Tenure → α → Prop) (F : Prop) (l : List Event) (q : Suspended α)
    (s : Runtime σ) (t : Tenure) : Prop :=
  q.Minds n Q (F ∨ Event.JustOpened l) t ∧ ∃ due, s.Books n 0 none due t l

/-- The action awaits the close of the cursor. -/
def Suspended.Closing (n : Nat) : Suspended α → Prop
  | asked o _ _ => ∃ d, o = .close d n
  | _ => False

/-- If the action is dropped there, nobody closes the cursor: its close is being awaited, or it has just
been opened and not yet been taken into hand. -/
def Suspended.Loses (n : Nat) (l : List Event) (q : Suspended α) : Prop :=
  q.Closing n ∨ Event.JustOpened l ∧ ∀ j ∈ q.orphans, j.closes n = false

def Runtime.Undisposed (c : Nat) (s : Runtime σ) : Prop := s.Idle ∧ s.memory.releasesOf c = 0

namespace Attends

variable {F : Prop} {q q' : Suspended α} {c : Nat}

theorem turn (hh : h.Plain) (hr : h.Returns) (hq : Attends n Q F l q s t) {turn : Turn σ α}
    (ht : q.turn h (Job.run x) s = some turn) :
    ∃ t', Attends n Q F (l ++ turn.events) turn.next turn.runtime t' ∧
      t.Moves n s turn.events t' turn.runtime := by
  obtain ⟨hminds, due, hs⟩ := hq
  obtain ⟨t', hn, hb, hm⟩ := hminds.turn hh hr hs ht
  exact ⟨t', ⟨hn.mono fun hF ↦ .inr (hF.append l), due, hb⟩, hm⟩

/-- Wherever the action gets to. While it is not through with the cursor, nothing else is going on if
nothing was at first. -/
theorem reaches (hh : h.Plain) (hr : h.Returns) (hq : Attends n Q F l q s t)
    (hreach : Reaches h (Job.run x) q s es q' s') :
    ∃ t', Attends n Q F (l ++ es) q' s' t' ∧
      s.memory.closesOf n + es.countP (Event.closes n) ≤ s'.memory.closesOf n ∧
      ∀ c, s.Undisposed c → t' ≠ .after → s'.Undisposed c := by
  induction hreach with
  | refl => exact ⟨t, by rwa [List.append_nil], Nat.le_refl _, fun _ hu _ ↦ hu⟩
  | turn _ ht ih =>
    obtain ⟨t', hq', hcloses, hu⟩ := ih
    obtain ⟨t'', hq'', hm⟩ := hq'.turn hh hr ht
    refine ⟨t'', by rwa [← List.append_assoc], ?_, fun c hs ht'' ↦ ?_⟩
    · have hcloses' := hm.closes
      rw [List.countP_append]
      omega
    · obtain ⟨ht', htasks, hstarted, hreleases⟩ := hm.aside ht''
      obtain ⟨⟨htasks', hstarted'⟩, hreleases'⟩ := hu c hs ht'
      exact ⟨⟨htasks.trans htasks', hstarted.trans hstarted'⟩, (hreleases c).trans hreleases'⟩
  | background _ hstep ih =>
    obtain ⟨t', ⟨hminds, due, hs⟩, hcloses, hu⟩ := ih
    obtain ⟨hs', hle⟩ := hs.step hh hr hstep
    refine ⟨t', ⟨hminds, hs'⟩, Nat.le_trans hcloses hle, fun c hs ht' ↦ ?_⟩
    obtain ⟨hidle, hreleases⟩ := hu c hs ht'
    rw [hidle.step hstep]
    exact ⟨hidle, hreleases⟩

/-- When the action is dropped, a task closes the cursor that it has in hand, unless it loses it. -/
theorem dropped (hq : Attends n Q F l q s t) (hQ : ∀ t a, Q t a → t ≠ .held) :
    ∃ w due, (s.orphaned q.orphans).Books n w none due .after l ∧
      (w = 0 ∧ ¬q.Closing n ∨ w = 1 ∧ (q.Closing n ∨
        (F ∨ Event.JustOpened l) ∧ ∀ j ∈ q.orphans, j.closes n = false)) := by
  obtain ⟨hminds, due, hs⟩ := hq
  have hleft : ∀ {t' : Tenure} {js : List Job}, t.To t' → t'.Leaves n js →
      (s.orphaned js).Books n 0 none due .after l := by
    intro t' js hto hjs
    exact hs.leave hjs.1 (hjs.2.trans hto.weight)
  have hlost : ∀ {js : List Job}, t = .held → Tenure.after.Leaves n js →
      (s.orphaned js).Books n 1 none due .after l := by
    rintro js rfl hjs
    exact hs.leave hjs.1 (congrArg (· + 1) hjs.2)
  cases q with
  | done a =>
    have ht : t.weight = 0 := by
      have hheld := hQ t a hminds
      cases t with
      | held => exact absurd rfl hheld
      | before | after => rfl
    exact ⟨0, due, hs.leave nofun ht.symm, .inl ⟨rfl, id⟩⟩
  | ready js p =>
    obtain ⟨hjs | ⟨hl, ht, hjs⟩, -⟩ := hminds
    · exact ⟨0, due, hleft (.refl t) hjs, .inl ⟨rfl, id⟩⟩
    · refine ⟨1, due, hlost ht hjs, .inr ⟨rfl, .inr ⟨hl, fun j hj ↦ ?_⟩⟩⟩
      exact Bool.eq_false_iff.2 (List.countP_eq_zero.1 hjs.2 j hj)
  | asked o js k =>
    obtain ⟨t', hto, ho, -⟩ := hminds
    cases o with
    | close d m =>
      obtain ⟨hheld, hjs⟩ := ho
      by_cases hm : m = n
      · rw [if_pos hm] at hjs
        have ht : t = .held := by
          cases hheld hm
          cases hto
          rfl
        exact ⟨1, due, hlost ht hjs, .inr ⟨rfl, .inl ⟨d, by rw [hm]⟩⟩⟩
      · rw [if_neg hm] at hjs
        refine ⟨0, due, hleft hto hjs, .inl ⟨rfl, ?_⟩⟩
        rintro ⟨d', hd⟩
        cases hd
        exact hm rfl
    | query _ _ _ | release _ _ => exact ⟨0, due, hleft hto ho.2, .inl ⟨rfl, nofun⟩⟩
    | _ => exact ⟨0, due, hleft hto ho, .inl ⟨rfl, nofun⟩⟩
  | waiting i js k => exact ⟨0, due, hleft (.refl t) hminds.1, .inl ⟨rfl, id⟩⟩

end Attends

/-- The next cursor will have that number. Nobody in the background has anything to do with it; there
are only tasks that clean up. -/
structure Runtime.Unopened (n : Nat) (s : Runtime σ) : Prop where
  alive : s.memory.tasks = true
  number : s.memory.cursors + 1 = n
  unclosed : s.memory.closesOf n = 0
  started : ∀ j ∈ s.memory.started, j.tidies ∧ j.closes n = false
  tasks : ∀ q ∈ s.tasks, q.Minds n (fun t _ ↦ t = .after) True .after
  linked : s.Linked

theorem Runtime.Unopened.attends (hs : s.Unopened n) {p : Action α} (hp : p.Minds n Q .before) :
    Attends n Q False [] (.start p) s .before := by
  have hstarted : s.memory.started.countP (Job.closes n) = 0 :=
    List.countP_eq_zero.2 fun j hj ↦ by rw [(hs.started j hj).2]; exact Bool.false_ne_true
  refine ⟨⟨.inl (.nil nofun), hp⟩, none, hs.alive, fun j hj ↦ (hs.started j hj).1, fun i q hq _ ↦ ?_,
    nofun, ?_, Nat.le_refl 1, hs.number⟩
  · exact hs.tasks q (List.mem_of_getElem? hq)
  · rw [hs.unclosed, hstarted]
    rfl

/-- What becomes of the cursor that the call has obtained, if any, when it is dropped there or done. -/
structure ClosesOnce (h : Host σ) (x : Context) (n : Nat) (es : List Event) (q : Suspended α)
    (s : Runtime σ) : Prop where
  opens : es.countP Event.opens ≤ 1
  once : ∀ {s'}, Relation.ReflTransGen (Runtime.Step h (Job.run x)) (s.orphaned q.orphans) s' →
    s'.memory.closesOf n ≤ es.countP Event.opens
  closed : ∀ {s'}, Relation.ReflTransGen (Runtime.Step h (Job.run x)) (s.orphaned q.orphans) s' →
    s'.Quiet h (Job.run x) → s'.memory.closesOf n = es.countP Event.opens ∨ q.Loses n es
  lost : q.Closing n → ∀ {s'},
    Relation.ReflTransGen (Runtime.Step h (Job.run x)) (s.orphaned q.orphans) s' →
      s'.memory.closesOf n = 0

theorem Runtime.Unopened.closesOnce (hh : h.Plain) (hr : h.Returns) {s₀ : Runtime σ}
    (hs : s₀.Unopened n) {p : Action α} (hp : p.Minds n (fun t _ ↦ t ≠ .held) .before)
    {q : Suspended α} (hreach : Reaches h (Job.run x) (.start p) s₀ es q s) :
    ClosesOnce h x n es q s := by
  obtain ⟨t, hq, -⟩ := (hs.attends hp).reaches hh hr hreach
  rw [List.nil_append] at hq
  obtain ⟨w, due, hbooks, hw⟩ := hq.dropped fun _ _ ht ↦ ht
  have hstart : (Suspended.start p).Linked s₀ := nofun
  have hlinked := (hs.linked.reaches hstart hreach).1
  refine ⟨hbooks.opens_le, fun hsteps ↦ ?_, fun hsteps hquiet ↦ ?_, fun hclosing s' hsteps ↦ ?_⟩
  · obtain ⟨⟨due', hs'⟩, -⟩ := hbooks.steps hh hr hsteps
    have hbalance := hs'.balance
    omega
  · obtain ⟨⟨due', hs'⟩, -⟩ := hbooks.steps hh hr hsteps
    have hlinked' : (s.orphaned q.orphans).Linked := hlinked
    have hclosed := hs'.closed (hlinked'.steps hsteps) hquiet
    obtain ⟨rfl, -⟩ | ⟨-, hloses⟩ := hw
    · exact .inl hclosed
    · exact .inr (hloses.imp_right (And.imp_left (·.resolve_left id)))
  · obtain ⟨-, hn⟩ | ⟨rfl, -⟩ := hw
    · exact absurd hclosing hn
    · obtain ⟨⟨due', hs'⟩, -⟩ := hbooks.steps hh hr hsteps
      have hbalance := hs'.balance
      have hle := hs'.opens_le
      omega

end BoundSql
