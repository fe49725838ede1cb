import BoundSql.Proofs.Scope.Entry

namespace BoundSql

namespace Memory

variable {a : List Nat} {m : Memory} {c : Nat}

theorem quiet_register {o : Operation} {n : Nat} {s : Status}
    (hn : m.leases ≤ (m.register o n s).leases)
    (ho : ∀ c, Event.leases c (.operation o (o.connection?.getD n) s) = false ∧
      Event.releases c (.operation o (o.connection?.getD n) s) = false)
    (he : ∀ c, Event.ends c (.operation o (o.connection?.getD n) s) → c ≤ m.leases ∧ c ∉ m.busy) :
    Quiet a m (m.register o n s) where
  leases := hn
  holds c := by simp [Holds]
  flag c _ := by rw [register_held]
  busy := register_busy o n s m
  active := register_active o n s m
  streams := by rw [register_desk]
  sessions p hp := by
    rw [register_desk] at hp
    exact .inl hp
  trace := by
    refine ⟨_, register_trace o n s m, ?_⟩
    split
    · simpa using ⟨ho, he⟩
    · simp

theorem quiet_loose {o : Operation} (ho : o.isLoose) (n : Nat) (s : Status) :
    Quiet a m (m.register o n s) := by
  apply quiet_register
  · cases o <;> first | exact Nat.le_refl _ | cases ho
  · intro c
    cases o <;> first | exact ⟨rfl, rfl⟩ | cases ho
  · intro c hc
    cases o <;> first | cases hc | cases ho

theorem quiet_statement {o : Operation} (ho : o.isStatement) (n : Nat) (s : Status) :
    Quiet a m (m.register o n s) := by
  apply quiet_register
  · cases o <;> first | exact Nat.le_refl _ | cases ho
  · intro c
    cases o <;> first | exact ⟨rfl, rfl⟩ | cases ho
  · intro c hc
    cases o <;> first | cases hc | cases ho

theorem quiet_refused (b : Nat) {s : Status} (hs : s ≠ .done) :
    Quiet a m (m.register (.lease b) (m.leases + 1) s) := by
  apply quiet_register
  · exact Nat.le_succ _
  · intro c
    cases s <;> first | exact ⟨rfl, rfl⟩ | exact absurd rfl hs
  · intro c hc
    cases hc

theorem quiet_commit (hc : c ≤ m.leases) (hb : c ∉ m.busy) (n : Nat) (s : Status) :
    Quiet a m (m.register (.commit c) n s) := by
  apply quiet_register
  · exact Nat.le_refl _
  · exact fun _ ↦ ⟨rfl, rfl⟩
  · intro d hd
    obtain rfl : c = d := by simpa [Event.ends, Operation.connection?] using hd
    exact ⟨hc, hb⟩

theorem quiet_rollback (hc : c ≤ m.leases) (hb : c ∉ m.busy) (n : Nat) (s : Status) :
    Quiet a m (m.register (.rollback c) n s) := by
  apply quiet_register
  · exact Nat.le_refl _
  · exact fun _ ↦ ⟨rfl, rfl⟩
  · intro d hd
    obtain rfl : c = d := by simpa [Event.ends, Operation.connection?] using hd
    exact ⟨hc, hb⟩

theorem lookup_setAutocommit (c d : Nat) (on : Bool) :
    (m.setAutocommit c on).held.lookup d =
      (m.held.lookup d).map fun flag ↦ if d = c then on else flag := by
  unfold setAutocommit
  dsimp only
  induction m.held with
  | nil => rfl
  | cons p l ih =>
    obtain ⟨k, flag⟩ := p
    rw [List.map_cons, List.lookup_cons, List.lookup_cons]
    by_cases hk : d = k
    · subst hk
      simp
    · rw [beq_false_of_ne hk]
      exact ih

theorem quiet_setAutocommit (hc : c ∉ m.busy) (on : Bool) : Quiet a m (m.setAutocommit c on) where
  leases := Nat.le_refl _
  holds d := by rw [Holds, lookup_setAutocommit, Option.isSome_map]; rfl
  flag d hd := by
    have hne : d ≠ c := fun he ↦ hc (he ▸ hd)
    rw [lookup_setAutocommit]
    simp [hne]
  busy := rfl
  active := rfl
  streams := rfl
  sessions _ hp := .inl hp
  trace := ⟨[.autocommit c on], rfl, by simp [Event.leases, Event.releases], by simp [Event.ends]⟩

theorem quiet_session (hc : m.Shared a c) (name : String) :
    Quiet a m (m.onDesk fun d ↦ { d with sessions := setKey name c d.sessions }) where
  leases := Nat.le_refl _
  holds _ := Iff.rfl
  flag _ _ := rfl
  busy := rfl
  active := rfl
  streams := rfl
  sessions p hp := by
    obtain rfl | ⟨hp, -⟩ := mem_setKey.1 hp
    · exact .inr hc
    · exact .inl hp
  trace := ⟨[], rfl, by simp, by simp⟩

theorem Balanced.tail (h : m.Balanced (c :: a)) : m.Balanced a where
  holds_le := h.holds_le
  busy_le := h.busy_le
  leased_le := h.leased_le
  ended_le := h.ended_le
  leased_once := h.leased_once
  released := h.released
  unreleased := h.unreleased
  settled := h.settled
  names := h.names
  owned_nodup := h.owned_nodup.of_cons
  inHand d hd := h.inHand d (List.mem_cons_of_mem _ hd)
  stream := h.stream
  ended := h.ended
  session p hp := (h.session p hp).tail
  active p hp := (h.active p hp).tail

theorem Balanced.not_mem (h : m.Balanced (c :: a)) : c ∉ a ++ m.owned :=
  (List.nodup_cons.1 h.owned_nodup).1

theorem Balanced.activate (h : m.Balanced a) (hc : m.Shared a c) (thread b : Nat) :
    (m.activate thread b c).Balanced a where
  holds_le := h.holds_le
  busy_le := h.busy_le
  leased_le := h.leased_le
  ended_le := h.ended_le
  leased_once := h.leased_once
  released := h.released
  unreleased := h.unreleased
  settled := h.settled
  names := h.names
  owned_nodup := h.owned_nodup
  inHand := h.inHand
  stream p hp e he := (h.stream p hp e he).mono (h.stream p hp e he).usable List.suffix_rfl
  ended := h.ended
  session := h.session
  active p hp := by
    obtain rfl | ⟨hp, -⟩ := mem_setKey.1 hp
    · exact hc
    · exact h.active p hp

section Lease

variable (b : Nat) (flag : Bool) (m : Memory)

def leased : Memory := (m.register (.lease b) (m.leases + 1) .done).hold (m.leases + 1) flag

theorem holds_leased {d : Nat} : (m.leased b flag).Holds d ↔ d = m.leases + 1 ∨ m.Holds d := by
  unfold leased Holds hold
  dsimp only
  rw [register_held]
  by_cases hd : d = m.leases + 1
  · subst hd
    simp
  · rw [lookup_setKey_ne hd]
    simp [hd]

theorem leasesOf_leased (d : Nat) : (m.leased b flag).leasesOf d =
    m.leasesOf d + if d = m.leases + 1 then 1 else 0 := by
  change (Event.operation (.lease b) (m.leases + 1) .done :: m.trace).countP _ = _
  rw [List.countP_cons]
  change m.leasesOf d + (if m.leases + 1 == d then 1 else 0) = _
  by_cases hd : d = m.leases + 1
  · simp [hd]
  · simp [hd, Ne.symm hd]

theorem releasesOf_leased (d : Nat) : (m.leased b flag).releasesOf d = m.releasesOf d := by
  change (Event.operation (.lease b) (m.leases + 1) .done :: m.trace).countP _ = _
  rw [List.countP_cons]
  rfl

variable {m}

theorem Balanced.fresh (h : m.Balanced a) :
    ¬m.Holds (m.leases + 1) ∧ m.leases + 1 ∉ m.busy ∧ m.leasesOf (m.leases + 1) = 0 ∧
      m.leases + 1 ∉ a ++ m.owned := by
  have hh : ¬m.Holds (m.leases + 1) := fun hh ↦ absurd (h.holds_le _ hh) (by omega)
  refine ⟨hh, fun hb ↦ absurd (h.busy_le _ hb) (by omega), ?_, fun hm ↦ ?_⟩
  · by_contra hl
    exact absurd (h.leased_le _ (Nat.pos_of_ne_zero hl)) (by omega)
  · rw [List.mem_append] at hm
    obtain ha | ho := hm
    · exact hh (h.inHand _ ha)
    · obtain ⟨p, hp, e, he, hc⟩ := mem_owned.1 ho
      exact hh (hc ▸ (h.stream p hp e he).usable.1)

theorem Balanced.leased (h : m.Balanced a) :
    (m.leased b flag).Balanced ((m.leases + 1) :: a) := by
  obtain ⟨hh, hb, hl, ho⟩ := h.fresh
  -- All that the books know of has a smaller number than the new connection.
  have hs : ∀ d, m.Shared a d → (m.leased b flag).Shared ((m.leases + 1) :: a) d := by
    intro d hd
    refine ⟨Nat.le_succ_of_le hd.1, fun hm ↦ ?_⟩
    obtain rfl | hm := List.mem_cons.1 hm
    · exact absurd hd.1 (by omega)
    · exact hd.2 hm
  refine
    { holds_le := fun d hd ↦ ?_
      busy_le := fun d hd ↦ Nat.le_succ_of_le (h.busy_le d hd)
      leased_le := fun d hd ↦ ?_
      ended_le := fun d hd ↦ h.ended_le d (Nat.lt_of_succ_lt hd)
      leased_once := fun d ↦ ?_
      released := fun d hd ↦ ?_
      unreleased := fun d hd ↦ ?_
      settled := fun d hd hd' ↦ ?_
      names := h.names
      owned_nodup := List.nodup_cons.2 ⟨ho, h.owned_nodup⟩
      inHand := fun d hd ↦ ?_
      stream := fun p hp e he ↦ ?_
      ended := h.ended
      session := fun p hp ↦ hs _ (h.session p hp)
      active := fun p hp ↦ hs _ (h.active p hp) }
  · obtain rfl | hd := (holds_leased b flag m).1 hd
    · exact Nat.le_refl _
    · exact Nat.le_succ_of_le (h.holds_le d hd)
  · rw [leasesOf_leased] at hd
    split at hd
    · exact Nat.le_of_eq ‹_›
    · exact Nat.le_succ_of_le (h.leased_le d hd)
  · rw [leasesOf_leased]
    split
    · subst d
      omega
    · exact h.leased_once d
  · rw [holds_leased, not_or] at hd
    rw [releasesOf_leased, leasesOf_leased, if_neg hd.1]
    exact h.released d hd.2
  · rw [releasesOf_leased, leasesOf_leased]
    obtain rfl | hd := (holds_leased b flag m).1 hd
    · have hr := h.released _ hh
      rw [if_pos rfl]
      omega
    · rw [if_neg fun (he : d = m.leases + 1) ↦ hh (he ▸ hd)]
      exact h.unreleased d hd
  · rw [holds_leased, not_or] at hd
    rw [leasesOf_leased, if_neg hd.1] at hd'
    exact (h.settled d hd.2 hd').mono (List.suffix_cons _ _)
  · obtain rfl | hd := List.mem_cons.1 hd
    · exact (holds_leased b flag m).2 (.inl rfl)
    · exact (holds_leased b flag m).2 (.inr (h.inHand d hd))
  · have hs := h.stream p hp e he
    exact hs.mono ⟨(holds_leased b flag m).2 (.inr hs.usable.1), hs.usable.2⟩ (List.suffix_cons _ _)

theorem Balanced.frame_leased (h : m.Balanced a) :
    Frame a ((m.leases + 1) :: a) m (m.leased b flag) := by
  obtain ⟨hh, hb, hl, ho⟩ := h.fresh
  refine
    { leases := Nat.le_succ _
      trace := List.suffix_cons _ _
      kept := fun d hd hd' ↦ ⟨(holds_leased b flag m).2 (.inr hd), fun hm ↦ ?_⟩
      holds := fun d hd ↦ ?_
      owned := fun d hd ↦ ?_
      untouched := fun d hd ↦ ⟨?_, rfl⟩ }
  · obtain rfl | hm := List.mem_cons.1 hm
    · exact hh hd
    · exact hd' hm
  · obtain rfl | hd := (holds_leased b flag m).1 hd
    · exact .inl List.mem_cons_self
    · by_cases hd' : d ∈ a ++ m.owned
      · exact .inl (List.mem_cons_of_mem _ hd')
      · exact .inr ⟨hd, hd'⟩
  · obtain rfl | hd := List.mem_cons.1 hd
    · exact .inr (Nat.lt_succ_self _)
    · exact .inl hd
  · have hne : d ≠ m.leases + 1 := fun he ↦ hb (he ▸ hd)
    exact (lookup_setKey_ne hne).trans (by rw [register_held])

end Lease

/-- What has changed once an entry has leased a connection, and made it the active one if it is
registered. -/
structure Opens (a : List Nat) (e : Entry) (m m' : Memory) : Prop where
  connection : e.connection = m.leases + 1
  balanced : m'.Balanced (if e.registered then a else e.connection :: a)
  frame : Frame a (e.connection :: a) m m'
  usable : m'.Usable e.connection
  apart : e.connection ∉ a ++ m'.owned
  busy : m'.busy = m.busy
  active : m'.active =
    if e.registered then setKey (e.thread, e.binder) e.connection m.active else m.active
  desk : m'.desk = m.desk
  trace : m'.trace = .operation (.lease e.binder) e.connection .done :: m.trace

theorem Balanced.opens (h : m.Balanced a) (b : Nat) (register : Bool) (thread : Nat) (flag : Bool) :
    Opens a ⟨b, m.leases + 1, true, register, thread⟩ m
      (Entry.take ⟨b, m.leases + 1, true, register, thread⟩ flag
        (m.register (.lease b) (m.leases + 1) .done)) := by
  have hb := h.leased b flag
  have hu : (m.leased b flag).Usable (m.leases + 1) :=
    ⟨hb.inHand _ List.mem_cons_self, h.fresh.2.1⟩
  cases register with
  | false =>
    exact ⟨rfl, hb, h.frame_leased b flag, hu, hb.not_mem, rfl, rfl, rfl, rfl⟩
  | true =>
    have ha := hb.tail.activate ⟨Nat.le_refl _, hb.not_mem⟩ thread b
    exact ⟨rfl, ha, { h.frame_leased b flag with }, hu, hb.not_mem, rfl, rfl, rfl, rfl⟩

theorem Opens.fresh {e : Entry} {m' : Memory} (ho : Opens a e m m') (hm : m.Balanced a) :
    m.leasesOf e.connection = 0 ∧ m'.endsOf e.connection = [] := by
  refine ⟨?_, ?_⟩
  · rw [ho.connection]
    exact hm.fresh.2.2.1
  · rw [endsOf, ho.trace]
    exact hm.ended_le _ (by rw [ho.connection]; exact Nat.lt_succ_self _)

theorem Opens.cameFrom {e : Entry} {m' m'' : Memory} (ho : Opens a e m m')
    (ht : m'.trace <:+ m''.trace) : m''.CameFrom e.binder e.connection := by
  refine ht.subset ?_
  rw [ho.trace]
  exact List.mem_cons_self

theorem Opens.passes {e : Entry} {m' : Memory} (ho : Opens a e m m') (hr : e.registered = false) :
    Passes a (e.connection :: a) m m' := by
  have hb := ho.balanced
  have ha := ho.active
  rw [hr] at hb ha
  exact ⟨hb, ho.frame, ho.busy, ha⟩

structure Leaves (e : Entry) (ok : Bool) (m m' : Memory) : Prop where
  leases : m'.leases = m.leases
  held : m'.held = eraseKey e.connection m.held
  busy : m'.busy = m.busy
  active : m'.active =
    if e.registered then eraseKey (e.thread, e.binder) m.active else m.active
  desk : m'.desk = m.desk
  trace : ∃ es, Closing e.binder e.connection ok es ∧ m'.trace = es.reverse ++ m.trace

namespace Leaves

variable {e : Entry} {ok : Bool} {m' : Memory}

theorem holds_iff (h : Leaves e ok m m') {d : Nat} : m'.Holds d ↔ d ≠ e.connection ∧ m.Holds d := by
  rw [Holds, h.held]
  by_cases hd : d = e.connection
  · subst hd
    simp
  · rw [lookup_eraseKey_ne hd]
    exact ⟨fun hh ↦ ⟨hd, hh⟩, And.right⟩

theorem suffix (h : Leaves e ok m m') : m.trace <:+ m'.trace := by
  obtain ⟨es, -, ht⟩ := h.trace
  exact ⟨es.reverse, ht.symm⟩

theorem leasesOf (h : Leaves e ok m m') (d : Nat) : m'.leasesOf d = m.leasesOf d := by
  obtain ⟨es, hes, ht⟩ := h.trace
  rw [Memory.leasesOf, ht, List.countP_append]
  cases hes <;> exact Nat.zero_add _

theorem releasesOf (h : Leaves e ok m m') (d : Nat) :
    m'.releasesOf d = m.releasesOf d + if d = e.connection then 1 else 0 := by
  obtain ⟨es, hes, ht⟩ := h.trace
  have hc : es.reverse.countP (Event.releases d) = if d = e.connection then 1 else 0 := by
    by_cases hd : d = e.connection
    · cases hes <;> simp [Event.releases, hd]
    · cases hes <;> simp [Event.releases, hd, Ne.symm hd]
  rw [Memory.releasesOf, ht, List.countP_append, hc, Nat.add_comm]
  rfl

theorem endsOf (h : Leaves e ok m m') {d : Nat} (hd : d ≠ e.connection) :
    m'.endsOf d = m.endsOf d := by
  obtain ⟨es, hes, ht⟩ := h.trace
  have hc : es.reverse.filter (Event.ends d) = [] := by
    rw [List.filter_eq_nil_iff]
    cases hes <;> simp [Event.ends, Ne.symm hd]
  rw [Memory.endsOf, ht, List.filter_append, hc]
  rfl

theorem shared (h : Leaves e ok m m') {d : Nat} (hd : m.Shared a d) : m'.Shared a d := by
  unfold Shared owned
  rw [h.leases, h.desk]
  exact hd

theorem balanced (h : Leaves e ok m m') (hm : m.Balanced a) (hu : m.Usable e.connection)
    (hf : m.CameFrom e.binder e.connection) (hn : e.connection ∉ a ++ m.owned) : m'.Balanced a where
  holds_le d hd := h.leases ▸ hm.holds_le d (h.holds_iff.1 hd).2
  busy_le d hd := by
    rw [h.busy] at hd
    exact h.leases ▸ hm.busy_le d hd
  leased_le d hd := by
    rw [h.leasesOf] at hd
    exact h.leases ▸ hm.leased_le d hd
  ended_le d hd := by
    rw [h.leases] at hd
    have he : d ≠ e.connection := fun he ↦ absurd (hm.holds_le _ (he ▸ hu.1)) (by omega)
    rw [h.endsOf he]
    exact hm.ended_le d hd
  leased_once d := by
    rw [h.leasesOf]
    exact hm.leased_once d
  released d hd := by
    rw [h.leasesOf, h.releasesOf]
    by_cases he : d = e.connection
    · subst d
      obtain ⟨hr, hl⟩ := hm.unreleased _ hu.1
      rw [hr, hl, if_pos rfl]
    · rw [if_neg he]
      exact hm.released d fun hh ↦ hd (h.holds_iff.2 ⟨he, hh⟩)
  unreleased d hd := by
    obtain ⟨he, hd⟩ := h.holds_iff.1 hd
    rw [h.leasesOf, h.releasesOf, if_neg he]
    exact hm.unreleased d hd
  settled d hd hd' := by
    rw [h.leasesOf] at hd'
    obtain ⟨es, hes, ht⟩ := h.trace
    by_cases he : d = e.connection
    · rw [he]
      exact ⟨_, _, es, m.trace, [], hes, ht, hf⟩
    · exact (hm.settled d (fun hh ↦ hd (h.holds_iff.2 ⟨he, hh⟩)) hd').mono ⟨_, ht.symm⟩
  names := by
    rw [h.desk]
    exact hm.names
  owned_nodup := by
    unfold owned
    rw [h.desk]
    exact hm.owned_nodup
  inHand d hd := by
    refine h.holds_iff.2 ⟨fun he ↦ ?_, hm.inHand d hd⟩
    exact hn (List.mem_append_left _ (he ▸ hd))
  stream p hp f hf := by
    rw [h.desk] at hp
    have hs := hm.stream p hp f hf
    refine hs.mono ⟨h.holds_iff.2 ⟨fun he ↦ ?_, hs.usable.1⟩, ?_⟩ h.suffix
    · exact hn (List.mem_append_right _ (mem_owned.2 ⟨p, hp, f, hf, he⟩))
    · rw [h.busy]
      exact hs.usable.2
  ended := by
    rw [h.desk]
    exact hm.ended
  session p hp := by
    rw [h.desk] at hp
    exact h.shared (hm.session p hp)
  active p hp := by
    rw [h.active] at hp
    split at hp
    · exact h.shared (hm.active p (eraseKey_subset _ _ hp))
    · exact h.shared (hm.active p hp)

theorem frame (h : Leaves e ok m m') (hu : m.Usable e.connection) :
    Frame (e.connection :: a) a m m' where
  leases := Nat.le_of_eq h.leases.symm
  trace := h.suffix
  kept d hd hd' := by
    rw [List.cons_append, List.mem_cons, not_or] at hd'
    unfold owned
    rw [h.desk]
    exact ⟨h.holds_iff.2 ⟨hd'.1, hd⟩, hd'.2⟩
  holds d hd := by
    obtain ⟨he, hd⟩ := h.holds_iff.1 hd
    unfold owned
    rw [h.desk]
    by_cases hd' : d ∈ a ++ m.owned
    · exact .inl hd'
    · refine .inr ⟨hd, fun hm ↦ ?_⟩
      obtain rfl | hm := List.mem_cons.1 hm
      · exact he rfl
      · exact hd' hm
  owned d hd := by
    unfold owned at hd
    rw [h.desk] at hd
    exact .inl (List.mem_cons_of_mem _ hd)
  untouched d hd := by
    have he : d ≠ e.connection := fun he ↦ hu.2 (he ▸ hd)
    refine ⟨?_, h.endsOf he⟩
    rw [h.held, lookup_eraseKey_ne he]

end Leaves

end Memory

namespace Entry

open Memory

variable {σ : Type} {h : Host σ} {w : World σ} {e : Entry}

theorem act_lease (hl : h.Lawful) {b c : Nat} (hc : (h.act (.lease b) w).1 = .ok c) :
    c = w.memory.leases + 1 ∧
      (h.act (.lease b) w).2.memory = w.memory.register (.lease b) (w.memory.leases + 1) .done := by
  have hd : (h.reaction (.lease b) w).status = .done := by
    rw [← hl.isOk_iff, hc]
    rfl
  refine ⟨?_, by rw [Host.act_memory, hd]; rfl⟩
  unfold Host.act at hc
  cases hr : (h.reaction (.lease b) w).outcome with
  | error f =>
    rw [hr] at hc
    cases hc
  | ok x =>
    rw [hr] at hc
    cases hc
    rfl

theorem quiet_act_lease (hl : h.Lawful) {b : Nat} {f : Fault}
    (hf : (h.act (.lease b) w).1 = .error f) {a : List Nat} :
    Quiet a w.memory (h.act (.lease b) w).2.memory := by
  refine quiet_refused b fun hd ↦ ?_
  have hi := hl.isOk_iff.2 hd
  rw [hf] at hi
  cases hi

theorem exists_settled (hl : h.Lawful) (e : Entry) (ok : Bool) (w : World σ) :
    ∃ es, (∀ s, Closing e.binder e.connection ok
        (es ++ [.operation (.release e.binder e.connection) e.connection s])) ∧
      (e.settled h ok w).memory = w.memory.logAll es := by
  unfold settled
  cases ok with
  | false => exact ⟨_, fun s ↦ .rolledBack _ s, log_eq_logAll _ _⟩
  | true =>
    have hd := hl.isOk_iff (o := .commit e.connection) (w := w)
    by_cases hc : Outcome.isOk (h.act (.commit e.connection) w).1
    · simp only [if_true, if_pos hc]
      refine ⟨[_], fun s ↦ .committed s, ?_⟩
      rw [← hd.1 hc]
      exact log_eq_logAll _ _
    · simp only [if_true, if_neg hc]
      exact ⟨[_, _], fun s ↦ .uncommitted (fun hs ↦ hc (hd.2 hs)) _ s, rfl⟩

theorem leaves_closed (hl : h.Lawful) (e : Entry) (ok : Bool) (w : World σ) :
    Leaves e ok w.memory (e.closed h ok w).memory := by
  obtain ⟨es, hes, hs⟩ := exists_settled hl e ok w
  obtain ⟨s, ht⟩ : ∃ s, (e.closed h ok w).memory.trace =
      .operation (.release e.binder e.connection) e.connection s :: (e.settled h ok w).memory.trace :=
    ⟨_, congrArg (List.cons _) (leave_trace _)⟩
  exact
    { leases := (leave_leases _).trans (by rw [hs]; rfl)
      held := (leave_held _).trans (by rw [hs]; rfl)
      busy := (leave_busy _).trans (by rw [hs]; rfl)
      active := (leave_active _).trans (by rw [hs]; rfl)
      desk := (leave_desk _).trans (by rw [hs]; rfl)
      trace := ⟨_, hes s, by rw [ht, hs, List.reverse_append]; rfl⟩ }

end Entry

end BoundSql
