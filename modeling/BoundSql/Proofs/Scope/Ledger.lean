import BoundSql.Proofs.Effect.Keyed
import BoundSql.Proofs.Effect.Trace

namespace BoundSql

/-- The end of a scope: the owner's terminal actions and the release, oldest first. -/
inductive Closing (pool c : Nat) : Bool → List Event → Prop
  | committed (s : Status) :
    Closing pool c true
      [.operation (.commit c) c .done, .operation (.release pool c) c s]
  | uncommitted {s : Status} (hs : s ≠ .done) (s' s'' : Status) :
    Closing pool c true
      [.operation (.commit c) c s, .operation (.rollback c) c s', .operation (.release pool c) c s'']
  | rolledBack (s s' : Status) :
    Closing pool c false
      [.operation (.rollback c) c s, .operation (.release pool c) c s']

namespace Memory

def Holds (m : Memory) (c : Nat) : Prop := (m.held.lookup c).isSome

def Usable (m : Memory) (c : Nat) : Prop := m.Holds c ∧ c ∉ m.busy

def CameFrom (m : Memory) (pool c : Nat) : Prop := .operation (.lease pool) c .done ∈ m.trace

end Memory

/-- The entry is the owner of its scope, and nobody joins it. -/
structure Entry.Entitled (e : Entry) (m : Memory) : Prop where
  owner : e.owner
  unregistered : e.registered = false
  usable : m.Usable e.connection
  cameFrom : m.CameFrom e.binder e.connection

theorem Entry.Entitled.mono {e : Entry} {m m' : Memory} (h : e.Entitled m)
    (hu : m'.Usable e.connection) (ht : m.trace <:+ m'.trace) : e.Entitled m' :=
  ⟨h.owner, h.unregistered, hu, ht.subset h.cameFrom⟩

namespace Stream

def own (s : Stream) : List Nat := (s.entry.map Entry.connection).toList

def Entitled (s : Stream) (m : Memory) : Prop := ∀ e, s.entry = some e → e.Entitled m

theorem Entitled.congr {s : Stream} {m m' : Memory} (hs : s.Entitled m) (hh : m'.held = m.held)
    (hb : m'.busy = m.busy) (ht : m'.trace = m.trace) : s.Entitled m' := by
  intro e he
  refine (hs e he).mono ⟨?_, ?_⟩ (ht ▸ List.suffix_rfl)
  · rw [Memory.Holds, hh]
    exact (hs e he).usable.1
  · rw [hb]
    exact (hs e he).usable.2

theorem own_of_some {s : Stream} {e : Entry} (h : s.entry = some e) : s.own = [e.connection] := by
  rw [own, h]
  rfl

theorem own_of_none {s : Stream} (h : s.entry = none) : s.own = [] := by
  rw [own, h]
  rfl

theorem mem_own {s : Stream} {c : Nat} : c ∈ s.own ↔ ∃ e, s.entry = some e ∧ e.connection = c := by
  cases h : s.entry with
  | none => simp [own_of_none h]
  | some e => simp [own_of_some h, eq_comm]

end Stream

namespace Memory

def ownedOf (streams : List (String × Stream)) : List Nat := streams.flatMap fun p ↦ p.2.own

def owned (m : Memory) : List Nat := ownedOf m.desk.streams

theorem mem_owned {m : Memory} {c : Nat} : c ∈ m.owned ↔
    ∃ p ∈ m.desk.streams, ∃ e, p.2.entry = some e ∧ e.connection = c := by
  simp only [owned, ownedOf, List.mem_flatMap, Stream.mem_own]

/-- A connection given out before that nobody has to himself: no open stream, and none of those in
whose hands `a` is. -/
def Shared (a : List Nat) (m : Memory) (c : Nat) : Prop := c ≤ m.leases ∧ c ∉ a ++ m.owned

theorem Shared.tail {a : List Nat} {m : Memory} {c d : Nat} (h : m.Shared (c :: a) d) :
    m.Shared a d :=
  ⟨h.1, fun hd ↦ h.2 (List.mem_cons_of_mem _ hd)⟩

/-- After its lease the connection's scope has ended with its terminal actions and its release, and
with nothing else in between. The pool is the same. -/
def Settled (m : Memory) (c : Nat) : Prop :=
  ∃ pool ok es before after, Closing pool c ok es ∧ m.trace = after ++ es.reverse ++ before ∧
    .operation (.lease pool) c .done ∈ before

theorem Settled.mono {m m' : Memory} {c : Nat} (h : m.Settled c) (ht : m.trace <:+ m'.trace) :
    m'.Settled c := by
  obtain ⟨pool, ok, es, before, after, hes, hm, hb⟩ := h
  obtain ⟨es', ht⟩ := ht
  refine ⟨pool, ok, es, before, es' ++ after, hes, ?_, hb⟩
  rw [← ht, hm, List.append_assoc, List.append_assoc, List.append_assoc]

/-- The books are in order, where the connections in `a` are in the hands of streams that are not
under a name just now. -/
structure Balanced (a : List Nat) (m : Memory) : Prop where
  holds_le : ∀ c, m.Holds c → c ≤ m.leases
  busy_le : ∀ c ∈ m.busy, c ≤ m.leases
  leased_le : ∀ c, 0 < m.leasesOf c → c ≤ m.leases
  ended_le : ∀ c, m.leases < c → m.endsOf c = []
  leased_once : ∀ c, m.leasesOf c ≤ 1
  released : ∀ c, ¬m.Holds c → m.releasesOf c = m.leasesOf c
  unreleased : ∀ c, m.Holds c → m.releasesOf c = 0 ∧ m.leasesOf c = 1
  settled : ∀ c, ¬m.Holds c → m.leasesOf c ≠ 0 → m.Settled c
  names : (m.desk.streams.map Prod.fst).Nodup
  owned_nodup : (a ++ m.owned).Nodup
  inHand : ∀ c ∈ a, m.Holds c
  stream : ∀ p ∈ m.desk.streams, p.2.Entitled m
  ended : ∀ p ∈ m.desk.streams, p.2.finished → p.2.entry = none
  session : ∀ p ∈ m.desk.sessions, m.Shared a p.2
  active : ∀ p ∈ m.active, m.Shared a p.2

/-- What has changed from one memory to another, where the connections in `a` are in hand at first
and those in `b` at last. A connection of nobody known is neither lost nor gained; where a statement
is running, nothing happens to its connection. -/
structure Frame (a b : List Nat) (m m' : Memory) : Prop where
  leases : m.leases ≤ m'.leases
  trace : m.trace <:+ m'.trace
  kept : ∀ c, m.Holds c → c ∉ a ++ m.owned → m'.Holds c ∧ c ∉ b ++ m'.owned
  holds : ∀ c, m'.Holds c → c ∈ b ++ m'.owned ∨ m.Holds c ∧ c ∉ a ++ m.owned
  owned : ∀ c ∈ b ++ m'.owned, c ∈ a ++ m.owned ∨ m.leases < c
  untouched : ∀ c ∈ m.busy, m'.held.lookup c = m.held.lookup c ∧ m'.endsOf c = m.endsOf c

namespace Frame

variable {a b d : List Nat} {m m' m'' : Memory}

theorem refl (a : List Nat) (m : Memory) : Frame a a m m :=
  ⟨Nat.le_refl _, List.suffix_rfl, fun _ hc ho ↦ ⟨hc, ho⟩, fun c hc ↦ by
    by_cases ho : c ∈ a ++ m.owned
    · exact .inl ho
    · exact .inr ⟨hc, ho⟩, fun _ hc ↦ .inl hc, fun _ _ ↦ ⟨rfl, rfl⟩⟩

theorem trans (h : Frame a b m m') (h' : Frame b d m' m'') (hb : m.busy ⊆ m'.busy) :
    Frame a d m m'' where
  leases := Nat.le_trans h.leases h'.leases
  trace := h.trace.trans h'.trace
  kept c hc ho :=
    have hk := h.kept c hc ho
    h'.kept c hk.1 hk.2
  holds c hc := by
    obtain hd | ⟨hm, ho⟩ := h'.holds c hc
    · exact .inl hd
    · exact .inr ((h.holds c hm).resolve_left ho)
  owned c hc := by
    obtain hb | hl := h'.owned c hc
    · exact h.owned c hb
    · exact .inr (Nat.lt_of_le_of_lt h.leases hl)
  untouched c hc := by
    have h₁ := h.untouched c hc
    have h₂ := h'.untouched c (hb hc)
    exact ⟨h₂.1.trans h₁.1, h₂.2.trans h₁.2⟩

theorem shared (h : Frame a b m m') {c : Nat} (hc : m.Shared a c) : m'.Shared b c := by
  refine ⟨Nat.le_trans hc.1 h.leases, fun ho ↦ ?_⟩
  obtain hm | hl := h.owned c ho
  · exact hc.2 hm
  · exact absurd hc.1 (by omega)

theorem cons (h : Frame a b m m') (c : Nat) : Frame (c :: a) (c :: b) m m' where
  leases := h.leases
  trace := h.trace
  kept d hd hd' := by
    rw [List.cons_append, List.mem_cons, not_or] at hd' ⊢
    have hk := h.kept d hd hd'.2
    exact ⟨hk.1, hd'.1, hk.2⟩
  holds d hd := by
    simp only [List.cons_append, List.mem_cons, not_or]
    obtain ho | ⟨hm, ho⟩ := h.holds d hd
    · exact .inl (.inr ho)
    · by_cases hdc : d = c
      · exact .inl (.inl hdc)
      · exact .inr ⟨hm, hdc, ho⟩
  owned d hd := by
    obtain rfl | hd := List.mem_cons.1 hd
    · exact .inl List.mem_cons_self
    · obtain ho | hl := h.owned d hd
      · exact .inl (List.mem_cons_of_mem _ ho)
      · exact .inr hl
  untouched := h.untouched

end Frame

/-- What a part of a program does to a memory: the connections in `a` are in hand at first, those in
`b` at last. -/
structure Passes (a b : List Nat) (m m' : Memory) : Prop where
  balanced : m'.Balanced b
  frame : Frame a b m m'
  busy : m'.busy = m.busy
  active : m'.active = m.active

abbrev Keeps (a : List Nat) (m m' : Memory) : Prop := Passes a a m m'

namespace Passes

variable {a b d : List Nat} {m m' m'' : Memory}

theorem refl (h : m.Balanced a) : Keeps a m m := ⟨h, .refl a m, rfl, rfl⟩

theorem trans (h : Passes a b m m') (h' : Passes b d m' m'') : Passes a d m m'' :=
  ⟨h'.balanced, h.frame.trans h'.frame (by rw [h.busy]; exact List.Subset.refl _),
    h'.busy.trans h.busy, h'.active.trans h.active⟩

end Passes

/-- The books are kept, and a connection has been left alone. -/
structure Spares (a : List Nat) (c : Nat) (m m' : Memory) : Prop where
  keeps : Keeps a m m'
  flag : m'.held.lookup c = m.held.lookup c
  ends : m'.endsOf c = m.endsOf c

/-- A change that is no lease, no release and no opening or closing of a stream, and leaves alone
what is busy. -/
structure Quiet (a : List Nat) (m m' : Memory) : Prop where
  leases : m.leases ≤ m'.leases
  holds : ∀ c, m'.Holds c ↔ m.Holds c
  flag : ∀ c ∈ m.busy, m'.held.lookup c = m.held.lookup c
  busy : m'.busy = m.busy
  active : m'.active = m.active
  streams : m'.desk.streams = m.desk.streams
  sessions : ∀ p ∈ m'.desk.sessions, p ∈ m.desk.sessions ∨ m.Shared a p.2
  trace : ∃ es, m'.trace = es ++ m.trace ∧
    (∀ e ∈ es, ∀ c, Event.leases c e = false ∧ Event.releases c e = false) ∧
    ∀ e ∈ es, ∀ c, Event.ends c e → c ≤ m.leases ∧ c ∉ m.busy

namespace Quiet

variable {a : List Nat} {m m' : Memory}

theorem suffix (h : Quiet a m m') : m.trace <:+ m'.trace := by
  obtain ⟨es, ht, -⟩ := h.trace
  exact ⟨es, ht.symm⟩

theorem leasesOf (h : Quiet a m m') (c : Nat) : m'.leasesOf c = m.leasesOf c := by
  obtain ⟨es, ht, hes, -⟩ := h.trace
  rw [Memory.leasesOf, ht, List.countP_append, List.countP_eq_zero.2]
  · exact Nat.zero_add _
  · intro e he
    simp [(hes e he c).1]

theorem releasesOf (h : Quiet a m m') (c : Nat) : m'.releasesOf c = m.releasesOf c := by
  obtain ⟨es, ht, hes, -⟩ := h.trace
  rw [Memory.releasesOf, ht, List.countP_append, List.countP_eq_zero.2]
  · exact Nat.zero_add _
  · intro e he
    simp [(hes e he c).2]

theorem endsOf (h : Quiet a m m') {c : Nat} (hc : c ≤ m.leases → c ∈ m.busy) :
    m'.endsOf c = m.endsOf c := by
  obtain ⟨es, ht, -, hes⟩ := h.trace
  rw [Memory.endsOf, ht, List.filter_append, List.filter_eq_nil_iff.2]
  · rfl
  · intro e he hend
    obtain ⟨hle, hb⟩ := hes e he c hend
    exact hb (hc hle)

theorem owned (h : Quiet a m m') : m'.owned = m.owned := by rw [Memory.owned, h.streams]; rfl

theorem shared (h : Quiet a m m') {c : Nat} (hc : m.Shared a c) : m'.Shared a c :=
  ⟨Nat.le_trans hc.1 h.leases, by rw [h.owned]; exact hc.2⟩

theorem usable (h : Quiet a m m') {c : Nat} (hc : m.Usable c) : m'.Usable c :=
  ⟨(h.holds c).2 hc.1, by rw [h.busy]; exact hc.2⟩

theorem balanced (h : Quiet a m m') (hm : m.Balanced a) : m'.Balanced a where
  holds_le c hc := Nat.le_trans (hm.holds_le c ((h.holds c).1 hc)) h.leases
  busy_le c hc := Nat.le_trans (hm.busy_le c (h.busy ▸ hc)) h.leases
  leased_le c hc := Nat.le_trans (hm.leased_le c (h.leasesOf c ▸ hc)) h.leases
  ended_le c hc := by
    have hlt := Nat.lt_of_le_of_lt h.leases hc
    rw [h.endsOf fun hle ↦ absurd hle (by omega)]
    exact hm.ended_le c hlt
  leased_once c := by rw [h.leasesOf]; exact hm.leased_once c
  released c hc := by
    rw [h.releasesOf, h.leasesOf]
    exact hm.released c (mt (h.holds c).2 hc)
  unreleased c hc := by
    rw [h.releasesOf, h.leasesOf]
    exact hm.unreleased c ((h.holds c).1 hc)
  settled c hc hl := by
    rw [h.leasesOf] at hl
    exact (hm.settled c (mt (h.holds c).2 hc) hl).mono h.suffix
  names := by rw [h.streams]; exact hm.names
  owned_nodup := by rw [h.owned]; exact hm.owned_nodup
  inHand c hc := (h.holds c).2 (hm.inHand c hc)
  stream p hp e he := by
    rw [h.streams] at hp
    have hs := hm.stream p hp e he
    exact hs.mono (h.usable hs.usable) h.suffix
  ended := by rw [h.streams]; exact hm.ended
  session p hp := by
    obtain hs | hs := h.sessions p hp
    · exact h.shared (hm.session p hs)
    · exact h.shared hs
  active p hp := h.shared (hm.active p (h.active ▸ hp))

theorem frame (h : Quiet a m m') : Frame a a m m' where
  leases := h.leases
  trace := h.suffix
  kept c hc ho := ⟨(h.holds c).2 hc, by rw [h.owned]; exact ho⟩
  holds c hc := by
    rw [h.owned]
    by_cases ho : c ∈ a ++ m.owned
    · exact .inl ho
    · exact .inr ⟨(h.holds c).1 hc, ho⟩
  owned c hc := .inl (by rw [h.owned] at hc; exact hc)
  untouched c hc := ⟨h.flag c hc, h.endsOf fun _ ↦ hc⟩

theorem keeps (h : Quiet a m m') (hm : m.Balanced a) : Keeps a m m' :=
  ⟨h.balanced hm, h.frame, h.busy, h.active⟩

end Quiet

structure SameBooks (m m' : Memory) : Prop where
  leases : m'.leases = m.leases
  held : m'.held = m.held
  busy : m'.busy = m.busy
  active : m'.active = m.active
  streams : m'.desk.streams = m.desk.streams
  sessions : m'.desk.sessions = m.desk.sessions
  trace : m'.trace = m.trace

theorem SameBooks.quiet {m m' : Memory} (h : SameBooks m m') (a : List Nat) : Quiet a m m' where
  leases := Nat.le_of_eq h.leases.symm
  holds c := by rw [Holds, h.held]; rfl
  flag c _ := by rw [h.held]
  busy := h.busy
  active := h.active
  streams := h.streams
  sessions p hp := .inl (h.sessions ▸ hp)
  trace := ⟨[], h.trace, by simp, by simp⟩

end Memory

end BoundSql
