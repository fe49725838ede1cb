import BoundSql.Proofs.Scope.Reading
import BoundSql.Proofs.Scope.Rendering

namespace BoundSql

open Memory

variable {σ : Type} {h : Host σ} {cb : Callback σ} {w : World σ} {a b : List Nat} {m : Memory}

namespace Memory

theorem ownedOf_cons (name : String) (s : Stream) (l : List (String × Stream)) :
    ownedOf ((name, s) :: l) = s.own ++ ownedOf l := rfl

theorem ownedOf_perm {l l' : List (String × Stream)} (h : l.Perm l') :
    (ownedOf l).Perm (ownedOf l') := h.flatMap_right _

theorem perm_ownedOf_eraseKey {name : String} {s : Stream} {l : List (String × Stream)}
    (hl : (l.map Prod.fst).Nodup) (hs : l.lookup name = some s) :
    (ownedOf l).Perm (s.own ++ ownedOf (eraseKey name l)) := by
  rw [← ownedOf_cons name]
  exact ownedOf_perm (perm_eraseKey hl hs)

theorem Balanced.arrange (hm : m.Balanced a) {l : List (String × Stream)}
    (hp : (a ++ m.owned).Perm (b ++ ownedOf l)) (hb : ∀ c ∈ b, m.Holds c)
    (hl : (l.map Prod.fst).Nodup) (hs : ∀ p ∈ l, p.2.Entitled m)
    (ho : ∀ p ∈ l, p.2.finished → p.2.entry = none) :
    Passes a b m (m.onDesk fun d ↦ { d with streams := l }) := by
  have hmem : ∀ c, c ∈ a ++ m.owned ↔ c ∈ b ++ ownedOf l := fun c ↦ hp.mem_iff
  have hshared : ∀ c, m.Shared a c → (m.onDesk fun d ↦ { d with streams := l }).Shared b c :=
    fun c hc ↦ ⟨hc.1, fun hn ↦ hc.2 ((hmem c).2 hn)⟩
  refine ⟨?_, ?_, rfl, rfl⟩
  · exact
      { holds_le := hm.holds_le
        busy_le := hm.busy_le
        leased_le := hm.leased_le
        ended_le := hm.ended_le
        leased_once := hm.leased_once
        released := hm.released
        unreleased := hm.unreleased
        settled := hm.settled
        names := hl
        owned_nodup := hp.nodup_iff.1 hm.owned_nodup
        inHand := hb
        stream := fun p hp ↦ (hs p hp).congr rfl rfl rfl
        ended := ho
        session := fun p hp ↦ hshared _ (hm.session p hp)
        active := fun p hp ↦ hshared _ (hm.active p hp) }
  · exact
      { leases := Nat.le_refl _
        trace := List.suffix_rfl
        kept := fun c hc hn ↦ ⟨hc, fun hn' ↦ hn ((hmem c).2 hn')⟩
        holds := fun c hc ↦ by
          by_cases hn : c ∈ a ++ m.owned
          · exact .inl ((hmem c).1 hn)
          · exact .inr ⟨hc, hn⟩
        owned := fun c hc ↦ .inl ((hmem c).2 hc)
        untouched := fun _ _ ↦ ⟨rfl, rfl⟩ }

theorem Balanced.holds_own (hm : m.Balanced a) {s : Stream} (hs : s.Entitled m) :
    ∀ c ∈ s.own ++ a, m.Holds c := by
  intro c hc
  obtain hc | hc := List.mem_append.1 hc
  · obtain ⟨e, he, rfl⟩ := Stream.mem_own.1 hc
    exact (hs e he).usable.1
  · exact hm.inHand c hc

theorem Balanced.take (hm : m.Balanced a) {name : String} {s : Stream}
    (hs : m.desk.streams.lookup name = some s) :
    Passes a (s.own ++ a) m (m.onDesk fun d ↦ { d with streams := eraseKey name d.streams }) := by
  have hp := perm_ownedOf_eraseKey hm.names hs
  refine hm.arrange ?_ (hm.holds_own (hm.stream _ (mem_of_lookup hs))) (nodup_eraseKey hm.names)
    (fun p hp ↦ hm.stream p (eraseKey_subset _ _ hp))
    (fun p hp ↦ hm.ended p (eraseKey_subset _ _ hp))
  have hq := hp.append_left a
  rw [← List.append_assoc] at hq
  exact hq.trans (List.perm_append_comm.append_right _)

def olderOwn (name : String) (m : Memory) : List Nat :=
  ((m.desk.streams.lookup name).map Stream.own).getD []

theorem Balanced.perm_older (hm : m.Balanced a) (name : String) :
    m.owned.Perm (m.olderOwn name ++ ownedOf (eraseKey name m.desk.streams)) := by
  unfold olderOwn
  cases hs : m.desk.streams.lookup name with
  | none =>
    rw [eraseKey_of_lookup hs]
    exact List.Perm.refl _
  | some s => exact perm_ownedOf_eraseKey hm.names hs

theorem Balanced.put {s : Stream} (hm : m.Balanced (s.own ++ a)) (hs : s.Entitled m)
    (ho : s.finished → s.entry = none) (name : String) :
    Passes (s.own ++ a) (m.olderOwn name ++ a) m
      (m.onDesk fun d ↦ { d with streams := setKey name s d.streams }) := by
  have hp := hm.perm_older name
  refine hm.arrange ?_ (fun c hc ↦ ?_) (nodup_setKey hm.names) (fun p hp ↦ ?_) (fun p hp ↦ ?_)
  · rw [setKey, ownedOf_cons]
    rw [List.perm_iff_count] at hp ⊢
    intro c
    have hc := hp c
    simp only [List.count_append] at hc ⊢
    omega
  · obtain hc | hc := List.mem_append.1 hc
    · have ho : c ∈ m.owned := hp.mem_iff.2 (List.mem_append_left _ hc)
      obtain ⟨p, hp, e, he, rfl⟩ := mem_owned.1 ho
      exact (hm.stream p hp e he).usable.1
    · exact hm.inHand c (List.mem_append_right _ hc)
  · obtain rfl | ⟨hp, -⟩ := mem_setKey.1 hp
    · exact hs
    · exact hm.stream p hp
  · obtain rfl | ⟨hp, -⟩ := mem_setKey.1 hp
    · exact ho
    · exact hm.ended p hp

theorem Balanced.sweep (hm : m.Balanced a) {l : List (String × Stream)}
    (hl : l.Perm m.desk.streams) :
    Passes a (ownedOf l ++ a) m (m.onDesk fun d ↦ { d with streams := [] }) := by
  have hp : (ownedOf l).Perm m.owned := ownedOf_perm hl
  refine hm.arrange ?_ (fun c hc ↦ ?_) List.nodup_nil (by simp) (by simp)
  · have he : ownedOf [] = [] := rfl
    rw [he, List.append_nil]
    exact List.perm_append_comm.trans (hp.symm.append_right a)
  · obtain hc | hc := List.mem_append.1 hc
    · obtain ⟨p, hp, e, he, rfl⟩ := mem_owned.1 (hp.mem_iff.1 hc)
      exact (hm.stream p hp e he).usable.1
    · exact hm.inHand c hc

end Memory

namespace Stream

/-- What reading from a stream comes to. Once it has ended it has nothing to itself any more; until
then it has given neither an error nor its end. -/
inductive Pulled (h : Host σ) (s : Stream) (w : World σ) :
    Outcome (List (Except Error Mapped) × Bool) → Stream → World σ → Prop
  | opened {items : List (Except Error Mapped)} {s' : Stream} {w' : World σ}
    (hr : Memory.Read w.memory w'.memory) (he : s'.entry = s.entry)
    (hf : s'.finished = s.finished) (hi : ∀ i ∈ items, i.isOk) :
    Pulled h s w (.ok (items, false)) s' w'
  | panicked {p : String} {s' : Stream} {w' : World σ}
    (hr : Memory.Read w.memory w'.memory) (he : s'.entry = s.entry) :
    Pulled h s w (.error (.panic p)) s' w'
  | ended {r : Outcome (List (Except Error Mapped) × Bool)} {s' : Stream} {w' : World σ}
    {e : Entry} (hr : Memory.Read w.memory w'.memory) (he : s.entry = some e)
    (hs : s'.entry = none) (hf : s'.finished) (ok : Bool) :
    Pulled h s w r s' (e.closed h ok w')
  | joined {r : Outcome (List (Except Error Mapped) × Bool)} {s' : Stream} {w' : World σ}
    (hr : Memory.Read w.memory w'.memory) (he : s.entry = none) (hs : s'.entry = none) :
    Pulled h s w r s' w'

variable {s s' t : Stream} {r : Outcome (List (Except Error Mapped) × Bool)} {w' w'' : World σ}

theorem entitled_of_none (hn : s.entry = none) (m : Memory) : s.Entitled m := by
  intro e he
  rw [hn] at he
  cases he

theorem Pulled.congr (hp : Pulled h s w r s' w') (he : s.entry = t.entry)
    (hf : s.finished = t.finished) : Pulled h t w r s' w' := by
  cases hp with
  | opened hr he' hf' hi => exact .opened hr (he'.trans he) (hf'.trans hf) hi
  | panicked hr he' => exact .panicked hr (he'.trans he)
  | ended hr he' hs hf' ok => exact .ended hr (he ▸ he') hs hf' ok
  | joined hr he' hs => exact .joined hr (he ▸ he') hs

theorem Pulled.after (hr : w.memory.Read w'.memory) (hp : Pulled h s w' r s' w'') :
    Pulled h s w r s' w'' := by
  cases hp with
  | opened hr' he hf hi => exact .opened (hr.trans hr') he hf hi
  | panicked hr' he => exact .panicked (hr.trans hr') he
  | ended hr' he hs hf ok => exact .ended (hr.trans hr') he hs hf ok
  | joined hr' he hs => exact .joined (hr.trans hr') he hs

def itemized : Outcome Blocking.Item → Outcome (List (Except Error Mapped) × Bool)
  | .ok none => .ok ([], true)
  | .ok (some item) => .ok ([item], false)
  | .error f => .error f

theorem pulled_exit (hl : h.Lawful) (hr : w.memory.Read w'.memory) (hs : s.Entitled w.memory)
    {e : Entry} (he : s.entry = some e) (hn : s'.entry = none) (hf : s'.finished)
    (x : Except Error Unit) :
    Pulled h s w r s' (Call.exec h cb (Blocking.Entry.exit e x) w').2 := by
  have hs' := hr.entitled hs e he
  rw [Blocking.Entry.exec_exit_snd hl hs'.owner hs'.usable]
  exact .ended hr he hn hf _

theorem pulled_finish (hl : h.Lawful) (hs : s.Entitled w.memory) (failure : Option Error) :
    Pulled h s w (itemized ((Blocking.finish s failure).runInSequence h cb w).1.1)
      ((Blocking.finish s failure).runInSequence h cb w).1.2
      ((Blocking.finish s failure).runInSequence h cb w).2 := by
  have hr := h.read_act (o := .close s.cursor.connection s.cursor.id) rfl w
  have hc : Call.exec h cb s.cursor.close w = _ := s.cursor.exec_close hl
  rw [← hc] at hr
  unfold Blocking.finish
  rw [Action.runInSequence_bind]
  obtain ⟨m, hx⟩ | ⟨x, hx⟩ := Call.exec_caught_cases h cb s.cursor.close w
  all_goals
    unfold Call.exec at hx
    dsimp only
    rw [hx]
  · exact .panicked hr rfl
  · cases he : s.entry with
    | none => cases failure <;> exact .joined hr he rfl
    | some e =>
      cases failure <;> dsimp only <;> rw [Action.runInSequence_bind] <;>
        exact pulled_exit hl hr hs he rfl rfl _

theorem pulled_next (hl : h.Lawful) (hs : s.Entitled w.memory) (hf : s.finished = false) :
    Pulled h s w (itemized ((Blocking.next s).runInSequence h cb w).1.1)
      ((Blocking.next s).runInSequence h cb w).1.2
      ((Blocking.next s).runInSequence h cb w).2 := by
  have hr := h.read_act (o := .fetch s.cursor.connection s.cursor.id s.cursor.fetched) rfl w
  have hx : (Cursor.fetchOne.run s.cursor).run.runInSequence h cb w = _ :=
    s.cursor.exec_fetchOne hl
  unfold Blocking.next
  rw [if_neg (by simp [hf]), Action.runInSequence_bind, hx]
  dsimp only
  have hs' := hr.entitled hs
  generalize h.act (.fetch s.cursor.connection s.cursor.id s.cursor.fetched) w = fetched at hr hs'
  obtain ⟨(err | m) | _, w₁⟩ := fetched
  all_goals dsimp only at hr hs'
  · exact (pulled_finish hl hs' _).after hr
  · exact .panicked hr rfl
  · have hfinish : ∀ failure, Pulled h s w
        (itemized ((Blocking.finish { s with cursor := s.cursor.advance } failure).runInSequence
          h cb w₁).1.1)
        ((Blocking.finish { s with cursor := s.cursor.advance } failure).runInSequence h cb w₁).1.2
        ((Blocking.finish { s with cursor := s.cursor.advance } failure).runInSequence h cb w₁).2 :=
      fun failure ↦ ((pulled_finish (s := { s with cursor := s.cursor.advance }) hl hs'
        failure).congr (t := s) rfl rfl).after hr
    cases s.cursor.rows.head? with
    | none => exact hfinish none
    | some row =>
      dsimp only [Except.map]
      cases s.shape.ofRow s.columns row with
      | error err => exact hfinish (some err)
      | ok x => exact .opened hr rfl rfl (by simp [Except.isOk, Except.toBool])

theorem Pulled.cons {item : Except Error Mapped} (hi : item.isOk) (hp : Pulled h s w r s' w') :
    Pulled h s w (r.map fun p ↦ (item :: p.1, p.2)) s' w' := by
  cases hp with
  | opened hr he hf hs => exact .opened hr he hf (List.forall_mem_cons.2 ⟨hi, hs⟩)
  | panicked hr he => exact .panicked hr he
  | ended hr he hs hf ok => exact .ended hr he hs hf ok
  | joined hr he hs => exact .joined hr he hs

theorem Pulled.read (hp : Pulled h s w r s' w') (hn : s.entry = none) :
    w.memory.Read w'.memory ∧ s'.entry = none := by
  cases hp with
  | opened hr he hf hs => exact ⟨hr, he.trans hn⟩
  | panicked hr he => exact ⟨hr, he.trans hn⟩
  | ended hr he hs hf ok =>
    rw [hn] at he
    cases he
  | joined hr he hs => exact ⟨hr, hs⟩

theorem next_of_finished (hf : s.finished) :
    (Blocking.next s).runInSequence h cb w = ((.ok none, s), w) := by
  unfold Blocking.next
  rw [if_pos hf]
  rfl

variable {x : Context}

theorem runInSequence_pull (hx : x.mode = .blocking) (s : Stream) (n : Nat) (w : World σ) :
    (x.pull s (n + 1)).runInSequence h cb w =
      match (Blocking.next s).runInSequence h cb w with
      | ((.error f, s), w) => ((.error f, s), w)
      | ((.ok none, s), w) => ((.ok ([], true), s), w)
      | ((.ok (some item), s), w) =>
        let r := (x.pull s n).runInSequence h cb w
        ((r.1.1.map fun p ↦ (item :: p.1, p.2), r.1.2), r.2) := by
  have hn : x.next s = Blocking.next s := by rw [Context.next, hx]
  rw [Context.pull, hn, Action.runInSequence_bind]
  rcases (Blocking.next s).runInSequence h cb w with ⟨⟨_ | _ | item, s⟩, w⟩
  · rfl
  · rfl
  · dsimp only
    rw [Action.runInSequence_bind]
    rfl

theorem pull_of_finished (hx : x.mode = .blocking) (hf : s.finished) (n : Nat) :
    ((x.pull s n).runInSequence h cb w).1.2 = s ∧ ((x.pull s n).runInSequence h cb w).2 = w := by
  cases n with
  | zero => exact ⟨rfl, rfl⟩
  | succ n =>
    rw [runInSequence_pull hx, next_of_finished hf]
    exact ⟨rfl, rfl⟩

theorem pulled_pull (hl : h.Lawful) (hx : x.mode = .blocking) (n : Nat)
    (hs : s.Entitled w.memory) (ho : s.finished → s.entry = none) :
    Pulled h s w ((x.pull s n).runInSequence h cb w).1.1
      ((x.pull s n).runInSequence h cb w).1.2 ((x.pull s n).runInSequence h cb w).2 := by
  induction n generalizing s w with
  | zero => exact .opened (.refl _) rfl rfl (by simp)
  | succ n ih =>
    rw [runInSequence_pull hx]
    cases hf : s.finished with
    | true =>
      rw [next_of_finished hf]
      exact .joined (.refl _) (ho hf) (ho hf)
    | false =>
      have hp : Pulled h s w (itemized ((Blocking.next s).runInSequence h cb w).1.1) _ _ :=
        pulled_next hl hs hf
      generalize (Blocking.next s).runInSequence h cb w = r at hp ⊢
      obtain ⟨⟨f | _ | item, s'⟩, w'⟩ := r
      · exact hp
      · exact hp
      · cases hp with
        | opened hr he hf' hi =>
          have hp := ih (s := s') (w := w') (fun e h' ↦ hr.entitled hs e (he ▸ h'))
            (fun h' ↦ absurd h' (by rw [hf', hf]; exact Bool.false_ne_true))
          exact ((hp.congr he hf').after hr).cons (hi item List.mem_cons_self)
        | ended hr he hn hf' ok =>
          -- The stream gave its last error, so what is left of the pull finds it finished.
          dsimp only
          rw [(pull_of_finished hx hf' n).1, (pull_of_finished hx hf' n).2]
          exact .ended hr he hn hf' ok
        | joined hr he hn =>
          have hp := (ih (s := s') (w := w') (entitled_of_none hn _) fun _ ↦ hn).read hn
          exact .joined (hr.trans hp.1) he hp.2

theorem passes_closed (hl : h.Lawful) {e : Entry} (he : e.Entitled w.memory)
    (hm : w.memory.Balanced (e.connection :: a)) (ok : Bool) :
    Passes (e.connection :: a) a w.memory (e.closed h ok w).memory := by
  have hleave := Entry.leaves_closed hl e ok w
  refine ⟨hleave.balanced hm.tail he.usable he.cameFrom hm.not_mem, hleave.frame he.usable,
    hleave.busy, ?_⟩
  rw [hleave.active, he.unregistered]
  rfl

theorem Entitled.of_entry {m : Memory} (hs : s.Entitled m) (he : s'.entry = s.entry) :
    s'.Entitled m := fun e h' ↦ hs e (he ▸ h')

theorem own_congr (he : s'.entry = s.entry) : s'.own = s.own := by rw [own, he]; rfl

theorem Pulled.passes (hl : h.Lawful) (hp : Pulled h s w r s' w')
    (hm : w.memory.Balanced (s.own ++ a)) (hs : s.Entitled w.memory) :
    Passes (s.own ++ a) (s'.own ++ a) w.memory w'.memory ∧ s'.Entitled w'.memory ∧
      w'.memory.desk = w.memory.desk := by
  cases hp with
  | opened hr he hf hi =>
    rw [own_congr he]
    exact ⟨(hr.quiet _).keeps hm, (hr.entitled hs).of_entry he, hr.desk⟩
  | panicked hr he =>
    rw [own_congr he]
    exact ⟨(hr.quiet _).keeps hm, (hr.entitled hs).of_entry he, hr.desk⟩
  | @ended _ _ w₁ e hr he hn hf ok =>
    have hk := (hr.quiet _).keeps hm
    have hs' := hr.entitled hs e he
    rw [own_of_some he] at hm hk ⊢
    rw [own_of_none hn]
    exact ⟨hk.trans (passes_closed hl hs' hk.balanced ok), entitled_of_none hn _,
      (Entry.leaves_closed hl e ok w₁).desk.trans hr.desk⟩
  | joined hr he hn =>
    rw [own_of_none he] at hm ⊢
    rw [own_of_none hn]
    exact ⟨(hr.quiet _).keeps hm, entitled_of_none hn _, hr.desk⟩

theorem Pulled.ended_of_finished {v : List (Except Error Mapped) × Bool}
    (hp : Pulled h s w (.ok v) s' w') (ho : s.finished → s.entry = none) : s'.finished → s'.entry = none := by
  cases hp with
  | opened hr he hf hi =>
    rw [he, hf]
    exact ho
  | ended hr he hn hf ok => exact fun _ ↦ hn
  | joined hr he hn => exact fun _ ↦ hn

theorem exec_dropStream (hl : h.Lawful) (hs : s.Entitled w.memory) :
    ∃ w' : World σ, w.memory.Read w'.memory ∧
      (Call.exec h cb (Blocking.dropStream s) w).2 = match s.entry with
        | some e => e.closed h false w'
        | none => w' := by
  have hr : w.memory.Read
      (Call.exec h cb (if s.closed then pure () else Blocking.closeQuietly s.cursor) w).2.memory := by
    rw [Call.exec_ite]
    split
    · exact .refl _
    · exact (Reads.closeQuietly s.cursor).read hl w
  refine ⟨_, hr, ?_⟩
  unfold Blocking.dropStream
  rw [Call.exec_bind, Call.exec_outcome]
  generalize Call.exec h cb (if s.closed then pure () else Blocking.closeQuietly s.cursor) w = r at hr
  obtain ⟨r, w'⟩ := r
  cases he : s.entry with
  | none => rfl
  | some e =>
    have hs' := hr.entitled hs e he
    have ha : (Call.exec h cb (Blocking.Entry.abandon e) w').2 = _ :=
      Blocking.Entry.exec_abandon hl hs'.owner hs'.usable
    dsimp only at ha ⊢
    rw [Call.exec_bind, ← ha]
    rcases Call.exec h cb (Blocking.Entry.abandon e) w' with ⟨_ | _, w''⟩ <;> rfl

theorem passes_dropStream (hl : h.Lawful) (hm : w.memory.Balanced (s.own ++ a))
    (hs : s.Entitled w.memory) :
    Passes (s.own ++ a) a w.memory (Call.exec h cb (Blocking.dropStream s) w).2.memory := by
  obtain ⟨w', hr, hw⟩ : ∃ w' : World σ, w.memory.Read w'.memory ∧
      (Call.exec h cb (Blocking.dropStream s) w).2 = _ := exec_dropStream hl hs
  have hk := (hr.quiet _).keeps hm
  rw [hw]
  cases he : s.entry with
  | none =>
    rw [own_of_none he] at hk ⊢
    exact hk
  | some e =>
    rw [own_of_some he] at hk ⊢
    exact hk.trans (passes_closed hl (hr.entitled hs e he) hk.balanced false)

theorem desk_dropStream (hl : h.Lawful) (hs : s.Entitled w.memory) :
    (Call.exec h cb (Blocking.dropStream s) w).2.memory.desk = w.memory.desk := by
  obtain ⟨w', hr, hw⟩ : ∃ w' : World σ, w.memory.Read w'.memory ∧
      (Call.exec h cb (Blocking.dropStream s) w).2 = _ := exec_dropStream hl hs
  rw [hw]
  cases s.entry with
  | none => exact hr.desk
  | some e => exact (Entry.leaves_closed hl e false w').desk.trans hr.desk

/-- What opening a stream comes to: nothing, a stream in the scope that is active, or a scope of its
own, which has ended again if there is no stream. -/
inductive Opened (h : Host σ) (a : List Nat) (thread b : Nat) (w : World σ) :
    Outcome Stream → World σ → Prop
  | failed {r : Outcome Stream} {w' : World σ} (hr : Outcome.isOk r = false)
    (hq : Quiet a w.memory w'.memory) (he : ∀ c, w'.memory.endsOf c = w.memory.endsOf c) :
    Opened h a thread b w r w'
  | joined {r : Outcome Stream} {w' : World σ} {c : Nat}
    (ha : w.memory.active.lookup (thread, b) = some c) (hk : Spares a c w.memory w'.memory)
    (hs : ∀ s, r = .ok s → s.entry = none) :
    Opened h a thread b w r w'
  | opened {s : Stream} {e : Entry} {w' w'' : World σ}
    (he : e = ⟨b, e.connection, true, false, thread⟩)
    (ha : w.memory.active.lookup (thread, b) = none) (ho : Opens a e w.memory w'.memory)
    (hk : Spares (e.connection :: a) e.connection w'.memory w''.memory)
    (hs : s.entry = some e) (hf : s.finished = false) : Opened h a thread b w (.ok s) w''
  | closed {r : Outcome Stream} {e : Entry} {w' w'' : World σ} (hr : Outcome.isOk r = false)
    (he : e = ⟨b, e.connection, true, false, thread⟩)
    (ha : w.memory.active.lookup (thread, b) = none) (ho : Opens a e w.memory w'.memory)
    (hk : Spares (e.connection :: a) e.connection w'.memory w''.memory) :
    Opened h a thread b w r (e.closed h false w'')

section

variable {thread b : Nat}

theorem entitled_opens {e : Entry} {m' m'' : Memory}
    (he : e = ⟨b, e.connection, true, false, thread⟩) (ho : Opens a e m m')
    (hk : Keeps (e.connection :: a) m' m'') : e.Entitled m'' := by
  refine ⟨by rw [he], by rw [he], ⟨hk.balanced.inHand _ List.mem_cons_self, ?_⟩,
    ho.cameFrom hk.frame.trace⟩
  rw [hk.busy]
  exact ho.usable.2

theorem Opened.passes (hp : Opened h a thread b w (.ok s) w') :
    Passes a (s.own ++ a) w.memory w'.memory ∧ s.Entitled w'.memory ∧
      (s.finished → s.entry = none) := by
  cases hp with
  | failed hr hq he => cases hr
  | joined ha hk hs =>
    have hn := hs s rfl
    rw [own_of_none hn]
    exact ⟨hk.keeps, entitled_of_none hn _, fun _ ↦ hn⟩
  | @opened _ e w₁ _ he ha ho hk hs hf =>
    have hreg : e.registered = false := by rw [he]
    rw [own_of_some hs]
    refine ⟨(ho.passes hreg).trans hk.keeps, fun f hf' ↦ ?_, fun hf' ↦ ?_⟩
    · rw [hs, Option.some.injEq] at hf'
      subst hf'
      exact entitled_opens he ho hk.keeps
    · rw [hf] at hf'
      cases hf'
  | closed hr he ha ho hk => cases hr

theorem Opened.keeps (hl : h.Lawful) {f : Fault} (hp : Opened h a thread b w (.error f) w')
    (hm : w.memory.Balanced a) : Keeps a w.memory w'.memory := by
  cases hp with
  | failed hr hq he => exact hq.keeps hm
  | joined ha hk hs => exact hk.keeps
  | @closed _ e w₁ w₂ hr he ha ho hk =>
    have hreg : e.registered = false := by rw [he]
    exact ((ho.passes hreg).trans hk.keeps).trans
      (passes_closed hl (entitled_opens he ho hk.keeps) hk.keeps.balanced false)

end

def onCursor (e : Entry) (shape : Shape) : Except Error Cursor → Call Stream
  | .error err => Blocking.Entry.exit e (.error err)
  | .ok cursor =>
    pure ⟨cursor, cursor.columns, shape, if e.owner then some e else none, false, false⟩

variable {thread binder : Nat}

theorem opened_joined (hl : h.Lawful) (hcb : cb.Sound) (hm : w.memory.Balanced a) {c : Nat}
    (ha : w.memory.active.lookup (thread, binder) = some c) (sql : String) (params : List Value)
    (shape : Shape) :
    let r := Call.exec h cb (Blocking.Entry.guarded ⟨binder, c, false, false, thread⟩
      (Blocking.caught (Session.query c sql params)) >>=
        onCursor ⟨binder, c, false, false, thread⟩ shape) w
    Opened h a thread binder w r.1 r.2 := by
  have hc := hm.active _ (mem_of_lookup ha)
  have hk : Spares a c w.memory (Call.exec h cb (Session.query c sql params) w).2.memory :=
    spares_query hl hcb hm hc.1 (fun hn ↦ hc.2 (List.mem_append_right _ hn)) _ _
  dsimp only
  rw [Blocking.Entry.exec_scope]
  generalize Call.exec h cb (Session.query c sql params) w = q at hk
  obtain ⟨(err | m) | cursor, w₂⟩ := q
  · dsimp only [onCursor]
    rw [Blocking.Entry.exec_exit_joined rfl]
    exact .joined ha hk (by intro s hs; cases hs)
  · dsimp only
    rw [Blocking.Entry.exec_abandon_joined rfl]
    exact .joined ha hk (by intro s hs; cases hs)
  · exact .joined ha hk (by intro s hs; cases hs; rfl)

theorem opened_leased (hl : h.Lawful) (hcb : cb.Sound) {e : Entry} {w₁ : World σ}
    (he : e = ⟨binder, e.connection, true, false, thread⟩)
    (ha : w.memory.active.lookup (thread, binder) = none) (ho : Opens a e w.memory w₁.memory)
    (sql : String) (params : List Value) (shape : Shape) :
    let r := Call.exec h cb (Blocking.Entry.guarded e
      (Blocking.caught (Session.query e.connection sql params)) >>= onCursor e shape) w₁
    Opened h a thread binder w r.1 r.2 := by
  have hown : e.owner = true := by rw [he]
  have hb := (ho.passes (by rw [he])).balanced
  have hk : Spares (e.connection :: a) e.connection w₁.memory
      (Call.exec h cb (Session.query e.connection sql params) w₁).2.memory :=
    spares_query hl hcb hb (hb.holds_le _ ho.usable.1)
      (fun hn ↦ ho.apart (List.mem_append_right _ hn)) _ _
  dsimp only
  rw [Blocking.Entry.exec_scope]
  generalize Call.exec h cb (Session.query e.connection sql params) w₁ = q at hk
  obtain ⟨(err | m) | cursor, w₂⟩ := q
  all_goals
    have hu := (entitled_opens he ho hk.keeps).usable
  · have hr : Outcome.isOk (Call.exec h cb
        (Blocking.Entry.exit e (.error err : Except Error Stream)) w₂).1 = false :=
      Blocking.Entry.isOk_exit_error hl hown hu err
    dsimp only [onCursor]
    rw [Blocking.Entry.exec_exit_snd hl hown hu]
    exact .closed hr he ha ho hk
  · dsimp only
    rw [Blocking.Entry.exec_abandon hl hown hu]
    exact .closed rfl he ha ho hk
  · exact .opened he ha ho hk (by rw [hown]; rfl) rfl

theorem opened_stream (hl : h.Lawful) (hcb : cb.Sound) (hm : w.memory.Balanced a) (thread : Nat)
    (b : Bound) (shape : Shape) (args : Arguments) :
    Opened h a thread b.binder w (Call.exec h cb (Blocking.stream thread b shape args) w).1
      (Call.exec h cb (Blocking.stream thread b shape args) w).2 := by
  have hstream : Blocking.stream thread b shape args = b.render args >>= fun x ↦
      Blocking.enter thread b.binder false >>= fun e ↦ Blocking.Entry.guarded e
        (Blocking.caught (Session.query e.connection x.sql x.params)) >>= onCursor e shape := rfl
  obtain ⟨r, hr⟩ : ∃ r, Call.exec h cb (b.render args) w = (r, w) :=
    ⟨_, b.exec_render args w⟩
  rw [hstream, Call.exec_bind, hr]
  cases r with
  | error f =>
    exact .failed rfl (SameBooks.quiet ⟨rfl, rfl, rfl, rfl, rfl, rfl, rfl⟩ a) fun _ ↦ rfl
  | ok x =>
    dsimp only
    rw [Call.exec_bind]
    have henter : Enters a thread b.binder false w
        (Call.exec h cb (Blocking.enter thread b.binder false) w).1
        (Call.exec h cb (Blocking.enter thread b.binder false) w).2 := enters hl hm _ _ _
    generalize Call.exec h cb (Blocking.enter thread b.binder false) w = r at henter ⊢
    obtain ⟨r, w₁⟩ := r
    cases henter with
    | failed hq he => exact .failed rfl hq he
    | joined ha => exact opened_joined hl hcb hm ha _ _ _
    | leased he ha ho => exact opened_leased hl hcb he ha ho _ _ _

end Stream

end BoundSql
