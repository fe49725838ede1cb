import BoundSql.Proofs.Scope.Stream

namespace BoundSql

open Memory Call

variable {σ : Type} {h : Host σ} {cb : Callback σ} {w : World σ} {a K : List Nat} {x : Context}

@[simp] theorem Desk.exec_change (f : Desk → Desk) :
    exec h cb (Desk.change f) w = (.ok (), { w with memory := w.memory.onDesk f }) := rfl

theorem Memory.olderOwn_of_lookup {m : Memory} {name : String} {older : Option Stream}
    (h : m.desk.streams.lookup name = older) : m.olderOwn name = (older.map Stream.own).getD [] := by
  rw [olderOwn, h]

namespace Action.Sound

theorem callStream (hl : h.Lawful) (hcb : cb.Sound) (hx : x.mode = .blocking) {b : Bound}
    {shape : Shape} (hb : b.form = .stream shape) (args : Arguments) (name : Option String) :
    Sound h cb K (Step.callBound x b args name).run := by
  intro a w hm _
  change Keeps a w.memory (exec h cb (Step.callBound x b args name) w).2.memory
  have hs : x.stream b shape args = Blocking.stream x.thread b shape args := by
    rw [Context.stream, hx]
  have hd : ∀ s, x.dropStream s = Blocking.dropStream s := by
    intro s
    rw [Context.dropStream, hx]
  have hopen : Stream.Opened h a x.thread b.binder w
      (exec h cb (Blocking.stream x.thread b shape args) w).1
      (exec h cb (Blocking.stream x.thread b shape args) w).2 :=
    Stream.opened_stream hl hcb hm _ _ _ _
  rw [Step.callBound, hb]
  dsimp only
  rw [exec_bind, hs]
  generalize exec h cb (Blocking.stream x.thread b shape args) w = r at hopen ⊢
  obtain ⟨f | s, w₁⟩ := r
  · exact hopen.keeps hl hm
  · obtain ⟨hp, hs, ho⟩ := hopen.passes
    have hk := hp.trans (hp.balanced.put hs ho (name.getD ""))
    dsimp only
    rw [exec_bind, exec_read]
    dsimp only
    rw [exec_bind, Desk.exec_change]
    cases hold : w₁.memory.desk.streams.lookup (name.getD "") with
    | none =>
      rw [olderOwn_of_lookup hold] at hk
      exact hk
    | some older =>
      rw [olderOwn_of_lookup hold] at hk
      dsimp only
      rw [snd_exec_bind fun _ _ ↦ rfl, hd]
      exact hk.trans (Stream.passes_dropStream hl (w := ⟨_, w₁.host⟩) hk.balanced
        ((hp.balanced.stream _ (mem_of_lookup hold)).congr rfl rfl rfl))

theorem pullNamed (hl : h.Lawful) (hx : x.mode = .blocking) (name : String) (n : Nat) :
    Sound h cb K (Step.pullNamed x name n).run := by
  intro a w hm _
  change Keeps a w.memory (exec h cb (Step.pullNamed x name n) w).2.memory
  rw [Step.pullNamed, exec_bind, exec_read]
  dsimp only
  cases hs : w.memory.desk.streams.lookup name with
  | none => exact .refl hm
  | some s =>
    have htake := hm.take hs
    have hent := hm.stream _ (mem_of_lookup hs)
    dsimp only
    rw [exec_bind, Desk.exec_change]
    dsimp only
    generalize hw : (⟨w.memory.onDesk fun d ↦ { d with streams := eraseKey name d.streams },
      w.host⟩ : World σ) = w₁
    have hp : Stream.Pulled h s w₁ ((x.pull s n).runInSequence h cb w₁).1.1
        ((x.pull s n).runInSequence h cb w₁).1.2 ((x.pull s n).runInSequence h cb w₁).2 :=
      Stream.pulled_pull hl hx n (by subst hw; exact hent.congr rfl rfl rfl) (hm.ended _ (mem_of_lookup hs))
    have hd : ∀ s, x.dropStream s = Blocking.dropStream s := by
      intro s
      rw [Context.dropStream, hx]
    replace htake : Passes a (s.own ++ a) w.memory w₁.memory := by
      subst hw
      exact htake
    obtain ⟨hk, hent', hdesk⟩ := hp.passes hl htake.balanced (by subst hw; exact hent.congr rfl rfl rfl)
    rw [exec_bind, exec_lift]
    generalize (x.pull s n).runInSequence h cb w₁ = r at hp hk hent' hdesk ⊢
    obtain ⟨⟨f | ⟨items, ended⟩, s'⟩, w₂⟩ := r
    · dsimp only at hk hent' ⊢
      rw [snd_exec_bind fun _ _ ↦ rfl, exec_outcome, hd]
      exact (htake.trans hk).trans (Stream.passes_dropStream hl hk.balanced hent')
    · dsimp only at hp hk hent' hdesk ⊢
      have hput := hk.balanced.put hent' (hp.ended_of_finished (hm.ended _ (mem_of_lookup hs))) name
      have hold : w₂.memory.desk.streams.lookup name = none := by
        rw [hdesk, ← hw]
        exact lookup_eraseKey_self
      rw [olderOwn_of_lookup hold] at hput
      exact (htake.trans hk).trans hput

theorem dropNamed (hl : h.Lawful) (hx : x.mode = .blocking) (name : String) :
    Sound h cb K (Step.dropNamed x name).run := by
  intro a w hm _
  change Keeps a w.memory (exec h cb (Step.dropNamed x name) w).2.memory
  have hd : ∀ s, x.dropStream s = Blocking.dropStream s := by
    intro s
    rw [Context.dropStream, hx]
  rw [Step.dropNamed, exec_bind, exec_read]
  dsimp only
  rw [exec_bind, Desk.exec_change]
  dsimp only
  cases hs : w.memory.desk.streams.lookup name with
  | none =>
    have hb : SameBooks w.memory
        (w.memory.onDesk fun d ↦ { d with streams := eraseKey name d.streams }) :=
      ⟨rfl, rfl, rfl, rfl, eraseKey_of_lookup hs, rfl, rfl⟩
    exact (hb.quiet a).keeps hm
  | some s =>
    dsimp only
    rw [snd_exec_bind fun _ _ ↦ rfl, hd]
    have htake := hm.take hs
    exact htake.trans (Stream.passes_dropStream hl (w := ⟨_, w.host⟩) htake.balanced
      ((hm.stream _ (mem_of_lookup hs)).congr rfl rfl rfl))

theorem passes_dropAll (hl : h.Lawful) (cb : Callback σ) {l : List (String × Stream)}
    (hm : w.memory.Balanced (ownedOf l ++ a)) (hs : ∀ p ∈ l, p.2.Entitled w.memory) :
    let w' := (exec h cb (forIn l PUnit.unit fun p _ ↦ do
      let _ ← (Blocking.dropStream p.2).outcome
      return .yield PUnit.unit) w).2
    Passes (ownedOf l ++ a) a w.memory w'.memory ∧ w'.memory.desk = w.memory.desk := by
  induction l generalizing w with
  | nil => exact ⟨.refl hm, rfl⟩
  | cons p l ih =>
    obtain ⟨name, s⟩ := p
    rw [ownedOf_cons, List.append_assoc] at hm ⊢
    have hk : Passes (s.own ++ (ownedOf l ++ a)) (ownedOf l ++ a) w.memory
        (exec h cb (Blocking.dropStream s) w).2.memory :=
      Stream.passes_dropStream hl hm (hs _ List.mem_cons_self)
    have hdesk : (exec h cb (Blocking.dropStream s) w).2.memory.desk = w.memory.desk :=
      Stream.desk_dropStream hl (hs _ List.mem_cons_self)
    rw [List.forIn_cons, exec_bind, exec_bind, exec_outcome, ← hdesk]
    have hrest := ih hk.balanced fun p hp e he ↦ by
      -- The connections of the other streams are still in hand, so they are still held.
      have hent := hs p (List.mem_cons_of_mem _ hp) e he
      refine hent.mono ⟨hk.balanced.inHand _ (List.mem_append_left _ ?_), ?_⟩ hk.frame.trace
      · exact List.mem_flatMap.2 ⟨p, hp, Stream.mem_own.2 ⟨e, he, rfl⟩⟩
      · rw [hk.busy]
        exact hent.usable.2
    exact ⟨hk.trans hrest.1, hrest.2⟩

theorem passes_finish (hl : h.Lawful) (hx : x.mode = .blocking) (hm : w.memory.Balanced a)
    (stopped : Bool) :
    Keeps a w.memory (exec h cb (Step.finish x stopped) w).2.memory ∧
      (exec h cb (Step.finish x stopped) w).2.memory.owned = [] := by
  have hd : x.dropStream = Blocking.dropStream := by
    funext s
    rw [Context.dropStream, hx]
  have hp := List.mergeSort_perm w.memory.desk.streams fun a b ↦ a.1 ≤ b.1
  rw [Step.finish, exec_bind, exec_read]
  dsimp only
  rw [exec_bind, Desk.exec_change, hd]
  dsimp only
  refine exec_bind_cases (P := fun w' ↦ Keeps a w.memory w'.memory ∧ w'.memory.owned = [])
    (Q := fun r ↦ Keeps a w.memory r.2.memory ∧ r.2.memory.owned = [])
    ?_ (fun _ _ hw' ↦ hw') fun _ w' hw' ↦ ?_
  · have hsweep := hm.sweep hp
    have hall := passes_dropAll (w := ⟨_, w.host⟩) hl cb hsweep.balanced
      fun p hq ↦ (hm.stream p (hp.mem_iff.1 hq)).congr rfl rfl rfl
    exact ⟨hsweep.trans hall.1, congrArg (fun d : Desk ↦ ownedOf d.streams) hall.2⟩
  · have hb : SameBooks w'.memory w'.memory.drain := ⟨rfl, rfl, rfl, rfl, rfl, rfl, rfl⟩
    exact ⟨hw'.1.trans ((hb.quiet a).keeps hw'.1.balanced), hw'.2⟩

theorem finish (hl : h.Lawful) (hx : x.mode = .blocking) (stopped : Bool) :
    Sound h cb K (Step.finish x stopped).run :=
  fun _ _ hm _ ↦ (passes_finish hl hx hm stopped).1

end Action.Sound

end BoundSql
