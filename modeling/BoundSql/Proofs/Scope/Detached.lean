import BoundSql.Proofs.Scope.Entering

namespace BoundSql

open Memory

variable {α : Type} {x : Context} {S : Async.Scopes} {b c : Nat} {m : Memory} {l : List Event}
  {asks : List Event → Operation → Prop}

namespace Context

def opening (x : Context) (shape : Shape) (r : Template.Rendered) (e : Entry) : Call Stream := do
  match ← x.guarded e (Blocking.caught (x.locking e.connection
      (Session.query e.connection r.sql r.params))) with
  | .error err => x.exit e (.error err)
  | .ok cursor =>
    return ⟨cursor, cursor.columns, shape, if e.owner then some e else none, false, false⟩

theorem stream_opens (x : Context) (f : Bound) (shape : Shape) (args : Arguments) :
    x.stream f shape args =
      f.render args >>= fun r ↦ x.enter f.binder false >>= x.opening shape r := by
  obtain ⟨_ | _, thread, scopes⟩ := x <;> rfl

end Context

/-- The stream reads from the connection; if it has a scope to itself, nested calls do not join that. -/
structure Stream.On (x : Context) (c : Nat) (s : Stream) : Prop where
  connection : s.cursor.connection = c
  entry : ∀ e, s.entry = some e → ∃ b, e = x.entry b c true false

theorem Stream.On.of_none {s : Stream} (hc : s.cursor.connection = c) (he : s.entry = none) :
    s.On x c where
  connection := hc
  entry e h := by
    rw [he] at h
    cases h

namespace Conduct.within

variable {P : α → Prop} {p : Call α} {owner : Bool}

theorem guarded_aside (hs : Serves asks c) (hp : (within x.thread? asks).Runs (x.Live S) P p) :
    (within x.thread? asks).Runs (x.Live S) P (x.guarded (x.entry b c owner false) p) := by
  obtain ⟨mode, thread, scopes⟩ := x
  cases mode with
  | blocking =>
    cases owner with
    | true =>
      refine fun l m hm ↦ guarded (e := ⟨b, c, true, false, thread⟩) (T := S) rfl rfl rfl hs
        ((hp l m hm).mono fun r l m hr ↦ ?_) fun s l m hm ↦ ⟨hm, nofun⟩
      rcases r with (err | s) | a
      · exact hr
      · exact ⟨S, rfl, hr.1⟩
      · exact hr
    | false =>
      refine Runs.bind hp.outcome fun r hr ↦ ?_
      rcases r with (err | s) | a
      · exact .fail err
      · exact .throw _
      · exact .pure (hr a rfl)
  | async =>
    cases owner with
    | true => exact .protecting trivial (fun m hm ↦ starting hm) hp
    | false => exact hp

theorem exit_aside (hs : Serves asks c) {r : Except Error α} (hr : ∀ a, r = .ok a → P a) :
    (within x.thread? asks).Runs (x.Live S) P (x.exit (x.entry b c owner false) r) := by
  obtain ⟨mode, thread, scopes⟩ := x
  cases mode with
  | blocking =>
    cases owner with
    | true =>
      refine fun l m hm ↦ (exit_blocking (e := ⟨b, c, true, false, thread⟩) (T := S) rfl rfl rfl hs
        r hm).mono fun r' l m h ↦ ⟨h.1, fun a ha ↦ hr a (h.2 a ha)⟩
    | false => exact Runs.ofResult hr
  | async =>
    have hexit : (during ⟨.async, thread, scopes⟩ S asks).Runs (Context.Live ⟨.async, thread, scopes⟩ S) P
        (Async.Entry.exit ⟨b, c, owner, false, 0⟩ r) :=
      (during.ends (fun l o ho _ ↦ hs l o ho) b).exit (e := ⟨b, c, owner, false, 0⟩) hr fun _ _ _ _ _ ↦ hs _ _ rfl
    exact hexit.during

theorem opening (hs : Serves asks c) (shape : Shape) (r : Template.Rendered) :
    (within x.thread? asks).Runs (x.Live S) (·.On x c)
      (x.opening shape r (x.entry b c owner false)) := by
  have hq : (within x.thread? asks).Runs (x.Live S) (fun cursor ↦ cursor.connection = c)
      (x.locking c (Session.query c r.sql r.params)) := (during.locking (during.query hs _ _)).during
  unfold Context.opening
  rw [x.entry_connection, x.entry_owner]
  refine (guarded_aside hs hq.caught).bind fun q hq ↦ ?_
  cases q with
  | error err => exact exit_aside hs fun _ h ↦ by cases h
  | ok cursor =>
    refine .pure ⟨hq cursor rfl, fun e he ↦ ?_⟩
    cases owner with
    | true =>
      cases he
      exact ⟨b, rfl⟩
    | false => cases he

/-- A stream that is opened reads from the connection of the scope that it has joined, or from one that it
has leased. -/
theorem stream {f : Bound} (hj : ∀ c, S.lookup f.binder = some c → Serves asks c)
    (ho : S.lookup f.binder = none → Owning asks) (shape : Shape) (args : Arguments) (hm : x.Live S m) :
    (x.stream f shape args).run.Obeys (within x.thread? asks) (fun r l m ↦ x.Live S m ∧
      ∀ s, r = .ok s → ∃ c, s.On x c ∧ (S.lookup f.binder = some c ∨ HasLeased c l)) none l m := by
  have hrender : (during x S asks).Runs (x.Live S) (fun _ ↦ True) (f.render args) := .render f args
  rw [Context.stream_opens]
  refine .call_bind (((hrender l m hm).during hm).mono fun r l m hr ↦ ?_)
  obtain ⟨hm, -⟩ := hr
  rcases r with err | r
  · exact ⟨hm, fun _ h ↦ by cases h⟩
  · refine .call_bind ((enter (fun hb ↦ (ho hb).lease) false hm).mono fun e l m he ↦ ?_)
    cases he with
    | failed hm => exact ⟨hm, fun _ h ↦ by cases h⟩
    | @joined c _ _ hc hm =>
      exact (opening (hj c hc) shape r l m hm).mono fun t l m ht ↦
        ⟨ht.1, fun s hs ↦ ⟨c, ht.2 s hs, .inl hc⟩⟩
    | @leased c _ _ hc hl hm =>
      have hopen : (within x.thread? fun l o ↦ o.connection? = some c ∨ asks l o).Runs (x.Live S)
          (·.On x c) (x.opening shape r (x.entry f.binder c true false)) :=
        opening (fun _ _ h ↦ .inl h) shape r
      have hkept := (hopen l m hm).kept hl fun _ _ hl h ↦ hl.later h
      exact ((ho hc).serving hl hkept).mono fun t l m ht ↦
        ⟨ht.1.1, fun s hs ↦ ⟨c, ht.1.2 s hs, .inr ht.2⟩⟩

section Stream

variable {s : Stream}

theorem close (hs : Serves asks c) (hon : s.On x c) :
    (within x.thread? asks).Runs (x.Live S) (fun _ ↦ True) s.cursor.close :=
  (during.close hs.attends hon.connection).during

theorem holding (hp : (within x.thread? asks).Runs (x.Live S) P p) :
    (within x.thread? asks).Runs (x.Live S) P (Async.holding s p) := by
  unfold Async.holding
  split
  · exact .protecting trivial (fun m hm ↦ starting hm) hp
  · exact hp

theorem finish (hs : Serves asks c) (hon : s.On x c) (failure : Option Error) :
    (x.mode = .blocking → (within x.thread? asks).Keeps (x.Live S) (·.2.On x c)
      (Blocking.finish s failure)) ∧
    (x.mode = .async → (within x.thread? asks).Keeps (x.Live S) (·.2.On x c)
      (Async.finish s failure)) := by
  have hclose : (within x.thread? asks).Runs (x.Live S) (fun _ ↦ True)
      (Blocking.caught s.cursor.close) := (close hs hon).caught.mono fun _ _ ↦ trivial
  have hexit : ∀ (e : Entry) (r : Except Error Unit), s.entry = some e →
      (within x.thread? asks).Runs (x.Live S) (fun _ ↦ True) (x.exit e r) := by
    intro e r he
    obtain ⟨b, rfl⟩ := hon.entry e he
    exact exit_aside hs fun _ _ ↦ trivial
  constructor
  · intro hx
    unfold Blocking.finish
    refine Keeps.bind hclose fun r _ ↦ ?_
    rcases r with f | closed
    · exact .done ⟨hon.connection, hon.entry⟩
    · dsimp only
      split
      · rename_i e he
        have hleave := fun r ↦ hexit e r he
        simp only [Context.exit, hx] at hleave
        exact Keeps.bind (hleave _) fun _ _ ↦ .done (Stream.On.of_none hon.connection rfl)
      · exact .done ⟨hon.connection, hon.entry⟩
  · intro hx
    unfold Async.finish
    refine Keeps.bind (holding hclose) fun r _ ↦ ?_
    rcases r with f | closed
    · exact .done (Stream.On.of_none hon.connection rfl)
    · dsimp only
      split
      · rename_i e he
        have hleave := fun r ↦ hexit e r he
        simp only [Context.exit, hx] at hleave
        exact Keeps.bind (hleave _) fun _ _ ↦ .done (Stream.On.of_none hon.connection rfl)
      · exact .done (Stream.On.of_none hon.connection rfl)

theorem next (hs : Serves asks c) (hon : s.On x c) :
    (within x.thread? asks).Keeps (x.Live S) (·.2.On x c) (x.next s) := by
  have hf : (within x.thread? asks).Runs (x.Live S) (fun r ↦ r.2.connection = c)
      (Cursor.fetchOne.run s.cursor) := (during.fetchOne hs.attends hon.connection).during
  unfold Context.next
  cases hx : x.mode with
  | blocking =>
    dsimp only
    unfold Blocking.next
    split
    · exact .done hon
    · refine Keeps.bind hf fun r hr ↦ ?_
      rcases r with (err | msg) | ⟨_ | row, cursor⟩
      · exact (finish hs hon _).1 hx
      · exact .done hon
      · exact (finish (s := { s with cursor }) hs ⟨hr _ rfl, hon.entry⟩ _).1 hx
      · have hon' : Stream.On x c { s with cursor } := ⟨hr _ rfl, hon.entry⟩
        dsimp only
        split
        · exact .done hon'
        · exact (finish hs hon' _).1 hx
  | async =>
    dsimp only
    unfold Async.next
    split
    · exact .done hon
    · refine Keeps.bind (holding hf.caught) fun r hr ↦ ?_
      rcases r with f | err | ⟨_ | row, cursor⟩
      · exact .done ⟨hon.connection, hon.entry⟩
      · exact (finish hs hon _).2 hx
      · exact (finish (s := { s with cursor }) hs ⟨hr _ rfl _ rfl, hon.entry⟩ _).2 hx
      · have hon' : Stream.On x c { s with cursor } := ⟨hr _ rfl _ rfl, hon.entry⟩
        dsimp only
        split
        · exact .done hon'
        · exact (finish hs hon' _).2 hx

theorem dropStream (hs : Serves asks c) (hon : s.On x c) :
    (within x.thread? asks).Runs (x.Live S) (fun _ ↦ True) (x.dropStream s) := by
  unfold Context.dropStream
  cases hx : x.mode with
  | blocking =>
    have hclose : (within x.thread? asks).Runs (x.Live S) (fun _ ↦ True)
        (if s.closed then pure () else Blocking.closeQuietly s.cursor : Call Unit) := by
      split
      · exact .pure trivial
      · exact (during.closeQuietly hs.attends hon.connection).during
    refine hclose.outcome.bind fun r _ ↦ ?_
    cases he : s.entry with
    | none => exact .ret fun _ _ ↦ trivial
    | some e =>
      obtain ⟨b, rfl⟩ := hon.entry e he
      refine Runs.bind (P := fun _ ↦ True) ?_ fun _ _ ↦ .ret fun _ _ ↦ trivial
      intro l m hm
      refine (abandon (T := S) hx ?_ (x.entry_owner ..) ?_ hm).mono fun _ _ _ h ↦ ⟨?_, fun _ _ ↦ trivial⟩
      · rw [Context.entry, hx]
      · rwa [x.entry_connection]
      · rw [Context.entry, hx] at h
        exact h
  | async =>
    dsimp only
    unfold Async.dropStream
    split
    · exact .lift (.start fun m hm ↦ starting hm)
    · exact .pure trivial

end Stream

end Conduct.within

end BoundSql
