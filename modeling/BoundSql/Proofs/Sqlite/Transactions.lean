import BoundSql.Sqlite.Connection

namespace BoundSql.Sqlite

variable {ε δ : Type}

inductive Request
  | execute (sql : String) (params : List Value)
  | query (sql : String) (params : List Value)
  | commit
  | rollback

namespace Request

def IsStatement : Request → Prop
  | execute _ _ | query _ _ => True
  | commit | rollback => False

def act (e : Engine ε) : Request → ε → ε
  | execute sql params, s => (e.execute sql (params.map Wire.encode) s).2
  | query sql params, s => (e.query sql (params.map Wire.encode) s).2
  | commit, s => (e.commit s).2
  | rollback, s => (e.rollback s).2

/-- The command of the engine that a request ends the transaction with. -/
inductive Ends (e : Engine ε) : Request → (ε → Except Error Unit × ε) → Prop
  | commit : Ends e commit e.commit
  | rollback : Ends e rollback e.rollback

theorem statement_or_ends (e : Engine ε) (r : Request) : r.IsStatement ∨ ∃ f, r.Ends e f := by
  cases r with
  | execute | query => exact .inl trivial
  | commit => exact .inr ⟨_, .commit⟩
  | rollback => exact .inr ⟨_, .rollback⟩

theorem Ends.not_isStatement {e : Engine ε} {r : Request} {f : ε → Except Error Unit × ε}
    (hf : r.Ends e f) : ¬ r.IsStatement := by
  cases hf <;> exact id

end Request

/-- The engine keeps transactions: `content` is what its connection finds, and `lasting` what is there
without the transaction that is open. -/
structure Engine.Transactional (e : Engine ε) (content lasting : ε → δ) : Prop where
  begin_opens : ∀ s, (e.begin s).1.isOk → e.inTransaction (e.begin s).2
  commit_closes : ∀ s, (e.commit s).1.isOk → ¬ e.inTransaction (e.commit s).2
  rollback_closes : ∀ s, (e.rollback s).1.isOk → ¬ e.inTransaction (e.rollback s).2
  content_eq : ∀ s, ¬ e.inTransaction s → content s = lasting s
  begin_lasting : ∀ s, lasting (e.begin s).2 = lasting s
  rollback_lasting : ∀ s, (e.rollback s).1.isOk → lasting (e.rollback s).2 = lasting s
  statement_lasting : ∀ r : Request, r.IsStatement → ∀ s, e.inTransaction s →
    e.inTransaction (r.act e s) → lasting (r.act e s) = lasting s

namespace Connection

variable {α β : Type} {e : Engine ε} {content lasting : ε → δ} {c : Connection ε} {r : Request}

theorem run_bind (m : Use ε α) (k : α → Use ε β) (c : Connection ε) :
    (m >>= k).run.run c = match m.run.run c with
      | (.ok a, c) => (k a).run.run c
      | (.error x, c) => (.error x, c) := by
  change ExceptT.bindCont k (m.run.run c).1 (m.run.run c).2 = _
  rcases m.run.run c with ⟨_ | _, c⟩ <;> rfl

theorem run_onEngine (f : ε → Except Error α × ε) (c : Connection ε) :
    (onEngine f).run.run c = ((f c.engine).1, { c with engine := (f c.engine).2 }) := rfl

def switch (f : ε → Except Error Unit × ε) (b : Bool) : Use ε Unit := do
  onEngine f
  setBegun b

theorem run_switch (f : ε → Except Error Unit × ε) (b : Bool) (c : Connection ε) :
    (switch f b).run.run c =
      ((f c.engine).1, ⟨(f c.engine).2, if (f c.engine).1.isOk then b else c.begun⟩) := by
  rw [switch, run_bind, run_onEngine]
  rcases f c.engine with ⟨_ | _, s⟩ <;> rfl

/-- The connection after a request, whatever the reply. -/
def perform (e : Engine ε) (c : Connection ε) : Request → Connection ε
  | .execute sql params => ((execute e sql params).run.run c).2
  | .query sql params => ((query e sql params).run.run c).2
  | .commit => ((commit e).run.run c).2
  | .rollback => ((rollback e).run.run c).2

def performAll (e : Engine ε) (c : Connection ε) (rs : List Request) : Connection ε :=
  rs.foldl (perform e) c

/-- Where the engine stands when a statement runs, if the connection gets that far. -/
def ground (e : Engine ε) (c : Connection ε) : Option ε :=
  if c.begun then some c.engine
  else if (e.begin c.engine).1.isOk then some (e.begin c.engine).2
  else none

theorem ground_eq_none_iff :
    ground e c = none ↔ c.begun = false ∧ (e.begin c.engine).1.isOk = false := by
  rw [ground]
  split
  case isTrue hb => simp [hb]
  case isFalse hb =>
    split
    case isTrue hok => simp [hok]
    case isFalse hok => simpa [hok] using hb

theorem run_begin (e : Engine ε) (c : Connection ε) :
    (begin e).run.run c = if c.begun then (.ok (), c) else (switch e.begin true).run.run c := by
  obtain ⟨s, _ | _⟩ := c <;> rfl

def finish (f : ε → Except Error Unit × ε) : Use ε Unit := do
  if (← get).begun then
    switch f false

theorem run_finish (f : ε → Except Error Unit × ε) (c : Connection ε) :
    (finish f).run.run c =
      if c.begun then ((f c.engine).1, ⟨(f c.engine).2, !(f c.engine).1.isOk⟩) else (.ok (), c) := by
  obtain ⟨s, _ | _⟩ := c
  · rfl
  · refine (run_switch f false ⟨s, true⟩).trans ?_
    cases (f s).1.isOk <;> rfl

theorem begin_bind (k : Unit → Use ε α) (c : Connection ε) :
    (((begin e) >>= k).run.run c).2 = match ground e c with
      | some s => ((k ()).run.run ⟨s, true⟩).2
      | none => ⟨(e.begin c.engine).2, false⟩ := by
  rw [run_bind, run_begin, ground]
  obtain ⟨s, _ | _⟩ := c
  · simp only [Bool.false_eq_true, if_false, run_switch]
    rcases e.begin s with ⟨_ | _, t⟩ <;> rfl
  · rfl

theorem perform_statement (hr : r.IsStatement) :
    perform e c r = match ground e c with
      | some s => ⟨r.act e s, true⟩
      | none => ⟨(e.begin c.engine).2, false⟩ := by
  cases r with
  | execute sql params =>
    rw [perform, execute, begin_bind]
    rfl
  | query sql params =>
    rw [perform, query, begin_bind]
    cases ground e c with
    | none => rfl
    | some s =>
      simp only [run_bind, run_onEngine, Request.act]
      rcases e.query sql (params.map Wire.encode) s with ⟨_ | _, t⟩ <;> rfl
  | commit | rollback => exact hr.elim

theorem perform_ends {f : ε → Except Error Unit × ε} (hf : r.Ends e f) :
    perform e c r = if c.begun then ⟨(f c.engine).2, !(f c.engine).1.isOk⟩ else c := by
  have hrun : perform e c r = ((finish f).run.run c).2 := by cases hf <;> rfl
  rw [hrun, run_finish]
  split <;> rfl

theorem performAll_take_succ {rs : List Request} {n : Nat} (h : rs[n]? = some r) :
    performAll e c (rs.take (n + 1)) = perform e (performAll e c (rs.take n)) r := by
  rw [List.take_add_one, h, performAll, List.foldl_append]
  rfl

theorem performAll_take_induction {p : Connection ε → Prop} {rs : List Request} (hc : p c)
    (hstep : ∀ n r, rs[n]? = some r → p (performAll e c (rs.take n)) →
      p (perform e (performAll e c (rs.take n)) r)) (n : Nat) : p (performAll e c (rs.take n)) := by
  induction n with
  | zero => exact hc
  | succ n ih =>
    cases hr : rs[n]? with
    | none => rwa [List.take_add_one, hr, Option.toList, List.append_nil]
    | some r =>
      rw [performAll_take_succ hr]
      exact hstep n r hr ih

/-- The flag says what the engine says. -/
def Truthful (e : Engine ε) (c : Connection ε) : Prop := c.begun = e.inTransaction c.engine

/-- The engine's transaction is opened or ended where the connection does not notice. -/
inductive Undermined (e : Engine ε) (c : Connection ε) (r : Request) : Prop
  | unopened (hr : r.IsStatement) (hc : c.begun = false) (hfail : (e.begin c.engine).1.isOk = false)
      (hopen : e.inTransaction (e.begin c.engine).2)
  | statement (s : ε) (hr : r.IsStatement) (hs : ground e c = some s)
      (hclosed : ¬ e.inTransaction (r.act e s))
  | unfinished (f : ε → Except Error Unit × ε) (hf : r.Ends e f) (hc : c.begun)
      (hfail : (f c.engine).1.isOk = false) (hclosed : ¬ e.inTransaction (f c.engine).2)

theorem truthful_statement_iff (hr : r.IsStatement) :
    (perform e c r).Truthful e ↔ ¬ Undermined e c r := by
  rw [perform_statement hr]
  cases hs : ground e c with
  | some s =>
    have hiff : Undermined e c r ↔ ¬ e.inTransaction (r.act e s) := by
      constructor
      · rintro (⟨-, hc, hfail, -⟩ | ⟨t, -, ht, hclosed⟩ | ⟨f, hf, -, -, -⟩)
        · nomatch (ground_eq_none_iff.2 ⟨hc, hfail⟩).symm.trans hs
        · cases hs.symm.trans ht
          exact hclosed
        · exact absurd hr hf.not_isStatement
      · exact .statement s hr hs
    rw [hiff, Decidable.not_not]
    exact eq_comm
  | none =>
    obtain ⟨hc, hfail⟩ := ground_eq_none_iff.1 hs
    have hiff : Undermined e c r ↔ e.inTransaction (e.begin c.engine).2 := by
      constructor
      · rintro (⟨-, -, -, hopen⟩ | ⟨t, -, ht, -⟩ | ⟨f, hf, -, -, -⟩)
        · exact hopen
        · nomatch hs.symm.trans ht
        · exact absurd hr hf.not_isStatement
      · exact .unopened hr hc hfail
    rw [hiff, Bool.not_eq_true]
    exact eq_comm

/-- A run leaves the flag right throughout, where it holds for each request what one request needs. -/
theorem truthful_performAll_iff (bad : Connection ε → Request → Prop)
    (hstep : ∀ c r, c.Truthful e → ((perform e c r).Truthful e ↔ ¬ bad c r)) (hc : c.Truthful e)
    (rs : List Request) :
    (∀ n, (performAll e c (rs.take n)).Truthful e) ↔
      ∀ n r, rs[n]? = some r → ¬ bad (performAll e c (rs.take n)) r := by
  constructor
  · intro h n r hr
    refine (hstep _ r (h n)).1 ?_
    rw [← performAll_take_succ hr]
    exact h (n + 1)
  · intro h
    exact performAll_take_induction hc fun n r hr ih ↦ (hstep _ r ih).2 (h n r hr)

section Transactional

variable (he : e.Transactional content lasting)

include he

theorem inTransaction_ground (hc : c.Truthful e) {s : ε} (hs : ground e c = some s) :
    e.inTransaction s := by
  rw [ground] at hs
  split at hs
  case isTrue hb =>
    cases hs
    exact hc.symm.trans hb
  case isFalse hb =>
    split at hs
    case isTrue hok =>
      cases hs
      exact he.begin_opens _ hok
    case isFalse => nomatch hs

theorem ends_closes {f : ε → Except Error Unit × ε} (hf : r.Ends e f) {s : ε} (hok : (f s).1.isOk) :
    e.inTransaction (f s).2 = false := by
  cases hf with
  | commit => exact Bool.eq_false_iff.2 (he.commit_closes s hok)
  | rollback => exact Bool.eq_false_iff.2 (he.rollback_closes s hok)

theorem truthful_ends_iff {f : ε → Except Error Unit × ε} (hf : r.Ends e f) (hc : c.Truthful e) :
    (perform e c r).Truthful e ↔ ¬ Undermined e c r := by
  have hiff : Undermined e c r ↔
      c.begun ∧ (f c.engine).1.isOk = false ∧ ¬ e.inTransaction (f c.engine).2 := by
    constructor
    · rintro (⟨hr, -, -, -⟩ | ⟨_, hr, -, -⟩ | ⟨g, hg, hb, hfail, hclosed⟩)
      · exact absurd hr hf.not_isStatement
      · exact absurd hr hf.not_isStatement
      · obtain rfl : f = g := by cases hf <;> cases hg <;> rfl
        exact ⟨hb, hfail, hclosed⟩
    · rintro ⟨hb, hfail, hclosed⟩
      exact .unfinished f hf hb hfail hclosed
  rw [perform_ends hf, hiff]
  -- Without the flag the engine is not asked at all.
  split
  case isFalse hb => exact iff_of_true hc fun h ↦ hb h.1
  case isTrue hb =>
    cases hok : (f c.engine).1.isOk with
    | true =>
      refine iff_of_true ?_ fun h ↦ nomatch h.2.1
      exact (ends_closes he hf hok).symm
    | false =>
      constructor
      · exact fun htrue h ↦ h.2.2 htrue.symm
      · exact fun h ↦ (Decidable.not_not.1 fun hclosed ↦ h ⟨hb, rfl, hclosed⟩).symm

theorem truthful_perform_iff (hc : c.Truthful e) (r : Request) :
    (perform e c r).Truthful e ↔ ¬ Undermined e c r := by
  obtain hr | ⟨f, hf⟩ := r.statement_or_ends e
  · exact truthful_statement_iff hr
  · exact truthful_ends_iff he hf hc

theorem lasting_perform (hr : r.IsStatement) (hc : c.Truthful e)
    (hafter : (perform e c r).Truthful e) :
    lasting (perform e c r).engine = lasting c.engine := by
  rw [perform_statement hr] at hafter ⊢
  cases hs : ground e c with
  | none => exact he.begin_lasting c.engine
  | some s =>
    rw [hs] at hafter
    have hground : lasting s = lasting c.engine := by
      rw [ground] at hs
      split at hs
      case isTrue => cases hs; rfl
      case isFalse =>
        split at hs
        case isTrue => cases hs; exact he.begin_lasting c.engine
        case isFalse => nomatch hs
    rw [← hground]
    exact he.statement_lasting r hr s (inTransaction_ground he hc hs) hafter.symm

theorem lasting_performAll {rs : List Request} (hrs : ∀ r ∈ rs, r.IsStatement)
    (h : ∀ n, (performAll e c (rs.take n)).Truthful e) (n : Nat) :
    lasting (performAll e c (rs.take n)).engine = lasting c.engine := by
  refine performAll_take_induction (p := fun d ↦ lasting d.engine = lasting c.engine) rfl ?_ n
  intro n r hr ih
  -- The flag is right before the request and after it, so the transaction stays open.
  have hafter := h (n + 1)
  rw [performAll_take_succ hr] at hafter
  exact (lasting_perform he (hrs r (List.mem_of_getElem? hr)) (h n) hafter).trans ih

theorem content_rollback (hc : c.Truthful e) (hok : ((rollback e).run.run c).1.isOk) :
    (perform e c .rollback).begun = false ∧ (perform e c .rollback).Truthful e ∧
      content (perform e c .rollback).engine = lasting c.engine := by
  have hfinish : (rollback e).run.run c = (finish e.rollback).run.run c := rfl
  rw [hfinish, run_finish] at hok
  rw [perform_ends .rollback]
  split at hok
  case isFalse hb =>
    have hclosed : ¬ e.inTransaction c.engine := fun hopen ↦ hb (hc.trans hopen)
    rw [if_neg hb]
    exact ⟨Bool.eq_false_iff.2 hb, hc, he.content_eq _ hclosed⟩
  case isTrue hb =>
    have hclosed := he.rollback_closes c.engine hok
    rw [if_pos hb, hok]
    refine ⟨rfl, (Bool.eq_false_iff.2 hclosed).symm, ?_⟩
    exact (he.content_eq _ hclosed).trans (he.rollback_lasting _ hok)

end Transactional

end Connection

namespace Database

variable {d d' : Database} {sql : String} {ps : List Wire} {rows : Rows}

theorem exists_of_bind_eq_ok {α β : Type} {x : Except Refusal α} {k : α → Except Refusal β} {b : β}
    (h : x >>= k = .ok b) : ∃ a, x = .ok a ∧ k a = .ok b := by
  cases x with
  | error => nomatch h
  | ok a => exact ⟨a, rfl, h⟩

/-- Only a commit or a rollback runs through where the transaction is open and leaves it closed. -/
theorem saved_run {tables : List Table} {s : Statement} (hd : d.saved = some tables)
    (h : d.run ps s = .ok (rows, d')) :
    d'.saved = if s = .commit ∨ s = .rollback then none else some tables := by
  cases s with
  | create name offset columns =>
    rw [run] at h
    split at h
    · nomatch h
    · cases h
      exact hd
  | insert name values =>
    obtain ⟨t, -, h⟩ := exists_of_bind_eq_ok h
    dsimp only at h
    split at h
    · nomatch h
    split at h
    · nomatch h
    obtain ⟨-, -, h⟩ := exists_of_bind_eq_ok h
    obtain ⟨u, -, h⟩ := exists_of_bind_eq_ok h
    cases h
    exact hd
  | select parts order =>
    obtain ⟨r, -, h⟩ := exists_of_bind_eq_ok h
    cases h
    exact hd
  | update name sets condition =>
    obtain ⟨t, -, h⟩ := exists_of_bind_eq_ok h
    obtain ⟨-, -, h⟩ := exists_of_bind_eq_ok h
    obtain ⟨-, -, h⟩ := exists_of_bind_eq_ok h
    obtain ⟨u, -, h⟩ := exists_of_bind_eq_ok h
    cases h
    exact hd
  | delete name condition =>
    obtain ⟨t, -, h⟩ := exists_of_bind_eq_ok h
    obtain ⟨-, -, h⟩ := exists_of_bind_eq_ok h
    cases h
    exact hd
  | begin =>
    rw [run, inTransaction, hd] at h
    nomatch h
  | commit =>
    rw [run, inTransaction, hd] at h
    cases h
    rfl
  | rollback =>
    rw [run, hd] at h
    cases h
    rfl

theorem run_ne_error {tables : List Table} {s : Statement} {r : Refusal}
    (hd : d.saved = some tables) (hs : s = .commit ∨ s = .rollback) : d.run ps s ≠ .error r := by
  obtain rfl | rfl := hs
  · rw [run, inTransaction, hd]
    exact nofun
  · rw [run, hd]
    exact nofun

def ends (sql : String) (ps : List Wire) : Bool :=
  match Statement.parse sql with
  | .ok (some s, needed) => min ps.length (needed + 1) == needed && (s == .commit || s == .rollback)
  | _ => false

theorem saved_runText {tables : List Table} (hd : d.saved = some tables) :
    (d.runText sql ps).2.saved = if ends sql ps then none else some tables := by
  have hrefusal (p : Prop) [Decidable p] (r : Refusal) (x y : Except Refusal Rows) :
      (if p then (x, d.afterRefusal r) else (y, d)).2.saved = some tables := by
    split
    · cases r <;> exact hd
    · exact hd
  rw [runText, ends]
  cases hp : Statement.parse sql with
  | error r => exact hd
  | ok p =>
    obtain ⟨_ | s, needed⟩ := p
    · exact hrefusal _ _ _ _
    dsimp only
    cases hrun : d.run ps s with
    | ok q =>
      have hsaved := saved_run hd hrun
      by_cases hn : min ps.length (needed + 1) = needed
      · simp [hn, hsaved]
      · simp [hn, hd]
    | error r =>
      have hs : (s == .commit || s == .rollback) = false := by
        rw [Bool.eq_false_iff]
        intro hs
        exact run_ne_error hd (by simpa using hs) hrun
      simp only [hs, Bool.and_false]
      exact hrefusal _ _ _ _

theorem execute_snd (d : Database) (sql : String) (ps : List Wire) :
    (d.execute sql ps).2 = (d.runText sql ps).2 := by
  rw [execute]
  split <;> simp [*]

end Database

namespace Request

def endsRaw : Request → Bool
  | execute sql params | query sql params => Database.ends sql (params.map Wire.encode)
  | commit | rollback => false

theorem saved_act {r : Request} {d : Database} {tables : List Table} (hr : r.IsStatement)
    (hd : d.saved = some tables) :
    (r.act Database.engine d).saved = if r.endsRaw then none else some tables := by
  cases r with
  | execute sql params => exact (congrArg _ (d.execute_snd sql _)).trans (Database.saved_runText hd)
  | query sql params => exact Database.saved_runText hd
  | commit | rollback => exact hr.elim

theorem Ends.endsRaw {r : Request} {f : ε → Except Error Unit × ε} {e : Engine ε} (hf : r.Ends e f) :
    r.endsRaw = false := by
  cases hf <;> rfl

end Request

theorem Database.engine_inTransaction (d : Database) :
    Database.engine.inTransaction d = d.saved.isSome := rfl

theorem Database.engine_transactional :
    Database.engine.Transactional Database.tables fun d ↦ d.saved.getD d.tables where
  begin_opens := by
    rintro ⟨tables, _ | saved, changes⟩ hok
    · rfl
    · nomatch hok
  commit_closes := by
    rintro ⟨tables, _ | saved, changes⟩ hok
    · nomatch hok
    · nofun
  rollback_closes := by
    rintro ⟨tables, _ | saved, changes⟩ hok
    · nomatch hok
    · nofun
  content_eq := by
    rintro ⟨tables, _ | saved, changes⟩ hclosed
    · rfl
    · exact absurd rfl hclosed
  begin_lasting := by
    rintro ⟨tables, _ | saved, changes⟩ <;> rfl
  rollback_lasting := by
    rintro ⟨tables, _ | saved, changes⟩ hok
    · nomatch hok
    · rfl
  statement_lasting := by
    rintro r hr ⟨tables, _ | saved, changes⟩ hopen hafter
    · nomatch hopen
    · have hsaved := Request.saved_act (d := ⟨tables, some saved, changes⟩) hr rfl
      split at hsaved
      case isTrue =>
        rw [engine_inTransaction, hsaved] at hafter
        nomatch hafter
      case isFalse =>
        rw [hsaved]
        rfl

namespace Connection

theorem exists_ground {c : Connection Database} (hc : c.Truthful Database.engine) :
    ∃ d tables, ground Database.engine c = some d ∧ d.saved = some tables := by
  obtain ⟨⟨tables, _ | saved, changes⟩, _ | _⟩ := c
  · exact ⟨_, _, rfl, rfl⟩
  · nomatch hc
  · nomatch hc
  · exact ⟨_, _, rfl, rfl⟩

theorem truthful_database_iff {c : Connection Database} (hc : c.Truthful Database.engine)
    (r : Request) : (perform Database.engine c r).Truthful Database.engine ↔ ¬ r.endsRaw := by
  obtain hr | ⟨f, hf⟩ := r.statement_or_ends Database.engine
  · obtain ⟨d, tables, hd, hsaved⟩ := exists_ground hc
    rw [perform_statement hr, hd, Truthful, Database.engine_inTransaction, Request.saved_act hr hsaved]
    cases r.endsRaw <;> simp
  · refine iff_of_true ?_ (by simp [hf.endsRaw])
    rw [perform_ends hf]
    obtain ⟨⟨tables, _ | saved, changes⟩, _ | _⟩ := c
    · rfl
    · nomatch hc
    · nomatch hc
    · cases hf <;> rfl

theorem truthful_database_run_iff {c : Connection Database} (hc : c.Truthful Database.engine)
    (rs : List Request) :
    (∀ n, (performAll Database.engine c (rs.take n)).Truthful Database.engine) ↔
      ∀ r ∈ rs, ¬ r.endsRaw := by
  rw [truthful_performAll_iff (fun _ r ↦ r.endsRaw) (fun _ r hc ↦ truthful_database_iff hc r) hc]
  constructor
  · intro h r hr
    obtain ⟨n, hn⟩ := List.getElem?_of_mem hr
    exact h n r hn
  · intro h n r hn
    exact h r (List.mem_of_getElem? hn)

/-- The flag is right after each request of a run, if and only if none of them undermines it. Where it
is right, statements run inside a transaction, and a rollback gives back what was there before them. -/
theorem flag_right_iff {e : Engine ε} {content lasting : ε → δ}
    (he : e.Transactional content lasting) {c : Connection ε} (hc : c.Truthful e)
    (rs : List Request) :
    ((∀ n, (performAll e c (rs.take n)).Truthful e) ↔
      ∀ n r, rs[n]? = some r → ¬ Undermined e (performAll e c (rs.take n)) r) ∧
    ((∀ n, (performAll e c (rs.take n)).Truthful e) →
      (∀ n r s, rs[n]? = some r → r.IsStatement →
        ground e (performAll e c (rs.take n)) = some s → e.inTransaction s) ∧
      (c.begun = false → (∀ r ∈ rs, r.IsStatement) →
        ((rollback e).run.run (performAll e c rs)).1.isOk →
          let after := perform e (performAll e c rs) .rollback
          after.begun = false ∧ after.Truthful e ∧ content after.engine = content c.engine)) := by
  refine ⟨truthful_performAll_iff _ (fun _ r hc ↦ truthful_perform_iff he hc r) hc rs,
    fun h ↦ ⟨?_, ?_⟩⟩
  · intro n r s _ _ hs
    exact inTransaction_ground he (h n) hs
  · intro hb hrs hok
    have htruthful := h rs.length
    have hlasting := lasting_performAll he hrs h rs.length
    rw [List.take_length] at htruthful hlasting
    obtain ⟨hbegun, hafter, hcontent⟩ := content_rollback he htruthful hok
    have hclosed : ¬ e.inTransaction c.engine := Bool.eq_false_iff.1 (hc.symm.trans hb)
    refine ⟨hbegun, hafter, ?_⟩
    rw [hcontent, hlasting, he.content_eq _ hclosed]

/-- A table and a row in it are gone after a rollback. -/
theorem flag_right_iff_insertion :
    let c : Connection Database := ⟨.empty, false⟩
    let rs : List Request :=
      [.execute "CREATE TABLE t (a)" [], .execute "INSERT INTO t VALUES (1)" []]
    let ran := performAll Database.engine c rs
    ran.engine.tables.map Table.rows = [[[.integer .one]]] ∧ ran.Truthful Database.engine ∧
      (perform Database.engine ran .rollback).engine.tables = [] := by
  intro c rs ran
  -- The texts are read once, to see that none of them ends the transaction; the rest is general.
  have hraw : ∀ r ∈ rs, ¬ r.endsRaw := by decide +kernel
  have hright := (truthful_database_run_iff (c := c) rfl rs).2 hraw
  have hstatements : ∀ r ∈ rs, r.IsStatement := by simp [rs, Request.IsStatement]
  have hok : ((rollback Database.engine).run.run ran).1.isOk := by decide +kernel
  obtain ⟨-, hright'⟩ := flag_right_iff Database.engine_transactional (c := c) rfl rs
  obtain ⟨-, hundone⟩ := hright' hright
  obtain ⟨-, -, hcontent⟩ := hundone rfl hstatements hok
  exact ⟨by decide +kernel, hright rs.length, hcontent⟩

/-- Once a statement has ended the transaction, the next one lasts whatever the rollback. -/
theorem raw_commit_unnoticed :
    let c := performAll Database.engine ⟨.empty, false⟩
      [.execute "CREATE TABLE t (a)" [], .execute "COMMIT" [], .execute "INSERT INTO t VALUES (1)" []]
    c.begun = true ∧ Database.engine.inTransaction c.engine = false ∧
      ((rollback Database.engine).run.run c).1.isOk = false ∧
      (perform Database.engine c .rollback).begun = true ∧
      (perform Database.engine c .rollback).engine.tables.map Table.rows = [[[.integer .one]]] := by
  decide +kernel

end Connection

end BoundSql.Sqlite
