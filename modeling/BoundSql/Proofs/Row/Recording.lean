import BoundSql.Proofs.Row.Counting
import BoundSql.Proofs.Row.Naming

namespace BoundSql

open Row (named)

/-- A field of a record: the column that it is read from, what its type makes of a value, and what it holds
where it is skipped. All that the fields of a record can hold is in `α`. -/
structure RecordField (α : Type) where
  column : String
  skipped : Bool
  convert : Value → Except Error α
  default : α

/-- The row has a column of that name, with the value in its place. -/
def Row.Has (columns : List Column) (row : Row) (name : String) (v : Value) : Prop :=
  ∃ i : Nat, (columns[i]?).map Column.name = some name ∧ row[i]? = some v

namespace Row

variable {columns : List Column} {row : Row} {name : String} {v w : Value}
  {ps qs : List (String × Value)}

theorem has_iff_mem : Has columns row name v ↔ (name, v) ∈ named columns row := by
  rw [List.mem_iff_getElem?]
  exact exists_congr fun i ↦ getElem?_named.symm

theorem Has.unique (hn : (columns.map Column.name).Nodup) (hv : Has columns row name v)
    (hw : Has columns row name w) : v = w := by
  obtain ⟨i, hi, hv⟩ := hv
  obtain ⟨j, hj, hw⟩ := hw
  rw [← List.getElem?_map] at hi hj
  have hlt := (List.getElem?_eq_some_iff.1 hi).1
  obtain rfl : i = j := (List.getElem?_inj hlt hn).1 (hi.trans hj.symm)
  exact Option.some.inj (hv.symm.trans hw)

theorem lookup_eq_some_iff_mem (h : ∀ v w, (name, v) ∈ ps → (name, w) ∈ ps → v = w) :
    ps.lookup name = some v ↔ (name, v) ∈ ps := by
  constructor
  · intro hv
    obtain ⟨before, after, rfl, -⟩ := List.lookup_eq_some_iff.1 hv
    simp
  · intro hv
    have hsome : (ps.lookup name).isSome := mem_map_fst_iff.1 (List.mem_map.2 ⟨_, hv, rfl⟩)
    obtain ⟨w, hw⟩ := Option.isSome_iff_exists.1 hsome
    obtain ⟨before, after, hps, -⟩ := List.lookup_eq_some_iff.1 hw
    rw [hw, h v w hv (by simp [hps])]

theorem get?_eq_some_iff_mem (h : ∀ v w, (name, v) ∈ ps → (name, w) ∈ ps → v = w) :
    (ByName.mk ps).get? name = some v ↔ (name, v) ∈ ps := by
  have hr : ps.reverse.lookup name = some v ↔ (name, v) ∈ ps.reverse :=
    lookup_eq_some_iff_mem fun v w hv hw ↦ h v w (List.mem_reverse.1 hv) (List.mem_reverse.1 hw)
  rwa [List.mem_reverse] at hr

theorem get?_congr (h : ∀ v w, (name, v) ∈ ps → (name, w) ∈ ps → v = w)
    (hmem : ∀ v, (name, v) ∈ qs ↔ (name, v) ∈ ps) :
    (ByName.mk qs).get? name = (ByName.mk ps).get? name := by
  have hq : ∀ v w, (name, v) ∈ qs → (name, w) ∈ qs → v = w :=
    fun v w hv hw ↦ h v w ((hmem v).1 hv) ((hmem w).1 hw)
  refine Option.ext fun v ↦ ?_
  rw [get?_eq_some_iff_mem hq, get?_eq_some_iff_mem h, hmem]

end Row

namespace RecordField

variable {α : Type} {columns : List Column} {row : Row} {f : RecordField α}
  {fields : List (RecordField α)} {r : Except Error α} {x : α} {e : Error}

def read (row : Row.ByName) (f : RecordField α) : Except Error α :=
  if f.skipped then .ok f.default else do f.convert (← row.get f.column)

/-- Reads the fields in the order of their declaration. -/
def readAll (fields : List (RecordField α)) (row : Row.ByName) : Except Error (List α) :=
  fields.mapM (read row)

inductive Reads (columns : List Column) (row : Row) (f : RecordField α) : Except Error α → Prop
  | skipped (hf : f.skipped = true) : Reads columns row f (.ok f.default)
  | found {v : Value} (hf : f.skipped = false) (hv : row.Has columns f.column v) :
    Reads columns row f (f.convert v)
  | missing (hf : f.skipped = false) (hv : ∀ v, ¬row.Has columns f.column v) :
    Reads columns row f (.error (.columnNotFound f.column))

theorem read_skipped (hf : f.skipped = true) (row : Row.ByName) : read row f = .ok f.default := by
  rw [read, if_pos hf]

theorem read_found {row : Row.ByName} {v : Value} (hf : f.skipped = false)
    (hv : row.get? f.column = some v) : read row f = f.convert v := by
  simp only [read, hf, Row.ByName.get, hv]
  rfl

theorem read_missing {row : Row.ByName} (hf : f.skipped = false)
    (hv : row.get? f.column = none) : read row f = .error (.columnNotFound f.column) := by
  simp only [read, hf, Row.ByName.get, hv]
  rfl

theorem reads_iff (hn : (columns.map Column.name).Nodup) :
    Reads columns row f r ↔ read (.of columns row) f = r := by
  have hget (v : Value) :
      (Row.ByName.of columns row).get? f.column = some v ↔ row.Has columns f.column v := by
    rw [Row.has_iff_mem]
    refine Row.get?_eq_some_iff_mem fun v w hv hw ↦ ?_
    exact Row.Has.unique hn (Row.has_iff_mem.2 hv) (Row.has_iff_mem.2 hw)
  constructor
  · rintro (hf | ⟨hf, hv⟩ | ⟨hf, hv⟩)
    · exact read_skipped hf _
    · exact read_found hf ((hget _).2 hv)
    · exact read_missing hf (Option.eq_none_iff_forall_ne_some.2 fun v h ↦ hv v ((hget v).1 h))
  · rintro rfl
    cases hf : f.skipped with
    | true =>
      rw [read_skipped hf]
      exact .skipped hf
    | false =>
      cases hv : (Row.ByName.of columns row).get? f.column with
      | some v =>
        rw [read_found hf hv]
        exact .found hf ((hget v).1 hv)
      | none =>
        rw [read_missing hf hv]
        exact .missing hf fun v h ↦ nomatch hv.symm.trans ((hget v).2 h)

/-- A field that is not skipped is read exactly if the row has its column and the value converts. -/
theorem exists_reads_ok_iff : (∃ x, Reads columns row f (.ok x)) ↔
    (f.skipped = false → ∃ v x, row.Has columns f.column v ∧ f.convert v = .ok x) := by
  constructor
  · rintro ⟨x, h⟩ hf
    generalize hr : (Except.ok x : Except Error α) = r at h
    cases h with
    | skipped hs => exact nomatch hf.symm.trans hs
    | found _ hv => exact ⟨_, x, hv, hr.symm⟩
    | missing _ _ => cases hr
  · intro h
    cases hf : f.skipped with
    | true => exact ⟨f.default, .skipped hf⟩
    | false =>
      obtain ⟨v, x, hv, hx⟩ := h hf
      exact ⟨x, hx ▸ .found hf hv⟩

theorem readAll_congr {row row' : Row.ByName}
    (h : ∀ f ∈ fields, f.skipped = false → row.get? f.column = row'.get? f.column) :
    readAll fields row = readAll fields row' := by
  induction fields with
  | nil => rfl
  | cons f fields ih =>
    obtain ⟨hf, hfields⟩ := List.forall_mem_cons.1 h
    have hread : read row f = read row' f := by
      cases hs : f.skipped with
      | true => rw [read_skipped hs, read_skipped hs]
      | false => simp only [read, hs, Row.ByName.get, hf hs]
    simp only [readAll, List.mapM_cons, hread] at ih ⊢
    rw [ih hfields]

theorem named_eq_map (columns : List Column) (row : Row) :
    named columns row = (columns.zip row).map fun p ↦ (p.1.name, p.2) := by
  rw [Row.named, List.zip_map_left]
  rfl

theorem readAll_perm {columns' : List Column} {row' : Row} {extra : List (Column × Value)}
    (hn : (columns.map Column.name).Nodup)
    (hperm : (columns'.zip row').Perm (columns.zip row ++ extra))
    (hextra : ∀ p ∈ extra, ∀ f ∈ fields, f.skipped = false → p.1.name ≠ f.column) :
    readAll fields (.of columns' row') = readAll fields (.of columns row) := by
  refine readAll_congr fun f hf hs ↦ Row.get?_congr (fun v w hv hw ↦ ?_) fun v ↦ ?_
  · exact Row.Has.unique hn (Row.has_iff_mem.2 hv) (Row.has_iff_mem.2 hw)
  · rw [named_eq_map, named_eq_map, (hperm.map _).mem_iff, List.map_append, List.mem_append,
      or_iff_left]
    intro hv
    obtain ⟨p, hp, heq⟩ := List.mem_map.1 hv
    exact hextra p hp f hf hs (congrArg Prod.fst heq)

theorem readAll_cases (hn : (columns.map Column.name).Nodup) (row : Row)
    (fields : List (RecordField α)) :
    (∃ xs, readAll fields (.of columns row) = .ok xs ∧
      List.Forall₂ (fun f x ↦ Reads columns row f (.ok x)) fields xs) ∨
    ∃ e before f after, readAll fields (.of columns row) = .error e ∧
      fields = before ++ f :: after ∧ (∀ g ∈ before, ∃ x, Reads columns row g (.ok x)) ∧
      Reads columns row f (.error e) := by
  simp only [reads_iff hn]
  exact mapM_cases (read (.of columns row)) fields

end RecordField

open RecordField

def ResultField.reading (f : ResultField) : RecordField (String × Mapped) where
  column := f.column
  skipped := f.skipped
  convert v := (f.type.convert v).map fun x ↦ (f.name, x)
  default := (f.name, f.type.default)

theorem ResultRecord.read_eq (r : ResultRecord) (row : Row.ByName) :
    r.read row = readAll (r.fields.map ResultField.reading) row := by
  rw [ResultRecord.read, readAll, List.mapM_map]
  rfl

theorem ResultRecord.ofRow_record (r : ResultRecord) (columns : List Column) (row : Row) :
    (Shape.record r).ofRow columns row =
      (readAll (r.fields.map ResultField.reading) (.of columns row)).map .record := by
  rw [← ResultRecord.read_eq]
  change (r.read _ >>= fun xs ↦ pure (Mapped.record xs)) = _
  cases r.read (.of columns row) <;> rfl

/-- A record is read by the names of the columns alone, if they differ: it needs the columns of all its
fields, but those skipped, and values that convert; the first field that lacks one of them tells the error.
The order of the columns makes no difference, nor do columns of names that no field is read from. -/
theorem records_read_by_name {α : Type} (fields : List (RecordField α)) (columns : List Column)
    (row : Row) (hn : (columns.map Column.name).Nodup) :
    ((∃ xs, readAll fields (.of columns row) = .ok xs) ↔
      ∀ f ∈ fields, f.skipped = false →
        ∃ v x, row.Has columns f.column v ∧ f.convert v = .ok x) ∧
    (∀ xs, readAll fields (.of columns row) = .ok xs →
      List.Forall₂ (fun f x ↦ Reads columns row f (.ok x)) fields xs) ∧
    (∀ e, readAll fields (.of columns row) = .error e →
      ∃ before f after, fields = before ++ f :: after ∧
        (∀ g ∈ before, ∃ x, Reads columns row g (.ok x)) ∧ Reads columns row f (.error e)) ∧
    (∀ (columns' : List Column) (row' : Row) (extra : List (Column × Value)),
      (columns'.zip row').Perm (columns.zip row ++ extra) →
      (∀ p ∈ extra, ∀ f ∈ fields, f.skipped = false → p.1.name ≠ f.column) →
        readAll fields (.of columns' row') = readAll fields (.of columns row)) ∧
    ∀ r : ResultRecord, (Shape.record r).ofRow columns row =
      (readAll (r.fields.map ResultField.reading) (.of columns row)).map .record := by
  have hcases := readAll_cases hn row fields
  refine ⟨?_, ?_, ?_, fun columns' row' extra ↦ readAll_perm hn, fun r ↦ r.ofRow_record columns row⟩
  · simp only [← exists_reads_ok_iff]
    obtain ⟨xs, hxs, hall⟩ | ⟨e, before, f, after, he, rfl, -, hf⟩ := hcases
    · have hboth : List.Forall₂ (fun f x ↦ (∃ y, Reads columns row f (.ok y)) ∧
          Reads columns row f (.ok x)) fields xs := hall.imp fun f x hx ↦ ⟨⟨x, hx⟩, hx⟩
      exact iff_of_true ⟨xs, hxs⟩ ((List.forall₂_and_left _ _).1 hboth).1
    · refine iff_of_false (fun ⟨xs, hxs⟩ ↦ nomatch he.symm.trans hxs) fun h ↦ ?_
      obtain ⟨x, hx⟩ := h f (by simp)
      exact nomatch ((reads_iff hn).1 hf).symm.trans ((reads_iff hn).1 hx)
  · intro xs hxs
    obtain ⟨ys, hys, hall⟩ | ⟨e, -, -, -, he, -⟩ := hcases
    · cases hys.symm.trans hxs
      exact hall
    · exact nomatch he.symm.trans hxs
  · intro e he
    obtain ⟨ys, hys, -⟩ | ⟨e', before, f, after, he', hrest⟩ := hcases
    · exact nomatch hys.symm.trans he
    · cases he'.symm.trans he
      exact ⟨before, f, after, hrest⟩

/-- A column of the name of a skipped field is passed over as any other. -/
theorem records_read_by_name_note :
    let id : Column × Value := (⟨"id", none, none⟩, .int .i64 ⟨7, by decide, by decide⟩)
    let owner : Column × Value := (⟨"owner_name", none, none⟩, .string "ada")
    let note : Column × Value := (⟨"note", none, none⟩, .null)
    let account : ResultRecord := ⟨[⟨"id", "id", ⟨.int .i64, false⟩, false⟩,
      ⟨"owner", "owner_name", ⟨.string, false⟩, false⟩,
      ⟨"note", "note", ⟨.string, false⟩, true⟩]⟩
    [id.1.name, owner.1.name].Nodup ∧ [owner, note, id].Perm ([id, owner] ++ [note]) ∧
      (Shape.record account).ofRow [owner.1, note.1, id.1] [owner.2, note.2, id.2] =
        (Shape.record account).ofRow [id.1, owner.1] [id.2, owner.2] ∧
      ∃ xs, account.read (.of [id.1, owner.1] [id.2, owner.2]) = .ok xs := by
  intro id owner note account
  have hn : [id.1.name, owner.1.name].Nodup := by decide
  have hperm : ([owner, note] ++ [id]).Perm ([id] ++ [owner, note]) := List.perm_append_comm
  have hextra : ∀ p ∈ [note], ∀ f ∈ account.fields.map ResultField.reading,
      f.skipped = false → p.1.name ≠ f.column := by decide
  obtain ⟨-, -, -, halike, -⟩ := records_read_by_name (account.fields.map ResultField.reading)
    [id.1, owner.1] [id.2, owner.2] hn
  have hread := halike [owner.1, note.1, id.1] [owner.2, note.2, id.2] [note] hperm hextra
  refine ⟨hn, hperm, ?_, _, rfl⟩
  rw [ResultRecord.ofRow_record, ResultRecord.ofRow_record, hread]

end BoundSql
