import BoundSql.Row.Shape
import Mathlib.Data.List.Nodup

namespace BoundSql.Row

variable {columns : List Column} {row : Row} {name c : String} {v w : Value}
  {ps : List (String × Value)} {i : Nat}

theorem lookup_reverse_eq_some_iff : ps.reverse.lookup name = some v ↔
    ∃ i : Nat, ps[i]? = some (name, v) ∧ ∀ j, i < j → (ps[j]?).map Prod.fst ≠ some name := by
  rw [List.lookup_eq_some_iff]
  constructor
  · rintro ⟨after, before, hps, hafter⟩
    obtain rfl : ps = before.reverse ++ (name, v) :: after.reverse := by
      simpa using congrArg List.reverse hps
    refine ⟨before.reverse.length, by simp, fun j hj ↦ ?_⟩
    obtain ⟨k, rfl⟩ := Nat.exists_eq_add_of_lt hj
    rw [List.getElem?_append_right (by omega), Nat.add_assoc, Nat.add_sub_cancel_left,
      List.getElem?_cons_succ]
    intro hk
    obtain ⟨p, hp, hname⟩ := Option.map_eq_some_iff.1 hk
    have hne := hafter p (List.mem_reverse.1 (List.mem_of_getElem? hp))
    exact absurd hname.symm (by simpa using hne)
  · rintro ⟨i, hi, hlast⟩
    obtain ⟨hlt, hget⟩ := List.getElem?_eq_some_iff.1 hi
    refine ⟨(ps.drop (i + 1)).reverse, (ps.take i).reverse, ?_, fun p hp ↦ ?_⟩
    · have hps : ps = ps.take i ++ (name, v) :: ps.drop (i + 1) := by
        rw [← hget, List.getElem_cons_drop, List.take_append_drop]
      conv_lhs => rw [hps]
      simp
    · obtain ⟨k, hk⟩ := List.mem_iff_getElem?.1 (List.mem_reverse.1 hp)
      rw [List.getElem?_drop] at hk
      have hne := hlast (i + 1 + k) (by omega)
      rw [hk] at hne
      simpa using fun h : name = p.1 ↦ hne (congrArg some h.symm)

theorem lookup_cons (k : String) (v : Value) (m : List (String × Value)) (c : String) :
    ((k, v) :: m).lookup c = if c = k then some v else m.lookup c := by
  by_cases h : c = k
  · rw [h, List.lookup_cons_self, if_pos rfl]
  · have hne : (c == k) = false := beq_eq_false_iff_ne.2 h
    simp only [List.lookup_cons, hne, if_neg h]

theorem get_foldl {M : Type} (ps : List (String × Value)) (insert : String → Value → M → M)
    (get : M → String → Option Value)
    (h : ∀ m k v c, get (insert k v m) c = if c = k then some v else get m c) (m : M) (c : String) :
    get (ps.foldl (fun m p ↦ insert p.1 p.2 m) m) c = (ps.reverse.lookup c).or (get m c) := by
  induction ps generalizing m with
  | nil => simp
  | cons p ps ih =>
    rw [List.foldl_cons, ih, h, List.reverse_cons, List.lookup_append, Option.or_assoc, lookup_cons]
    split <;> rfl

theorem lookup_put (m : List (String × Value)) (k : String) (v : Value) (c : String) :
    (put k v m).lookup c = if c = k then some v else m.lookup c := by
  induction m with
  | nil => exact lookup_cons k v [] c
  | cons p m ih =>
    obtain ⟨l, w⟩ := p
    rw [put]
    split
    · next h =>
      rw [lookup_cons, lookup_cons, h]
      split <;> rfl
    · next h =>
      split
      · exact lookup_cons k v _ c
      · rw [lookup_cons, ih, lookup_cons]
        by_cases hc : c = k
        · have hl : ¬c = l := hc ▸ h
          rw [if_pos hc, if_neg hl, if_pos hc]
        · rw [if_neg hc, if_neg hc]

theorem mem_put {p : String × Value} {k : String} {m : List (String × Value)}
    (h : p ∈ put k v m) : p = (k, v) ∨ p ∈ m := by
  induction m with
  | nil => simpa [put] using h
  | cons q m ih =>
    rw [put] at h
    split at h
    · exact (List.mem_cons.1 h).imp_right (List.mem_cons_of_mem _)
    · split at h
      · exact List.mem_cons.1 h
      · obtain rfl | h := List.mem_cons.1 h
        · exact .inr (List.mem_cons_self ..)
        · exact (ih h).imp_right (List.mem_cons_of_mem _)

def Ordered (m : List (String × Value)) : Prop := m.Pairwise (·.1 < ·.1)

theorem Ordered.put {m : List (String × Value)} (h : Ordered m) (k : String) (v : Value) :
    Ordered (put k v m) := by
  induction m with
  | nil => exact List.pairwise_singleton _ _
  | cons q m ih =>
    obtain ⟨hq, hm⟩ := List.pairwise_cons.1 h
    rw [Row.put]
    split
    · next hk => exact List.pairwise_cons.2 ⟨hk ▸ hq, hm⟩
    · split
      · next hk =>
        refine List.pairwise_cons.2 ⟨fun p hp ↦ ?_, h⟩
        obtain rfl | hp := List.mem_cons.1 hp
        · exact hk
        · exact String.lt_trans hk (hq p hp)
      · next hne hge =>
        have hlt : q.1 < k := Std.lt_of_le_of_ne (String.not_lt.1 hge) (Ne.symm hne)
        refine List.pairwise_cons.2 ⟨fun p hp ↦ ?_, ih hm⟩
        obtain rfl | hp := mem_put hp
        · exact hlt
        · exact hq p hp

theorem ordered_toMap (columns : List Column) (row : Row) : Ordered (toMap columns row) := by
  have hfold (ps : List (String × Value)) : ∀ m, Ordered m →
      Ordered (ps.foldl (fun m p ↦ put p.1 p.2 m) m) := by
    induction ps with
    | nil => exact fun m h ↦ h
    | cons p ps ih => exact fun m h ↦ ih _ (h.put p.1 p.2)
  exact hfold _ [] .nil

theorem lookup_toMap (columns : List Column) (row : Row) (name : String) :
    (toMap columns row).lookup name = (ByName.of columns row).get? name := by
  have h := get_foldl (named columns row) put (fun m c ↦ m.lookup c) lookup_put [] name
  rwa [List.lookup_nil, Option.or_none] at h

def toTable (columns : List Column) (row : Row) : Std.HashMap String Value :=
  (named columns row).foldl (fun t p ↦ t.insert p.1 p.2) ∅

theorem getElem?_toTable (columns : List Column) (row : Row) (name : String) :
    (toTable columns row)[name]? = (ByName.of columns row).get? name := by
  have h := get_foldl (named columns row) (fun k v t ↦ t.insert k v)
    (fun (t : Std.HashMap String Value) c ↦ t[c]?)
    (fun t k v c ↦ by simp only [Std.HashMap.getElem?_insert, beq_iff_eq, @eq_comm _ k]) ∅ name
  rwa [Std.HashMap.getElem?_empty, Option.or_none] at h

/-- The last place with both a column of that name and a value. -/
structure LastNamed (columns : List Column) (row : Row) (name : String) (i : Nat) : Prop where
  named : (columns[i]?).map Column.name = some name
  filled : i < row.length
  last : ∀ j, i < j → j < row.length → (columns[j]?).map Column.name ≠ some name

/-- What a name stands for in a row: the value at that place, if there is one. -/
inductive Stands (columns : List Column) (row : Row) (name : String) : Option Value → Prop
  | value {i : Nat} {v : Value} (hi : LastNamed columns row name i) (hv : row[i]? = some v) :
    Stands columns row name (some v)
  | missing (h : ∀ i, ¬LastNamed columns row name i) : Stands columns row name none

theorem getElem?_named : (named columns row)[i]? = some (c, v) ↔
    (columns[i]?).map Column.name = some c ∧ row[i]? = some v := by
  rw [named, List.getElem?_zip_eq_some, List.getElem?_map]

theorem map_fst_named : ((named columns row)[i]?).map Prod.fst = some c ↔
    (columns[i]?).map Column.name = some c ∧ i < row.length := by
  constructor
  · intro h
    obtain ⟨⟨_, v⟩, hp, rfl⟩ := Option.map_eq_some_iff.1 h
    obtain ⟨hc, hv⟩ := getElem?_named.1 hp
    exact ⟨hc, (List.getElem?_eq_some_iff.1 hv).1⟩
  · rintro ⟨hc, hi⟩
    rw [getElem?_named.2 ⟨hc, List.getElem?_eq_getElem hi⟩]
    rfl

theorem get?_eq_some_iff : (ByName.of columns row).get? name = some v ↔
    ∃ i, LastNamed columns row name i ∧ row[i]? = some v := by
  change (named columns row).reverse.lookup name = some v ↔ _
  rw [lookup_reverse_eq_some_iff]
  refine exists_congr fun i ↦ ?_
  rw [getElem?_named]
  constructor
  · rintro ⟨⟨hc, hv⟩, hlast⟩
    have hi := (List.getElem?_eq_some_iff.1 hv).1
    exact ⟨⟨hc, hi, fun j hij hj h ↦ hlast j hij (map_fst_named.2 ⟨h, hj⟩)⟩, hv⟩
  · rintro ⟨⟨hc, -, hlast⟩, hv⟩
    refine ⟨⟨hc, hv⟩, fun j hij h ↦ ?_⟩
    obtain ⟨hname, hj⟩ := map_fst_named.1 h
    exact hlast j hij hj hname

theorem stands_get? (columns : List Column) (row : Row) (name : String) :
    Stands columns row name ((ByName.of columns row).get? name) := by
  cases h : (ByName.of columns row).get? name with
  | some v =>
    obtain ⟨i, hi, hv⟩ := get?_eq_some_iff.1 h
    exact .value hi hv
  | none =>
    refine .missing fun i hi ↦ ?_
    have hsome := get?_eq_some_iff.2 ⟨i, hi, List.getElem?_eq_getElem hi.filled⟩
    exact nomatch h.symm.trans hsome

theorem mem_map_fst_iff {m : List (String × Value)} :
    name ∈ m.map Prod.fst ↔ (m.lookup name).isSome := by
  rw [List.lookup_isSome_iff, List.mem_map]
  exact exists_congr fun p ↦ and_congr_right fun _ ↦ by rw [beq_iff_eq, eq_comm]

def found (name : String) : Option Value → Except Error Value
  | some v => .ok v
  | none => .error (.columnNotFound name)

theorem get_eq_found (r : ByName) (name : String) : r.get name = found name (r.get? name) := by
  unfold ByName.get
  cases r.get? name <;> rfl

theorem entry_eq_found (m : List (String × Value)) (name : String) :
    entry m name = found name (m.lookup name) := by
  unfold entry
  cases m.lookup name <;> rfl

/-- A name stands for the same in a row read by its names, in the map of the row and in its hash table. No
other names are in the map or in the table. -/
theorem columns_found_alike (columns : List Column) (row : Row) :
    ∃ m, Shape.map.ofRow columns row = .ok (.map m) ∧ Ordered m ∧
      ∀ name, ∃ o, Stands columns row name o ∧
        (ByName.of columns row).get name = found name o ∧
        entry m name = found name o ∧ m.lookup name = o ∧ (toTable columns row)[name]? = o ∧
        (name ∈ m.map Prod.fst ↔ o.isSome) ∧ (name ∈ toTable columns row ↔ o.isSome) := by
  refine ⟨toMap columns row, rfl, ordered_toMap columns row, fun name ↦ ?_⟩
  have hmap := lookup_toMap columns row name
  have htable := getElem?_toTable columns row name
  refine ⟨_, stands_get? columns row name, ?_, ?_, hmap, htable, ?_, ?_⟩
  · exact get_eq_found _ name
  · rw [entry_eq_found, hmap]
  · rw [mem_map_fst_iff, hmap]
  · rw [Std.HashMap.mem_iff_isSome_getElem?, htable]

/-- The last column has no value in this row, so that its name stands for the value before. -/
example :
    let columns := ["id", "note", "id", "note"].map fun c ↦ (⟨c, none, none⟩ : Column)
    let row : Row := [.null, .bool false, .bool true]
    toMap columns row = [("id", .bool true), ("note", .bool false)] := by rfl

end BoundSql.Row
