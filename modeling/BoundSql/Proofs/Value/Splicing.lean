import BoundSql.Proofs.Sqlite.Storage
import BoundSql.Template.Render

namespace BoundSql.Value

/-- What SQLite has no class for and keeps written out, whole documents apart. -/
def IsWritten : Value → Prop
  | date _ | dateTime _ | time _ | decimal _ => True
  | _ => False

def ofColumn (s : String) : Value := Sqlite.Wire.decode (.text (Utf8.encode s))

theorem ofColumn_eq (s : String) : ofColumn s = string s := by
  rw [ofColumn, Sqlite.Wire.decode, Utf8.decodeLossy_encode]

theorem render_literal {args : Arguments} {path : List String} {v : Value}
    (h : args.resolve path = .ok v) (source : String) (g : Marker.Generator) :
    (Template.render ⟨source, [.placeholder ⟨path, true⟩]⟩ args).run g = (.ok ⟨v.text, []⟩, g) := by
  have hempty : (⟨v.text ++ "", []⟩ : Template.Rendered) = ⟨v.text, []⟩ := by
    rw [String.append_empty]
  rw [← hempty, Template.render]
  simp only [Template.renderFrom, Template.remember, List.lookup_nil, h]
  rfl

theorem convert_spliced_dateTime (d : DateTime) :
    (ofColumn (dateTime d).text).convert .dateTime =
      .error (.typeConversion "datetime" "string") := by
  rw [ofColumn_eq, text]
  change toDateTime (string (String.ofList d.text)) = _
  simp only [toDateTime, String.toList_ofList, DateTime.ofText?_text]
  rfl

theorem not_holds_spliced_dateTime (d : DateTime) :
    ¬(ofColumn (dateTime d).text).Holds (dateTime d) := by
  rintro ⟨c, hc, -⟩
  exact nomatch hc.symm.trans (convert_spliced_dateTime d)

theorem bound_holds {v : Value} (hv : v.IsWritten) :
    (Sqlite.Wire.decode (Sqlite.Wire.encode v)).Holds v := by
  cases v with
  | date d =>
    rw [Sqlite.Wire.encode, Sqlite.Wire.decode_ofText]
    exact ⟨d, toDate_text d, rfl⟩
  | dateTime d =>
    rw [Sqlite.Wire.encode, Sqlite.Wire.decode_ofText]
    exact ⟨d, toDateTime_text d, rfl⟩
  | time t =>
    rw [Sqlite.Wire.encode, Sqlite.Wire.decode_ofText]
    exact ⟨t, toTime_text t, rfl⟩
  | decimal d =>
    rw [Sqlite.Wire.encode, Sqlite.Wire.decode_ofText]
    exact ⟨d.unsignZero, toDecimal_text d, d.equal_unsignZero⟩
  | _ => exact absurd hv id

theorem ofColumn_text {v : Value} (hv : v.IsWritten) (hd : ∀ d, v ≠ dateTime d) :
    ofColumn v.text = Sqlite.Wire.decode (Sqlite.Wire.encode v) := by
  cases v with
  | date d => rfl
  | dateTime d => exact absurd rfl (hd d)
  | time t => rfl
  | decimal d => rfl
  | _ => exact absurd hv id

/-- A literal placeholder splices the text of its value. Stored and read as the type of the value, the text
of a date, of a time or of a decimal gives the value back, as the text that is bound for it does; the text
of a date with a time is refused. -/
theorem spliced_texts_read (v : Value) (hv : v.IsWritten) :
    (∀ (source : String) (path : List String) (args : Arguments) (g : Marker.Generator),
      args.resolve path = .ok v →
        (Template.render ⟨source, [.placeholder ⟨path, true⟩]⟩ args).run g = (.ok ⟨v.text, []⟩, g)) ∧
    (Sqlite.Wire.decode (Sqlite.Wire.encode v)).Holds v ∧
    ((ofColumn v.text).Holds v ↔ ∀ d, v ≠ dateTime d) ∧
    ∀ d, v = dateTime d →
      (ofColumn v.text).convert .dateTime = .error (.typeConversion "datetime" "string") := by
  refine ⟨fun source path args g h ↦ render_literal h source g, bound_holds hv, ⟨?_, ?_⟩, ?_⟩
  · rintro hholds d rfl
    exact not_holds_spliced_dateTime d hholds
  · intro hd
    rw [ofColumn_text hv hd]
    exact bound_holds hv
  · rintro d rfl
    exact convert_spliced_dateTime d

/-- The leap second that ended 2016 is read back from what is spliced for it. -/
theorem spliced_texts_read_leap_second :
    let t : TimeOfDay :=
      ⟨23, 59, 59, 1500000000, by decide, by decide, by decide, by decide, fun _ ↦ rfl⟩
    IsWritten (time t) ∧ (ofColumn (time t).text).Holds (time t) := by
  intro t
  exact ⟨trivial, (spliced_texts_read (time t) trivial).2.2.1.2 fun _ ↦ by simp⟩

/-- A date with a time is bound in one way and spliced in another, and only the first is read. -/
theorem spliced_dateTime_refused :
    let d : DateTime := ⟨⟨2024, 2, 29, by decide, by decide, by decide⟩,
      ⟨13, 4, 5, 0, by decide, by decide, by decide, by decide, by decide⟩⟩
    Sqlite.Wire.decode (Sqlite.Wire.encode (dateTime d)) = string "2024-02-29T13:04:05" ∧
      ofColumn (dateTime d).text = string "2024-02-29 13:04:05" ∧
      ¬(ofColumn (dateTime d).text).Holds (dateTime d) := by
  intro d
  have hbound : String.ofList (d.textWith 'T') = "2024-02-29T13:04:05" := by decide +kernel
  have hspliced : (dateTime d).text = "2024-02-29 13:04:05" := by decide +kernel
  refine ⟨?_, ?_, not_holds_spliced_dateTime d⟩
  · rw [Sqlite.Wire.encode, Sqlite.Wire.decode_ofText, hbound]
  · rw [ofColumn_eq, hspliced]

end BoundSql.Value
