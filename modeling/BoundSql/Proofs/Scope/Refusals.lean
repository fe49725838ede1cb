import BoundSql.Argument.Declaration
import BoundSql.Proofs.Effect.Results
import BoundSql.Proofs.Template.Rendering

namespace BoundSql

variable {α : Type}

namespace Error

def AtBind (e : Error) : Prop := e.isBindTime = true

/-- Raised when a bound function is called. -/
def AtCall (e : Error) : Prop := e.isBindTime = false

end Error

open Error (AtBind AtCall)

namespace Value

variable (v : Value)

theorem raises_toSized (expected : String) (w : Width) :
    FailsWith AtCall (v.toSized expected w) := by
  unfold toSized
  split
  · split
    · exact trivial
    · exact rfl
  · exact rfl

theorem raises_ofReading (expected : String) (a : Option α) :
    FailsWith AtCall (ofReading expected v a) := by
  cases a with
  | none => exact rfl
  | some a => exact trivial

theorem raises_toText : FailsWith AtCall v.toText := by
  unfold toText
  split
  · exact trivial
  · split
    · exact trivial
    · exact rfl
  · exact rfl

theorem raises_toDecimal : FailsWith AtCall v.toDecimal := by
  unfold toDecimal
  split
  · exact trivial
  · exact raises_ofReading _ _ _
  · exact raises_ofReading _ _ _
  · split
    · exact trivial
    · exact rfl
  · exact rfl

theorem raises_toJson : FailsWith AtCall v.toJson := by
  unfold toJson
  split
  · exact trivial
  · split
    · exact trivial
    · exact rfl
  · exact rfl

theorem raises_toF64 : FailsWith AtCall v.toF64 := by
  unfold toF64
  split <;> first | exact trivial | exact rfl

theorem raises_convert (t : Target) : FailsWith AtCall (v.convert t) := by
  cases t with
  | int w => exact v.raises_toSized _ w
  | size => exact v.raises_toSized _ .u64
  | f64 => exact v.raises_toF64
  | string => exact v.raises_toText
  | decimal => exact v.raises_toDecimal
  | json => exact v.raises_toJson
  | value => exact trivial
  | date | dateTime | time =>
    cases v <;> first | exact raises_ofReading _ _ _ | exact trivial | exact rfl
  | bool | f32 | bytes => cases v <;> first | exact trivial | exact rfl

theorem raises_convertOption (t : Target) :
    FailsWith AtCall (v.convertOption t) := by
  unfold convertOption
  split
  · exact trivial
  · exact (v.raises_convert t).map fun _ _ ↦ trivial

end Value

section

variable (columns : List Column)

theorem ScalarType.raises_convert (s : ScalarType) (v : Value) :
    FailsWith AtCall (s.convert v) := by
  unfold convert
  split
  · exact (v.raises_convertOption s.target).bind fun _ _ ↦ trivial
  · exact (v.raises_convert s.target).bind fun _ _ ↦ trivial

theorem ResultRecord.raises_field (row : Row.ByName) (f : ResultField) :
    FailsWith AtCall (ResultRecord.field row f) := by
  have hget : FailsWith AtCall (row.get f.column) := by
    unfold Row.ByName.get
    split
    · exact trivial
    · exact rfl
  unfold field
  split
  · exact trivial
  · exact hget.bind fun v _ ↦ (f.type.raises_convert v).bind fun _ _ ↦ trivial

theorem Shape.raises_ofRow (s : Shape) (row : Row) :
    FailsWith AtCall (s.ofRow columns row) := by
  cases s with
  | scalar t =>
    rcases row with _ | ⟨v, _ | ⟨_, _⟩⟩
    · exact rfl
    · exact t.raises_convert v
    · exact rfl
  | tuple | map => exact trivial
  | record r =>
    exact (Within.mapM fun f _ ↦ ResultRecord.raises_field _ f).bind fun _ _ ↦ trivial

theorem Return.raises_ofRows (ret : Return) (rows : List Row) :
    FailsWith AtCall (ret.ofRows columns rows) := by
  cases ret with
  | nothing => exact trivial
  | one s =>
    cases rows with
    | nil => exact rfl
    | cons row rows => exact s.raises_ofRow columns row
  | optional s =>
    cases rows with
    | nil => exact trivial
    | cons row rows => exact (s.raises_ofRow columns row).bind fun _ _ ↦ trivial
  | many s => exact (Within.mapM fun row _ ↦ s.raises_ofRow columns row).bind fun _ _ ↦ trivial

end

theorem Count.raises_ofAffected (count : Count) (n : Nat) :
    FailsWith AtCall (count.ofAffected n) := by
  have hsized : ∀ name w, FailsWith AtCall (Count.sized name w n) := by
    intro name w
    unfold sized
    split
    · exact trivial
    · exact rfl
  cases count with
  | nothing => exact trivial
  | int w => exact (hsized _ w).bind fun _ _ ↦ trivial
  | size => exact (hsized _ .u64).bind fun _ _ ↦ trivial

theorem Argument.raises_walk (path : List String) (a : Argument) (names : List String) :
    FailsWith AtCall (a.walk path names) := by
  induction names generalizing a with
  | nil =>
    unfold walk
    cases a.binding with
    | ok v => exact trivial
    | error u => exact rfl
  | cons name rest ih =>
    unfold walk
    split
    · exact ih _
    · exact rfl

theorem Arguments.raises_resolve (args : Arguments) (path : List String) :
    FailsWith AtCall (args.resolve path) := by
  cases path with
  | nil => exact rfl
  | cons root rest =>
    unfold resolve
    dsimp only
    split
    · exact Argument.raises_walk _ _ rest
    · exact rfl

theorem Template.raises_render (t : Template) (args : Arguments) (g : Marker.Generator) :
    Outcome.FailsWith AtCall ((t.render args).run.run g).1 := by
  have hwith : (t.render args).run.run g = renderWith Marker.Generator.next args.resolve t g := rfl
  rw [hwith]
  obtain hpass | ⟨gs, p, hs, fault, g', ht, hg, hp⟩ :=
    passes_or_stops Marker.Generator.next args.resolve t.fragments g
  · obtain ⟨value, markers, -, -, hr⟩ := hpass.renderWith
    rw [hr]
    exact trivial
  · rw [hp.renderWith ht hg]
    cases hp with
    | path he =>
      have hr := args.raises_resolve p.path
      rw [he] at hr
      exact hr
    | marker => exact trivial

theorem Template.raises_parse (source : String) :
    FailsWith AtBind (Template.parse source) := by
  unfold Template.parse
  split
  · exact trivial
  · exact rfl

theorem Declaration.raises_bind (d : Declaration) (source : String) :
    FailsWith AtBind (d.bind source) := by
  refine (Template.raises_parse source).bind fun t _ ↦ ?_
  split
  · exact rfl
  · exact trivial

end BoundSql
