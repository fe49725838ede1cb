import BoundSql.Pool.Operation

namespace BoundSql

inductive Answer
  | unit
  | mapped (m : Mapped)
  | flag (b : Bool)
  | number (n : Int)
  | affected (n : Nat)
  | marker (m : Marker)
  | bound (display source : String)
  | stream
  | noStream
  | items (results : List (Except Error Mapped)) (ended : Bool)
  | columns (cs : Option (List Column))
  | rows (cs : List Column) (rs : List Row)
  | doubled (display : String) (n : Int)
  | idle (n : Option Nat)
  | cancelled
  | completed

inductive Record
  | enter (events : List Event)
  | step (result : Outcome Answer) (events : List Event) (body : List Record)
      (inTransaction : Option (Option Bool))
  /-- What the streams left open logged when they were dropped, and whether a failure had stopped
  the program. -/
  | finish (events : List Event) (stopped : Bool)

end BoundSql
