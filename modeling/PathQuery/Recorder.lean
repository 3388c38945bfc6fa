import PathQuery.Compiled
import PathQuery.Row

/-!
# Running queries against a recorder

A recorder stands in for a database: it keeps every compiled query it receives and answers with
the result sets that were queued, first queued first answered; with none left it answers no rows.
It also counts the queries received since the count was reset. Answers are there at once: waiting
for a database is no part of the model, and neither is what is logged meanwhile.
-/

namespace PathQuery

structure Recorder where
  /-- The queries received, oldest first. -/
  executed : List Compiled
  /-- The result sets not yet given out, the next one first. -/
  responses : List (List Row)
  /-- The number of queries received since the last reset. -/
  count : Nat

namespace Recorder

def empty : Recorder := ⟨[], [], 0⟩

/-- Queues a result set. -/
def push (r : Recorder) (rows : List Row) : Recorder :=
  { r with responses := r.responses ++ [rows] }

/-- A recorder with one result set queued. -/
def withRows (rows : List Row) : Recorder := empty.push rows

/-- Receives a query and answers it. -/
def receive (r : Recorder) (c : Compiled) : List Row × Recorder :=
  (r.responses.head?.getD [],
    { executed := r.executed ++ [c], responses := r.responses.tail, count := r.count + 1 })

/-- The text of the query received last. -/
def lastText (r : Recorder) : Option String := r.executed.getLast?.map (·.text)

def resetCount (r : Recorder) : Recorder := { r with count := 0 }

end Recorder

/-- What a query is run against: a recorder, or a session that fails every time. -/
inductive Session
  | recording
  | failing (reason : String)

/-- Runs a compiled query and gives all rows. -/
def Session.list (s : Session) (c : Except Error Compiled) (r : Recorder) :
    Except Error (List Row) × Recorder :=
  match c, s with
  | .error e, _ => (.error e, r)
  | .ok _, .failing reason => (.error (.session reason), r)
  | .ok c, .recording => (.ok (r.receive c).1, (r.receive c).2)

/-- Runs a compiled query and gives its only row. -/
def Session.unique (s : Session) (c : Except Error Compiled) (r : Recorder) :
    Except Error Row × Recorder :=
  let (rows, r) := s.list c r
  let text := match c with
    | .ok c => c.text
    | .error _ => ""
  match rows with
  | .error e => (.error e, r)
  | .ok [row] => (.ok row, r)
  | .ok [] => (.error (.noResult text), r)
  | .ok rows => (.error (.notUnique (toString rows.length ++ " rows for " ++ text)), r)

end PathQuery
