import LeaseQueue.Calendar
import LeaseQueue.Json.Decoder
import LeaseQueue.Task

/-!
# Task rows in JSON

The JSON form of a row.  Its times are points of time in text and may lie inside leap seconds.
-/

set_option autoImplicit false

namespace LeaseQueue

open Text Json

/-- A row as written in JSON. -/
structure TaskForm where
  id : TaskId
  payload : Option String
  attempts : Nat
  created : Timestamp
  processTime : Timestamp
  correlationId : Option String
  actor : Option String
deriving DecidableEq

namespace TaskForm

/-- The fields of a row in their order. -/
def fieldNames : List String :=
  ["id", "payload", "attempts_count", "create_date", "process_time", "correlation_id", "actor"]

/-- Reads a row. -/
def ofJson? (v : Json) : Option TaskForm := do
  let f ← v.fields? fieldNames
  let id ← f.required "id" int64?
  let payload ← f.nullable "payload" string?
  let attempts ← f.required "attempts_count" (nat? maxWord32)
  let created ← f.required "create_date" Timestamp.ofJson?
  let processTime ← f.required "process_time" Timestamp.ofJson?
  let correlationId ← f.nullable "correlation_id" string?
  let actor ← f.nullable "actor" string?
  pure ⟨id, payload, attempts, created, processTime, correlationId, actor⟩

/-- The fields of a row. -/
def toJson (r : TaskForm) : Json :=
  .record [
    ("id", .ofInt r.id),
    ("payload", .ofString? r.payload),
    ("attempts_count", .ofNat r.attempts),
    ("create_date", .ofString r.created.print),
    ("process_time", .ofString r.processTime.print),
    ("correlation_id", .ofString? r.correlationId),
    ("actor", .ofString? r.actor)]

end TaskForm

end LeaseQueue
