import LeaseQueue.Json.Decoder
import LeaseQueue.Status

/-!
# Configuration in JSON

Locations, settings, queue configurations and pool configurations as JSON values.  Waits are written
as whole milliseconds in 64 bits; a location is checked when it is read.
-/

set_option autoImplicit false

namespace LeaseQueue

open Text Json

/-- A wait in whole milliseconds. -/
def Duration.ofJson? (v : Json) : Option Duration :=
  (v.nat? maxWord64).map Duration.ofMillis

/-- The whole milliseconds of a wait, in 64 bits. -/
def Duration.toJson (d : Duration) : Json := .ofNat d.millisWord

/-- The name of a value. -/
def Named.toJson {α : Type} [Named α] (a : α) : Json := .ofString (Named.name a)

/-- Reads the name of a shard. -/
def ShardId.ofJson? (v : Json) : Option ShardId := v.string?.map ShardId.mk

/-- The name of a shard. -/
def ShardId.toJson (s : ShardId) : Json := .ofString s.name

/-- Reads the two names of a location, whatever they are. -/
def Location.names? (v : Json) : Option (String × String) := do
  let f ← v.fields? ["table_name", "queue_name"]
  let table ← f.required "table_name" string?
  let queue ← f.required "queue_name" string?
  pure (table, queue)

/-- Reads a location. -/
def Location.ofJson? (v : Json) : Option Location := do
  let (table, queue) ← Location.names? v
  (Location.make table queue).toOption

/-- The two names of a location. -/
def Location.toJson (l : Location) : Json :=
  .record [("table_name", .ofString l.table), ("queue_name", .ofString l.queue)]

namespace Settings

/-- The fields of settings in their order. -/
def fieldNames : List String :=
  ["no_task_timeout", "between_task_timeout", "fatal_crash_timeout", "processing_mode",
    "retry_type", "reenqueue_retry_type", "additional_settings"]

/-- Reads settings; only the first two waits have to be there. -/
def ofJson? (v : Json) : Option Settings := do
  let f ← v.fields? fieldNames
  let noTask ← f.required "no_task_timeout" Duration.ofJson?
  let betweenTask ← f.required "between_task_timeout" Duration.ofJson?
  let defaults := ofTimeouts noTask betweenTask
  let crash ← f.orDefault "fatal_crash_timeout" defaults.fatalCrashTimeout Duration.ofJson?
  let mode ← f.orDefault "processing_mode" defaults.mode choice?
  let leaseKind ← f.orDefault "retry_type" defaults.leaseKind choice?
  let reenqueueKind ← f.orDefault "reenqueue_retry_type" defaults.reenqueueKind choice?
  let parameters ← f.orDefault "additional_settings" defaults.parameters (map? string?)
  pure ⟨noTask, betweenTask, crash, mode, leaseKind, reenqueueKind, parameters⟩

/-- The fields of settings. -/
def toJson (s : Settings) : Json :=
  .record [
    ("no_task_timeout", s.noTaskTimeout.toJson),
    ("between_task_timeout", s.betweenTaskTimeout.toJson),
    ("fatal_crash_timeout", s.fatalCrashTimeout.toJson),
    ("processing_mode", Named.toJson s.mode),
    ("retry_type", Named.toJson s.leaseKind),
    ("reenqueue_retry_type", Named.toJson s.reenqueueKind),
    ("additional_settings",
      .record (s.parameters.entries.map fun e => (e.1, .ofString e.2)))]

end Settings

/-- Reads the location and the settings of a queue. -/
def QueueConfig.ofJson? (v : Json) : Option QueueConfig := do
  let f ← v.fields? ["location", "settings"]
  let location ← f.required "location" Location.ofJson?
  let settings ← f.required "settings" Settings.ofJson?
  pure ⟨location, settings⟩

/-- The location and the settings of a queue. -/
def QueueConfig.toJson (c : QueueConfig) : Json :=
  .record [("location", c.location.toJson), ("settings", c.settings.toJson)]

/-- Reads how a pool is run. -/
def PoolConfig.ofJson? (v : Json) : Option PoolConfig := do
  let f ← v.fields? ["shutdown_timeout"]
  let timeout ← f.required "shutdown_timeout" Duration.ofJson?
  pure ⟨timeout⟩

/-- How a pool is run. -/
def PoolConfig.toJson (c : PoolConfig) : Json :=
  .record [("shutdown_timeout", c.shutdownTimeout.toJson)]

end LeaseQueue
