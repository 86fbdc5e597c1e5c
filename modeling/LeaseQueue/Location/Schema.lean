import LeaseQueue.Location

/-!
# The table of a location

The statements that create a queue table and the index by which tasks are picked.  Only the table's
name goes into them, and that is a plain identifier for every location.
-/

set_option autoImplicit false

namespace LeaseQueue.Location

/-- The name of the index by which tasks are picked: a qualified table name is joined by an
underscore. -/
def indexName (l : Location) : String :=
  String.ofList (l.table.toList.map fun c => if c = '.' then '_' else c) ++ "_pick_idx"

/-- The text up to the name of the table. -/
def opening : String := "\n        CREATE TABLE IF NOT EXISTS "

/-- The text from there to the name of the index. -/
def columns : String :=
  " (\n" ++
  "            id             BIGSERIAL PRIMARY KEY,\n" ++
  "            queue_name     TEXT        NOT NULL,\n" ++
  "            payload        TEXT,\n" ++
  "            create_time    TIMESTAMPTZ NOT NULL DEFAULT now(),\n" ++
  "            process_time   TIMESTAMPTZ NOT NULL DEFAULT now(),\n" ++
  "            attempt        INTEGER     NOT NULL DEFAULT 0,\n" ++
  "            correlation_id TEXT,\n" ++
  "            actor          TEXT\n" ++
  "        );\n" ++
  "        CREATE INDEX IF NOT EXISTS "

/-- The text from there to the second name of the table. -/
def onTable : String := " ON "

/-- The text behind it. -/
def indexed : String := " (queue_name, process_time, id);\n        "

/-- The statements that create the table and its index unless they exist. -/
def schema (l : Location) : String :=
  opening ++ l.table ++ columns ++ l.indexName ++ onTable ++ l.table ++ indexed

end LeaseQueue.Location
