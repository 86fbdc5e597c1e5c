import LeaseQueue.Failure
import LeaseQueue.Json.Printer
import LeaseQueue.Json.Reader

/-!
# Codecs and routers

A codec turns the payloads of an application into stored texts and back; a router says to which
shard a task goes and which shards there are.  The producer and the consumer of a queue have to
agree on both, so each carries an identity, and two with one identity count as the same.
-/

set_option autoImplicit false

namespace LeaseQueue

/-- What tells codecs or routers apart: a kind and the values that it depends on. -/
structure Identity where
  kind : String
  values : List String
deriving DecidableEq, Repr

/-- The outcome of reading a stored payload. -/
inductive Reading (α : Type)
  | value (payload : Option α)
  | unreadable
  | panics (cause : Panic)
deriving DecidableEq

/-- A conversion between payloads and stored texts; either may be absent. -/
structure Codec (α : Type) where
  identity : Identity
  read : Option String → Reading α
  write : Option α → Except PayloadError (Option String)

namespace Codec

/-- Texts are stored as they are. -/
def plain : Codec String where
  identity := ⟨"plain", []⟩
  read := .value
  write := .ok

/-- Values are stored as compact JSON. -/
def json {α : Type} (decode : Json → Option α) (encode : α → Json) : Codec α where
  identity := ⟨"json", []⟩
  read
    | none => .value none
    | some stored =>
      match (Json.read? stored).bind decode with
      | some v => .value (some v)
      | none => .unreadable
  write
    | none => .ok none
    | some v => .ok (some (encode v).print)

/-- What stands behind a tag. -/
def untagged? (tag stored : String) : Option String :=
  if tag.toList.isPrefixOf stored.toList then
    some (String.ofList (stored.toList.drop tag.length))
  else none

/-- Texts are stored behind a tag.  A text with an exclamation mark is refused, and reading `PANIC`
panics. -/
def tagged (tag : String) : Codec String where
  identity := ⟨"tagged", [tag]⟩
  read
    | none => .value none
    | some stored =>
      match untagged? tag stored with
      | none => .unreadable
      | some payload =>
        if payload = "PANIC" then .panics (.text "transformer bug") else .value (some payload)
  write
    | none => .ok none
    | some payload =>
      if payload.toList.contains '!' then .error (.unwritable "no ! allowed")
      else .ok (some (tag ++ payload))

/-- The stored text that reading a stored text and writing the payload again gives. -/
def roundTrip {α : Type} (c : Codec α) (stored : Option String) :
    Except PayloadError (Option String) :=
  match c.read stored with
  | .value payload => c.write payload
  | .unreadable => .error .unreadable
  | .panics _ => .error .unreadable

end Codec

/-- The choice of a shard for every task. -/
structure Router (α : Type) where
  identity : Identity
  /-- Every shard that a task may go to. -/
  shards : List ShardId
  route : Submission α → ShardId

namespace Router

/-- Every task goes to one shard. -/
def single {α : Type} (shard : ShardId) : Router α where
  identity := ⟨"single", [shard.name]⟩
  shards := [shard]
  route _ := shard

/-- Tasks are spread by the number of bytes of their payload; without any shard they go to one named
`nowhere`. -/
def spread (shards : List ShardId) : Router String where
  identity := ⟨"spread", shards.map ShardId.name⟩
  shards := shards
  route task :=
    let size := (task.payload.map String.utf8ByteSize).getD 0
    (shards[size % shards.length]?).getD ⟨"nowhere"⟩

end Router

end LeaseQueue
