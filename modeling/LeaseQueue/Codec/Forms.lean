import LeaseQueue.Codec
import LeaseQueue.Json.Decoder
import LeaseQueue.Json.Normal

/-!
# JSON codecs of some payload types

Texts, free-form values, lists of numbers, whole numbers, optional flags and e-mails.
-/

set_option autoImplicit false

namespace LeaseQueue.Codec

open Text

/-- A text as payload. -/
def jsonText : Codec String := json Json.string? Json.ofString

/-- Any value as payload, in its normal form. -/
def jsonValue : Codec Json := json (Json.normal? Json.maxDepth) id

/-- A list of numbers of 32 bits as payload. -/
def jsonNumbers : Codec (List Nat) :=
  json (Json.list? (Json.nat? maxWord32)) fun ns => .array (ns.map Json.ofNat)

/-- A number of 64 bits with sign as payload. -/
def jsonInteger : Codec Int := json Json.int64? Json.ofInt

/-- A flag or null as payload. -/
def jsonFlag : Codec (Option Bool) :=
  json (Json.optional? Json.bool?) fun b => b.elim .null .bool

/-- An e-mail to send. -/
structure Email where
  recipient : String
  template : Option String
deriving DecidableEq, Repr

/-- Reads an e-mail from the fields `to` and `template`. -/
def Email.ofJson? (v : Json) : Option Email := do
  let f ← v.fields? ["to", "template"]
  let recipient ← f.required "to" Json.string?
  let template ← f.nullable "template" Json.string?
  pure ⟨recipient, template⟩

/-- The fields of an e-mail. -/
def Email.toJson (e : Email) : Json :=
  .record [("to", .ofString e.recipient), ("template", .ofString? e.template)]

/-- An e-mail as payload. -/
def jsonEmail : Codec Email := json Email.ofJson? Email.toJson

end LeaseQueue.Codec
