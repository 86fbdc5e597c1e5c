import LeaseQueue.OrderedMap
import LeaseQueue.Text.Blank
import LeaseQueue.Text.Quoted

/-!
# Locations and shards

A queue lives at a location: a table and the name that tells the queues of one table apart.  The
table's name becomes part of SQL statements, so a location exists only for a plain identifier,
optionally qualified by a schema, and for a queue name that is not blank.  Locations are ordered by
table, then by queue.
-/

set_option autoImplicit false

namespace LeaseQueue

open Text

/-- The identifier of one shard. -/
structure ShardId where
  name : String
deriving DecidableEq, Repr

instance : Ord ShardId := ⟨compareOn ShardId.name⟩

instance : Std.TransOrd ShardId :=
  inferInstanceAs (Std.TransCmp (compareOn ShardId.name))

instance : Std.LawfulEqOrd ShardId where
  compare_self := by
    intro a
    show compare a.name a.name = .eq
    exact Std.ReflOrd.compare_self
  eq_of_compare := by
    intro a b h
    have : a.name = b.name := Std.LawfulEqOrd.eq_of_compare h
    cases a; cases b; cases this; rfl

instance : Inhabited ShardId := ⟨⟨"main"⟩⟩

/-- A letter or the underscore, as an identifier begins. -/
def isIdentifierStart (c : Char) : Bool := c.isAlpha || c == '_'

/-- A letter, a digit or the underscore, as an identifier goes on. -/
def isIdentifierRest (c : Char) : Bool := c.isAlphanum || c == '_'

/-- An ASCII identifier. -/
def isIdentifier : List Char → Bool
  | [] => false
  | c :: rest => isIdentifierStart c && rest.all isIdentifierRest

/-- One or two parts with points between them, each of them an identifier. -/
def isTableName (cs : List Char) : Bool :=
  let parts := cs.splitOn '.'
  parts.all isIdentifier && parts.length ≤ 2

/-- Where a queue lives. -/
structure Location where
  table : String
  queue : String
  table_ok : isTableName table.toList = true
  queue_ok : isBlankText queue = false
deriving DecidableEq

namespace Location

/-- Why two names make no location. -/
inductive Refusal
  | notIdentifier (table : String)
  | blankQueue
deriving DecidableEq, Repr

/-- The wording of each refusal. -/
def Refusal.message : Refusal → String
  | .notIdentifier table => "table name must be a plain SQL identifier: " ++ quoted table
  | .blankQueue => "queue name must not be blank"

/-- The location of two names; the table's name is looked at first. -/
def make (table queue : String) : Except Refusal Location :=
  if ht : isTableName table.toList = true then
    if hq : isBlankText queue = false then .ok ⟨table, queue, ht, hq⟩
    else .error .blankQueue
  else .error (.notIdentifier table)

/-- The text form `queue@table`. -/
def display (l : Location) : String := l.queue ++ "@" ++ l.table

instance : Ord Location :=
  ⟨compareLex (compareOn Location.table) (compareOn Location.queue)⟩

instance : Std.TransOrd Location :=
  inferInstanceAs
    (Std.TransCmp (compareLex (compareOn Location.table) (compareOn Location.queue)))

/-- Locations with the same table and the same queue are the same. -/
@[ext]
theorem ext {a b : Location} (ht : a.table = b.table) (hq : a.queue = b.queue) : a = b := by
  cases a; cases b; cases ht; cases hq; rfl

instance : Std.LawfulEqOrd Location where
  compare_self := by
    intro a
    show compareLex (compareOn Location.table) (compareOn Location.queue) a a = .eq
    exact compareLex_eq_eq.2 ⟨Std.ReflOrd.compare_self, Std.ReflOrd.compare_self⟩
  eq_of_compare := by
    intro a b h
    have h' : compareLex (compareOn Location.table) (compareOn Location.queue) a b = .eq := h
    rw [compareLex_eq_eq] at h'
    have ht : compare a.table b.table = .eq := h'.1
    have hq : compare a.queue b.queue = .eq := h'.2
    exact Location.ext (Std.LawfulEqOrd.eq_of_compare ht) (Std.LawfulEqOrd.eq_of_compare hq)

/-- Locations in their order. -/
def sorted (ls : List Location) : List Location := ls.mergeSort fun a b => (compare a b).isLE

end Location

end LeaseQueue
