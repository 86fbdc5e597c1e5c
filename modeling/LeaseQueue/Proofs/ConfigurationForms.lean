import LeaseQueue.Settings.Form
import LeaseQueue.Proofs.SettingsVariables

/-!
# Configuration that is written and read back

Settings and pool configurations are written as JSON values.  Whatever they are, they are read back
(`Settings.ofJson?_toJson`, `PoolConfig.ofJson?_toJson`), with the same names and parameters.

A wait is written as its whole milliseconds in 64 bits.  It comes back rounded down, by less than a
millisecond, as long as these are all its whole milliseconds; of a longer wait the multiples of 2^64
milliseconds are lost (`Duration.roundsDownTo_readBack_iff`).

Main statement: `Settings.waits_rounded_iff`.
-/

set_option autoImplicit false

namespace LeaseQueue

open Text

/-! ## JSON values -/

namespace OrderedMap

variable {κ ν : Type} [Ord κ] [Std.TransOrd κ] [Std.LawfulEqOrd κ]

/-- The entries of a map make up this map again. -/
theorem ofList_entries (m : OrderedMap κ ν) : ofList m.entries = m := by
  classical
  have hfold : ∀ (l : List (κ × ν)), (l.Pairwise fun a b => compare a.1 b.1 = .lt) →
      ∀ (m : OrderedMap κ ν) (a : κ),
        (l.foldl (fun m e => m.insert e.1 e.2) m).get? a = (lookup a l).or (m.get? a) := by
    intro l hl
    induction l with
    | nil => exact fun m a => rfl
    | cons e rest ih =>
      intro m a
      obtain ⟨hfirst, hrest⟩ := List.pairwise_cons.1 hl
      rw [List.foldl_cons, ih hrest, get?_insert, lookup]
      simp only [Std.LawfulEqCmp.compare_eq_iff_eq]
      by_cases ha : a = e.1
      · rw [ha, lookup_eq_none_of_lt hfirst]
        simp
      · simp [ha]
  refine ext_get? fun a => ?_
  rw [ofList, hfold m.entries m.increasing, get?_empty, Option.or_none]
  rfl

end OrderedMap

namespace Json

/-- The digits of a number have its value. -/
theorem digitsValue_toDigits (n : Nat) : digitsValue (Nat.toDigits 10 n) = n :=
  Nat.ofDigitChars_ten_toDigits

/-- A number up to the bound of its field is read back. -/
theorem nat?_ofNat {bound n : Nat} (h : n ≤ bound) : nat? bound (.ofNat n) = some n := by
  have hdigits : (Nat.toDigits 10 n).all Char.isDigit = true :=
    List.all_eq_true.2 fun _ hc => Nat.isDigit_of_mem_toDigits (by decide) (by decide) hc
  simp only [nat?, ofNat, digitsValue_toDigits, hdigits, h, and_self, if_true]

/-- A name is read back as the value that it names. -/
theorem choice?_toJson {α : Type} [Named α] [Settings.LawfulNamed α] (a : α) :
    choice? (Named.toJson a) = some a := by
  have hread := Settings.LawfulNamed.read_name a
  unfold Named.read at hread
  dsimp only at hread
  split at hread
  · next b hfind =>
    cases hread
    -- the text that was compared is the name itself
    have hname := List.find?_some hfind
    rw [← beq_iff_eq.1 hname] at hfind
    exact hfind
  · cases hread

/-- The fields of an object without repetitions are its members. -/
theorem fields?_record {members : List (String × Json)} (names : List String)
    (h : (members.map Prod.fst).Nodup) :
    fields? names (.record members) = some ⟨true, fun n =>
      (members.find? fun m => m.1 == n).map Prod.snd⟩ := by
  have hall : (members.map fun m => (some m.1, m.2)).mapM
      (fun m : Option String × Json => do pure (← m.1, m.2)) = some members := by
    clear h
    induction members with
    | nil => rfl
    | cons m rest ih =>
      rw [List.map_cons, List.mapM_cons, ih]
      rfl
  have honce : (names.any fun n => 1 < (members.filter fun m => m.1 == n).length) = false := by
    rw [List.any_eq_false]
    intro n _
    have hcount : (members.filter fun m => m.1 == n).length = (members.map Prod.fst).count n := by
      rw [List.count_eq_countP, List.countP_map, List.countP_eq_length_filter]
      rfl
    rw [hcount, decide_eq_true_eq, Nat.not_lt]
    exact List.nodup_iff_count_le_one.1 h n
  unfold fields? record
  dsimp only
  rw [hall]
  exact if_neg (by rw [honce]; decide)

/-- An object of texts is read back as the map of its members. -/
theorem map?_record (entries : List (String × String)) :
    map? string? (.record (entries.map fun e => (e.1, .ofString e.2))) =
      some (.ofList entries) := by
  have hall : ((entries.map fun e => (e.1, ofString e.2)).map fun m => (some m.1, m.2)).mapM
      (fun m : Option String × Json => do pure (← m.1, ← string? m.2)) = some entries := by
    induction entries with
    | nil => rfl
    | cons e rest ih =>
      rw [List.map_cons, List.map_cons, List.mapM_cons, ih]
      rfl
  simp only [map?, record, hall]
  rfl

end Json

/-! ## Waits -/

namespace Duration

/-- What is read back of a wait. -/
def readBack (d : Duration) : Duration := .ofMillis d.millisWord

/-- Rounded down to whole milliseconds. -/
structure RoundsDownTo (d d' : Duration) : Prop where
  whole : nanosPerMilli ∣ d'.nanos
  le : d'.nanos ≤ d.nanos
  lt : d.nanos < d'.nanos + nanosPerMilli

variable {d : Duration}

/-- The word of milliseconds fits 64 bits. -/
theorem millisWord_le (d : Duration) : d.millisWord ≤ maxWord64 :=
  Nat.le_of_lt_succ (Nat.mod_lt _ (by decide))

/-- A duration that is written and read is what is read back of it. -/
theorem ofJson?_toJson (d : Duration) : ofJson? d.toJson = some d.readBack := by
  rw [ofJson?, toJson, Json.nat?_ofNat d.millisWord_le]
  rfl

/-- What is read back of a duration is its word of milliseconds. -/
theorem nanos_readBack (d : Duration) : d.readBack.nanos = d.millisWord * nanosPerMilli := by
  have hle := d.millisWord_le
  have hfits : maxWord64 * nanosPerMilli ≤ longest.nanos := by decide
  rw [readBack, ofMillis, nanos_ofNanos]
  exact Nat.min_eq_left (Nat.le_trans (Nat.mul_le_mul_right _ hle) hfits)

/-- A wait is rounded down exactly if 64 bits hold its whole milliseconds. -/
theorem roundsDownTo_readBack_iff : d.RoundsDownTo d.readBack ↔ d.millis ≤ maxWord64 := by
  have hnanos : d.readBack.nanos = d.nanos / 1000000 % 18446744073709551616 * 1000000 :=
    d.nanos_readBack
  have hmillis : d.millis = d.nanos / 1000000 := rfl
  have hmilli : nanosPerMilli = 1000000 := rfl
  rw [hmillis, maxWord64]
  constructor
  · intro h
    have hlt := h.lt
    omega
  · intro hfits
    exact {
      whole := ⟨d.millisWord, d.nanos_readBack.trans (Nat.mul_comm ..)⟩
      le := by omega
      lt := by omega }

/-- What becomes of a wait. -/
structure WrittenAs (d d' : Duration) : Prop where
  nanos : d'.nanos = d.millisWord * nanosPerMilli
  rounded_iff : d.RoundsDownTo d' ↔ d.millis ≤ maxWord64

/-- A duration is written as what is read back of it. -/
theorem writtenAs_readBack (d : Duration) : d.WrittenAs d.readBack :=
  ⟨d.nanos_readBack, roundsDownTo_readBack_iff⟩

end Duration

/-! ## Settings and pool configurations -/

namespace Settings

/-- What is read back of settings. -/
def readBack (s : Settings) : Settings :=
  { s with
    noTaskTimeout := s.noTaskTimeout.readBack
    betweenTaskTimeout := s.betweenTaskTimeout.readBack
    fatalCrashTimeout := s.fatalCrashTimeout.readBack }

/-- Settings that are written and read are what is read back of them. -/
theorem ofJson?_toJson (s : Settings) : ofJson? s.toJson = some s.readBack := by
  have hparameters : Json.map? Json.string?
      (.record (s.parameters.entries.map fun e => (e.1, .ofString e.2))) = some s.parameters := by
    rw [Json.map?_record, OrderedMap.ofList_entries]
  have hnames : fieldNames.Nodup := by decide
  rw [ofJson?, toJson, Json.fields?_record]
  · simp [Json.Fields.required, Json.Fields.orDefault, Duration.ofJson?_toJson,
      Json.choice?_toJson, hparameters, readBack]
  · exact hnames

/-- What becomes of settings: three waits, and all else as it was. -/
structure WrittenAs (s s' : Settings) : Prop where
  noTask : s.noTaskTimeout.WrittenAs s'.noTaskTimeout
  betweenTask : s.betweenTaskTimeout.WrittenAs s'.betweenTaskTimeout
  fatalCrash : s.fatalCrashTimeout.WrittenAs s'.fatalCrashTimeout
  mode : s'.mode = s.mode
  leaseKind : s'.leaseKind = s.leaseKind
  reenqueueKind : s'.reenqueueKind = s.reenqueueKind
  parameters : s'.parameters = s.parameters

/-- Settings are written as what is read back of them. -/
theorem writtenAs_readBack (s : Settings) : s.WrittenAs s.readBack := by
  obtain ⟨noTask, betweenTask, fatalCrash, mode, leaseKind, reenqueueKind, parameters⟩ := s
  exact {
    noTask := noTask.writtenAs_readBack
    betweenTask := betweenTask.writtenAs_readBack
    fatalCrash := fatalCrash.writtenAs_readBack
    mode := rfl
    leaseKind := rfl
    reenqueueKind := rfl
    parameters := rfl }

end Settings

/-- A configuration that is written and read has what is read back of its timeout. -/
theorem PoolConfig.ofJson?_toJson (c : PoolConfig) :
    PoolConfig.ofJson? c.toJson = some ⟨c.shutdownTimeout.readBack⟩ := by
  rw [PoolConfig.ofJson?, PoolConfig.toJson, Json.fields?_record]
  · simp [Json.Fields.required, Duration.ofJson?_toJson]
  · exact List.nodup_singleton _

namespace Settings

/-- Settings and pool configurations are always read back, and of their waits exactly those are
rounded down to whole milliseconds of which 64 bits hold these milliseconds. -/
theorem waits_rounded_iff (s : Settings) (c : PoolConfig) :
    (∃ s', ofJson? s.toJson = some s' ∧ s.WrittenAs s') ∧
    ∃ c', PoolConfig.ofJson? c.toJson = some c' ∧
      c.shutdownTimeout.WrittenAs c'.shutdownTimeout := by
  constructor
  · exact ⟨s.readBack, s.ofJson?_toJson, s.writtenAs_readBack⟩
  · exact ⟨_, c.ofJson?_toJson, c.shutdownTimeout.writtenAs_readBack⟩

/-- Settings that let a loop wait for 2^64 milliseconds when it has found nothing. -/
def dormant : Settings :=
  ofTimeouts ⟨18446744073709551616 * nanosPerMilli, by decide⟩ .zero

/-- A wait of 2^64 milliseconds is read back as none, of a loop as of a pool that stops. -/
theorem endless_wait_lost :
    ofJson? dormant.toJson = some (ofTimeouts .zero .zero) ∧
    (¬ ∃ s', ofJson? dormant.toJson = some s' ∧
      dormant.noTaskTimeout.RoundsDownTo s'.noTaskTimeout) ∧
    PoolConfig.ofJson? (PoolConfig.toJson ⟨dormant.noTaskTimeout⟩) = some ⟨.zero⟩ := by
  have hsettings : ofJson? dormant.toJson = some (ofTimeouts .zero .zero) := by
    rw [ofJson?_toJson]
    decide
  refine ⟨hsettings, ?_, ?_⟩
  · rintro ⟨s', hread, hrounded⟩
    rw [hsettings] at hread
    cases hread
    have hlt := hrounded.lt
    revert hlt
    decide
  · rw [PoolConfig.ofJson?_toJson]
    decide

end Settings

end LeaseQueue
