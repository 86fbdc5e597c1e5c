import Mathlib.Data.List.Duplicate
import Mathlib.Data.List.Induction
import LeaseQueue.Registry

/-!
# What the registry accepts

`Consistent` says when registrations fit together, without the maps of the registry and without the
order in which the registrations come.  `Problem.Holds` says of every problem what it tells of the
registrations.

Main statement: the registry accepts exactly the consistent registrations; what it accepts are the
things registered, in whatever order they came; and otherwise it lists every problem that holds and
no other one.

Of two queues at one location only the first one counts for the shards and the executors
(`queueAt`); the second one is a problem by itself.
-/

set_option autoImplicit false

namespace LeaseQueue

variable {α : Type}

/-! ## The first entries of a list -/

namespace OrderedMap

variable {κ ν : Type} [Ord κ]

/-- A key is found when it stands in the list. -/
theorem isSome_lookup [Std.LawfulEqOrd κ] {k : κ} {l : List (κ × ν)} :
    (lookup k l).isSome = true ↔ k ∈ l.map Prod.fst := by
  induction l with
  | nil => simp [lookup]
  | cons e rest ih =>
    obtain ⟨k', v'⟩ := e
    rw [lookup, List.map_cons, List.mem_cons]
    by_cases hk : compare k k' = .eq
    · have heq : k = k' := Std.LawfulEqCmp.eq_of_compare hk
      simp [heq]
    · have hne : k ≠ k' := fun heq => hk (Std.LawfulEqCmp.compare_eq_iff_eq.2 heq)
      rw [if_neg hk, ih]
      simp [hne]

/-- What is found for a key stands in the list beside it. -/
theorem mem_of_lookup [Std.LawfulEqOrd κ] {k : κ} {v : ν} {l : List (κ × ν)}
    (h : lookup k l = some v) : (k, v) ∈ l := by
  induction l with
  | nil => simp [lookup] at h
  | cons e rest ih =>
    obtain ⟨k', v'⟩ := e
    rw [lookup] at h
    split at h
    · next hk =>
      obtain rfl := Std.LawfulEqCmp.eq_of_compare hk
      cases h
      exact List.mem_cons_self
    · exact List.mem_cons_of_mem _ (ih h)

/-- In a list without repeated keys every entry is the first one with its key. -/
theorem lookup_eq_some_iff [Std.LawfulEqOrd κ] {l : List (κ × ν)} (h : (l.map Prod.fst).Nodup)
    {k : κ} {v : ν} : lookup k l = some v ↔ (k, v) ∈ l := by
  refine ⟨mem_of_lookup, fun hmem => ?_⟩
  have hkey : k ∈ l.map Prod.fst := List.mem_map.2 ⟨(k, v), hmem, rfl⟩
  obtain ⟨v', hv'⟩ := Option.isSome_iff_exists.1 (isSome_lookup.2 hkey)
  have hsame : ((k, v) : κ × ν) = (k, v') :=
    List.inj_on_of_nodup_map h hmem (mem_of_lookup hv') rfl
  rw [hv', (Prod.mk.inj hsame).2]

variable [Std.TransOrd κ] [Std.LawfulEqOrd κ]

/-- The map of a list of entries; of two entries with one key the earlier one counts. -/
def firsts (l : List (κ × ν)) : OrderedMap κ ν :=
  l.foldl (fun m e => m.insertNew e.1 e.2) empty

/-- A new entry is seen only where there was none before. -/
theorem get?_insertNew [DecidableEq κ] (m : OrderedMap κ ν) (k a : κ) (v : ν) :
    (m.insertNew k v).get? a = (m.get? a).or (if a = k then some v else none) := by
  unfold insertNew contains
  by_cases ha : a = k
  · subst ha
    cases hm : m.get? a with
    | none => simp [get?_insert]
    | some v' => simp [hm]
  · split <;> simp [get?_insert, ha]

/-- Of several entries for a key the first one counts. -/
theorem get?_firsts [DecidableEq κ] (l : List (κ × ν)) (a : κ) :
    (firsts l).get? a = lookup a l := by
  have hfold : ∀ m : OrderedMap κ ν,
      (l.foldl (fun m e => m.insertNew e.1 e.2) m).get? a = (m.get? a).or (lookup a l) := by
    induction l with
    | nil => simp [lookup]
    | cons e rest ih =>
      intro m
      rw [List.foldl_cons, ih, get?_insertNew, Option.or_assoc, lookup]
      simp only [Std.LawfulEqCmp.compare_eq_iff_eq]
      congr 1
      split <;> simp
  rw [firsts, hfold, get?_empty, Option.none_or]

/-- The first entries cover every key of the list. -/
theorem contains_firsts [DecidableEq κ] {l : List (κ × ν)} {a : κ} :
    (firsts l).contains a = true ↔ a ∈ l.map Prod.fst := by
  rw [contains, get?_firsts, isSome_lookup]

/-- A map made of a list covers every key of the list. -/
theorem contains_ofList [DecidableEq κ] {l : List (κ × ν)} {a : κ} :
    (ofList l).contains a = true ↔ a ∈ l.map Prod.fst := by
  have hfold : ∀ m : OrderedMap κ ν, (l.foldl (fun m e => m.insert e.1 e.2) m).contains a = true ↔
      m.contains a = true ∨ a ∈ l.map Prod.fst := by
    induction l with
    | nil => simp
    | cons e rest ih =>
      intro m
      rw [List.foldl_cons, ih, contains, get?_insert, List.map_cons, List.mem_cons]
      by_cases ha : a = e.1
      · simp [ha]
      · simp [ha, contains]
  have hempty : (empty : OrderedMap κ ν).contains a = false := rfl
  rw [ofList, hfold, hempty]
  simp

end OrderedMap

/-! ## What is registered -/

namespace Registration

def queue? : Registration α → Option (Location × Consumer α)
  | queue consumer _ => some (consumer.config.location, consumer)
  | _ => none

def shard? : Registration α → Option (ShardId × Unit)
  | shard s => some (s, ())
  | _ => none

def taskListener? : Registration α → Option (Location × TaskListener)
  | taskListener l listener => some (l, listener)
  | _ => none

def loopListener? : Registration α → Option (Location × LoopListener)
  | loopListener l listener => some (l, listener)
  | _ => none

def executor? : Registration α → Option (Location × External)
  | executor l e => some (l, e)
  | _ => none

/-- The location of a companion of a kind. -/
def companion? : Companion → Registration α → Option Location
  | .taskListener, r => r.taskListener?.map Prod.fst
  | .loopListener, r => r.loopListener?.map Prod.fst
  | .executor, r => r.executor?.map Prod.fst

end Registration

namespace Registry

/-- The locations of the queues, in the order of the registrations. -/
def locations (rs : List (Registration α)) : List Location :=
  rs.filterMap fun r => r.queue?.map Prod.fst

def shards (rs : List (Registration α)) : List ShardId :=
  rs.filterMap fun r => r.shard?.map Prod.fst

def companions (kind : Companion) (rs : List (Registration α)) : List Location :=
  rs.filterMap (·.companion? kind)

/-- The queue that was registered first at a location. -/
def queueAt (rs : List (Registration α)) (l : Location) : Option (Consumer α) :=
  OrderedMap.lookup l (rs.filterMap Registration.queue?)

/-- The registrations fit together. -/
structure Consistent (rs : List (Registration α)) : Prop where
  config_eq : ∀ {c p}, .queue c p ∈ rs → c.config = p.config
  codec_eq : ∀ {c p}, .queue c p ∈ rs → c.codec.identity = p.codec.identity
  router_eq : ∀ {c p}, .queue c p ∈ rs → c.router.identity = p.router.identity
  lease : ∀ {c p}, .queue c p ∈ rs →
    ∃ lease, LeaseSchedule.ofSettings c.config.settings = .ok lease
  reenqueue : ∀ {c p}, .queue c p ∈ rs →
    ∃ reenqueue, ReenqueueSchedule.ofSettings c.config.settings = .ok reenqueue
  locations_nodup : (locations rs).Nodup
  names_nodup : ((locations rs).map Location.queue).Nodup
  shards_nodup : (shards rs).Nodup
  companions_nodup : ∀ kind, (companions kind rs).Nodup
  /-- The registered shards are those that the routers may name. -/
  shards_used : ∀ s, s ∈ shards rs ↔ ∃ c p, .queue c p ∈ rs ∧ s ∈ c.router.shards
  /-- Executors stand by the queues that hand their work over, and by no others. -/
  executors_needed : ∀ l, l ∈ companions .executor rs ↔ ∃ c p, .queue c p ∈ rs ∧
    c.config.location = l ∧ c.config.settings.mode = .useExternalExecutor
  companions_placed : ∀ kind, ∀ l ∈ companions kind rs, l ∈ locations rs

end Registry

open Registry

/-- What a problem says of the registrations. -/
def Problem.Holds (rs : List (Registration α)) : Problem → Prop
  | .configsDiffer l => ∃ c p, .queue c p ∈ rs ∧ c.config.location = l ∧ c.config ≠ p.config
  | .codecsDiffer l => ∃ c p, .queue c p ∈ rs ∧ c.config.location = l ∧
    c.codec.identity ≠ p.codec.identity
  | .routersDiffer l => ∃ c p, .queue c p ∈ rs ∧ c.config.location = l ∧
    c.router.identity ≠ p.router.identity
  | .invalidLease l cause => ∃ c p, .queue c p ∈ rs ∧ c.config.location = l ∧
    LeaseSchedule.ofSettings c.config.settings = .error cause
  | .invalidReenqueue l cause => ∃ c p, .queue c p ∈ rs ∧ c.config.location = l ∧
    ReenqueueSchedule.ofSettings c.config.settings = .error cause
  | .duplicateQueue l => (locations rs).Duplicate l
  | .ambiguousName a b => a ∈ locations rs ∧ b ∈ locations rs ∧ a ≠ b ∧ a.queue = b.queue
  | .duplicateShard s => (shards rs).Duplicate s
  | .duplicateCompanion kind l => (companions kind rs).Duplicate l
  | .unknownShard s => s ∉ shards rs ∧ ∃ l c, queueAt rs l = some c ∧ s ∈ c.router.shards
  | .unusedShards ss => ss ≠ [] ∧
    ∀ s ∈ ss, s ∈ shards rs ∧ ∀ l c, queueAt rs l = some c → s ∉ c.router.shards
  | .missingExecutor l => l ∉ companions .executor rs ∧
    ∃ c, queueAt rs l = some c ∧ c.config.settings.mode = .useExternalExecutor
  | .needlessExecutor l => l ∈ companions .executor rs ∧
    ∃ c, queueAt rs l = some c ∧ c.config.settings.mode ≠ .useExternalExecutor
  | .strayCompanion kind l => l ∈ companions kind rs ∧ l ∉ locations rs

/-- The first problem tells of the second one.  All unused shards are listed as one problem, and of
the queues with one name each is told against one of those before it. -/
def Problem.Covers : Problem → Problem → Prop
  | .ambiguousName first second, .ambiguousName a b =>
    first.queue = a.queue ∧ (second = a ∨ second = b)
  | .unusedShards all, .unusedShards ss => ss ⊆ all
  | p, q => p = q

/-- A wiring has what was registered, and nothing else. -/
structure Wiring.Has (w : Wiring α) (rs : List (Registration α)) : Prop where
  queues : ∀ l c, w.queues.get? l = some c ↔ ∃ p, .queue c p ∈ rs ∧ c.config.location = l
  shards : ∀ s, w.shards.contains s = true ↔ .shard s ∈ rs
  taskListeners : ∀ l x, w.taskListeners.get? l = some x ↔ .taskListener l x ∈ rs
  loopListeners : ∀ l x, w.loopListeners.get? l = some x ↔ .loopListener l x ∈ rs
  executors : ∀ l x, w.executors.get? l = some x ↔ .executor l x ∈ rs

/-! ## Registrations in a list -/

section Lists

variable {β κ : Type}

/-- A key that comes again later in a list is a duplicate. -/
theorem duplicate_of_mem {f : β → Option κ} {xs ys : List β} {r : β} {k : κ} (hr : f r = some k)
    (hk : k ∈ xs.filterMap f) : ((xs ++ r :: ys).filterMap f).Duplicate k := by
  rw [List.filterMap_append, List.filterMap_cons_some hr, List.duplicate_iff_sublist]
  have hlast : List.Sublist [k] (k :: ys.filterMap f) := by simp
  exact (List.singleton_sublist.2 hk).append hlast

/-- Of a repeated value there is a later occurrence. -/
theorem exists_of_duplicate {f : β → Option κ} {rs : List β} {k : κ}
    (h : (rs.filterMap f).Duplicate k) :
    ∃ xs r ys, rs = xs ++ r :: ys ∧ f r = some k ∧ k ∈ xs.filterMap f := by
  induction rs with
  | nil => simp at h
  | cons r rest ih =>
    cases hr : f r with
    | none =>
      rw [List.filterMap_cons_none hr] at h
      obtain ⟨xs, r', ys, rfl, hr', hk⟩ := ih h
      exact ⟨r :: xs, r', ys, rfl, hr', by rwa [List.filterMap_cons_none hr]⟩
    | some k' =>
      rw [List.filterMap_cons_some hr, List.duplicate_cons_iff] at h
      rcases h with ⟨rfl, hk⟩ | h
      · obtain ⟨r', hmem, hr'⟩ := List.mem_filterMap.1 hk
        obtain ⟨xs, ys, rfl⟩ := List.append_of_mem hmem
        exact ⟨r :: xs, r', ys, rfl, hr', by simp [hr]⟩
      · obtain ⟨xs, r', ys, rfl, hr', hk⟩ := ih h
        exact ⟨r :: xs, r', ys, rfl, hr', by simp [hr, hk]⟩

/-- Of two values one occurs first, and the other one is there when it does. -/
theorem exists_later {f : β → Option κ} {rs : List β} {a b : κ} (ha : a ∈ rs.filterMap f)
    (hb : b ∈ rs.filterMap f) (hne : a ≠ b) :
    ∃ xs r ys k other, rs = xs ++ r :: ys ∧ f r = some k ∧ k ∉ xs.filterMap f ∧
      other ∈ xs.filterMap f ∧ (k = a ∧ other = b ∨ k = b ∧ other = a) := by
  induction rs using List.reverseRecOn with
  | nil => simp at ha
  | append_singleton xs r ih =>
    by_cases hxa : a ∈ xs.filterMap f
    · by_cases hxb : b ∈ xs.filterMap f
      · obtain ⟨xs', r', ys, k, other, rfl, h⟩ := ih hxa hxb
        exact ⟨xs', r', ys ++ [r], k, other, by simp, h⟩
      · have hr : f r = some b := by simpa [List.filterMap_append, hxb] using hb
        exact ⟨xs, r, [], b, a, rfl, hr, hxb, hxa, .inr ⟨rfl, rfl⟩⟩
    · have hr : f r = some a := by simpa [List.filterMap_append, hxa] using ha
      have hxb : b ∈ xs.filterMap f := by
        simpa [List.filterMap_append, hr, hne.symm] using hb
      exact ⟨xs, r, [], a, b, rfl, hr, hxa, hxb, .inl ⟨rfl, rfl⟩⟩

end Lists

namespace Registry

variable {rs : List (Registration α)}

/-- The locations are those of the registered queues. -/
theorem mem_locations {l : Location} :
    l ∈ locations rs ↔ ∃ c p, .queue c p ∈ rs ∧ c.config.location = l := by
  simp only [locations, List.mem_filterMap]
  constructor
  · rintro ⟨r, hr, h⟩
    cases r <;> simp [Registration.queue?] at h
    exact ⟨_, _, hr, h⟩
  · rintro ⟨c, p, hmem, rfl⟩
    exact ⟨_, hmem, rfl⟩

/-- The shards are the registered ones. -/
theorem mem_shards {s : ShardId} : s ∈ shards rs ↔ .shard s ∈ rs := by
  simp only [shards, List.mem_filterMap]
  constructor
  · rintro ⟨r, hr, h⟩
    cases r <;> simp [Registration.shard?] at h
    exact h ▸ hr
  · intro hmem
    exact ⟨_, hmem, rfl⟩

/-- The keys of the selected entries are the selected keys. -/
theorem map_fst_filterMap {κ ν : Type} (f : Registration α → Option (κ × ν)) :
    (rs.filterMap f).map Prod.fst = rs.filterMap fun r => (f r).map Prod.fst :=
  List.map_filterMap

/-- There is a queue at each registered location. -/
theorem isSome_queueAt {l : Location} : (queueAt rs l).isSome = true ↔ l ∈ locations rs := by
  unfold queueAt locations
  rw [OrderedMap.isSome_lookup, map_fst_filterMap]

/-- The queue at a location was registered there. -/
theorem mem_of_queueAt {l : Location} {c : Consumer α} (h : queueAt rs l = some c) :
    ∃ p, .queue c p ∈ rs ∧ c.config.location = l := by
  obtain ⟨r, hr, hmem⟩ := List.mem_filterMap.1 (OrderedMap.mem_of_lookup h)
  cases r <;> simp [Registration.queue?] at hmem
  obtain ⟨hl, rfl⟩ := hmem
  exact ⟨_, hr, hl⟩

/-- Where no location is used twice, every queue counts. -/
theorem queueAt_iff (h : (locations rs).Nodup) {l : Location} {c : Consumer α} :
    queueAt rs l = some c ↔ ∃ p, .queue c p ∈ rs ∧ c.config.location = l := by
  refine ⟨mem_of_queueAt, ?_⟩
  rintro ⟨p, hmem, rfl⟩
  have hnodup : ((rs.filterMap Registration.queue?).map Prod.fst).Nodup := by
    rwa [map_fst_filterMap]
  refine (OrderedMap.lookup_eq_some_iff hnodup).2 (List.mem_filterMap.2 ⟨_, hmem, rfl⟩)

/-! ## The registry after its registrations -/

/-- A registry has the first registration of everything. -/
theorem wiring_ofRegistrations (rs : List (Registration α)) :
    (ofRegistrations rs).wiring =
      { queues := .firsts (rs.filterMap Registration.queue?)
        shards := .firsts (rs.filterMap Registration.shard?)
        taskListeners := .firsts (rs.filterMap Registration.taskListener?)
        loopListeners := .firsts (rs.filterMap Registration.loopListener?)
        executors := .firsts (rs.filterMap Registration.executor?) } := by
  have hfold : ∀ r : Registry α, (rs.foldl register r).wiring =
      { queues := (rs.filterMap Registration.queue?).foldl (fun m e => m.insertNew e.1 e.2)
          r.wiring.queues
        shards := (rs.filterMap Registration.shard?).foldl (fun m e => m.insertNew e.1 e.2)
          r.wiring.shards
        taskListeners := (rs.filterMap Registration.taskListener?).foldl
          (fun m e => m.insertNew e.1 e.2) r.wiring.taskListeners
        loopListeners := (rs.filterMap Registration.loopListener?).foldl
          (fun m e => m.insertNew e.1 e.2) r.wiring.loopListeners
        executors := (rs.filterMap Registration.executor?).foldl (fun m e => m.insertNew e.1 e.2)
          r.wiring.executors } := by
    induction rs with
    | nil => exact fun _ => rfl
    | cons x rest ih =>
      intro r
      rw [List.foldl_cons, ih]
      cases x <;> rfl
  exact hfold empty

/-- The wiring has at a location the queue that was registered there first. -/
theorem get?_queues (rs : List (Registration α)) (l : Location) :
    (ofRegistrations rs).wiring.queues.get? l = queueAt rs l := by
  rw [wiring_ofRegistrations]
  exact OrderedMap.get?_firsts _ l

/-- The wiring has a queue at each registered location. -/
theorem contains_queues {l : Location} :
    (ofRegistrations rs).wiring.queues.contains l = true ↔ l ∈ locations rs := by
  rw [OrderedMap.contains, get?_queues, isSome_queueAt]

/-- The wiring has each registered shard. -/
theorem contains_shards {s : ShardId} :
    (ofRegistrations rs).wiring.shards.contains s = true ↔ s ∈ shards rs := by
  rw [wiring_ofRegistrations, OrderedMap.contains_firsts, map_fst_filterMap]
  rfl

/-- The wiring has a task listener where one was registered. -/
theorem contains_taskListeners {l : Location} :
    (ofRegistrations rs).wiring.taskListeners.contains l = true ↔
      l ∈ companions .taskListener rs := by
  rw [wiring_ofRegistrations, OrderedMap.contains_firsts, map_fst_filterMap]
  rfl

/-- The wiring has a loop listener where one was registered. -/
theorem contains_loopListeners {l : Location} :
    (ofRegistrations rs).wiring.loopListeners.contains l = true ↔
      l ∈ companions .loopListener rs := by
  rw [wiring_ofRegistrations, OrderedMap.contains_firsts, map_fst_filterMap]
  rfl

/-- The wiring has an executor where one was registered. -/
theorem contains_executors {l : Location} :
    (ofRegistrations rs).wiring.executors.contains l = true ↔ l ∈ companions .executor rs := by
  rw [wiring_ofRegistrations, OrderedMap.contains_firsts, map_fst_filterMap]
  rfl

/-- The shards that count are those that the routers of the queues may name. -/
theorem contains_usedShards {s : ShardId} :
    (ofRegistrations rs).wiring.usedShards.contains s = true ↔
      ∃ l c, queueAt rs l = some c ∧ s ∈ c.router.shards := by
  unfold Wiring.usedShards
  rw [OrderedMap.contains_ofList]
  simp only [List.map_map, List.mem_map, List.mem_flatMap, OrderedMap.mem_values, get?_queues,
    Function.comp_apply, exists_eq_right]
  constructor
  · rintro ⟨c, ⟨l, hc⟩, hs⟩
    exact ⟨l, c, hc, hs⟩
  · rintro ⟨l, c, hc, hs⟩
    exact ⟨c, ⟨l, hc⟩, hs⟩

/-! ## The problems found on the way -/

/-- What is found on the way is found at one of the registrations, given those before it. -/
theorem mem_problems {p : Problem} :
    p ∈ (ofRegistrations rs).problems ↔
      ∃ xs r ys, rs = xs ++ r :: ys ∧ p ∈ (ofRegistrations xs).found r := by
  induction rs using List.reverseRecOn with
  | nil =>
    constructor
    · intro h
      cases h
    · rintro ⟨xs, r, ys, h, -⟩
      simp at h
  | append_singleton xs r ih =>
    have hlast : (ofRegistrations (xs ++ [r])).problems =
        (ofRegistrations xs).problems ++ (ofRegistrations xs).found r := by
      simp [ofRegistrations, register]
    rw [hlast, List.mem_append, ih]
    constructor
    · rintro (⟨xs, r', ys, rfl, hp⟩ | hp)
      · exact ⟨xs, r', ys ++ [r], by simp, hp⟩
      · exact ⟨xs, r, [], rfl, hp⟩
    · rintro ⟨xs', r', ys, heq, hp⟩
      rcases List.eq_nil_or_concat ys with rfl | ⟨ys, last, rfl⟩
      · obtain ⟨rfl, hr⟩ := List.append_inj' heq rfl
        cases hr
        exact .inr hp
      · have heq : xs ++ [r] = (xs' ++ r' :: ys) ++ [last] := by simpa using heq
        exact .inl ⟨xs', r', ys, (List.append_inj' heq rfl).1, hp⟩

/-- What may be wrong with one queue. -/
theorem mem_queueProblems {c : Consumer α} {producer : Producer α} {p : Problem} :
    p ∈ queueProblems c producer ↔
      p = .configsDiffer c.config.location ∧ c.config ≠ producer.config ∨
      p = .codecsDiffer c.config.location ∧ c.codec.identity ≠ producer.codec.identity ∨
      p = .routersDiffer c.config.location ∧ c.router.identity ≠ producer.router.identity ∨
      (∃ e, p = .invalidLease c.config.location e ∧
        LeaseSchedule.ofSettings c.config.settings = .error e) ∨
      ∃ e, p = .invalidReenqueue c.config.location e ∧
        ReenqueueSchedule.ofSettings c.config.settings = .error e := by
  have hif : ∀ (P : Prop) [Decidable P] (q : Problem),
      p ∈ (if P then [] else [q]) ↔ p = q ∧ ¬ P := by
    intro P _ q
    split <;> simp_all
  simp only [queueProblems, List.append_assoc, List.mem_append, hif, ne_eq]
  refine or_congr_right (or_congr_right (or_congr_right (or_congr ?_ ?_)))
  · cases LeaseSchedule.ofSettings c.config.settings <;> simp
  · cases ReenqueueSchedule.ofSettings c.config.settings <;> simp

/-- What may be wrong with the place of one more queue. -/
theorem mem_placeProblems {l : Location} {p : Problem} :
    p ∈ (ofRegistrations rs).placeProblems l ↔
      (p = .duplicateQueue l ∧ l ∈ locations rs) ∨
      l ∉ locations rs ∧ ∃ other, p = .ambiguousName other l ∧
        (ofRegistrations rs).namesake? l = some other := by
  unfold placeProblems
  by_cases hthere : l ∈ locations rs
  · simp [contains_queues.2 hthere, hthere]
  · have hnot : ¬ (ofRegistrations rs).wiring.queues.contains l = true := fun h =>
      hthere (contains_queues.1 h)
    rw [if_neg hnot]
    cases hother : (ofRegistrations rs).namesake? l with
    | none => simp [hthere]
    | some other => simp [hthere]

/-- A namesake is a registered location with the same queue name. -/
theorem of_namesake? {l other : Location} (h : (ofRegistrations rs).namesake? l = some other) :
    other ∈ locations rs ∧ other.queue = l.queue := by
  unfold namesake? at h
  have hkey := OrderedMap.mem_keys.1 (List.mem_of_find?_eq_some h)
  have hname := List.find?_some h
  exact ⟨contains_queues.1 hkey, by simpa using hname⟩

/-- A registered location with the same queue name gives a namesake. -/
theorem exists_namesake {l a : Location} (ha : a ∈ locations rs) (hname : a.queue = l.queue) :
    ∃ other, (ofRegistrations rs).namesake? l = some other := by
  unfold namesake?
  refine Option.isSome_iff_exists.1 (List.find?_isSome.2 ⟨a, ?_, by simpa using hname⟩)
  exact OrderedMap.mem_keys.2 (contains_queues.2 ha)

/-- An entry is reported as taken when its key is already there. -/
theorem mem_taken {κ ν : Type} [Ord κ] {m : OrderedMap κ ν} {k : κ} {p q : Problem} :
    p ∈ taken m k q ↔ p = q ∧ m.contains k = true := by
  unfold taken
  split <;> simp_all

/-- What is found to be wrong with a registration holds of all registrations. -/
theorem holds_of_found {xs ys : List (Registration α)} {r : Registration α} {p : Problem}
    (h : p ∈ (ofRegistrations xs).found r) : p.Holds (xs ++ r :: ys) := by
  have hmem : r ∈ xs ++ r :: ys := by simp
  cases r with
  | queue c producer =>
    rcases List.mem_append.1 h with h | h
    · rcases mem_queueProblems.1 h with
        ⟨rfl, hwrong⟩ | ⟨rfl, hwrong⟩ | ⟨rfl, hwrong⟩ | ⟨e, rfl, hwrong⟩ | ⟨e, rfl, hwrong⟩
      all_goals exact ⟨c, producer, hmem, rfl, hwrong⟩
    · rcases mem_placeProblems.1 h with ⟨rfl, hthere⟩ | ⟨hnew, other, rfl, hother⟩
      · exact duplicate_of_mem rfl hthere
      · obtain ⟨hbefore, hname⟩ := of_namesake? hother
        have hother : other ∈ locations (xs ++ .queue c producer :: ys) := by
          unfold locations
          rw [List.filterMap_append]
          exact List.mem_append_left _ hbefore
        refine ⟨hother, mem_locations.2 ⟨c, producer, hmem, rfl⟩, ?_, hname⟩
        rintro rfl
        exact hnew hbefore
  | shard s =>
    obtain ⟨rfl, hthere⟩ := mem_taken.1 h
    exact duplicate_of_mem rfl (contains_shards.1 hthere)
  | taskListener l x =>
    obtain ⟨rfl, hthere⟩ := mem_taken.1 h
    exact duplicate_of_mem rfl (contains_taskListeners.1 hthere)
  | loopListener l x =>
    obtain ⟨rfl, hthere⟩ := mem_taken.1 h
    exact duplicate_of_mem rfl (contains_loopListeners.1 hthere)
  | executor l x =>
    obtain ⟨rfl, hthere⟩ := mem_taken.1 h
    exact duplicate_of_mem rfl (contains_executors.1 hthere)

/-! ## The problems found at the end -/

/-- The strays are the companions that stand at no registered location. -/
theorem mem_strays {kind : Companion} {ls : List Location} {p : Problem} :
    p ∈ (ofRegistrations rs).wiring.strays kind ls ↔
      ∃ l ∈ ls, l ∉ locations rs ∧ p = .strayCompanion kind l := by
  unfold Wiring.strays
  simp only [List.mem_map, List.mem_filter, Bool.not_eq_true', ← contains_queues,
    Bool.not_eq_true]
  constructor
  · rintro ⟨l, ⟨hl, hnot⟩, rfl⟩
    exact ⟨l, hl, hnot, rfl⟩
  · rintro ⟨l, hl, hnot, rfl⟩
    exact ⟨l, ⟨hl, hnot⟩, rfl⟩

/-- The executors are checked both ways: one is missing, or one is not needed. -/
theorem mem_executorProblems {p : Problem} :
    p ∈ (ofRegistrations rs).wiring.executorProblems ↔ ∃ l c, queueAt rs l = some c ∧
      (p = .missingExecutor l ∧ l ∉ companions .executor rs ∧
          c.config.settings.mode = .useExternalExecutor ∨
        p = .needlessExecutor l ∧ l ∈ companions .executor rs ∧
          c.config.settings.mode ≠ .useExternalExecutor) := by
  unfold Wiring.executorProblems
  simp only [List.mem_filterMap, Prod.exists, OrderedMap.mem_entries, get?_queues]
  refine exists_congr fun l => exists_congr fun c => and_congr_right fun _ => ?_
  unfold Wiring.executorProblem?
  rw [← contains_executors]
  cases (ofRegistrations rs).wiring.executors.contains l <;>
    by_cases hmode : c.config.settings.mode = .useExternalExecutor <;> simp [hmode, eq_comm]

/-- The shards that are there and not used. -/
def unusedShards (rs : List (Registration α)) : List ShardId :=
  (ofRegistrations rs).wiring.shards.keys.filter fun s =>
    !(ofRegistrations rs).wiring.usedShards.contains s

/-- A shard is unused when no router names it. -/
theorem mem_unusedShards {s : ShardId} :
    s ∈ unusedShards rs ↔
      s ∈ shards rs ∧ ∀ l c, queueAt rs l = some c → s ∉ c.router.shards := by
  unfold unusedShards
  rw [List.mem_filter, OrderedMap.mem_keys, contains_shards, Bool.not_eq_true',
    Bool.eq_false_iff, Ne, contains_usedShards]
  simp only [not_exists, not_and]

/-- The shards are checked both ways: a router names an unknown one, or some are unused. -/
theorem mem_shardProblems {p : Problem} :
    p ∈ (ofRegistrations rs).wiring.shardProblems ↔
      (∃ s, p = .unknownShard s ∧ s ∉ shards rs ∧
        ∃ l c, queueAt rs l = some c ∧ s ∈ c.router.shards) ∨
      p = .unusedShards (unusedShards rs) ∧ unusedShards rs ≠ [] := by
  unfold Wiring.shardProblems
  rw [List.mem_append, List.mem_map]
  refine or_congr ?_ ?_
  · simp only [List.mem_filter, OrderedMap.mem_keys, contains_usedShards, Bool.not_eq_true',
      Bool.eq_false_iff, ne_eq, contains_shards]
    constructor
    · rintro ⟨s, ⟨hused, hnot⟩, rfl⟩
      exact ⟨s, rfl, hnot, hused⟩
    · rintro ⟨s, rfl, hnot, hused⟩
      exact ⟨s, ⟨hused, hnot⟩, rfl⟩
  · show p ∈ (if (unusedShards rs).isEmpty then [] else [.unusedShards (unusedShards rs)]) ↔ _
    cases unusedShards rs with
    | nil => simp
    | cons s rest => simp

/-- The companions of the wiring stand where they were registered. -/
theorem mem_companionKeys {κ : Type} {m : OrderedMap Location κ} {kind : Companion} {l : Location}
    (h : ∀ {l}, m.contains l = true ↔ l ∈ companions kind rs) :
    l ∈ m.keys ↔ l ∈ companions kind rs := by
  rw [OrderedMap.mem_keys, h]

/-- All that is found at the end. -/
theorem mem_wiring_problems {p : Problem} :
    p ∈ (ofRegistrations rs).wiring.problems ↔
      p ∈ (ofRegistrations rs).wiring.shardProblems ∨
      p ∈ (ofRegistrations rs).wiring.executorProblems ∨
      ∃ kind, ∃ l ∈ companions kind rs, l ∉ locations rs ∧ p = .strayCompanion kind l := by
  unfold Wiring.problems
  simp only [List.append_assoc, List.mem_append, mem_strays,
    mem_companionKeys contains_taskListeners, mem_companionKeys contains_loopListeners,
    mem_companionKeys contains_executors]
  refine or_congr_right (or_congr_right ⟨?_, ?_⟩)
  · rintro (h | h | h)
    · exact ⟨.taskListener, h⟩
    · exact ⟨.loopListener, h⟩
    · exact ⟨.executor, h⟩
  · rintro ⟨kind, h⟩
    cases kind with
    | taskListener => exact .inl h
    | loopListener => exact .inr (.inl h)
    | executor => exact .inr (.inr h)

/-! ## All problems, and no others -/

/-- All problems, in the order in which they are found. -/
def allProblems (rs : List (Registration α)) : List Problem :=
  (ofRegistrations rs).problems ++ (ofRegistrations rs).wiring.problems

/-- Every reported problem is there. -/
theorem holds_of_mem {p : Problem} (h : p ∈ allProblems rs) : p.Holds rs := by
  rcases List.mem_append.1 h with h | h
  · obtain ⟨xs, r, ys, rfl, hfound⟩ := mem_problems.1 h
    exact holds_of_found hfound
  · rcases mem_wiring_problems.1 h with h | h | ⟨kind, l, hl, hnot, rfl⟩
    · rcases mem_shardProblems.1 h with ⟨s, rfl, hnot, hused⟩ | ⟨rfl, hne⟩
      · exact ⟨hnot, hused⟩
      · exact ⟨hne, fun s hs => mem_unusedShards.1 hs⟩
    · obtain ⟨l, c, hc, ⟨rfl, hnot, hmode⟩ | ⟨rfl, hthere, hmode⟩⟩ := mem_executorProblems.1 h
      · exact ⟨hnot, c, hc, hmode⟩
      · exact ⟨hthere, c, hc, hmode⟩
    · exact ⟨hl, hnot⟩

/-- A problem of one queue is found when the queue is registered. -/
theorem mem_of_queue {c : Consumer α} {producer : Producer α} {p : Problem}
    (hmem : .queue c producer ∈ rs) (hp : p ∈ queueProblems c producer) : p ∈ allProblems rs := by
  obtain ⟨xs, ys, rfl⟩ := List.append_of_mem hmem
  have hfound : p ∈ (ofRegistrations xs).found (.queue c producer) := List.mem_append_left _ hp
  exact List.mem_append_left _ (mem_problems.2 ⟨xs, _, ys, rfl, hfound⟩)

/-- A location or shard that is registered again is found when that happens. -/
theorem mem_of_duplicate {κ : Type} {f : Registration α → Option κ} {k : κ} {p : Problem}
    (h : (rs.filterMap f).Duplicate k)
    (hfound : ∀ xs r, f r = some k → k ∈ xs.filterMap f → p ∈ (ofRegistrations xs).found r) :
    p ∈ allProblems rs := by
  obtain ⟨xs, r, ys, rfl, hr, hk⟩ := exists_of_duplicate h
  exact List.mem_append_left _ (mem_problems.2 ⟨xs, r, ys, rfl, hfound xs r hr hk⟩)

/-- Of two queues with one name the one that is registered later is found. -/
theorem exists_ambiguous {a b : Location} (ha : a ∈ locations rs) (hb : b ∈ locations rs)
    (hne : a ≠ b) (hname : a.queue = b.queue) :
    ∃ first second, .ambiguousName first second ∈ allProblems rs ∧ first.queue = a.queue ∧
      (second = a ∨ second = b) := by
  obtain ⟨xs, r, ys, l, other, rfl, hr, hnew, hbefore, hpair⟩ := exists_later ha hb hne
  have hl : l = a ∨ l = b := hpair.imp And.left And.left
  have hsame : other.queue = l.queue := by
    rcases hpair with ⟨rfl, rfl⟩ | ⟨rfl, rfl⟩
    · exact hname.symm
    · exact hname
  obtain ⟨first, hfirst⟩ := exists_namesake hbefore hsame
  have hfound : .ambiguousName first l ∈ (ofRegistrations xs).found r := by
    cases r <;> simp [Registration.queue?] at hr
    subst hr
    exact List.mem_append_right _ (mem_placeProblems.2 (.inr ⟨hnew, first, rfl, hfirst⟩))
  refine ⟨first, l, List.mem_append_left _ (mem_problems.2 ⟨xs, r, ys, rfl, hfound⟩), ?_, hl⟩
  rw [(of_namesake? hfirst).2]
  rcases hl with rfl | rfl
  · rfl
  · exact hname.symm

/-- Every problem that holds is told by one that is listed. -/
theorem exists_covers {p : Problem} (h : p.Holds rs) : ∃ q ∈ allProblems rs, q.Covers p := by
  have hend : ∀ {q}, q ∈ (ofRegistrations rs).wiring.problems → q ∈ allProblems rs :=
    fun hq => List.mem_append_right _ hq
  cases p with
  | configsDiffer l =>
    obtain ⟨c, producer, hmem, rfl, hne⟩ := h
    exact ⟨_, mem_of_queue hmem (mem_queueProblems.2 (.inl ⟨rfl, hne⟩)), rfl⟩
  | codecsDiffer l =>
    obtain ⟨c, producer, hmem, rfl, hne⟩ := h
    exact ⟨_, mem_of_queue hmem (mem_queueProblems.2 (.inr (.inl ⟨rfl, hne⟩))), rfl⟩
  | routersDiffer l =>
    obtain ⟨c, producer, hmem, rfl, hne⟩ := h
    exact ⟨_, mem_of_queue hmem (mem_queueProblems.2 (.inr (.inr (.inl ⟨rfl, hne⟩)))), rfl⟩
  | invalidLease l cause =>
    obtain ⟨c, producer, hmem, rfl, he⟩ := h
    have hp : Problem.invalidLease c.config.location cause ∈ queueProblems c producer :=
      mem_queueProblems.2 (.inr (.inr (.inr (.inl ⟨_, rfl, he⟩))))
    exact ⟨_, mem_of_queue hmem hp, rfl⟩
  | invalidReenqueue l cause =>
    obtain ⟨c, producer, hmem, rfl, he⟩ := h
    have hp : Problem.invalidReenqueue c.config.location cause ∈ queueProblems c producer :=
      mem_queueProblems.2 (.inr (.inr (.inr (.inr ⟨_, rfl, he⟩))))
    exact ⟨_, mem_of_queue hmem hp, rfl⟩
  | duplicateQueue l =>
    refine ⟨.duplicateQueue l, mem_of_duplicate h fun xs r hr hk => ?_, rfl⟩
    cases r <;> simp [Registration.queue?] at hr
    subst hr
    exact List.mem_append_right _ (mem_placeProblems.2 (.inl ⟨rfl, hk⟩))
  | ambiguousName a b =>
    obtain ⟨ha, hb, hne, hname⟩ := h
    obtain ⟨first, second, hmem, hcovers⟩ := exists_ambiguous ha hb hne hname
    exact ⟨_, hmem, hcovers⟩
  | duplicateShard s =>
    refine ⟨.duplicateShard s, mem_of_duplicate h fun xs r hr hk => ?_, rfl⟩
    cases r <;> simp [Registration.shard?] at hr
    subst hr
    exact mem_taken.2 ⟨rfl, contains_shards.2 hk⟩
  | duplicateCompanion kind l =>
    refine ⟨.duplicateCompanion kind l, mem_of_duplicate h fun xs r hr hk => ?_, rfl⟩
    cases kind with
    | taskListener =>
      cases r <;> simp [Registration.companion?, Registration.taskListener?] at hr
      subst hr
      exact mem_taken.2 ⟨rfl, contains_taskListeners.2 hk⟩
    | loopListener =>
      cases r <;> simp [Registration.companion?, Registration.loopListener?] at hr
      subst hr
      exact mem_taken.2 ⟨rfl, contains_loopListeners.2 hk⟩
    | executor =>
      cases r <;> simp [Registration.companion?, Registration.executor?] at hr
      subst hr
      exact mem_taken.2 ⟨rfl, contains_executors.2 hk⟩
  | unknownShard s =>
    obtain ⟨hnot, hused⟩ := h
    have hp := mem_shardProblems.2 (.inl ⟨s, rfl, hnot, hused⟩)
    exact ⟨_, hend (mem_wiring_problems.2 (.inl hp)), rfl⟩
  | unusedShards ss =>
    obtain ⟨hne, hss⟩ := h
    have hsub : ss ⊆ unusedShards rs := fun s hs => mem_unusedShards.2 (hss s hs)
    have hall : unusedShards rs ≠ [] := by
      intro hnil
      rw [hnil] at hsub
      exact hne (List.subset_nil.1 hsub)
    have hp := mem_shardProblems.2 (.inr ⟨rfl, hall⟩)
    exact ⟨_, hend (mem_wiring_problems.2 (.inl hp)), hsub⟩
  | missingExecutor l =>
    obtain ⟨hnot, c, hc, hmode⟩ := h
    have hp := mem_executorProblems.2 ⟨l, c, hc, .inl ⟨rfl, hnot, hmode⟩⟩
    exact ⟨_, hend (mem_wiring_problems.2 (.inr (.inl hp))), rfl⟩
  | needlessExecutor l =>
    obtain ⟨hthere, c, hc, hmode⟩ := h
    have hp := mem_executorProblems.2 ⟨l, c, hc, .inr ⟨rfl, hthere, hmode⟩⟩
    exact ⟨_, hend (mem_wiring_problems.2 (.inr (.inl hp))), rfl⟩
  | strayCompanion kind l =>
    have hp : Problem.strayCompanion kind l ∈ (ofRegistrations rs).wiring.problems :=
      mem_wiring_problems.2 (.inr (.inr ⟨kind, l, h.1, h.2, rfl⟩))
    exact ⟨_, hend hp, rfl⟩

/-! ## Accepting and refusing -/

/-- Without a problem the registration ends with the wiring. -/
theorem finish_of_nil (h : allProblems rs = []) :
    (ofRegistrations rs).finish = .ok (ofRegistrations rs).wiring := by
  unfold allProblems at h
  rw [finish, h]

/-- With a problem the registration ends with the list of all of them. -/
theorem finish_of_ne_nil (h : allProblems rs ≠ []) :
    (ofRegistrations rs).finish = .error (allProblems rs) := by
  unfold allProblems at h ⊢
  rw [finish]
  split
  · next hnil => exact absurd hnil h
  · rfl

/-- The registration ends with a wiring just when there is no problem. -/
theorem finish_ok_iff {w : Wiring α} :
    (ofRegistrations rs).finish = .ok w ↔ allProblems rs = [] ∧ w = (ofRegistrations rs).wiring := by
  by_cases h : allProblems rs = []
  · rw [finish_of_nil h, Except.ok.injEq]
    exact ⟨fun hw => ⟨h, hw.symm⟩, fun hw => hw.2.symm⟩
  · rw [finish_of_ne_nil h]
    simp [h]

/-- Nothing is listed exactly if no problem holds. -/
theorem allProblems_eq_nil_iff : allProblems rs = [] ↔ ∀ p : Problem, ¬ p.Holds rs := by
  rw [List.eq_nil_iff_forall_not_mem]
  constructor
  · intro hnone p hp
    obtain ⟨q, hq, -⟩ := exists_covers hp
    exact hnone q hq
  · intro hnone p hp
    exact hnone p (holds_of_mem hp)

/-- What does not fail succeeds. -/
theorem exists_ok_of_forall_ne_error {ε β : Type} {x : Except ε β} (h : ∀ e, x ≠ .error e) :
    ∃ b, x = .ok b := by
  cases x with
  | ok b => exact ⟨b, rfl⟩
  | error e => exact absurd rfl (h e)

namespace Consistent

/-- The queues that a consistent wiring counts are those that were registered. -/
theorem queueAt_iff (h : Consistent rs) {l : Location} {c : Consumer α} :
    queueAt rs l = some c ↔ ∃ p, .queue c p ∈ rs ∧ c.config.location = l :=
  Registry.queueAt_iff h.locations_nodup

/-- Two queues at one location are the same queue. -/
theorem eq_of_location (h : Consistent rs) {c c' : Consumer α} {p p' : Producer α}
    (hc : .queue c p ∈ rs) (hc' : .queue c' p' ∈ rs)
    (hl : c.config.location = c'.config.location) : c = c' := by
  have hfirst := h.queueAt_iff.2 ⟨p, hc, hl⟩
  rw [h.queueAt_iff.2 ⟨p', hc', rfl⟩] at hfirst
  exact (Option.some.inj hfirst).symm

/-- Where registrations fit together nothing is wrong with them. -/
theorem not_holds (h : Consistent rs) (p : Problem) : ¬ p.Holds rs := by
  intro hp
  cases p with
  | configsDiffer l =>
    obtain ⟨c, producer, hmem, rfl, hne⟩ := hp
    exact hne (h.config_eq hmem)
  | codecsDiffer l =>
    obtain ⟨c, producer, hmem, rfl, hne⟩ := hp
    exact hne (h.codec_eq hmem)
  | routersDiffer l =>
    obtain ⟨c, producer, hmem, rfl, hne⟩ := hp
    exact hne (h.router_eq hmem)
  | invalidLease l cause =>
    obtain ⟨c, producer, hmem, rfl, he⟩ := hp
    obtain ⟨lease, hlease⟩ := h.lease hmem
    simp [hlease] at he
  | invalidReenqueue l cause =>
    obtain ⟨c, producer, hmem, rfl, he⟩ := hp
    obtain ⟨reenqueue, hreenqueue⟩ := h.reenqueue hmem
    simp [hreenqueue] at he
  | duplicateQueue l => exact List.nodup_iff_forall_not_duplicate.1 h.locations_nodup l hp
  | ambiguousName a b =>
    obtain ⟨ha, hb, hne, hname⟩ := hp
    exact hne (List.inj_on_of_nodup_map h.names_nodup ha hb hname)
  | duplicateShard s => exact List.nodup_iff_forall_not_duplicate.1 h.shards_nodup s hp
  | duplicateCompanion kind l =>
    exact List.nodup_iff_forall_not_duplicate.1 (h.companions_nodup kind) l hp
  | unknownShard s =>
    obtain ⟨hnot, l, c, hc, hs⟩ := hp
    obtain ⟨producer, hmem, -⟩ := h.queueAt_iff.1 hc
    exact hnot ((h.shards_used s).2 ⟨c, producer, hmem, hs⟩)
  | unusedShards ss =>
    obtain ⟨hne, hss⟩ := hp
    obtain ⟨s, hs⟩ := List.exists_mem_of_ne_nil ss hne
    obtain ⟨hthere, hunused⟩ := hss s hs
    obtain ⟨c, producer, hmem, hused⟩ := (h.shards_used s).1 hthere
    exact hunused _ c (h.queueAt_iff.2 ⟨producer, hmem, rfl⟩) hused
  | missingExecutor l =>
    obtain ⟨hnot, c, hc, hmode⟩ := hp
    obtain ⟨producer, hmem, hl⟩ := h.queueAt_iff.1 hc
    exact hnot ((h.executors_needed l).2 ⟨c, producer, hmem, hl, hmode⟩)
  | needlessExecutor l =>
    obtain ⟨hthere, c, hc, hmode⟩ := hp
    obtain ⟨producer, hmem, hl⟩ := h.queueAt_iff.1 hc
    obtain ⟨c', producer', hmem', hl', hmode'⟩ := (h.executors_needed l).1 hthere
    rw [h.eq_of_location hmem hmem' (hl.trans hl'.symm)] at hmode
    exact hmode hmode'
  | strayCompanion kind l => exact hp.2 (h.companions_placed kind l hp.1)

/-- Where nothing is wrong with registrations they fit together. -/
theorem of_not_holds (h : ∀ p : Problem, ¬ p.Holds rs) : Consistent rs := by
  have hnodup : (locations rs).Nodup :=
    List.nodup_iff_forall_not_duplicate.2 fun l hl => h (.duplicateQueue l) hl
  have hcounts : ∀ {c p}, .queue c p ∈ rs → queueAt rs c.config.location = some c :=
    fun hmem => (Registry.queueAt_iff hnodup).2 ⟨_, hmem, rfl⟩
  constructor
  case config_eq =>
    intro c p hmem
    by_contra hne
    exact h (.configsDiffer c.config.location) ⟨c, p, hmem, rfl, hne⟩
  case codec_eq =>
    intro c p hmem
    by_contra hne
    exact h (.codecsDiffer c.config.location) ⟨c, p, hmem, rfl, hne⟩
  case router_eq =>
    intro c p hmem
    by_contra hne
    exact h (.routersDiffer c.config.location) ⟨c, p, hmem, rfl, hne⟩
  case lease =>
    intro c p hmem
    exact exists_ok_of_forall_ne_error fun e he =>
      h (.invalidLease c.config.location e) ⟨c, p, hmem, rfl, he⟩
  case reenqueue =>
    intro c p hmem
    exact exists_ok_of_forall_ne_error fun e he =>
      h (.invalidReenqueue c.config.location e) ⟨c, p, hmem, rfl, he⟩
  case locations_nodup => exact hnodup
  case names_nodup =>
    refine List.Nodup.map_on ?_ hnodup
    intro a ha b hb hname
    by_contra hne
    exact h (.ambiguousName a b) ⟨ha, hb, hne, hname⟩
  case shards_nodup =>
    exact List.nodup_iff_forall_not_duplicate.2 fun s hs => h (.duplicateShard s) hs
  case companions_nodup =>
    intro kind
    exact List.nodup_iff_forall_not_duplicate.2 fun l hl => h (.duplicateCompanion kind l) hl
  case shards_used =>
    intro s
    constructor
    · intro hthere
      by_contra hnone
      refine h (.unusedShards [s]) ⟨by simp, fun s' hs' => ?_⟩
      obtain rfl := List.mem_singleton.1 hs'
      refine ⟨hthere, fun l c hc hused => hnone ?_⟩
      obtain ⟨p, hmem, -⟩ := mem_of_queueAt hc
      exact ⟨c, p, hmem, hused⟩
    · rintro ⟨c, p, hmem, hused⟩
      by_contra hnot
      exact h (.unknownShard s) ⟨hnot, _, c, hcounts hmem, hused⟩
  case executors_needed =>
    intro l
    constructor
    · intro hthere
      have hplaced : l ∈ locations rs := by
        by_contra hnot
        exact h (.strayCompanion .executor l) ⟨hthere, hnot⟩
      obtain ⟨c, p, hmem, rfl⟩ := mem_locations.1 hplaced
      refine ⟨c, p, hmem, rfl, ?_⟩
      by_contra hmode
      exact h (.needlessExecutor _) ⟨hthere, c, hcounts hmem, hmode⟩
    · rintro ⟨c, p, hmem, rfl, hmode⟩
      by_contra hnot
      exact h (.missingExecutor _) ⟨hnot, c, hcounts hmem, hmode⟩
  case companions_placed =>
    intro kind l hl
    by_contra hnot
    exact h (.strayCompanion kind l) ⟨hl, hnot⟩

end Consistent

/-- The registrations fit together just when no problem is reported. -/
theorem consistent_iff : Consistent rs ↔ allProblems rs = [] := by
  rw [allProblems_eq_nil_iff]
  exact ⟨Consistent.not_holds, Consistent.of_not_holds⟩

/-! ## What is accepted -/

/-- Where no key comes twice, the map has the entries of the list. -/
theorem get?_firsts_iff {κ ν : Type} [Ord κ] [Std.TransOrd κ] [Std.LawfulEqOrd κ] [DecidableEq κ]
    {f : Registration α → Option (κ × ν)} (h : ((rs.filterMap f).map Prod.fst).Nodup)
    {k : κ} {v : ν} :
    (OrderedMap.firsts (rs.filterMap f)).get? k = some v ↔ ∃ r ∈ rs, f r = some (k, v) := by
  rw [OrderedMap.get?_firsts, OrderedMap.lookup_eq_some_iff h, List.mem_filterMap]

/-- A consistent registry has all that was registered. -/
theorem Consistent.has (h : Consistent rs) : (ofRegistrations rs).wiring.Has rs := by
  have hkeys : ∀ kind, (companions kind rs).Nodup := h.companions_nodup
  constructor
  case queues =>
    intro l c
    rw [get?_queues, h.queueAt_iff]
  case shards =>
    intro s
    rw [contains_shards, mem_shards]
  case taskListeners =>
    intro l x
    have hnodup : ((rs.filterMap Registration.taskListener?).map Prod.fst).Nodup := by
      rw [map_fst_filterMap]
      exact hkeys .taskListener
    rw [wiring_ofRegistrations, get?_firsts_iff hnodup]
    constructor
    · rintro ⟨r, hr, hx⟩
      cases r <;> simp [Registration.taskListener?] at hx
      obtain ⟨rfl, rfl⟩ := hx
      exact hr
    · intro hmem
      exact ⟨_, hmem, rfl⟩
  case loopListeners =>
    intro l x
    have hnodup : ((rs.filterMap Registration.loopListener?).map Prod.fst).Nodup := by
      rw [map_fst_filterMap]
      exact hkeys .loopListener
    rw [wiring_ofRegistrations, get?_firsts_iff hnodup]
    constructor
    · rintro ⟨r, hr, hx⟩
      cases r <;> simp [Registration.loopListener?] at hx
      obtain ⟨rfl, rfl⟩ := hx
      exact hr
    · intro hmem
      exact ⟨_, hmem, rfl⟩
  case executors =>
    intro l x
    have hnodup : ((rs.filterMap Registration.executor?).map Prod.fst).Nodup := by
      rw [map_fst_filterMap]
      exact hkeys .executor
    rw [wiring_ofRegistrations, get?_firsts_iff hnodup]
    constructor
    · rintro ⟨r, hr, hx⟩
      cases r <;> simp [Registration.executor?] at hx
      obtain ⟨rfl, rfl⟩ := hx
      exact hr
    · intro hmem
      exact ⟨_, hmem, rfl⟩

end Registry

namespace Wiring.Has

variable {w w' : Wiring α} {rs rs' : List (Registration α)}

/-- The registrations determine the wiring. -/
theorem eq (h : w.Has rs) (h' : w'.Has rs) : w = w' := by
  have hqueues : w.queues = w'.queues :=
    OrderedMap.ext_get? fun l => Option.ext fun c => (h.queues l c).trans (h'.queues l c).symm
  have hshards : w.shards = w'.shards := by
    refine OrderedMap.ext_get? fun s => ?_
    have hsame : (w.shards.get? s).isSome = (w'.shards.get? s).isSome :=
      Bool.eq_iff_iff.2 ((h.shards s).trans (h'.shards s).symm)
    cases hs : w.shards.get? s <;> cases hs' : w'.shards.get? s <;> simp_all
  have htasks : w.taskListeners = w'.taskListeners :=
    OrderedMap.ext_get? fun l => Option.ext fun x =>
      (h.taskListeners l x).trans (h'.taskListeners l x).symm
  have hloops : w.loopListeners = w'.loopListeners :=
    OrderedMap.ext_get? fun l => Option.ext fun x =>
      (h.loopListeners l x).trans (h'.loopListeners l x).symm
  have hexecutors : w.executors = w'.executors :=
    OrderedMap.ext_get? fun l => Option.ext fun x =>
      (h.executors l x).trans (h'.executors l x).symm
  obtain ⟨queues, shards, taskListeners, loopListeners, executors⟩ := w
  subst hqueues hshards htasks hloops hexecutors
  rfl

/-- The order of the registrations does not matter to the wiring. -/
theorem of_perm (h : w.Has rs) (hperm : rs'.Perm rs) : w.Has rs' where
  queues l c := by simp only [h.queues, hperm.mem_iff]
  shards s := by simp only [h.shards, hperm.mem_iff]
  taskListeners l x := by simp only [h.taskListeners, hperm.mem_iff]
  loopListeners l x := by simp only [h.loopListeners, hperm.mem_iff]
  executors l x := by simp only [h.executors, hperm.mem_iff]

end Wiring.Has

namespace Registry

variable {rs rs' : List (Registration α)}

/-- Fitting together is no matter of order. -/
theorem Consistent.of_perm (h : Consistent rs) (hperm : rs'.Perm rs) : Consistent rs' := by
  have hlocations : (locations rs').Perm (locations rs) := hperm.filterMap _
  have hshards : (shards rs').Perm (shards rs) := hperm.filterMap _
  have hcompanions : ∀ kind, (companions kind rs').Perm (companions kind rs) :=
    fun kind => hperm.filterMap _
  constructor
  case config_eq => exact fun hmem => h.config_eq (hperm.mem_iff.1 hmem)
  case codec_eq => exact fun hmem => h.codec_eq (hperm.mem_iff.1 hmem)
  case router_eq => exact fun hmem => h.router_eq (hperm.mem_iff.1 hmem)
  case lease => exact fun hmem => h.lease (hperm.mem_iff.1 hmem)
  case reenqueue => exact fun hmem => h.reenqueue (hperm.mem_iff.1 hmem)
  case locations_nodup => exact hlocations.nodup_iff.2 h.locations_nodup
  case names_nodup => exact (hlocations.map _).nodup_iff.2 h.names_nodup
  case shards_nodup => exact hshards.nodup_iff.2 h.shards_nodup
  case companions_nodup => exact fun kind => (hcompanions kind).nodup_iff.2 (h.companions_nodup kind)
  case shards_used =>
    intro s
    simp only [hshards.mem_iff, h.shards_used, hperm.mem_iff]
  case executors_needed =>
    intro l
    simp only [(hcompanions .executor).mem_iff, h.executors_needed, hperm.mem_iff]
  case companions_placed =>
    intro kind l hl
    exact hlocations.mem_iff.2 (h.companions_placed kind l ((hcompanions kind).mem_iff.1 hl))

/-- The registrations fit together just when a wiring comes of them. -/
theorem consistent_iff_exists_finish :
    Consistent rs ↔ ∃ w, (ofRegistrations rs).finish = .ok w := by
  rw [consistent_iff]
  constructor
  · intro h
    exact ⟨_, finish_of_nil h⟩
  · rintro ⟨w, hw⟩
    exact (finish_ok_iff.1 hw).1

/-- The wiring has what was registered. -/
theorem has_of_finish {w : Wiring α} (h : (ofRegistrations rs).finish = .ok w) : w.Has rs := by
  obtain ⟨hnil, rfl⟩ := finish_ok_iff.1 h
  exact (consistent_iff.2 hnil).has

/-- What is accepted in one order is accepted in every other one, and is the same. -/
theorem finish_of_perm {w : Wiring α} (hperm : rs'.Perm rs)
    (h : (ofRegistrations rs).finish = .ok w) : (ofRegistrations rs').finish = .ok w := by
  have hconsistent : Consistent rs' :=
    (consistent_iff_exists_finish.2 ⟨w, h⟩).of_perm hperm
  obtain ⟨w', hw'⟩ := consistent_iff_exists_finish.1 hconsistent
  have heq : w' = w := (has_of_finish hw').eq ((has_of_finish h).of_perm hperm)
  rw [hw', heq]

/-- What the registry makes of registrations. -/
structure Judged (rs : List (Registration α)) : Prop where
  accepted_iff : (∃ w, (ofRegistrations rs).finish = .ok w) ↔ Consistent rs
  contents : ∀ w, (ofRegistrations rs).finish = .ok w → w.Has rs
  anyOrder : ∀ rs', rs'.Perm rs → ∀ w,
    (ofRegistrations rs').finish = .ok w ↔ (ofRegistrations rs).finish = .ok w
  refused : ∀ problems, (ofRegistrations rs).finish = .error problems →
    (∀ p ∈ problems, p.Holds rs) ∧ ∀ p : Problem, p.Holds rs → ∃ q ∈ problems, q.Covers p

/-- The registry accepts exactly what fits together, in any order, and lists all that does not. -/
theorem registrations_judged (rs : List (Registration α)) : Judged rs where
  accepted_iff := consistent_iff_exists_finish.symm
  contents _ hw := has_of_finish hw
  anyOrder _ hperm _ := ⟨finish_of_perm hperm.symm, finish_of_perm hperm⟩
  refused problems hrefused := by
    have hne : allProblems rs ≠ [] := by
      intro hnil
      simp [finish_of_nil hnil] at hrefused
    rw [finish_of_ne_nil hne, Except.error.injEq] at hrefused
    subst hrefused
    exact ⟨fun p hp => holds_of_mem hp, fun p hp => exists_covers hp⟩

end Registry

end LeaseQueue
