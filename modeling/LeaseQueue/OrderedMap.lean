/-!
# Maps in key order

A map is the list of its entries in increasing order of their keys.  Two maps with the same values
are therefore equal, whatever the order in which their entries came, and listing a map needs no
sorting.

`get?_insert`, `get?_erase`, `get?_modify`, `get?_mapValues` and `ext_get?` say what the operations
do to the value at each key, `mem_entries` what the entries have to do with it.
-/

set_option autoImplicit false

namespace LeaseQueue

variable {κ ν : Type} [Ord κ]

/-- A map whose entries stand in increasing order of their keys. -/
structure OrderedMap (κ ν : Type) [Ord κ] where
  entries : List (κ × ν)
  increasing : entries.Pairwise fun a b => compare a.1 b.1 = .lt

namespace OrderedMap

instance [DecidableEq κ] [DecidableEq ν] : DecidableEq (OrderedMap κ ν) := fun a b =>
  if h : a.entries = b.entries then
    .isTrue (by cases a; cases b; cases h; rfl)
  else
    .isFalse fun e => h (congrArg entries e)

/-- The map without entries. -/
def empty : OrderedMap κ ν := ⟨[], .nil⟩

instance : EmptyCollection (OrderedMap κ ν) := ⟨empty⟩

instance : Inhabited (OrderedMap κ ν) := ⟨empty⟩

/-- The value of the first entry with a key. -/
def lookup (k : κ) : List (κ × ν) → Option ν
  | [] => none
  | (k', v) :: rest => if compare k k' = .eq then some v else lookup k rest

/-- The entries with one more in its place, instead of the one with that key. -/
def insertEntry (k : κ) (v : ν) : List (κ × ν) → List (κ × ν)
  | [] => [(k, v)]
  | (k', v') :: rest =>
    match compare k k' with
    | .lt => (k, v) :: (k', v') :: rest
    | .eq => (k, v) :: rest
    | .gt => (k', v') :: insertEntry k v rest

/-- The value at a key. -/
def get? (m : OrderedMap κ ν) (k : κ) : Option ν := lookup k m.entries

/-- Whether a key has a value. -/
def contains (m : OrderedMap κ ν) (k : κ) : Bool := (m.get? k).isSome

/-- The keys in increasing order. -/
def keys (m : OrderedMap κ ν) : List κ := m.entries.map Prod.fst

/-- The values in the order of their keys. -/
def values (m : OrderedMap κ ν) : List ν := m.entries.map Prod.snd

/-- The number of entries. -/
def size (m : OrderedMap κ ν) : Nat := m.entries.length

/-- The map without the entry at a key. -/
def erase (m : OrderedMap κ ν) (k : κ) : OrderedMap κ ν :=
  ⟨m.entries.filter fun e => compare k e.1 != .eq, m.increasing.filter _⟩

/-- The map with another value for every entry. -/
def mapValues {ν' : Type} (m : OrderedMap κ ν) (f : ν → ν') : OrderedMap κ ν' :=
  ⟨m.entries.map fun e => (e.1, f e.2), by
    rw [List.pairwise_map]
    exact m.increasing⟩

/-- The empty map has no values. -/
@[simp]
theorem get?_empty (a : κ) : (empty : OrderedMap κ ν).get? a = none := rfl

/-- What is found after the values have been mapped is what was found, mapped. -/
theorem lookup_mapValues {ν' : Type} (f : ν → ν') (l : List (κ × ν)) (a : κ) :
    lookup a (l.map fun e => (e.1, f e.2)) = (lookup a l).map f := by
  induction l with
  | nil => rfl
  | cons e rest ih =>
    simp only [List.map_cons, lookup, ih]
    split <;> rfl

/-- A map of mapped values has the mapped value at each key. -/
@[simp]
theorem get?_mapValues {ν' : Type} (m : OrderedMap κ ν) (f : ν → ν') (a : κ) :
    (m.mapValues f).get? a = (m.get? a).map f :=
  lookup_mapValues f m.entries a

/-- Nothing is found at a key below all others. -/
theorem lookup_eq_none_of_lt {l : List (κ × ν)} {a : κ}
    (h : ∀ e ∈ l, compare a e.1 = .lt) : lookup a l = none := by
  induction l with
  | nil => rfl
  | cons e rest ih =>
    have h₁ := h e List.mem_cons_self
    have h₂ := ih fun e he => h e (List.mem_cons_of_mem _ he)
    simp [lookup, h₁, h₂]

/-- An entry that is there after an insertion was there before or is the new one. -/
theorem mem_insertEntry {k : κ} {v : ν} {l : List (κ × ν)} {e : κ × ν}
    (h : e ∈ insertEntry k v l) : e = (k, v) ∨ e ∈ l := by
  induction l with
  | nil => simp_all [insertEntry]
  | cons e' rest ih =>
    obtain ⟨k', v'⟩ := e'
    simp only [insertEntry] at h
    cases hc : compare k k' <;> simp only [hc] at h
    · simpa using h
    · rcases List.mem_cons.1 h with h | h
      · exact .inl h
      · exact .inr (List.mem_cons_of_mem _ h)
    · rcases List.mem_cons.1 h with h | h
      · exact .inr (h ▸ List.mem_cons_self)
      · rcases ih h with h | h
        · exact .inl h
        · exact .inr (List.mem_cons_of_mem _ h)

variable [Std.TransOrd κ] [Std.LawfulEqOrd κ]

/-- An insertion keeps the entries in the order of their keys. -/
theorem insertEntry_increasing (k : κ) (v : ν) {l : List (κ × ν)}
    (h : l.Pairwise fun a b => compare a.1 b.1 = .lt) :
    (insertEntry k v l).Pairwise fun a b => compare a.1 b.1 = .lt := by
  induction l with
  | nil => simp [insertEntry]
  | cons e rest ih =>
    obtain ⟨k', v'⟩ := e
    obtain ⟨hfirst, hrest⟩ := List.pairwise_cons.1 h
    simp only [insertEntry]
    cases hc : compare k k'
    · refine List.pairwise_cons.2 ⟨fun e he => ?_, h⟩
      rcases List.mem_cons.1 he with rfl | he
      · exact hc
      · exact Std.TransCmp.lt_trans hc (hfirst e he)
    · obtain rfl := Std.LawfulEqCmp.eq_of_compare hc
      exact List.pairwise_cons.2 ⟨hfirst, hrest⟩
    · refine List.pairwise_cons.2 ⟨fun e he => ?_, ih hrest⟩
      rcases mem_insertEntry he with rfl | he
      · exact Std.OrientedCmp.gt_iff_lt.1 hc
      · exact hfirst e he

/-- The map with a value at a key, instead of the one that was there. -/
def insert (m : OrderedMap κ ν) (k : κ) (v : ν) : OrderedMap κ ν :=
  ⟨insertEntry k v m.entries, insertEntry_increasing k v m.increasing⟩

/-- The map with a value at a key, unless there is one already. -/
def insertNew (m : OrderedMap κ ν) (k : κ) (v : ν) : OrderedMap κ ν :=
  if m.contains k then m else m.insert k v

/-- The map with the value at a key changed, if there is one. -/
def modify (m : OrderedMap κ ν) (k : κ) (f : ν → ν) : OrderedMap κ ν :=
  match m.get? k with
  | some v => m.insert k (f v)
  | none => m

/-- The map of a list of entries; of two entries with one key the later one counts. -/
def ofList (l : List (κ × ν)) : OrderedMap κ ν :=
  l.foldl (fun m e => m.insert e.1 e.2) empty

/-- After an insertion its value is found at its key, and elsewhere what was found before. -/
theorem lookup_insertEntry (k : κ) (v : ν) (l : List (κ × ν)) (a : κ) :
    lookup a (insertEntry k v l) = if compare a k = .eq then some v else lookup a l := by
  induction l with
  | nil => simp [insertEntry, lookup]
  | cons e rest ih =>
    obtain ⟨k', v'⟩ := e
    simp only [insertEntry]
    cases hc : compare k k'
    · simp [lookup]
    · obtain rfl := Std.LawfulEqCmp.eq_of_compare hc
      simp only [lookup]
      split <;> rfl
    · simp only [lookup, ih]
      by_cases h : compare a k' = .eq
      · obtain rfl := Std.LawfulEqCmp.eq_of_compare h
        have : compare a k = .lt := Std.OrientedCmp.gt_iff_lt.1 hc
        simp [this]
      · simp [h]

/-- After an insertion its value stands at its key, and elsewhere what stood there before. -/
theorem get?_insert [DecidableEq κ] (m : OrderedMap κ ν) (k a : κ) (v : ν) :
    (m.insert k v).get? a = if a = k then some v else m.get? a := by
  simp [get?, insert, lookup_insertEntry, Std.LawfulEqCmp.compare_eq_iff_eq]

omit [Std.TransOrd κ] in
/-- After a removal nothing stands at its key, and elsewhere what stood there before. -/
theorem get?_erase [DecidableEq κ] (m : OrderedMap κ ν) (k a : κ) :
    (m.erase k).get? a = if a = k then none else m.get? a := by
  obtain ⟨l, hl⟩ := m
  simp only [get?, erase]
  induction l with
  | nil => simp [lookup]
  | cons e rest ih =>
    obtain ⟨k', v'⟩ := e
    have ih := ih (List.pairwise_cons.1 hl).2
    by_cases hk : k = k'
    · subst hk
      simp only [List.filter, Std.ReflCmp.compare_self, bne_self_eq_false, lookup, ih,
        Std.LawfulEqCmp.compare_eq_iff_eq]
      split <;> rfl
    · have hne : (compare k k' != .eq) = true := by
        simpa [Std.LawfulEqCmp.compare_eq_iff_eq] using hk
      simp only [List.filter, hne, lookup, ih, Std.LawfulEqCmp.compare_eq_iff_eq]
      by_cases ha : a = k'
      · subst ha
        have : a ≠ k := fun h => hk h.symm
        simp [this]
      · simp [ha]

/-- A change of one value leaves the others as they were. -/
theorem get?_modify [DecidableEq κ] (m : OrderedMap κ ν) (k a : κ) (f : ν → ν) :
    (m.modify k f).get? a = if a = k then (m.get? a).map f else m.get? a := by
  unfold modify
  split
  · next v h =>
    rw [get?_insert]
    split
    · next ha => rw [ha, h]; rfl
    · rfl
  · next h =>
    split
    · next ha => rw [ha, h]; rfl
    · rfl

omit [Std.TransOrd κ] in
/-- The entries are the keys with their values. -/
theorem mem_entries {m : OrderedMap κ ν} {k : κ} {v : ν} :
    (k, v) ∈ m.entries ↔ m.get? k = some v := by
  obtain ⟨l, hl⟩ := m
  simp only [get?]
  induction l with
  | nil => simp [lookup]
  | cons e rest ih =>
    obtain ⟨k', v'⟩ := e
    obtain ⟨hfirst, hrest⟩ := List.pairwise_cons.1 hl
    simp only [List.mem_cons, Prod.mk.injEq, lookup, Std.LawfulEqCmp.compare_eq_iff_eq]
    by_cases hk : k = k'
    · subst hk
      have hnot : (k, v) ∉ rest := by
        intro hmem
        have hlt : compare k k = .lt := hfirst _ hmem
        have heq : compare k k = .eq := Std.ReflCmp.compare_self
        cases heq.symm.trans hlt
      simp [hnot, eq_comm]
    · simp [hk, ih hrest]

omit [Std.TransOrd κ] in
/-- The values of a map are those that stand at some key. -/
theorem mem_values {m : OrderedMap κ ν} {v : ν} : v ∈ m.values ↔ ∃ k, m.get? k = some v := by
  simp only [values, List.mem_map, Prod.exists, mem_entries, exists_eq_right]

omit [Std.TransOrd κ] in
/-- The keys of a map are those at which a value stands. -/
theorem mem_keys {m : OrderedMap κ ν} {k : κ} : k ∈ m.keys ↔ m.contains k = true := by
  simp only [keys, List.mem_map, Prod.exists, mem_entries, contains, Option.isSome_iff_exists,
    exists_and_right, exists_eq_right]

omit [Std.TransOrd κ] in
/-- No key stands twice in a map. -/
theorem nodup_keys (m : OrderedMap κ ν) : m.keys.Nodup := by
  refine List.pairwise_map.2 (m.increasing.imp ?_)
  intro a b hlt heq
  have hself : compare b.1 b.1 = .eq := Std.ReflCmp.compare_self
  rw [heq, hself] at hlt
  cases hlt

/-- Entries in the order of their keys are determined by what is found among them. -/
theorem entries_ext {l l' : List (κ × ν)}
    (hl : l.Pairwise fun a b => compare a.1 b.1 = .lt)
    (hl' : l'.Pairwise fun a b => compare a.1 b.1 = .lt)
    (h : ∀ a, lookup a l = lookup a l') : l = l' := by
  induction l generalizing l' with
  | nil =>
    cases l' with
    | nil => rfl
    | cons e rest =>
      have := h e.1
      simp [lookup] at this
  | cons e rest ih =>
    obtain ⟨k, v⟩ := e
    cases l' with
    | nil =>
      have := h k
      simp [lookup] at this
    | cons e' rest' =>
      obtain ⟨k', v'⟩ := e'
      obtain ⟨h₁, h₂⟩ := List.pairwise_cons.1 hl
      obtain ⟨h₁', h₂'⟩ := List.pairwise_cons.1 hl'
      have hk : k = k' := by
        cases hc : compare k k' with
        | eq => exact Std.LawfulEqCmp.eq_of_compare hc
        | lt =>
          have := h k
          rw [lookup_eq_none_of_lt (l := (k', v') :: rest')] at this
          · simp [lookup] at this
          · intro e he
            rcases List.mem_cons.1 he with rfl | he
            · exact hc
            · exact Std.TransCmp.lt_trans hc (h₁' e he)
        | gt =>
          have hc := Std.OrientedCmp.gt_iff_lt.1 hc
          have := h k'
          rw [lookup_eq_none_of_lt (l := (k, v) :: rest)] at this
          · simp [lookup] at this
          · intro e he
            rcases List.mem_cons.1 he with rfl | he
            · exact hc
            · exact Std.TransCmp.lt_trans hc (h₁ e he)
      subst hk
      have hv : v = v' := by
        have := h k
        simpa [lookup] using this
      subst hv
      congr 1
      refine ih h₂ h₂' fun a => ?_
      have ha := h a
      simp only [lookup] at ha
      by_cases hc : compare a k = .eq
      · obtain rfl := Std.LawfulEqCmp.eq_of_compare hc
        rw [lookup_eq_none_of_lt fun e he => h₁ e he, lookup_eq_none_of_lt fun e he => h₁' e he]
      · simpa [hc] using ha

/-- Two maps with the same value at every key are equal. -/
theorem ext_get? {m m' : OrderedMap κ ν} (h : ∀ a, m.get? a = m'.get? a) : m = m' := by
  have := entries_ext m.increasing m'.increasing h
  cases m; cases m'; cases this; rfl

end OrderedMap

end LeaseQueue
