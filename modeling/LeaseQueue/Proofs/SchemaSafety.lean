import LeaseQueue.Location.Schema
import LeaseQueue.Settings.Form
import LeaseQueue.Proofs.TextForms

/-!
# Table names and what they do to SQL text

A location exists exactly for a table of one or two plain names and a queue that is not blank
(`make_eq_ok_iff`), and reading one from JSON lets no others through (`ofJson?_eq_some_iff`).

The statements that create the table are a fixed text around the names of the table and its index,
so every character of them is one of the fixed text's or one of a plain name's (`mem_schema`).  The
only semicolons are the two that end the statements, and nothing opens a quotation or a comment
(`harmless`).
-/

set_option autoImplicit false

namespace LeaseQueue.Location

open Text Json

/-! ## Plain names -/

/-- A letter from A to Z in either case. -/
def IsLetter (c : Char) : Prop := ('A' ≤ c ∧ c ≤ 'Z') ∨ ('a' ≤ c ∧ c ≤ 'z')

/-- A character that may stand anywhere in a name but at its start. -/
def IsNameChar (c : Char) : Prop := IsLetter c ∨ ('0' ≤ c ∧ c ≤ '9') ∨ c = '_'

/-- A letter or the underscore, then letters, digits and underscores. -/
def IsName (cs : List Char) : Prop :=
  ∃ first rest, cs = first :: rest ∧ (IsLetter first ∨ first = '_') ∧ ∀ c ∈ rest, IsNameChar c

/-- A name, or two of them with a point between. -/
def IsTable (cs : List Char) : Prop :=
  IsName cs ∨ ∃ schema table, cs = schema ++ '.' :: table ∧ IsName schema ∧ IsName table

/-- A table and a queue that make a location. -/
structure Sound (table queue : String) : Prop where
  isTable : IsTable table.toList
  notBlank : ∃ c ∈ queue.toList, isBlank c = false

instance : DecidablePred IsLetter := fun _ => inferInstanceAs (Decidable (_ ∨ _))

instance : DecidablePred IsNameChar := fun _ => inferInstanceAs (Decidable (_ ∨ _))

variable {cs : List Char} {c : Char} {table queue : String}

/-- The letters are those of the alphabet, small or large. -/
theorem isAlpha_iff_isLetter : c.isAlpha = true ↔ IsLetter c := isAlpha_iff

/-- A name starts with a letter or an underscore. -/
theorem isIdentifierStart_iff : isIdentifierStart c = true ↔ IsLetter c ∨ c = '_' := by
  rw [isIdentifierStart, Bool.or_eq_true, isAlpha_iff_isLetter, beq_iff_eq]

/-- A name goes on with letters, digits and underscores. -/
theorem isIdentifierRest_iff : isIdentifierRest c = true ↔ IsNameChar c := by
  have hdigit : c.isDigit = true ↔ '0' ≤ c ∧ c ≤ '9' := Char.isDigit_iff_toNat
  rw [isIdentifierRest, Char.isAlphanum, Bool.or_eq_true, Bool.or_eq_true,
    isAlpha_iff_isLetter, hdigit, beq_iff_eq, or_assoc, IsNameChar]

/-- What the check accepts is a name. -/
theorem isIdentifier_iff : isIdentifier cs = true ↔ IsName cs := by
  cases cs with
  | nil => simp [isIdentifier, IsName]
  | cons first rest =>
    simp only [isIdentifier, Bool.and_eq_true, isIdentifierStart_iff, List.all_eq_true,
      isIdentifierRest_iff, IsName, List.cons.injEq]
    constructor
    · exact fun h => ⟨first, rest, ⟨rfl, rfl⟩, h⟩
    · rintro ⟨_, _, ⟨rfl, rfl⟩, h⟩
      exact h

/-- A name has only the characters of a name. -/
theorem IsName.isNameChar (h : IsName cs) : ∀ c ∈ cs, IsNameChar c := by
  obtain ⟨first, rest, rfl, hfirst, hrest⟩ := h
  rw [List.forall_mem_cons]
  refine ⟨?_, hrest⟩
  rcases hfirst with hletter | rfl
  · exact .inl hletter
  · decide

/-- A name has no point in it. -/
theorem IsName.no_point (h : IsName cs) : '.' ∉ cs := fun hmem =>
  absurd (h.isNameChar _ hmem) (by decide)

/-- Cutting a text without a point leaves it whole; else it is cut at the first one, and on behind
it. -/
theorem splitOn_point (cs : List Char) : cs.splitOn '.' = [cs] ∨
    ∃ before after, cs = before ++ '.' :: after ∧ cs.splitOn '.' = before :: after.splitOn '.' := by
  by_cases hpoint : '.' ∈ cs
  · obtain ⟨before, after, rfl, hbefore⟩ := List.eq_append_cons_of_mem hpoint
    exact .inr ⟨before, after, rfl, List.splitOn_append_cons_self_of_not_mem hbefore after⟩
  · exact .inl (List.splitOn_eq_singleton hpoint)

/-- The test cuts the text at all points; it accepts the text if the parts are names and not more
than two. -/
theorem isTableName_iff : isTableName cs = true ↔ IsTable cs := by
  have hcut : isTableName cs = true ↔
      (∀ part ∈ cs.splitOn '.', IsName part) ∧ (cs.splitOn '.').length ≤ 2 := by
    simp [isTableName, isIdentifier_iff]
  rw [hcut]
  constructor
  · rintro ⟨hnames, hlength⟩
    rcases splitOn_point cs with hwhole | ⟨schema, rest, rfl, hschema⟩
    · left
      simpa [hwhole] using hnames
    · rw [hschema] at hnames hlength
      rcases splitOn_point rest with htable | ⟨table, more, rfl, hmore⟩
      · rw [htable] at hnames
        exact .inr ⟨schema, rest, rfl, hnames _ (by simp), hnames _ (by simp)⟩
      · -- A third part is there, whatever is behind the second point.
        have hpart := List.length_pos_iff.2 (List.splitOn_ne_nil '.' more)
        simp only [hmore, List.length_cons] at hlength
        omega
  · rintro (hname | ⟨schema, table, rfl, hschema, htable⟩)
    · rw [List.splitOn_eq_singleton hname.no_point]
      simpa using hname
    · rw [List.splitOn_append_cons_self_of_not_mem hschema.no_point,
        List.splitOn_eq_singleton htable.no_point]
      simp [hschema, htable]

/-- A text is not blank when some character of it is not. -/
theorem isBlankText_eq_false_iff :
    isBlankText queue = false ↔ ∃ c ∈ queue.toList, isBlank c = false := by
  rw [isBlankText, List.isEmpty_eq_false_iff, ne_eq, trimmed_eq_nil_iff]
  simp

/-! ## Locations -/

/-- Two names make a location exactly if they are sound, and it has these names. -/
theorem make_eq_ok_iff {l : Location} :
    make table queue = .ok l ↔ Sound table queue ∧ l.table = table ∧ l.queue = queue := by
  unfold make
  constructor
  · intro h
    split at h
    · next htable =>
      split at h
      · next hqueue =>
        cases h
        exact ⟨⟨isTableName_iff.1 htable, isBlankText_eq_false_iff.1 hqueue⟩, rfl, rfl⟩
      · cases h
    · cases h
  · rintro ⟨-, rfl, rfl⟩
    rw [dif_pos l.table_ok, dif_pos l.queue_ok]

/-- Every location has a sound table and queue name. -/
theorem sound (l : Location) : Sound l.table l.queue :=
  ⟨isTableName_iff.1 l.table_ok, isBlankText_eq_false_iff.1 l.queue_ok⟩

/-- A location is made of just the sound names. -/
theorem exists_make_iff : (∃ l, make table queue = .ok l) ↔ Sound table queue := by
  constructor
  · rintro ⟨l, h⟩
    exact (make_eq_ok_iff.1 h).1
  · intro h
    exact ⟨⟨table, queue, isTableName_iff.2 h.isTable, isBlankText_eq_false_iff.2 h.notBlank⟩,
      make_eq_ok_iff.2 ⟨h, rfl, rfl⟩⟩

/-- A location is read from JSON exactly if the two names that stand there are sound. -/
theorem ofJson?_eq_some_iff {v : Json} {l : Location} : ofJson? v = some l ↔
    ∃ table queue, names? v = some (table, queue) ∧ Sound table queue ∧
      l.table = table ∧ l.queue = queue := by
  simp only [ofJson?, Option.bind_eq_bind, Option.bind_eq_some_iff, Prod.exists,
    toOption_eq_some_iff, make_eq_ok_iff]

/-- The two fields of a record are read as its names. -/
theorem names?_record (table queue : String) :
    names? (.record [("table_name", .ofString table), ("queue_name", .ofString queue)]) =
      some (table, queue) := rfl

/-! ## Statements -/

/-- The text of the statements without the names in them. -/
def frame : String := opening ++ columns ++ onTable ++ indexed

/-- The names of the table and of the index come to the text of the statements. -/
theorem count_schema (l : Location) (c : Char) : l.schema.toList.count c =
    frame.toList.count c + 2 * l.table.toList.count c + l.indexName.toList.count c := by
  simp only [schema, frame, String.toList_append, List.count_append]
  omega

/-- The characters of a schema are those of its frame, of the table and of the index. -/
theorem mem_schema {l : Location} :
    c ∈ l.schema.toList ↔ c ∈ frame.toList ∨ c ∈ l.table.toList ∨ c ∈ l.indexName.toList := by
  simp only [← List.count_pos_iff, count_schema]
  omega

/-- A character of the statements: one of a name, or a mark that only separates. -/
def IsPlain (c : Char) : Prop := IsNameChar c ∨ c ∈ ['.', ',', ';', '(', ')', ' ', '\n']

instance : DecidablePred IsPlain := fun _ => inferInstanceAs (Decidable (_ ∨ _))

/-- What a check says of all characters holds of each. -/
theorem forall_mem_of_all {p : Char → Prop} [DecidablePred p]
    (h : cs.all (fun c => decide (p c)) = true) : ∀ c ∈ cs, p c := by
  simpa using h

/-- The text has no marks but those that separate, and two statements end in it. -/
theorem frame_plain : (∀ c ∈ frame.toList, IsPlain c) ∧ frame.toList.count ';' = 2 := by
  have hframe : frame.toList.all (fun c => decide (IsPlain c)) = true ∧
      frame.toList.count ';' = 2 := by
    unfold frame opening columns onTable indexed
    simp only [String.toList_append, List.all_append, List.count_append]
    decide +kernel
  exact ⟨forall_mem_of_all hframe.1, hframe.2⟩

/-- A table has letters, digits, underscores and at most one point. -/
theorem IsTable.plain (h : IsTable cs) :
    (∀ c ∈ cs, IsNameChar c ∨ c = '.') ∧ cs.count '.' ≤ 1 := by
  rcases h with hname | ⟨schema, table, rfl, hschema, htable⟩
  · refine ⟨fun c hc => .inl (hname.isNameChar c hc), ?_⟩
    simp [List.count_eq_zero_of_not_mem hname.no_point]
  · constructor
    · simp only [List.forall_mem_append, List.forall_mem_cons, or_true, true_and]
      exact ⟨fun c hc => .inl (hschema.isNameChar c hc), fun c hc => .inl (htable.isNameChar c hc)⟩
    · simp [List.count_append, List.count_eq_zero_of_not_mem hschema.no_point,
        List.count_eq_zero_of_not_mem htable.no_point]

/-- An index name has only the characters of a name. -/
theorem isNameChar_of_mem_indexName (l : Location) : ∀ c ∈ l.indexName.toList, IsNameChar c := by
  have hend : ∀ c ∈ "_pick_idx".toList, IsNameChar c := forall_mem_of_all rfl
  simp only [indexName, String.toList_append, String.toList_ofList, List.forall_mem_append,
    List.forall_mem_map]
  refine ⟨fun c hc => ?_, hend⟩
  split
  · decide
  · next hpoint => exact (l.sound.isTable.plain.1 c hc).resolve_right hpoint

/-- A schema has only plain characters. -/
theorem isPlain_of_mem_schema (l : Location) : ∀ c ∈ l.schema.toList, IsPlain c := by
  intro c hc
  rcases mem_schema.1 hc with hframe | htable | hindex
  · exact frame_plain.1 c hframe
  · rcases l.sound.isTable.plain.1 c htable with hname | rfl
    · exact .inl hname
    · decide
  · exact .inl (isNameChar_of_mem_indexName l c hindex)

/-- The names bring no semicolon of their own. -/
theorem count_semicolon (l : Location) : l.schema.toList.count ';' = 2 := by
  have htable : ';' ∉ l.table.toList := fun h =>
    absurd (l.sound.isTable.plain.1 _ h) (by decide)
  have hindex : ';' ∉ l.indexName.toList := fun h =>
    absurd (isNameChar_of_mem_indexName l _ h) (by decide)
  rw [count_schema, frame_plain.2, List.count_eq_zero_of_not_mem htable,
    List.count_eq_zero_of_not_mem hindex]

/-- Statements that do what they say whatever the names: there are two of them, nothing in them
opens a quotation or a comment, and the names are plain. -/
structure Harmless (l : Location) : Prop where
  semicolons : l.schema.toList.count ';' = 2
  /-- No single and no double quote, and no backquote. -/
  unquoted : ∀ c ∈ ['\'', '"', Char.ofNat 96], c ∉ l.schema.toList
  uncommented : ¬ ['-', '-'] <:+: l.schema.toList ∧ ¬ ['/', '*'] <:+: l.schema.toList
  table : ∀ c ∈ l.table.toList, IsNameChar c ∨ c = '.'
  points : l.table.toList.count '.' ≤ 1
  index : ∀ c ∈ l.indexName.toList, IsNameChar c

/-- Every location is harmless. -/
theorem harmless (l : Location) : Harmless l := by
  have hfree : ∀ c, ¬ IsPlain c → c ∉ l.schema.toList := fun c hc hmem =>
    hc (isPlain_of_mem_schema l c hmem)
  refine ⟨count_semicolon l, fun c hc => hfree c ?_, ⟨fun h => ?_, fun h => ?_⟩,
    l.sound.isTable.plain.1, l.sound.isTable.plain.2, isNameChar_of_mem_indexName l⟩
  · simp only [List.mem_cons, List.not_mem_nil, or_false] at hc
    rcases hc with rfl | rfl | rfl <;> decide
  · exact hfree '-' (by decide) (h.subset (by simp))
  · exact hfree '/' (by decide) (h.subset (by simp))

/-- The statements depend on the table only. -/
theorem schema_congr {l l' : Location} (h : l.table = l'.table) : l.schema = l'.schema := by
  rw [schema, schema, indexName, indexName, h]

/-- Two names make a location exactly if the table is one or two plain names and the queue is not
blank, also when they are read from JSON; and the statements for a location are harmless and depend
on its table only. -/
theorem locations_harmless :
    (∀ table queue, (∃ l, make table queue = .ok l) ↔ Sound table queue) ∧
    (∀ table queue (l : Location), make table queue = .ok l → l.table = table ∧ l.queue = queue) ∧
    (∀ v (l : Location), ofJson? v = some l ↔ ∃ table queue, names? v = some (table, queue) ∧
      Sound table queue ∧ l.table = table ∧ l.queue = queue) ∧
    (∀ table queue,
      names? (.record [("table_name", .ofString table), ("queue_name", .ofString queue)]) =
        some (table, queue)) ∧
    (∀ l, Harmless l) ∧
    ∀ l l' : Location, l.table = l'.table → l.schema = l'.schema :=
  ⟨fun _ _ => exists_make_iff, fun _ _ _ h => (make_eq_ok_iff.1 h).2,
    fun _ _ => ofJson?_eq_some_iff, names?_record, harmless, fun _ _ => schema_congr⟩

/-- A queue whose name would do harm in a statement. -/
def hostile : Location := ⟨"billing.tasks", "'; DROP TABLE tasks; --", by decide, by decide⟩

/-- Another queue in the same table. -/
def invoices : Location := ⟨"billing.tasks", "invoices", by decide, by decide⟩

/-- What `locations_harmless` says of these queues. -/
theorem hostile_harmless :
    make "billing.tasks" "'; DROP TABLE tasks; --" = .ok hostile ∧
    Sound "billing.tasks" "'; DROP TABLE tasks; --" ∧ Harmless hostile ∧
    hostile.table = invoices.table ∧ hostile.schema = invoices.schema := by
  obtain ⟨hmake, -, -, -, hharmless, hschema⟩ := locations_harmless
  have hhostile : make "billing.tasks" "'; DROP TABLE tasks; --" = .ok hostile := rfl
  exact ⟨hhostile, (hmake _ _).1 ⟨_, hhostile⟩, hharmless _, rfl, hschema _ _ rfl⟩

end LeaseQueue.Location
