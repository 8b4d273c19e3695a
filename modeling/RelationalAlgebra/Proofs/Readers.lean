import RelationalAlgebra.CommandLine.Report
import RelationalAlgebra.Proofs.AskedColumns
import RelationalAlgebra.Proofs.Numbering

/-!
# The readers of a tuple

The tuple of a join is read by key (`Tuple.component?`), as JSON (`Tuple.toJson`) and as a line of a table
(`Report.headers`, `Report.cell`).  Each reader resolves a repeated name in its own way: by key the first
component answers, an object keeps the last value (`Json.get?_ofFields`), and a table has one column for a
name, with the first text.

The readers are `ReadAlike` if they show the same components and all of them.  They are exactly if no key
is repeated and no two fields have one name behind their keys (`readAlike_iff`).  The first is enough when
the keys have no dot (`readAlike_iff_of_not_mem_dot`): a dotted name then tells where its key ends.
-/

namespace RelationalAlgebra

/-! ## Repeated names -/

theorem nodup_eraseDups {α : Type} [BEq α] [LawfulBEq α] (l : List α) : l.eraseDups.Nodup := by
  induction l using List.reverseRecOn with
  | nil => exact List.nodup_nil
  | append_singleton l x ih =>
    rw [eraseDups_concat]
    by_cases hx : x ∈ l
    · rwa [if_pos hx]
    · rw [if_neg hx]
      refine List.nodup_append.2 ⟨ih, List.nodup_singleton x, ?_⟩
      rintro y hy _ hz rfl
      obtain rfl := List.mem_singleton.1 hz
      exact hx (List.mem_eraseDups.1 hy)

/-- An item of a list without repeated keys is what is found under its key. -/
theorem lookup_of_nodup {α β : Type} [BEq α] [LawfulBEq α] {l : List (α × β)}
    (h : (l.map (·.1)).Nodup) : ∀ x ∈ l, l.lookup x.1 = some x.2 :=
  forall_lookup_iff.2 fun _ hx _ hy heq =>
    congrArg Prod.snd (List.inj_on_of_nodup_map h hx hy heq)

theorem lookup_cons_eq_ite {β : Type} (name key : String) (value : β) (rest : List (String × β)) :
    ((name, value) :: rest).lookup key = if key = name then some value else rest.lookup key := by
  rw [List.lookup_cons]
  by_cases h : key = name
  · simp [h]
  · simp [h, beq_false_of_ne h]

/-! ## Objects -/

namespace Json

variable {name key : String} {value : Json} {fields : List (String × Json)}

theorem lookup_insertField (name key : String) (value : Json) (fields : List (String × Json)) :
    (insertField name value fields).lookup key =
      if key = name then some value else fields.lookup key := by
  induction fields with
  | nil => rw [insertField, lookup_cons_eq_ite]
  | cons field rest ih =>
    obtain ⟨other, old⟩ := field
    rw [insertField]
    by_cases hlt : name < other
    · rw [if_pos hlt, lookup_cons_eq_ite]
    · rw [if_neg hlt]
      by_cases heq : name = other
      · rw [if_pos heq, lookup_cons_eq_ite, lookup_cons_eq_ite, ← heq]
        by_cases hkey : key = name <;> simp [hkey]
      · rw [if_neg heq, lookup_cons_eq_ite, lookup_cons_eq_ite, ih]
        by_cases hkey : key = other
        · simp [hkey, Ne.symm heq]
        · simp [hkey]

theorem mem_names_insertField :
    key ∈ (insertField name value fields).map (·.1) ↔ key = name ∨ key ∈ fields.map (·.1) := by
  induction fields with
  | nil => simp [insertField]
  | cons field rest ih =>
    obtain ⟨other, old⟩ := field
    rw [insertField]
    by_cases hlt : name < other
    · simp [hlt]
    · by_cases heq : name = other
      · simp [heq]
      · rw [if_neg hlt, if_neg heq, List.map_cons, List.mem_cons, ih, List.map_cons, List.mem_cons]
        exact or_left_comm

/-- A field that is put in its place leaves the names in their order. -/
theorem pairwise_insertField (h : (fields.map (·.1)).Pairwise (· < ·)) :
    ((insertField name value fields).map (·.1)).Pairwise (· < ·) := by
  induction fields with
  | nil => simp [insertField]
  | cons field rest ih =>
    obtain ⟨other, old⟩ := field
    obtain ⟨hfirst, hrest⟩ := List.pairwise_cons.1 h
    rw [insertField]
    by_cases hlt : name < other
    · rw [if_pos hlt]
      refine List.pairwise_cons.2 ⟨fun key hkey => ?_, h⟩
      rcases List.mem_cons.1 hkey with rfl | hkey
      · exact hlt
      · exact String.lt_trans hlt (hfirst key hkey)
    · rw [if_neg hlt]
      by_cases heq : name = other
      · rw [if_pos heq, heq]
        exact h
      · rw [if_neg heq]
        refine List.pairwise_cons.2 ⟨fun key hkey => ?_, ih hrest⟩
        rcases mem_names_insertField.1 hkey with rfl | hkey
        · exact ((lt_trichotomy key other).resolve_left hlt).resolve_left heq
        · exact hfirst key hkey

/-- Making an object of one more field puts that field in its place. -/
theorem ofFields_concat {stored : List (String × Json)} (h : ofFields fields = .object stored) :
    ofFields (fields ++ [(name, value)]) = .object (insertField name value stored) := by
  rw [ofFields, List.foldl_append, ← Json.object.inj h]
  rfl

/-- The names of an object are those it was made of, in increasing order, each with its last value. -/
theorem exists_ofFields (fields : List (String × Json)) :
    ∃ stored, ofFields fields = .object stored ∧ (stored.map (·.1)).Pairwise (· < ·) ∧
      ∀ key, (key ∈ stored.map (·.1) ↔ key ∈ fields.map (·.1)) ∧
        stored.lookup key = fields.reverse.lookup key := by
  induction fields using List.reverseRecOn with
  | nil => exact ⟨[], rfl, .nil, fun key => ⟨Iff.rfl, rfl⟩⟩
  | append_singleton fields field ih =>
    obtain ⟨name, value⟩ := field
    obtain ⟨stored, hstored, hsorted, hkeys⟩ := ih
    refine ⟨_, ofFields_concat hstored, pairwise_insertField hsorted, fun key => ⟨?_, ?_⟩⟩
    · rw [mem_names_insertField, (hkeys key).1, List.map_append, List.mem_append, or_comm]
      simp
    · rw [lookup_insertField, (hkeys key).2, List.reverse_append, List.reverse_singleton,
        List.singleton_append, lookup_cons_eq_ite]

/-- Of a repeated name an object has the last value. -/
theorem get?_ofFields (fields : List (String × Json)) (key : String) :
    (ofFields fields).get? key = fields.reverse.lookup key := by
  obtain ⟨stored, hstored, -, hkeys⟩ := exists_ofFields fields
  rw [hstored]
  exact (hkeys key).2

/-- An object has a field for each that it was made of exactly if their names differ. -/
theorem length_ofFields_iff {stored : List (String × Json)} (h : ofFields fields = .object stored) :
    stored.length = fields.length ↔ (fields.map (·.1)).Nodup := by
  obtain ⟨stored', hstored, hsorted, hkeys⟩ := exists_ofFields fields
  obtain rfl := Json.object.inj (h.symm.trans hstored)
  have hsame : (stored.map (·.1)).toFinset = (fields.map (·.1)).toFinset := by
    ext key
    rw [List.mem_toFinset, List.mem_toFinset]
    exact (hkeys key).1
  have hcard := List.toFinset_card_of_nodup (hsorted.imp fun hlt => ne_of_lt hlt)
  rw [List.length_map, hsame] at hcard
  rw [← hcard, ← List.length_map (·.1)]
  exact Multiset.toFinset_card_eq_card_iff_nodup

end Json

/-! ## Tables -/

namespace CommandLine.Report

variable {line : Line} {lines : List Line}

/-- A table has a column for each name. -/
theorem headers_eq_eraseDups (lines : List Line) :
    headers lines = (lines.flatten.map (·.1)).eraseDups := by
  rw [headers]
  induction lines.flatten using List.reverseRecOn with
  | nil => rfl
  | append_singleton cells cell ih =>
    rw [List.foldl_append, List.foldl_cons, List.foldl_nil, ih, List.map_append,
      List.map_singleton, eraseDups_concat]
    simp only [List.contains_iff_mem, List.mem_eraseDups]

theorem headers_nodup (lines : List Line) : (headers lines).Nodup := by
  rw [headers_eq_eraseDups]
  exact nodup_eraseDups _

/-- The names of each line are among the columns. -/
theorem mem_headers (hline : line ∈ lines) {header : String} (h : header ∈ line.map (·.1)) :
    header ∈ headers lines := by
  rw [headers_eq_eraseDups, List.mem_eraseDups]
  obtain ⟨entry, hentry, rfl⟩ := List.mem_map.1 h
  exact List.mem_map_of_mem (List.mem_flatten_of_mem hline hentry)

/-- A line without a repeated name has its own texts. -/
theorem map_cell_eq (h : (line.map (·.1)).Nodup) :
    (line.map (·.1)).map (fun header => (header, cell line header)) = line := by
  rw [List.map_map]
  conv_rhs => rw [← List.map_id line]
  refine List.map_congr_left fun entry hentry => ?_
  rw [Function.comp, cell, lookup_of_nodup h entry hentry]
  rfl

/-- The texts that a table of lines shows for one of them under its own names. -/
def ownCells (lines : List Line) (line : Line) : Line :=
  ((headers lines).filter (· ∈ line.map (·.1))).map fun header => (header, cell line header)

/-- Under its own names a table shows a line whole exactly if no name is repeated. -/
theorem ownCells_perm_iff (hline : line ∈ lines) :
    (ownCells lines line).Perm line ↔ (line.map (·.1)).Nodup := by
  have hheaders := (headers_nodup lines).filter (fun header => header ∈ line.map (·.1))
  constructor
  · intro hperm
    have hnames := hperm.map (·.1)
    rw [ownCells, List.map_map] at hnames
    exact hnames.nodup (by simpa [Function.comp_def] using hheaders)
  · intro hnodup
    conv_rhs => rw [← map_cell_eq hnodup]
    refine List.Perm.map _ ((List.perm_ext_iff_of_nodup hheaders hnodup).2 fun header => ?_)
    rw [List.mem_filter, decide_eq_true_eq]
    exact ⟨And.right, fun h => ⟨mem_headers hline h, h⟩⟩

end CommandLine.Report

/-! ## Tuples of joins -/

open CommandLine

variable {components : List (String × Option Record)}

/-- The texts of a record under the names that they have behind a key. -/
def Record.keyedCells (key : String) (record : Record) : Report.Line :=
  record.fields.map fun field => (key ++ "." ++ field.1, field.2.display)

/-- All readers of a tuple of components show the same ones, and all of them: the JSON under a key is that
of the record that the key gives, or null; the object has as many fields as there are components; and in
every table the line of the tuple has, under its own names, the texts of the records that the keys give. -/
structure ReadAlike (components : List (String × Option Record)) : Prop where
  json : ∀ key ∈ components.map (·.1), (Tuple.composite components).toJson.get? key =
    some (((Tuple.composite components).component? key).elim .null Record.toJson)
  entries : ∃ fields, (Tuple.composite components).toJson = .object fields ∧
    fields.length = components.length
  cells : ∀ tuples : List Tuple, .composite components ∈ tuples →
    (Report.ownCells (tuples.map Report.lineOf) (Report.lineOf (.composite components))).Perm
      ((components.map (·.1)).flatMap fun key =>
        ((Tuple.composite components).component? key).elim [] (Record.keyedCells key))

theorem toJson_composite (components : List (String × Option Record)) :
    (Tuple.composite components).toJson =
      .ofFields (components.map fun part => (part.1, part.2.elim .null Record.toJson)) := by
  rw [Tuple.toJson]
  refine congrArg Json.ofFields (List.map_congr_left fun part _ => ?_)
  obtain ⟨key, record⟩ := part
  cases record with
  | none => rfl
  | some record => rfl

theorem lineOf_composite (components : List (String × Option Record)) :
    Report.lineOf (.composite components) =
      components.flatMap fun part => part.2.elim [] (Record.keyedCells part.1) := by
  rw [Report.lineOf, Tuple.cells, List.map_flatMap]
  refine List.flatMap_congr fun part _ => ?_
  obtain ⟨key, record⟩ := part
  cases record with
  | none => rfl
  | some record => simp [Record.keyedCells, Function.comp_def]

/-- The object of a tuple has as many fields as the tuple has components exactly if no key is repeated. -/
theorem entries_iff :
    (∃ fields, (Tuple.composite components).toJson = .object fields ∧
      fields.length = components.length) ↔ (components.map (·.1)).Nodup := by
  rw [toJson_composite]
  obtain ⟨stored, hstored, -, -⟩ := Json.exists_ofFields
    (components.map fun part => (part.1, part.2.elim .null Record.toJson))
  have hlength := Json.length_ofFields_iff hstored
  rw [List.length_map, List.map_map] at hlength
  refine Iff.trans ?_ hlength
  constructor
  · rintro ⟨fields, hfields, h⟩
    rwa [Json.object.inj (hstored.symm.trans hfields)]
  · exact fun h => ⟨stored, hstored, h⟩

/-- A component is the one that its key gives. -/
theorem component?_of_mem (h : (components.map (·.1)).Nodup) {part : String × Option Record}
    (hpart : part ∈ components) : (Tuple.composite components).component? part.1 = part.2 := by
  rw [Tuple.component?, lookup_of_nodup h part hpart]
  rfl

/-- Without a repeated key the JSON under a key is that of its component. -/
theorem json_of_nodup (h : (components.map (·.1)).Nodup) {key : String}
    (hkey : key ∈ components.map (·.1)) : (Tuple.composite components).toJson.get? key =
      some (((Tuple.composite components).component? key).elim .null Record.toJson) := by
  obtain ⟨part, hpart, rfl⟩ := List.mem_map.1 hkey
  rw [component?_of_mem h hpart, toJson_composite, Json.get?_ofFields]
  refine lookup_of_nodup ?_ (part.1, part.2.elim .null Record.toJson) ?_
  · rw [List.map_reverse, List.nodup_reverse, List.map_map]
    exact h
  · rw [List.mem_reverse]
    exact List.mem_map_of_mem hpart

/-- Without a repeated key the line of a tuple consists of the records that the keys give. -/
theorem lineOf_of_nodup (h : (components.map (·.1)).Nodup) :
    Report.lineOf (.composite components) = (components.map (·.1)).flatMap fun key =>
      ((Tuple.composite components).component? key).elim [] (Record.keyedCells key) := by
  rw [lineOf_composite, List.flatMap_map]
  refine List.flatMap_congr fun part hpart => ?_
  rw [component?_of_mem h hpart]

/-- The readers of a tuple agree exactly if neither a key nor a name behind a key is repeated. -/
theorem readAlike_iff : ReadAlike components ↔ (components.map (·.1)).Nodup ∧
    ((Tuple.composite components).cells.map (·.1)).Nodup := by
  have hnames : (Report.lineOf (.composite components)).map (·.1) =
      (Tuple.composite components).cells.map (·.1) := by
    rw [Report.lineOf, List.map_map]
    rfl
  rw [← hnames]
  constructor
  · rintro ⟨-, hentries, hcells⟩
    have hkeys := entries_iff.1 hentries
    have hperm := hcells [.composite components] (List.mem_singleton_self _)
    rw [← lineOf_of_nodup hkeys] at hperm
    exact ⟨hkeys, (Report.ownCells_perm_iff (List.mem_singleton_self _)).1 hperm⟩
  · rintro ⟨hkeys, hline⟩
    refine ⟨fun key hkey => json_of_nodup hkeys hkey, entries_iff.2 hkeys, fun tuples hmem => ?_⟩
    rw [← lineOf_of_nodup hkeys]
    exact (Report.ownCells_perm_iff (List.mem_map_of_mem hmem)).2 hline

/-! ### Dots -/

/-- A name behind a key without a dot tells its key. -/
theorem key_eq_of_dotted {key key' name name' : String} (h : '.' ∉ key.toList)
    (h' : '.' ∉ key'.toList) (heq : key ++ "." ++ name = key' ++ "." ++ name') : key = key' := by
  have hkey : ∀ {key name : String}, '.' ∉ key.toList →
      (key ++ "." ++ name).toList.takeWhile (· != '.') = key.toList := by
    intro key name hdot
    have hplain : ∀ c ∈ key.toList, (c != '.') = true := by
      intro c hc
      rw [bne_iff_ne]
      rintro rfl
      exact hdot hc
    rw [String.toList_append, String.toList_append, List.append_assoc,
      List.takeWhile_append_of_pos hplain]
    simp
  apply String.toList_inj.1
  rw [← hkey h, heq, hkey h']

/-- Behind different keys without a dot different fields have different names. -/
theorem cells_nodup (hkeys : (components.map (·.1)).Nodup)
    (hdots : ∀ key ∈ components.map (·.1), '.' ∉ key.toList)
    (hfields : ∀ key record, (key, some record) ∈ components →
      (record.fields.map (·.1)).Nodup) :
    ((Tuple.composite components).cells.map (·.1)).Nodup := by
  rw [Tuple.cells, List.map_flatMap, List.nodup_flatMap]
  constructor
  · rintro ⟨key, record⟩ hpart
    cases record with
    | none => exact List.nodup_nil
    | some record =>
      have hinj : Function.Injective fun name : String => key ++ "." ++ name :=
        fun _ _ h => Sql.append_inj_right h
      have hnames := (hfields key record hpart).map hinj
      simpa [Function.comp_def] using hnames
  · have hapart := List.pairwise_map.1 hkeys
    refine hapart.imp_of_mem ?_
    rintro ⟨key, record⟩ ⟨key', record'⟩ hpart hpart' hne name hname hname'
    cases record with
    | none => cases hname
    | some record =>
      cases record' with
      | none => cases hname'
      | some record' =>
        simp only [List.map_map, List.mem_map, Function.comp_def] at hname hname'
        obtain ⟨field, -, rfl⟩ := hname
        obtain ⟨field', -, heq⟩ := hname'
        exact hne (key_eq_of_dotted (hdots _ (List.mem_map_of_mem hpart))
          (hdots _ (List.mem_map_of_mem hpart')) heq.symm)

/-- If no key has a dot, and no record a field twice, the keys alone decide whether the readers agree. -/
theorem readAlike_iff_of_not_mem_dot (hdots : ∀ key ∈ components.map (·.1), '.' ∉ key.toList)
    (hfields : ∀ key record, (key, some record) ∈ components →
      (record.fields.map (·.1)).Nodup) :
    ReadAlike components ↔ (components.map (·.1)).Nodup := by
  rw [readAlike_iff]
  exact ⟨And.left, fun hkeys => ⟨hkeys, cells_nodup hkeys hdots hfields⟩⟩

end RelationalAlgebra
