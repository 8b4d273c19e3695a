import RelationalAlgebra.Proofs.Layout

/-!
# Writing columns

A query is built step by step, and what a column is written as depends on what has been built so
far (`Draft`).

* `Draft.column?` says how a column would be written, without writing it.  `Writes` is what writing
  it does: it adds to what is remembered and to nothing else, and no other column is written in
  another way afterwards (`Writes.keeps`).
* `Laid` holds while a chain of joins is laid out as units.  Every column of the spine can be
  written then (`Laid.columnExpr_ends`), as `Reads` says (`Laid.reads`).
* An expression is written when its columns are (`exprOf_ends`).
-/

namespace RelationalAlgebra.Sql

variable {a : Algebra} {d d' d'' : Draft} {r s root : Relation} {i k : Nat} {e : SqlExpr}

/-! ## What is remembered -/

/-- How the columns met so far are written. -/
def Draft.memo (d : Draft) : Memo := fun key => d.written.lookup key

/-- Remembers how a column is written. -/
def Draft.note (d : Draft) (r : Relation) (i : Nat) (e : SqlExpr) : Draft :=
  { d with written := ((r.id, i), e) :: d.written }

theorem Draft.memo_note (key : ColumnKey) :
    (d.note r i e).memo key = if key = (r.id, i) then some e else d.memo key := by
  simp only [memo, note, List.lookup_cons]
  by_cases h : key = (r.id, i)
  · simp [h]
  · rw [if_neg h, beq_eq_false_iff_ne.2 h]

theorem Draft.memo_note_self : (d.note r i e).memo (r.id, i) = some e := by
  rw [memo_note, if_pos rfl]

/-- What was remembered still is. -/
theorem Draft.memo_note_of_some {key : ColumnKey} {f : SqlExpr}
    (hsame : ∀ f, d.memo (r.id, i) = some f → f = e) (h : d.memo key = some f) :
    (d.note r i e).memo key = some f := by
  rw [memo_note]
  split
  · next hkey =>
    rw [hkey] at h
    rw [hsame f h]
  · exact h

/-- A column that has a reason can be remembered. -/
theorem Draft.faithful_note {chain : List Relation} {units : List FromUnit}
    (h : Faithful chain units d.memo) (hr : r ∈ chain ++ units.map (·.relation))
    (hsame : ∀ f, d.memo (r.id, i) = some f → f = e)
    (hjust : Justified chain units d.memo r i e) :
    Faithful chain units (d.note r i e).memo := by
  have hmemo : ∀ key f, d.memo key = some f → (d.note r i e).memo key = some f :=
    fun key f => memo_note_of_some hsame
  intro key f hkey
  rw [memo_note] at hkey
  split at hkey
  · next hself =>
    cases hkey
    rw [hself]
    exact ⟨r, hr, rfl, hjust.mono (fun _ h => h) (fun _ h => h) hmemo⟩
  · obtain ⟨s, hs, hid, hs'⟩ := h key f hkey
    exact ⟨s, hs, hid, hs'.mono (fun _ h => h) (fun _ h => h) hmemo⟩

/-- How a column is written if it is remembered or a subquery shows it, else as given. -/
def Draft.known? (d : Draft) (r : Relation) (i : Nat) (source : Option SqlExpr) :
    Option SqlExpr :=
  match d.memo (r.id, i) with
  | some e => some e
  | none =>
    match exposure? d.query.units r.id i with
    | some (label, some name) => some (.column ⟨.subquery label, name⟩)
    | some (_, none) => none
    | none => source

theorem Draft.known?_eq_some {source : Option SqlExpr} (h : d.known? r i source = some e) :
    d.memo (r.id, i) = some e ∨
      d.memo (r.id, i) = none ∧
        ((∃ label name, exposure? d.query.units r.id i = some (label, some name) ∧
          e = .column ⟨.subquery label, name⟩) ∨
        exposure? d.query.units r.id i = none ∧ source = some e) := by
  unfold known? at h
  split at h
  · next hmemo => exact .inl (hmemo.trans h)
  · next hmemo =>
    refine .inr ⟨hmemo, ?_⟩
    split at h
    · next label name hexposed => exact .inl ⟨label, name, hexposed, (Option.some.inj h).symm⟩
    · cases h
    · next hexposed => exact .inr ⟨hexposed, h⟩

theorem Draft.known?_of_memo {source : Option SqlExpr} (h : d.memo (r.id, i) = some e) :
    d.known? r i source = some e := by
  simp only [known?, h]

theorem Draft.known?_of_exposure {source : Option SqlExpr} {label name : String}
    (hmemo : d.memo (r.id, i) = none)
    (h : exposure? d.query.units r.id i = some (label, some name)) :
    d.known? r i source = some (.column ⟨.subquery label, name⟩) := by
  simp only [known?, hmemo, h]

theorem Draft.known?_of_none {source : Option SqlExpr} (hmemo : d.memo (r.id, i) = none)
    (h : exposure? d.query.units r.id i = none) : d.known? r i source = source := by
  simp only [known?, hmemo, h]

/-- How a column is written, where no projection has to be taken apart for it. -/
def Draft.column? (d : Draft) : Relation → Nat → Option SqlExpr
  | .table t, i =>
    d.known? (.table t) i (t.columns[i]?.map fun c => .column ⟨.table t.name, c.name⟩)
  | .selection id operand condition, i =>
    d.known? (.selection id operand condition) i (d.column? operand i)
  | .projection id operand whole shown, i => d.known? (.projection id operand whole shown) i none
  | .join id kind left right condition, i =>
    d.known? (.join id kind left right condition) i
      (if i < left.width then d.column? left i else d.column? right (i - left.width))

/-- What is remembered is how the column is written. -/
theorem Draft.column?_of_memo (h : d.memo (r.id, i) = some e) : d.column? r i = some e := by
  cases r <;> (unfold column?; exact known?_of_memo h)

/-- Remembering how a column is written changes for no column how it is written. -/
theorem Draft.column?_note (ha : a.Sound) (hr : r ∈ a.relations)
    (h : r.id ≤ s.id → d.column? r i = some e) (hs : s ∈ a.relations) :
    (d.note r i e).column? s k = d.column? s k := by
  have hknown : ∀ {s : Relation} {k : Nat} {o o' : Option SqlExpr}, s ∈ a.relations →
      (r.id ≤ s.id → d.column? r i = some e) → d.column? s k = d.known? s k o → o' = o →
      (d.note r i e).known? s k o' = d.column? s k := by
    rintro s k o _ hs h hcolumn rfl
    by_cases hkey : (s.id, k) = (r.id, i)
    · obtain ⟨hid, rfl⟩ := Prod.mk.inj hkey
      obtain rfl := ha.eq_of_id_eq hs hr hid
      rw [h (Nat.le_refl _), known?_of_memo memo_note_self]
    · rw [hcolumn]
      simp only [known?, memo_note, if_neg hkey]
      rfl
  induction s generalizing k with
  | table t =>
    unfold column?
    exact hknown hs h rfl rfl
  | selection id operand condition ih =>
    obtain ⟨hop, hlt⟩ := ha.selection_operand hs
    unfold column?
    exact hknown hs h rfl (ih (fun hle => h (Nat.le_trans hle (Nat.le_of_lt hlt))) hop)
  | projection id operand whole shown ih =>
    unfold column?
    exact hknown hs h rfl rfl
  | join id kind left right condition ihl ihr =>
    obtain ⟨hl, hllt⟩ := ha.join_left hs
    obtain ⟨hr', hrlt⟩ := ha.join_right hs
    unfold column?
    refine hknown hs h rfl ?_
    rw [ihl (fun hle => h (Nat.le_trans hle (Nat.le_of_lt hllt))) hl,
      ihr (fun hle => h (Nat.le_trans hle (Nat.le_of_lt hrlt))) hr']

/-- The same is true after steps that change for no column how it is written. -/
theorem Draft.column?_note_of_keeps (ha : a.Sound) (hr : r ∈ a.relations)
    (hcolumn : d.column? r i = some e)
    (hkeeps : ∀ {s : Relation} {k : Nat}, s ∈ a.relations → d'.column? s k = d.column? s k)
    (hs : s ∈ a.relations) : (d'.note r i e).column? s k = d.column? s k := by
  have hcolumn' : d'.column? r i = some e := (hkeeps hr).trans hcolumn
  rw [column?_note ha hr (fun _ => hcolumn') hs, hkeeps hs]

/-! ## Writing a column -/

/-- Writing a column leads from one draft to another. -/
inductive Writes (d : Draft) : Relation → Nat → SqlExpr → Draft → Prop
  | known {r : Relation} {i : Nat} {e : SqlExpr} (noted : d.memo (r.id, i) = some e) :
      Writes d r i e d
  | exposed {r : Relation} {i : Nat} {label name : String} (new : d.memo (r.id, i) = none)
      (shown : exposure? d.query.units r.id i = some (label, some name)) :
      Writes d r i (.column ⟨.subquery label, name⟩)
        (d.note r i (.column ⟨.subquery label, name⟩))
  | table {t : Table} {i : Nat} {c : Column} (new : d.memo (t.id, i) = none)
      (hidden : exposure? d.query.units t.id i = none) (column : t.columns[i]? = some c) :
      Writes d (.table t) i (.column ⟨.table t.name, c.name⟩)
        (d.note (.table t) i (.column ⟨.table t.name, c.name⟩))
  | selection {id : Nat} {operand : Relation} {condition : Expr Nat} {i : Nat} {e : SqlExpr}
      {d' : Draft} (new : d.memo (id, i) = none)
      (hidden : exposure? d.query.units id i = none) (writes : Writes d operand i e d') :
      Writes d (.selection id operand condition) i e
        (d'.note (.selection id operand condition) i e)
  | left {id : Nat} {kind : JoinKind} {left right : Relation} {condition : Expr Nat} {i : Nat}
      {e : SqlExpr} {d' : Draft} (new : d.memo (id, i) = none)
      (hidden : exposure? d.query.units id i = none) (lt : i < left.width)
      (writes : Writes d left i e d') :
      Writes d (.join id kind left right condition) i e
        (d'.note (.join id kind left right condition) i e)
  | right {id : Nat} {kind : JoinKind} {left right : Relation} {condition : Expr Nat} {i : Nat}
      {e : SqlExpr} {d' : Draft} (new : d.memo (id, i) = none)
      (hidden : exposure? d.query.units id i = none) (ge : left.width ≤ i)
      (writes : Writes d right (i - left.width) e d') :
      Writes d (.join id kind left right condition) i e
        (d'.note (.join id kind left right condition) i e)

theorem Writes.column?_eq (h : Writes d r i e d') : d.column? r i = some e := by
  induction h with
  | known noted => exact Draft.column?_of_memo noted
  | @exposed r i label name new shown =>
    cases r <;> (unfold Draft.column?; exact Draft.known?_of_exposure new shown)
  | table new hidden column =>
    rw [Draft.column?, Draft.known?_of_none new hidden, column]
    rfl
  | selection new hidden writes ih => rw [Draft.column?, Draft.known?_of_none new hidden, ih]
  | left new hidden lt writes ih =>
    rw [Draft.column?, Draft.known?_of_none new hidden, if_pos lt, ih]
  | right new hidden ge writes ih =>
    rw [Draft.column?, Draft.known?_of_none new hidden, if_neg (Nat.not_lt.2 ge), ih]

/-- Nothing but what is remembered differs. -/
structure Draft.OnlyNotes (d d' : Draft) : Prop where
  query : d'.query = d.query
  subqueries : d'.subqueries = d.subqueries
  placeholders : d'.placeholders = d.placeholders

theorem Draft.OnlyNotes.rfl : d.OnlyNotes d := ⟨Eq.refl _, Eq.refl _, Eq.refl _⟩

theorem Draft.OnlyNotes.trans (h : d.OnlyNotes d') (h' : d'.OnlyNotes d'') : d.OnlyNotes d'' :=
  ⟨h'.query.trans h.query, h'.subqueries.trans h.subqueries, h'.placeholders.trans h.placeholders⟩

theorem Writes.onlyNotes (h : Writes d r i e d') : d.OnlyNotes d' := by
  induction h with
  | known noted => exact .rfl
  | exposed new shown => exact ⟨rfl, rfl, rfl⟩
  | table new hidden column => exact ⟨rfl, rfl, rfl⟩
  | selection new hidden writes ih => exact ⟨ih.query, ih.subqueries, ih.placeholders⟩
  | left new hidden lt writes ih => exact ⟨ih.query, ih.subqueries, ih.placeholders⟩
  | right new hidden ge writes ih => exact ⟨ih.query, ih.subqueries, ih.placeholders⟩

/-- A column that was written is remembered. -/
theorem Writes.noted (h : Writes d r i e d') : d'.memo (r.id, i) = some e := by
  cases h with
  | known noted => exact noted
  | exposed new shown => exact Draft.memo_note_self
  | table new hidden column => exact Draft.memo_note_self
  | selection new hidden writes => exact Draft.memo_note_self
  | left new hidden lt writes => exact Draft.memo_note_self
  | right new hidden ge writes => exact Draft.memo_note_self

/-- Writing a column changes for no column how it is written. -/
theorem Writes.keeps (ha : a.Sound) (h : Writes d r i e d') (hr : r ∈ a.relations)
    (hs : s ∈ a.relations) : d'.column? s k = d.column? s k := by
  have hcolumn := h.column?_eq
  induction h generalizing s k with
  | known noted => rfl
  | exposed new shown => exact Draft.column?_note ha hr (fun _ => hcolumn) hs
  | table new hidden column => exact Draft.column?_note ha hr (fun _ => hcolumn) hs
  | selection new hidden writes ih =>
    have hop := (ha.selection_operand hr).1
    exact Draft.column?_note_of_keeps ha hr hcolumn (fun hs => ih hop hs writes.column?_eq) hs
  | left new hidden lt writes ih =>
    have hop := (ha.join_left hr).1
    exact Draft.column?_note_of_keeps ha hr hcolumn (fun hs => ih hop hs writes.column?_eq) hs
  | right new hidden ge writes ih =>
    have hop := (ha.join_right hr).1
    exact Draft.column?_note_of_keeps ha hr hcolumn (fun hs => ih hop hs writes.column?_eq) hs

/-- What was remembered still is. -/
theorem Writes.memo_of_some {key : ColumnKey} {f : SqlExpr} (h : Writes d r i e d')
    (hkey : d.memo key = some f) : d'.memo key = some f := by
  have hnote : ∀ {r : Relation} {i : Nat} {e : SqlExpr} {d' : Draft},
      d.memo (r.id, i) = none → d'.memo key = some f → (d'.note r i e).memo key = some f := by
    intro r i e d' hnew hd'
    rw [Draft.memo_note, if_neg]
    · exact hd'
    · rintro rfl
      rw [hnew] at hkey
      cases hkey
  induction h with
  | known noted => exact hkey
  | exposed new shown => exact hnote new hkey
  | table new hidden column => exact hnote (r := .table _) new hkey
  | selection new hidden writes ih => exact hnote (r := .selection ..) new ih
  | left new hidden lt writes ih => exact hnote (r := .join ..) new ih
  | right new hidden ge writes ih => exact hnote (r := .join ..) new ih

/-- Writing a column of a relation remembers columns of the relation and of older ones. -/
theorem Writes.id_le (ha : a.Sound) {key : ColumnKey} {f : SqlExpr} (h : Writes d r i e d')
    (hr : r ∈ a.relations) (hkey : d'.memo key = some f) :
    d.memo key = some f ∨ key.1 ≤ r.id := by
  have hnote : ∀ {r : Relation} {i : Nat} {e : SqlExpr} {d' : Draft},
      (d'.note r i e).memo key = some f → d'.memo key = some f ∨ key.1 ≤ r.id := by
    intro r i e d' hd'
    rw [Draft.memo_note] at hd'
    split at hd'
    · next hself => exact .inr (hself ▸ Nat.le_refl _)
    · exact .inl hd'
  have hstep : ∀ {operand r : Relation} {i : Nat} {e : SqlExpr} {d' : Draft}, operand.id < r.id →
      (d'.memo key = some f → d.memo key = some f ∨ key.1 ≤ operand.id) →
      (d'.note r i e).memo key = some f → d.memo key = some f ∨ key.1 ≤ r.id := by
    intro operand r i e d' hlt ih hd'
    rcases hnote hd' with hd' | hle
    · exact (ih hd').imp_right fun hle => Nat.le_trans hle (Nat.le_of_lt hlt)
    · exact .inr hle
  induction h with
  | known noted => exact .inl hkey
  | exposed new shown => exact hnote hkey
  | table new hidden column => exact hnote hkey
  | selection new hidden writes ih =>
    obtain ⟨hop, hlt⟩ := ha.selection_operand hr
    exact hstep (r := .selection ..) hlt (ih hop) hkey
  | left new hidden lt writes ih =>
    obtain ⟨hop, hlt⟩ := ha.join_left hr
    exact hstep (r := .join ..) hlt (ih hop) hkey
  | right new hidden ge writes ih =>
    obtain ⟨hop, hlt⟩ := ha.join_right hr
    exact hstep (r := .join ..) hlt (ih hop) hkey

/-! ### Writing by `columnExpr` -/

section

variable {fromSource : Compile SqlExpr}

theorem remembered_run_of_memo (h : d.memo (r.id, i) = some e) :
    (remembered r i fromSource).run d = .ok (e, d) := by
  rw [remembered, run_bind_ok_iff]
  refine ⟨d, d, run_get_ok_iff.2 ⟨rfl, rfl⟩, ?_⟩
  have hlookup : d.written.lookup (r.id, i) = some e := h
  rw [hlookup]
  exact run_pure_ok_iff.2 ⟨rfl, rfl⟩

theorem remembered_run_of_exposure {label name : String} (hnew : d.memo (r.id, i) = none)
    (h : exposure? d.query.units r.id i = some (label, some name)) :
    (remembered r i fromSource).run d =
      .ok (.column ⟨.subquery label, name⟩, d.note r i (.column ⟨.subquery label, name⟩)) := by
  rw [remembered, run_bind_ok_iff]
  refine ⟨d, d, run_get_ok_iff.2 ⟨rfl, rfl⟩, ?_⟩
  have hlookup : d.written.lookup (r.id, i) = none := hnew
  rw [hlookup]
  simp only [h]
  rfl

theorem remembered_run_of_source (hnew : d.memo (r.id, i) = none)
    (h : exposure? d.query.units r.id i = none) (hrun : fromSource.run d = .ok (e, d')) :
    (remembered r i fromSource).run d = .ok (e, d'.note r i e) := by
  rw [remembered, run_bind_ok_iff]
  refine ⟨d, d, run_get_ok_iff.2 ⟨rfl, rfl⟩, ?_⟩
  have hlookup : d.written.lookup (r.id, i) = none := hnew
  rw [hlookup]
  simp only [h]
  exact run_bind_ok_iff.2 ⟨e, d', hrun, rfl⟩

/-- A column that is neither remembered nor shown by a subquery is written if its source is. -/
theorem exists_writes_of_known {source : Option SqlExpr} (h : d.known? r i source = some e)
    (hsource : d.memo (r.id, i) = none → exposure? d.query.units r.id i = none →
      source = some e → ∃ d', Writes d r i e (d'.note r i e) ∧ fromSource.run d = .ok (e, d')) :
    ∃ d', Writes d r i e d' ∧ (remembered r i fromSource).run d = .ok (e, d') := by
  rcases Draft.known?_eq_some h with hmemo | ⟨hnew, ⟨label, name, hshown, rfl⟩ | ⟨hhidden, hsome⟩⟩
  · exact ⟨_, .known hmemo, remembered_run_of_memo hmemo⟩
  · exact ⟨_, .exposed hnew hshown, remembered_run_of_exposure hnew hshown⟩
  · obtain ⟨d', hwrites, hrun⟩ := hsource hnew hhidden hsome
    exact ⟨_, hwrites, remembered_run_of_source hnew hhidden hrun⟩

end

/-- A column that can be written is written. -/
theorem exists_writes (h : d.column? r i = some e) :
    ∃ d', Writes d r i e d' ∧ (columnExpr r i).run d = .ok (e, d') := by
  induction r generalizing i e with
  | table t =>
    unfold Draft.column? at h
    unfold columnExpr
    refine exists_writes_of_known h fun hnew hhidden hsome => ?_
    obtain ⟨c, hc, rfl⟩ := Option.map_eq_some_iff.1 hsome
    refine ⟨d, .table hnew hhidden hc, ?_⟩
    rw [hc]
    rfl
  | selection id operand condition ih =>
    unfold Draft.column? at h
    unfold columnExpr
    refine exists_writes_of_known h fun hnew hhidden hsome => ?_
    obtain ⟨d', hwrites, hrun⟩ := ih hsome
    exact ⟨d', .selection hnew hhidden hwrites, hrun⟩
  | projection id operand whole shown ih =>
    unfold Draft.column? at h
    unfold columnExpr
    refine exists_writes_of_known h fun hnew hhidden hsome => ?_
    cases hsome
  | join id kind left right condition ihl ihr =>
    unfold Draft.column? at h
    unfold columnExpr
    refine exists_writes_of_known h fun hnew hhidden hsome => ?_
    by_cases hi : i < left.width
    · rw [if_pos hi] at hsome
      obtain ⟨d', hwrites, hrun⟩ := ihl hsome
      refine ⟨d', .left hnew hhidden hi hwrites, ?_⟩
      rw [if_pos hi, hrun]
    · rw [if_neg hi] at hsome
      obtain ⟨d', hwrites, hrun⟩ := ihr hsome
      refine ⟨d', .right hnew hhidden (Nat.not_lt.1 hi) hwrites, ?_⟩
      rw [if_neg hi, hrun]

/-! ## Units -/

/-- What a unit shows, if it is a subquery. -/
def FromUnit.exposure? : FromUnit → Nat → Option (String × Option String)
  | .subquery _ label exposed _, i => some (label, exposed[i]?.join)
  | .table _, _ => none

section

variable {units : List FromUnit} {u : FromUnit} {n : Nat}

theorem exposure?_cons :
    exposure? (u :: units) n i =
      if u.relation.id = n then (u.exposure? i).or (exposure? units n i)
      else exposure? units n i := by
  cases u with
  | table t => exact (ite_self _).symm
  | subquery r label exposed query =>
    simp only [exposure?, List.findSome?_cons, FromUnit.relation, FromUnit.exposure?]
    by_cases h : r.id = n
    · simp [h]
    · simp [h]

/-- A relation that is no unit is no subquery. -/
theorem exposure?_eq_none (h : ∀ u ∈ units, u.relation.id ≠ n) : exposure? units n i = none := by
  induction units with
  | nil => rfl
  | cons u rest ih =>
    rw [exposure?_cons, if_neg (h u (List.mem_cons_self ..))]
    exact ih fun v hv => h v (List.mem_cons_of_mem _ hv)

/-- A unit shows what it shows, whatever the others are. -/
theorem exposure?_of_mem (hnodup : (units.map (·.relation.id)).Nodup) (hu : u ∈ units) :
    exposure? units u.relation.id i = u.exposure? i := by
  induction units with
  | nil => cases hu
  | cons v rest ih =>
    rw [List.map_cons, List.nodup_cons] at hnodup
    rw [exposure?_cons]
    rcases List.mem_cons.1 hu with rfl | hu
    · have hrest : exposure? rest u.relation.id i = none := by
        refine exposure?_eq_none fun w hw heq => hnodup.1 ?_
        rw [← heq]
        exact List.mem_map_of_mem hw
      rw [if_pos rfl, hrest, Option.or_none]
    · rw [if_neg, ih hnodup.2 hu]
      intro heq
      apply hnodup.1
      rw [heq]
      exact List.mem_map_of_mem hu

theorem FromUnit.column?_of_exposure? {label name : String}
    (h : u.exposure? i = some (label, some name)) :
    u.column? i = some (.column ⟨.subquery label, name⟩) := by
  cases u with
  | table t => cases h
  | subquery r label' exposed query =>
    obtain ⟨rfl, hname⟩ := Prod.mk.inj (Option.some.inj h)
    rw [column?, hname]
    rfl

end

/-! ## Laying out a chain of joins -/

/-- The units of a chain of joins are there, and what is remembered is right. -/
structure Laid (a : Algebra) (r : Relation) (d : Draft) : Prop where
  mem : r ∈ a.relations
  relations : d.query.units.map (·.relation) = r.joinUnits
  total : ∀ u ∈ d.query.units, ∀ i < u.relation.width, (u.column? i).isSome
  faithful : Faithful r.joinChain d.query.units d.memo

namespace Laid

theorem congr (h : Laid a r d) (hwritten : d'.written = d.written)
    (hunits : d'.query.units = d.query.units) : Laid a r d' where
  mem := h.mem
  relations := by rw [hunits]; exact h.relations
  total := by rw [hunits]; exact h.total
  faithful := by rw [hunits]; unfold Draft.memo; rw [hwritten]; exact h.faithful

variable (ha : a.Sound) (h : Laid a r d)

include h

theorem exists_unit (hs : s ∈ r.joinUnits) : ∃ u ∈ d.query.units, u.relation = s := by
  rw [← h.relations] at hs
  obtain ⟨u, hu, rfl⟩ := List.mem_map.1 hs
  exact ⟨u, hu, rfl⟩

theorem of_mem_spine (hs : s ∈ r.spine) :
    s ∈ r.joinChain ++ d.query.units.map (·.relation) := by
  rw [h.relations]
  exact hs

include ha

theorem mem_spine (hs : s ∈ r.joinChain ++ d.query.units.map (·.relation)) :
    s ∈ a.relations := by
  rw [h.relations] at hs
  exact (ha.mem_of_mem_spine h.mem hs).1

theorem exposure?_unit {u : FromUnit} (hu : u ∈ d.query.units) :
    exposure? d.query.units u.relation.id i = u.exposure? i := by
  refine exposure?_of_mem ?_ hu
  have hnodup := ha.joinUnits_nodup h.mem
  rw [← h.relations, List.map_map] at hnodup
  exact hnodup

/-- A relation with an exposure is a unit. -/
theorem exists_unit_of_exposure? (hs : s ∈ a.relations) {shown : String × Option String}
    (hshown : exposure? d.query.units s.id i = some shown) :
    ∃ u ∈ d.query.units, u.relation = s ∧ u.exposure? i = some shown := by
  by_cases hunit : ∃ u ∈ d.query.units, u.relation.id = s.id
  · obtain ⟨u, hu, hid⟩ := hunit
    have hmem : u.relation ∈ a.relations :=
      h.mem_spine ha (List.mem_append_right _ (List.mem_map_of_mem hu))
    obtain rfl := ha.eq_of_id_eq hmem hs hid
    rw [h.exposure?_unit ha hu] at hshown
    exact ⟨u, hu, rfl, hshown⟩
  · rw [exposure?_eq_none fun u hu heq => hunit ⟨u, hu, heq⟩] at hshown
    cases hshown

/-- What is on the spine and is not exposed is a base table or a join of the chain. -/
theorem hidden_cases (hs : s ∈ r.spine) (hhidden : exposure? d.query.units s.id i = none) :
    (s ∈ r.joinChain ∧ ∃ id kind left right condition, s = .join id kind left right condition) ∨
      ∃ t, s = .table t ∧ FromUnit.table t ∈ d.query.units := by
  by_cases hchain : s ∈ r.joinChain
  · exact .inl ⟨hchain, Relation.exists_join_of_mem_joinChain hchain⟩
  · obtain ⟨u, hu, rfl⟩ := h.exists_unit (Relation.mem_joinUnits_of_mem_spine hs hchain)
    rw [h.exposure?_unit ha hu] at hhidden
    cases u with
    | table t => exact .inr ⟨t, rfl, hu⟩
    | subquery relation label exposed query => cases hhidden

/-- A column of the spine can be written if a subquery shows it or its source can be written. -/
theorem known?_isSome {source : Option SqlExpr} (hs : s ∈ r.spine) (hi : i < s.width)
    (hsource : exposure? d.query.units s.id i = none → source.isSome) :
    (d.known? s i source).isSome := by
  unfold Draft.known?
  split
  · rfl
  · split
    · rfl
    · next label hshown =>
      obtain ⟨u, hu, rfl, hexposure⟩ :=
        h.exists_unit_of_exposure? ha (ha.mem_of_mem_spine h.mem hs).1 hshown
      have htotal := h.total u hu i hi
      cases u with
      | table t => cases hexposure
      | subquery relation label exposed query =>
        simp only [FromUnit.exposure?, Option.some.injEq, Prod.mk.injEq] at hexposure
        simp [FromUnit.column?, hexposure.2] at htotal
    · next hhidden => exact hsource hhidden

/-- Every column of the spine can be written. -/
theorem column?_isSome (hs : s ∈ r.spine) (hi : i < s.width) : (d.column? s i).isSome := by
  induction s generalizing i with
  | table t =>
    unfold Draft.column?
    refine h.known?_isSome ha hs hi fun _ => ?_
    rw [Relation.width_table] at hi
    simp [hi]
  | selection id operand condition ih =>
    unfold Draft.column?
    refine h.known?_isSome ha hs hi fun hhidden => ?_
    rcases h.hidden_cases ha hs hhidden with ⟨-, _, _, _, _, _, heq⟩ | ⟨t, heq, -⟩
    · cases heq
    · cases heq
  | projection id operand whole shown ih =>
    unfold Draft.column?
    refine h.known?_isSome ha hs hi fun hhidden => ?_
    rcases h.hidden_cases ha hs hhidden with ⟨-, _, _, _, _, _, heq⟩ | ⟨t, heq, -⟩
    · cases heq
    · cases heq
  | join id kind left right condition ihl ihr =>
    unfold Draft.column?
    refine h.known?_isSome ha hs hi fun hhidden => ?_
    rcases h.hidden_cases ha hs hhidden with ⟨hchain, -⟩ | ⟨t, heq, -⟩
    · obtain ⟨hl, hr⟩ := Relation.operands_mem_spine hchain
      split
      · next hlt => exact ihl hl hlt
      · next hge =>
        refine ihr (List.mem_append_right _ hr) ?_
        have hmem := (ha.mem_of_mem_spine h.mem hs).1
        by_cases hid : left.id = right.id
        · rw [Relation.width_join_self hid] at hi
          exact absurd hi hge
        · rw [Relation.width_join hid] at hi
          omega
    · cases heq

omit ha in
/-- A column of the spine that has a reason can be remembered. -/
theorem note (hs : s ∈ r.spine) (hsame : ∀ f, d.memo (s.id, i) = some f → f = e)
    (hjust : Justified r.joinChain d.query.units d.memo s i e) : Laid a r (d.note s i e) :=
  ⟨h.mem, h.relations, h.total, Draft.faithful_note h.faithful (h.of_mem_spine hs) hsame hjust⟩

/-- Writing a column of the spine keeps all of this. -/
theorem writes (hs : s ∈ r.spine) (hwrites : Writes d s i e d') : Laid a r d' := by
  have hnew : ∀ {s : Relation} {i : Nat} {e : SqlExpr}, d.memo (s.id, i) = none →
      ∀ f, d.memo (s.id, i) = some f → f = e := by
    intro s i e hnone f hf
    rw [hnone] at hf
    cases hf
  have hsame : ∀ {s operand : Relation} {i j : Nat} {e : SqlExpr} {d' : Draft},
      s ∈ a.relations → operand ∈ a.relations → Writes d operand j e d' →
      d.column? s i = some e → ∀ f, d'.memo (s.id, i) = some f → f = e := by
    intro s operand i j e d' hs hop hwrites hcolumn f hf
    rw [← hwrites.keeps ha hop hs, Draft.column?_of_memo hf] at hcolumn
    exact Option.some.inj hcolumn
  have hcolumn := hwrites.column?_eq
  have hmem := (ha.mem_of_mem_spine h.mem hs).1
  induction hwrites with
  | known noted => exact h
  | exposed new shown =>
    obtain ⟨u, hu, hrelation, hexposure⟩ := h.exists_unit_of_exposure? ha hmem shown
    exact h.note hs (hnew new) (.unit hu hrelation (FromUnit.column?_of_exposure? hexposure))
  | @table t i c new hidden column =>
    rcases h.hidden_cases ha hs hidden with ⟨-, _, _, _, _, _, heq⟩ | ⟨u, heq, hu⟩
    · cases heq
    · cases heq
      refine h.note hs (hnew (s := .table t) new) (.unit hu rfl ?_)
      rw [FromUnit.column?, column]
      rfl
  | selection new hidden writes ih =>
    rcases h.hidden_cases ha hs hidden with ⟨-, _, _, _, _, _, heq⟩ | ⟨u, heq, hu⟩
    · cases heq
    · cases heq
  | left new hidden lt writes ih =>
    rcases h.hidden_cases ha hs hidden with ⟨hchain, -⟩ | ⟨u, heq, hu⟩
    · have hl := (Relation.operands_mem_spine hchain).1
      have hlmem := (ha.join_left hmem).1
      have hlaid := ih hl writes.column?_eq hlmem
      exact hlaid.note hs (hsame hmem hlmem writes hcolumn) (.left hchain lt writes.noted)
    · cases heq
  | right new hidden ge writes ih =>
    rcases h.hidden_cases ha hs hidden with ⟨hchain, -⟩ | ⟨u, heq, hu⟩
    · have hr := List.mem_append_right r.joinChain (Relation.operands_mem_spine hchain).2
      have hrmem := (ha.join_right hmem).1
      have hlaid := ih hr writes.column?_eq hrmem
      exact hlaid.note hs (hsame hmem hrmem writes hcolumn) (.right hchain ge writes.noted)
    · cases heq

/-- Every column of the spine is written. -/
theorem columnExpr_ends (hs : s ∈ r.spine) (hi : i < s.width) :
    Ends (columnExpr s i) d fun e d' => Laid a r d' ∧ Writes d s i e d' := by
  obtain ⟨e, he⟩ := Option.isSome_iff_exists.1 (h.column?_isSome ha hs hi)
  obtain ⟨d', hwrites, hrun⟩ := exists_writes he
  exact ends_of_run hrun ⟨h.writes ha hs hwrites, hwrites⟩

theorem noted_le (key : ColumnKey) (e : SqlExpr) (hkey : d.memo key = some e) :
    key.1 ≤ r.id := by
  obtain ⟨s, hs, hid, -⟩ := h.faithful key e hkey
  rw [h.relations] at hs
  rw [← hid]
  exact (ha.mem_of_mem_spine h.mem hs).2

theorem units_le (u : FromUnit) (hu : u ∈ d.query.units) : u.relation.id ≤ r.id := by
  refine (ha.mem_of_mem_spine h.mem (List.mem_append_right _ ?_)).2
  rw [← h.relations]
  exact List.mem_map_of_mem hu

/-- What is remembered of the spine is how it is written. -/
theorem reads (hs : s ∈ a.relations) (hnoted : d.memo (s.id, i) = some e) :
    Reads r.joinChain d.query.units s i e :=
  h.faithful.to_reads ha (fun _ hs => h.mem_spine ha hs) hs hnoted

end Laid

/-- Every column of the operands of a join is written. -/
theorem Laid.joinColumnExpr_ends {id : Nat} {kind : JoinKind} {left right : Relation}
    {condition : Expr Nat} (ha : a.Sound)
    (h : Laid a (.join id kind left right condition) d) (hi : i < left.width + right.width) :
    Ends (joinColumnExpr left right i) d fun e d' =>
      Laid a (.join id kind left right condition) d' ∧ d.OnlyNotes d' ∧
        Reads (Relation.join id kind left right condition).joinChain d.query.units
          (.join id kind left right condition) i e := by
  have hself : Relation.join id kind left right condition ∈
      (Relation.join id kind left right condition).joinChain := List.mem_cons_self ..
  obtain ⟨hl, hr⟩ := Relation.operands_mem_spine hself
  unfold joinColumnExpr
  split
  · next hlt =>
    refine (h.columnExpr_ends ha hl hlt).mono ?_
    rintro e d' ⟨hlaid, hwrites⟩
    have hreads := hlaid.reads ha (ha.join_left h.mem).1 hwrites.noted
    rw [hwrites.onlyNotes.query] at hreads
    exact ⟨hlaid, hwrites.onlyNotes, .left hself hlt hreads⟩
  · next hge =>
    refine (h.columnExpr_ends ha (List.mem_append_right _ hr) (by omega)).mono ?_
    rintro e d' ⟨hlaid, hwrites⟩
    have hreads := hlaid.reads ha (ha.join_right h.mem).1 hwrites.noted
    rw [hwrites.onlyNotes.query] at hreads
    exact ⟨hlaid, hwrites.onlyNotes, .right hself (Nat.not_lt.1 hge) hreads⟩

/-! ## Expressions -/

/-- An expression is written when its columns are.  `inv` is what writing a column keeps. -/
theorem exprOf_ends (inv : Draft → Prop) (reads : Nat → SqlExpr → Prop)
    {column : Nat → Compile SqlExpr} {bound : Nat → Prop} {expr : Expr Nat}
    (hcolumn : ∀ d i, inv d → bound i →
      Ends (column i) d fun e d' => inv d' ∧ d.OnlyNotes d' ∧ reads i e)
    (hplaceholders : ∀ d placeholders, inv d → inv { d with placeholders })
    (hbound : expr.All bound) (hd : inv d) :
    Ends (exprOf column expr) d fun e d' =>
      inv d' ∧ d'.query = d.query ∧ d'.subqueries = d.subqueries ∧
        Fills reads expr d.placeholders e d'.placeholders := by
  induction expr generalizing d with
  | column i =>
    refine (hcolumn d i hd hbound).mono ?_
    rintro e d' ⟨hinv, hnotes, hreads⟩
    rw [hnotes.placeholders]
    exact ⟨hinv, hnotes.query, hnotes.subqueries, .column hreads⟩
  | literal value =>
    exact ⟨_, { d with placeholders := (d.placeholders.add value).2 }, rfl,
      hplaceholders d _ hd, rfl, rfl, .literal⟩
  | aliased expr label ih =>
    refine (ih hbound hd).mono ?_
    rintro e d' ⟨hinv, hquery, hsub, hfills⟩
    exact ⟨hinv, hquery, hsub, .aliased hfills⟩
  | equal left right ihl ihr =>
    refine (ihl hbound.1 hd).bind ?_
    rintro l d₁ ⟨hinv₁, hquery₁, hsub₁, hfills₁⟩
    refine (ihr hbound.2 hinv₁).bind ?_
    rintro r d₂ ⟨hinv₂, hquery₂, hsub₂, hfills₂⟩
    exact ends_pure ⟨hinv₂, hquery₂.trans hquery₁, hsub₂.trans hsub₁, .equal hfills₁ hfills₂⟩
  | aggregate function argument ih =>
    refine (ih hbound hd).bind ?_
    rintro e d' ⟨hinv, hquery, hsub, hfills⟩
    exact ends_pure ⟨hinv, hquery, hsub, .aggregate hfills⟩

end RelationalAlgebra.Sql
