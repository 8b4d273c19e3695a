import RelationalAlgebra.Proofs.Mirroring
import RelationalAlgebra.Proofs.RenamedQueries

/-!
# Questions about what an arena stores

A question about relations of an arena is answered by their trees (`Stores.columnNames_eq`,
`Stores.columnPlace_eq`, `Stores.tablePlace_eq`), and no answer tells of identities.  So two arenas that
are mirrored answer alike (`Question.answer_mirrored`).
-/

namespace RelationalAlgebra

open RelationalAlgebra.Relation

/-! ## The tables of an arena -/

theorem Algebra.mem_tables {b : Algebra} {t : Table} :
    t ∈ b.tables ↔ Relation.table t ∈ b.relations := by
  rw [tables, List.mem_filterMap]
  constructor
  · rintro ⟨r, hr, htable⟩
    cases r with
    | table u =>
      obtain rfl := Option.some.inj htable
      exact hr
    | selection => cases htable
    | projection => cases htable
    | join => cases htable
  · intro ht
    exact ⟨_, ht, rfl⟩

namespace Arena

variable {a a' : Arena} {b c : Algebra} {r : Relation} {f : Nat → Nat}

/-- What stands at a place of different items is found there. -/
theorem idxOf?_of_nodup {l : List Nat} {d i : Nat} (hl : l.Nodup) (hd : l[i]? = some d) :
    l.idxOf? d = some i := by
  have hkeys : (l.map fun d => d).Nodup := by rwa [List.map_id']
  exact Algebra.findIdx?_key hkeys hd

theorem idxOf?_map (hf : f.Injective) (l : List Nat) (d : Nat) :
    (l.map f).idxOf? (f d) = l.idxOf? d := by
  rw [List.idxOf?, List.idxOf?, List.findIdx?_map]
  refine congrArg (List.findIdx? · l) (funext fun e => ?_)
  simp only [Function.comp_apply, hf.beq_eq]

namespace Stores

/-- A handle is that of a table if its relation is one. -/
theorem isSome_table (h : Stores a b) (hr : r ∈ b.relations) :
    (a.table r.id).toOption.isSome = r.table?.isSome := by
  obtain ⟨memo, hnode, -⟩ := h.keeps r hr
  rw [table, node, hnode]
  cases r <;> rfl

/-- The tables of the arena are those of the algebra. -/
theorem tables_eq (h : Stores a b) : a.tables = b.tables.map (·.id) := by
  have hrange : List.range a.nodes.length = b.relations.map (·.id) := by
    refine List.ext_getElem? fun i => ?_
    rw [List.getElem?_map, h.length, Algebra.size]
    cases hr : b.relations[i]? with
    | none => exact List.getElem?_eq_none (by simpa using List.getElem?_eq_none_iff.1 hr)
    | some r =>
      have hlt := (List.getElem?_eq_some_iff.1 hr).1
      rw [List.getElem?_range hlt, Option.map_some, h.sound.id_eq hr]
  have hfilter : ∀ l : List Relation, (∀ r ∈ l, r ∈ b.relations) →
      (l.map (·.id)).filter (fun n => (a.table n).toOption.isSome) =
        (l.filterMap (·.table?)).map (·.id) := by
    intro l hl
    induction l with
    | nil => rfl
    | cons r rest ih =>
      rw [List.map_cons, List.filter_cons, List.filterMap_cons,
        h.isSome_table (hl r (List.mem_cons_self ..)),
        ih fun s hs => hl s (List.mem_cons_of_mem _ hs)]
      cases r <;> rfl
  rw [Arena.tables, hrange, Algebra.tables]
  exact hfilter b.relations fun _ hr => hr

/-! ## Answers -/

theorem columnNames_eq (h : Stores a b) (hr : r ∈ b.relations) :
    a.columnNames r.id = .ok r.columnNames := by
  obtain ⟨memo, hnode, hholds⟩ := h.keeps r hr
  rw [Arena.columnNames, h.columns_eq hr, order_eq hnode, Relation.columnNames]
  change (memo.order.mapM a.column).map (fun shown => shown.map (·.name)) = _
  rw [hholds.mapM_column]
  change Except.ok (List.map _ (List.map _ _)) = _
  rw [List.map_map]
  rfl

theorem columnPlace_eq (h : Stores a b) (hr : r ∈ b.relations) (name : String) :
    a.columnPlace r.id name = .ok (r.find? name) := by
  rw [columnPlace, h.find_eq hr]
  cases hfound : r.find? name with
  | none => rfl
  | some i =>
    obtain ⟨-, d, hd⟩ := h.exists_found hr hfound
    have hplace := idxOf?_of_nodup (h.nodup_order hr) hd
    rw [Option.bind_some, hd, h.columns_eq hr]
    change (follow ((a.order r.id).idxOf? d)).map some = _
    rw [hplace]
    rfl

theorem tablePlace_eq (h : Stores a b) (hr : r ∈ b.relations) (name : String) :
    a.tablePlace r.id name = .ok ((r.tableNamed? name).bind fun t =>
      ((b.tables.map (·.id)).idxOf? t.id).map (·, t.name)) := by
  rw [tablePlace, h.reach_eq hr, h.tables_eq]
  cases hfound : r.tableNamed? name with
  | none => rfl
  | some t =>
    have ht := h.sound.table_mem_of_tableNamed? hr hfound
    obtain ⟨i, hi⟩ : ∃ i, (b.tables.map (·.id)).idxOf? t.id = some i := by
      rw [← Option.isSome_iff_exists, List.isSome_idxOf?]
      exact List.mem_map_of_mem (Algebra.mem_tables.2 ht)
    have htable := h.table_eq ht
    change (follow ((b.tables.map (·.id)).idxOf? t.id) >>= fun place =>
      a.table t.id >>= fun t => pure (some (place, t.name))) = _
    rw [hi, htable, Option.bind_some, hi]
    rfl

end Stores

/-! ## Questions -/

/-- Questions that refer to relations that correspond, and are the same otherwise. -/
inductive Question.Matches {ρ σ : Type} (R : ρ → σ → Prop) : Question ρ → Question σ → Prop
  | description {r : ρ} {s : σ} (h : R r s) : Question.Matches R (.description r) (.description s)
  | columnNames {r : ρ} {s : σ} (h : R r s) : Question.Matches R (.columnNames r) (.columnNames s)
  | column {r : ρ} {s : σ} (name : String) (h : R r s) :
      Question.Matches R (.column r name) (.column s name)
  | table {r : ρ} {s : σ} (name : String) (h : R r s) :
      Question.Matches R (.table r name) (.table s name)
  | wire {r : ρ} {s : σ} (h : R r s) : Question.Matches R (.wire r) (.wire s)
  | sql {r : ρ} {s : σ} (h : R r s) : Question.Matches R (.sql r) (.sql s)
  | equal {l r : ρ} {l' r' : σ} (hl : R l l') (hr : R r r') :
      Question.Matches R (.equal l r) (.equal l' r')

/-- A question matches itself if all relations it refers to correspond to themselves. -/
theorem Question.matches_self {ρ : Type} {R : ρ → ρ → Prop} {q : Question ρ}
    (h : ∀ r ∈ q.references, R r r) : q.Matches R q := by
  cases q with
  | description r => exact .description (h r (List.mem_singleton_self r))
  | columnNames r => exact .columnNames (h r (List.mem_singleton_self r))
  | column r name => exact .column name (h r (List.mem_singleton_self r))
  | table r name => exact .table name (h r (List.mem_singleton_self r))
  | wire r => exact .wire (h r (List.mem_singleton_self r))
  | sql r => exact .sql (h r (List.mem_singleton_self r))
  | equal l r =>
    exact .equal (h l (List.mem_cons_self ..))
      (h r (List.mem_cons_of_mem _ (List.mem_singleton_self r)))

/-- The statement of a relation is the same under other identities. -/
theorem statement_rename (hf : f.Injective) (r : Relation) :
    (Sql.compile (r.rename f)).map (fun c => Answer.statement c.sql c.placeholders.entries) =
      (Sql.compile r).map fun c => .statement c.sql c.placeholders.entries := by
  have hpair : ∀ y : Except Error Sql.Compiled,
      y.map (fun c => Answer.statement c.sql c.placeholders.entries) =
        (y.map fun c => (c.sql, c.placeholders)).map fun p => .statement p.1 p.2.entries := by
    intro y
    cases y <;> rfl
  rw [hpair, hpair, Sql.compile_rename hf]

/-- Tables that correspond have the same place. -/
theorem tablePlace_rename (h : Algebra.Embeds f c b) (r : Relation) (name : String) :
    (((r.rename f).tableNamed? name).bind fun t =>
        ((b.tables.map (·.id)).idxOf? t.id).map (·, t.name)) =
      (r.tableNamed? name).bind fun t =>
        ((c.tables.map (·.id)).idxOf? t.id).map (·, t.name) := by
  have hids : b.tables.map (·.id) = (c.tables.map (·.id)).map f := by
    rw [h.tables, List.map_map, List.map_map]
    rfl
  rw [tableNamed?_rename, hids]
  cases r.tableNamed? name with
  | none => rfl
  | some t =>
    change ((List.map f _).idxOf? (f t.id)).map (·, t.name) = _
    rw [idxOf?_map h.injective]
    rfl

/-- Arenas that are mirrored answer alike, and no handle leads nowhere. -/
theorem Question.answer_mirrored (hm : Mirrored f c b a a') {q q' : Question Nat}
    (hq : q.Matches (Handles f c) q') :
    ∃ y : Except Error Answer,
      q.answer a = y.mapError .failure ∧ q'.answer a' = y.mapError .failure := by
  have hf := hm.embeds.injective
  cases hq with
  | description h =>
    obtain ⟨r, hr, rfl, hr', rfl⟩ := hm.exists_relation h
    refine ⟨.ok (.text r.describe), ?_, ?_⟩
    · rw [answer, hm.stores.relation_eq hr]
      rfl
    · rw [answer, hm.stores'.relation_eq hr', ← describe_rename f r]
      rfl
  | columnNames h =>
    obtain ⟨r, hr, rfl, hr', rfl⟩ := hm.exists_relation h
    refine ⟨.ok (.texts r.columnNames), ?_, ?_⟩
    · rw [answer, hm.stores.columnNames_eq hr]
      rfl
    · rw [answer, hm.stores'.columnNames_eq hr', columnNames_rename hf]
      rfl
  | column name h =>
    obtain ⟨r, hr, rfl, hr', rfl⟩ := hm.exists_relation h
    refine ⟨.ok (.column (r.find? name)), ?_, ?_⟩
    · rw [answer, hm.stores.columnPlace_eq hr]
      rfl
    · rw [answer, hm.stores'.columnPlace_eq hr', find?_rename hf]
      rfl
  | table name h =>
    obtain ⟨r, hr, rfl, hr', rfl⟩ := hm.exists_relation h
    refine ⟨.ok (.table ((r.tableNamed? name).bind fun t =>
      ((c.tables.map (·.id)).idxOf? t.id).map (·, t.name))), ?_, ?_⟩
    · rw [answer, hm.stores.tablePlace_eq hr]
      rfl
    · rw [answer, hm.stores'.tablePlace_eq hr', tablePlace_rename hm.embeds]
      rfl
  | wire h =>
    obtain ⟨r, hr, rfl, hr', rfl⟩ := hm.exists_relation h
    refine ⟨r.toWire.map .json, ?_, ?_⟩
    · rw [answer, hm.stores.relation_eq hr]
      change (r.toWire.mapError Stop.failure >>= fun w => pure (Answer.json w)) = _
      cases r.toWire <;> rfl
    · rw [answer, hm.stores'.relation_eq hr']
      change ((r.rename f).toWire.mapError Stop.failure >>= fun w => pure (Answer.json w)) = _
      rw [toWire_rename hf]
      cases r.toWire <;> rfl
  | sql h =>
    obtain ⟨r, hr, rfl, hr', rfl⟩ := hm.exists_relation h
    have hanswer : ∀ s : Relation, ((Sql.compile s).mapError Stop.failure >>= fun c =>
        pure (Answer.statement c.sql c.placeholders.entries)) =
        ((Sql.compile s).map fun c => Answer.statement c.sql c.placeholders.entries).mapError
          Stop.failure := fun s => by cases Sql.compile s <;> rfl
    refine ⟨(Sql.compile r).map fun c => .statement c.sql c.placeholders.entries, ?_, ?_⟩
    · rw [answer, hm.stores.relation_eq hr]
      exact hanswer r
    · rw [answer, hm.stores'.relation_eq hr', ← statement_rename hf]
      exact hanswer (r.rename f)
  | equal hleft hright =>
    obtain ⟨l, hl, rfl, hl', rfl⟩ := hm.exists_relation hleft
    obtain ⟨r, hr, rfl, hr', rfl⟩ := hm.exists_relation hright
    refine ⟨.ok (.truth (l.equivalent r)), ?_, ?_⟩
    · rw [answer, hm.stores.relation_eq hl, hm.stores.relation_eq hr]
      rfl
    · rw [answer, hm.stores'.relation_eq hl', hm.stores'.relation_eq hr', ← equivalent_rename hf]
      rfl

end Arena

end RelationalAlgebra
