import RelationalAlgebra.Proofs.Following
import RelationalAlgebra.Proofs.Retrieval

/-!
# Showing columns in an arena

A relation's columns are derived one after the other before the relation is put into the arena.  The
relations that are there do not change by that (`Grows`, `Stores.grow`), and if the relation cannot be
built after all, the columns belong to nobody.

* `Holds.insert`: a new column is put into the memo behind the others.
* `derive_follows`: an expression is shown once.
* `passOn_follows` and `declared_follows`: the columns of a selection or a join, and those of a table,
  are derived in the order in which the tree lists them.
-/

namespace RelationalAlgebra

open RelationalAlgebra.Relation

namespace Arena

/-! ## An arena with more columns -/

/-- Columns are added and nothing else. -/
structure Grows (a a' : Arena) : Prop where
  nodes : a'.nodes = a.nodes
  tablesByName : a'.tablesByName = a.tablesByName
  derived : a.derived <+: a'.derived

section

variable {a a' a'' : Arena} {b : Algebra} {owner d : Nat}
  {ancestor : Expr Nat → Expr ColumnHandle} {memo : Memo} {shown : List OutputColumn}
  {c : OutputColumn}

theorem Grows.refl (a : Arena) : Grows a a := ⟨rfl, rfl, List.prefix_rfl⟩

theorem Grows.trans (h : Grows a a') (h' : Grows a' a'') : Grows a a'' :=
  ⟨h'.nodes.trans h.nodes, h'.tablesByName.trans h.tablesByName, h.derived.trans h'.derived⟩

/-- Columns that are there stay as they are. -/
theorem Grows.derived_eq (h : Grows a a') {v : Derived} (hd : a.derived[d]? = some v) :
    a'.derived[d]? = some v := by
  obtain ⟨more, hmore⟩ := h.derived
  have hlt := (List.getElem?_eq_some_iff.1 hd).1
  rw [← hmore, List.getElem?_append_left hlt]
  exact hd

theorem Grows.order_eq (h : Grows a a') (r : Nat) : a'.order r = a.order r := by
  rw [order, order, h.nodes]

theorem Grows.encode_eq (h : Grows a a') (operands : List Relation) (e : Expr Nat) :
    a'.encode operands e = a.encode operands e := by
  simp only [encode, inputs, h.order_eq]

theorem Grows.ancestor_eq (h : Grows a a') (r : Relation) : a'.ancestor r = a.ancestor r := by
  cases r with
  | table t => rfl
  | _ => exact funext (h.encode_eq _)

theorem Grows.operator_eq (h : Grows a a') (shown : List Nat) (r : Relation) :
    a'.operator shown r = a.operator shown r := by
  cases r <;> simp only [operator, h.encode_eq]

/-- A column of a memo is there. -/
theorem Holds.exists_derived (h : Holds a owner ancestor memo shown) (hd : d ∈ memo.order) :
    ∃ v, a.derived[d]? = some v := by
  obtain ⟨i, hi⟩ := List.getElem?_of_mem hd
  obtain ⟨c, -, hderived⟩ := h.exists_shown hi
  exact ⟨_, hderived⟩

/-- The next column is in no memo. -/
theorem Holds.length_notMem (h : Holds a owner ancestor memo shown) :
    a.derived.length ∉ memo.order := by
  intro hmem
  obtain ⟨v, hv⟩ := h.exists_derived hmem
  exact Nat.lt_irrefl _ (List.getElem?_eq_some_iff.1 hv).1

/-- A memo is kept while columns are added. -/
theorem Holds.grow (h : Holds a owner ancestor memo shown) (hgrows : Grows a a') :
    Holds a' owner ancestor memo shown := by
  have hsame : ∀ d ∈ memo.order, a'.derived[d]? = a.derived[d]? := by
    intro d hd
    obtain ⟨v, hv⟩ := h.exists_derived hd
    rw [hv, hgrows.derived_eq hv]
  constructor
  · exact h.length
  · intro i d c hd hc
    rw [hsame d (List.mem_of_getElem? hd)]
    exact h.derived i d c hd hc
  · exact h.nodup
  · intro e d
    rw [h.byAncestor]
    constructor
    · rintro ⟨hd, he⟩
      exact ⟨hd, by rwa [hsame d hd]⟩
    · rintro ⟨hd, he⟩
      exact ⟨hd, by rwa [hsame d hd] at he⟩
  · intro name d hd
    obtain ⟨hmem, hname⟩ := h.byName name d hd
    exact ⟨hmem, by rwa [hsame d hmem]⟩
  · intro d hd c hc
    rw [hsame d hd] at hc
    exact h.named d hd c hc

/-- The relations that are stored do not change when columns are added. -/
theorem Stores.grow (h : Stores a b) (hgrows : Grows a a') : Stores a' b := by
  refine ⟨h.sound, by rw [hgrows.nodes]; exact h.length, ?_, ?_⟩
  · intro r hr
    obtain ⟨memo, hnode, hholds⟩ := h.keeps r hr
    refine ⟨memo, by rw [hgrows.nodes, hgrows.operator_eq]; exact hnode, ?_⟩
    rw [hgrows.ancestor_eq]
    exact hholds.grow hgrows
  · intro name
    rw [tableNamed?, hgrows.tablesByName]
    exact h.tables name

/-! ## One more column -/

/-- No columns. -/
theorem holds_empty (a : Arena) (owner : Nat) (ancestor : Expr Nat → Expr ColumnHandle) :
    Holds a owner ancestor .empty [] := by
  constructor <;> simp [Memo.empty]

/-- The arena with one more column. -/
def withColumn (a : Arena) (column : Derived) : Arena :=
  { a with derived := a.derived ++ [column] }

theorem grows_withColumn (a : Arena) (column : Derived) : Grows a (a.withColumn column) :=
  ⟨rfl, rfl, List.prefix_append ..⟩

theorem derived_withColumn (a : Arena) (column : Derived) :
    (a.withColumn column).derived[a.derived.length]? = some column := by
  simp [withColumn]

theorem Holds.derived_insert (h : Holds a owner ancestor memo shown) {i d : Nat} {c' : OutputColumn}
    (hd : (memo.order ++ [a.derived.length])[i]? = some d) (hc' : (shown ++ [c])[i]? = some c') :
    (a.withColumn ⟨owner, ancestor c.source, c.label, c.name⟩).derived[d]? =
      some ⟨owner, ancestor c'.source, c'.label, c'.name⟩ := by
  by_cases hi : i < memo.order.length
  · rw [List.getElem?_append_left hi] at hd
    rw [List.getElem?_append_left (h.length ▸ hi)] at hc'
    exact (h.grow (grows_withColumn a _)).derived i d c' hd hc'
  · rw [List.getElem?_append_right (Nat.le_of_not_lt hi), List.getElem?_singleton] at hd
    rw [List.getElem?_append_right (h.length ▸ Nat.le_of_not_lt hi), List.getElem?_singleton,
      ← h.length] at hc'
    by_cases hzero : i - memo.order.length = 0
    · rw [if_pos hzero] at hd hc'
      cases hd
      cases hc'
      exact derived_withColumn a _
    · rw [if_neg hzero] at hd
      cases hd

theorem Holds.byAncestor_insert (h : Holds a owner ancestor memo shown) (column : Derived)
    (hnew : memo.byAncestor.lookup column.ancestor = none) (e : Expr ColumnHandle) (d : Nat) :
    List.lookup e ((column.ancestor, a.derived.length) :: memo.byAncestor) = some d ↔
      d ∈ memo.order ++ [a.derived.length] ∧
        ((a.withColumn column).derived[d]?).map (·.ancestor) = some e := by
  have hold := (h.grow (grows_withColumn a column)).byAncestor
  have hnext := derived_withColumn a column
  rw [List.lookup_cons, List.mem_append, List.mem_singleton]
  by_cases he : e = column.ancestor
  · rw [beq_iff_eq.2 he, Option.some.injEq]
    constructor
    · rintro rfl
      exact ⟨.inr rfl, by rw [hnext, he]; rfl⟩
    · rintro ⟨hd | rfl, hancestor⟩
      · have hfound := (hold e d).2 ⟨hd, hancestor⟩
        rw [he, hnew] at hfound
        cases hfound
      · rfl
  · rw [beq_eq_false_iff_ne.2 he, hold e d]
    refine and_congr_left fun hancestor => (or_iff_left ?_).symm
    rintro rfl
    rw [hnext] at hancestor
    exact he (Option.some.inj hancestor).symm

theorem Holds.byName_insert (h : Holds a owner ancestor memo shown) (column : Derived)
    {name : String} {d : Nat}
    (hd : List.lookup name ((column.name, a.derived.length) :: memo.byName) = some d) :
    d ∈ memo.order ++ [a.derived.length] ∧
      ((a.withColumn column).derived[d]?).map (·.name) = some name := by
  rw [List.lookup_cons] at hd
  by_cases hname : name = column.name
  · rw [beq_iff_eq.2 hname] at hd
    obtain rfl := Option.some.inj hd
    exact ⟨by simp, by rw [derived_withColumn, hname]; rfl⟩
  · rw [beq_eq_false_iff_ne.2 hname] at hd
    obtain ⟨hmem, hfound⟩ := (h.grow (grows_withColumn a column)).byName name d hd
    exact ⟨List.mem_append_left _ hmem, hfound⟩

theorem Holds.named_insert (h : Holds a owner ancestor memo shown) {column v : Derived} {d : Nat}
    (hd : d ∈ memo.order ++ [a.derived.length]) (hv : (a.withColumn column).derived[d]? = some v) :
    (List.lookup v.name ((column.name, a.derived.length) :: memo.byName)).isSome := by
  rw [List.lookup_cons]
  by_cases hname : v.name = column.name
  · rw [beq_iff_eq.2 hname]
    rfl
  · rw [beq_eq_false_iff_ne.2 hname]
    rcases List.mem_append.1 hd with hd | hd
    · exact (h.grow (grows_withColumn a column)).named d hd v hv
    · rw [List.mem_singleton.1 hd, derived_withColumn] at hv
      exact absurd (congrArg Derived.name (Option.some.inj hv)).symm hname

/-- A column that is not shown yet is put behind the others. -/
theorem Holds.insert (h : Holds a owner ancestor memo shown)
    (hnew : memo.byAncestor.lookup (ancestor c.source) = none) :
    Holds (a.withColumn ⟨owner, ancestor c.source, c.label, c.name⟩) owner ancestor
      (memo.insert a.derived.length (ancestor c.source) c.name) (shown ++ [c]) where
  length := by simp [Memo.insert, h.length]
  derived _ _ _ hd hc' := h.derived_insert hd hc'
  nodup := List.nodup_append'.2 ⟨h.nodup, by simp, by simpa using h.length_notMem⟩
  byAncestor := h.byAncestor_insert ⟨owner, ancestor c.source, c.label, c.name⟩ hnew
  byName _ _ hd := h.byName_insert ⟨owner, ancestor c.source, c.label, c.name⟩ hd
  named _ hd _ hv := h.named_insert hd hv

/-! ## Showing an expression once -/

/-- Shows an expression under its alias or else under the name that is at hand, unless it is shown
already. -/
def showUnder (name? : Option String) (shown : List OutputColumn) (e : Expr Nat) :
    Except Error (List OutputColumn) :=
  let (source, label) := e.stripAlias
  if shown.any (·.source == source) then .ok shown
  else
    match label <|> name? with
    | some name => .ok (shown ++ [⟨name, label, source⟩])
    | none => .error (.invalidProjection "expressions without a column name need an alias")

theorem showOnce_eq (operand : Relation) (shown : List OutputColumn) (e : Expr Nat) :
    Algebra.showOnce operand shown e =
      showUnder (Algebra.nameOf? operand e.stripAlias.1) shown e := by
  unfold Algebra.showOnce showUnder Algebra.outputColumn
  generalize e.stripAlias = stripped
  obtain ⟨source, label⟩ := stripped
  simp only []
  split
  · rfl
  · cases label <|> Algebra.nameOf? operand source <;> rfl

/-- A column that is not shown yet is put into the arena. -/
theorem Holds.derive_new (h : Holds a owner ancestor memo shown) {source : Expr Nat}
    {label : Option String} {name : String}
    (hnew : memo.byAncestor.lookup (ancestor source) = none) :
    Follows (do
        let column ← addDerived ⟨owner, ancestor source, label, name⟩
        return (column, memo.insert column (ancestor source) name)) a
      (.ok (shown ++ [⟨name, label, source⟩]))
      (fun (d, memo') shown' a' => Grows a a' ∧ Holds a' owner ancestor memo' shown' ∧
        (a'.derived[d]?).map (·.ancestor) = some (ancestor source) ∧
        memo'.order = if d ∈ memo.order then memo.order else memo.order ++ [d])
      (Grows a) := by
  have hinsert := h.insert (c := ⟨name, label, source⟩) hnew
  have hadd : (addDerived ⟨owner, ancestor source, label, name⟩).on a =
      (.ok a.derived.length, a.withColumn ⟨owner, ancestor source, label, name⟩) := rfl
  refine follows_bind_ok hadd ?_
  refine follows_pure ⟨grows_withColumn .., hinsert, by rw [derived_withColumn]; rfl, ?_⟩
  rw [if_neg h.length_notMem]
  rfl

/-- Deriving an expression shows it once, and gives the column that shows it. -/
theorem derive_follows (h : Holds a owner ancestor memo shown) {e : Expr Nat}
    {bound : Expr ColumnHandle} {hint name? : Option String}
    (hstrip : bound.stripAlias = (ancestor e.stripAlias.1, e.stripAlias.2))
    (hinj : ∀ c ∈ shown, ancestor c.source = ancestor e.stripAlias.1 → c.source = e.stripAlias.1)
    (hname : hint = none → a.nameOf (ancestor e.stripAlias.1) = .ok name?)
    (hhint : hint ≠ none → hint = name?) :
    Follows (derive owner memo bound hint) a (showUnder name? shown e)
      (fun (d, memo') shown' a' => Grows a a' ∧ Holds a' owner ancestor memo' shown' ∧
        (a'.derived[d]?).map (·.ancestor) = some (ancestor e.stripAlias.1) ∧
        memo'.order = if d ∈ memo.order then memo.order else memo.order ++ [d])
      (Grows a) := by
  have hlookup := h.lookup_ancestor hinj
  unfold derive showUnder
  generalize e.stripAlias = stripped at hstrip hinj hname hhint hlookup ⊢
  obtain ⟨source, label⟩ := stripped
  simp only [] at hstrip hinj hname hhint hlookup ⊢
  rw [hstrip, ← List.findIdx?_isSome]
  simp only []
  cases hfound : shown.findIdx? (·.source == source) with
  | some i =>
    obtain ⟨hlt, -, -⟩ := List.findIdx?_eq_some_iff_getElem.1 hfound
    obtain ⟨d, hd, -⟩ := h.exists_column (List.getElem?_eq_getElem hlt)
    rw [hfound, Option.bind_some, hd] at hlookup
    obtain ⟨hmem, hancestor⟩ := (h.byAncestor _ d).1 hlookup
    simp only [hlookup]
    exact follows_pure ⟨.refl a, h, hancestor, (if_pos hmem).symm⟩
  | none =>
    rw [hfound, Option.bind_none] at hlookup
    simp only [hlookup]
    cases hboth : label <|> hint with
    | some name =>
      obtain rfl | hsome : name? = hint ∨ label = some name := by
        cases label with
        | some _ => exact .inr hboth
        | none => exact .inl (hhint (by rintro rfl; cases hboth)).symm
      · rw [hboth]
        exact h.derive_new hlookup
      · rw [hsome]
        exact h.derive_new hlookup
    | none =>
      obtain ⟨rfl, rfl⟩ : label = none ∧ hint = none := by simpa using hboth
      refine follows_bind_ok (v := name?) (congrArg (·, a) (hname rfl)) ?_
      cases name? with
      | none => exact follows_fail (.refl a)
      | some name => exact h.derive_new hlookup

/-- What is shown after an expression was shown. -/
theorem showUnder_ok {name? : Option String} {shown shown' : List OutputColumn} {e : Expr Nat}
    (h : showUnder name? shown e = .ok shown') :
    shown' = shown ∨ ∃ name, shown' = shown ++ [⟨name, e.stripAlias.2, e.stripAlias.1⟩] := by
  unfold showUnder at h
  generalize e.stripAlias = stripped at h ⊢
  obtain ⟨source, label⟩ := stripped
  simp only [] at h ⊢
  split at h
  · cases h
    exact .inl rfl
  · split at h
    · cases h
      exact .inr ⟨_, rfl⟩
    · cases h

/-! ## Showing one expression after the other -/

/-- What has been derived since `a`, where sources read columns with `P` and are told apart by their
ancestors. -/
structure Deriving (a : Arena) (owner : Nat) (ancestor : Expr Nat → Expr ColumnHandle)
    (P : Nat → Prop) (memo : Memo) (shown : List OutputColumn) (a' : Arena) : Prop where
  grows : Grows a a'
  holds : Holds a' owner ancestor memo shown
  sources : ∀ c ∈ shown, c.source.All P
  inj : ∀ e e' : Expr Nat, e.All P → e'.All P → ancestor e = ancestor e' → e = e'

variable {P : Nat → Prop}

/-- Deriving one more expression. -/
theorem Deriving.derive_follows (h : Deriving a owner ancestor P memo shown a') {e : Expr Nat}
    {bound : Expr ColumnHandle} {hint name? : Option String} (he : e.stripAlias.1.All P)
    (hstrip : bound.stripAlias = (ancestor e.stripAlias.1, e.stripAlias.2))
    (hname : hint = none → a'.nameOf (ancestor e.stripAlias.1) = .ok name?)
    (hhint : hint ≠ none → hint = name?) :
    Follows (derive owner memo bound hint) a' (showUnder name? shown e)
      (fun (d, memo') shown' a'' => Deriving a owner ancestor P memo' shown' a'' ∧
        (a''.derived[d]?).map (·.ancestor) = some (ancestor e.stripAlias.1) ∧
        memo'.order = if d ∈ memo.order then memo.order else memo.order ++ [d])
      (Grows a) := by
  have hinj : ∀ c ∈ shown, ancestor c.source = ancestor e.stripAlias.1 →
      c.source = e.stripAlias.1 := fun c hc => h.inj _ _ (h.sources c hc) he
  refine (Arena.derive_follows h.holds hstrip hinj hname hhint).mono ?_ fun a'' hgrows =>
    h.grows.trans hgrows
  rintro ⟨d, memo'⟩ shown' a'' hshown ⟨hgrows, hholds, hcolumn⟩
  refine ⟨⟨h.grows.trans hgrows, hholds, ?_, h.inj⟩, hcolumn⟩
  rcases showUnder_ok hshown with rfl | ⟨name, rfl⟩
  · exact h.sources
  · intro c hc
    rcases List.mem_append.1 hc with hc | hc
    · exact h.sources c hc
    · obtain rfl := List.mem_singleton.1 hc
      exact he

/-- Deriving one more expression, of which only the memo is kept. -/
theorem Deriving.memo_follows (h : Deriving a owner ancestor P memo shown a') {e : Expr Nat}
    {bound : Expr ColumnHandle} {hint name? : Option String} (he : e.stripAlias.1.All P)
    (hstrip : bound.stripAlias = (ancestor e.stripAlias.1, e.stripAlias.2))
    (hname : hint = none → a'.nameOf (ancestor e.stripAlias.1) = .ok name?)
    (hhint : hint ≠ none → hint = name?) :
    Follows (do return (← derive owner memo bound hint).2) a' (showUnder name? shown e)
      (fun memo' shown' a'' => Deriving a owner ancestor P memo' shown' a'') (Grows a) := by
  have hfollows := (h.derive_follows he hstrip hname hhint).bind
    (f := fun p => pure p.2) (g := pure) fun p shown' a'' hp => follows_pure hp.1
  rwa [bind_pure] at hfollows

/-! ### Columns as they are -/

/-- Columns shown as they are, one after the other, under the names they have. -/
theorem foldlM_showUnder_zipIdx (names : List String) (shown : List OutputColumn) (k : Nat)
    (hshown : ∀ c ∈ shown, ∃ j < k, c.source = .column j) :
    (names.zipIdx k).foldlM (fun shown p => showUnder (some p.1) shown (.column p.2)) shown =
      .ok (shown ++ names.mapIdx fun i name => ⟨name, none, .column (k + i)⟩) := by
  induction names generalizing shown k with
  | nil => simp [pure, Except.pure]
  | cons name rest ih =>
    have hnew : shown.any (·.source == .column k) = false := by
      rw [List.any_eq_false]
      intro c hc
      obtain ⟨j, hj, hsource⟩ := hshown c hc
      rw [hsource, beq_iff_eq, Expr.column.injEq]
      omega
    have hstep : showUnder (some name) shown (.column k) =
        .ok (shown ++ [⟨name, none, .column k⟩]) := by
      simp [showUnder, Expr.stripAlias, hnew]
    rw [List.zipIdx_cons, List.foldlM_cons, hstep]
    change (rest.zipIdx (k + 1)).foldlM _ (shown ++ [⟨name, none, .column k⟩]) = _
    rw [ih, List.mapIdx_cons, List.append_assoc]
    · simp only [List.singleton_append, Nat.add_zero, Nat.add_assoc, Nat.add_comm 1]
    · intro c hc
      rcases List.mem_append.1 hc with hc | hc
      · obtain ⟨j, hj, hsource⟩ := hshown c hc
        exact ⟨j, by omega, hsource⟩
      · rw [List.mem_singleton.1 hc]
        exact ⟨k, by omega, rfl⟩

/-- Columns that are shown already are not shown again. -/
theorem foldlM_showUnder_again {again : List (String × Nat)} {shown : List OutputColumn}
    (h : ∀ p ∈ again, ∃ c ∈ shown, c.source = .column p.2) :
    again.foldlM (fun shown p => showUnder (some p.1) shown (.column p.2)) shown = .ok shown := by
  induction again with
  | nil => rfl
  | cons p rest ih =>
    obtain ⟨c, hc, hsource⟩ := h p (List.mem_cons_self ..)
    have hstep : showUnder (some p.1) shown (.column p.2) = .ok shown := by
      have hany : shown.any (·.source == .column p.2) = true :=
        List.any_eq_true.2 ⟨c, hc, by rw [hsource, beq_self_eq_true]⟩
      simp [showUnder, Expr.stripAlias, hany]
    rw [List.foldlM_cons, hstep]
    exact ih fun q hq => h q (List.mem_cons_of_mem _ hq)

/-- A column of the operands has the name that it is shown under. -/
theorem Stores.input_name {b : Algebra} {operands : List Relation} {i : Nat} (h : Stores a b)
    (hops : Pair b operands) (hc : (beside operands)[i]? = some c)
    (hd : (a.inputs operands)[i]? = some d) : (a.derived[d]?).map (·.name) = some c.name := by
  have hname : ∀ r ∈ b.relations, ∀ i : Nat, ∀ c : OutputColumn, r.columns[i]? = some c →
      (a.order r.id)[i]? = some d → (a.derived[d]?).map (·.name) = some c.name := by
    intro r hr i c hc hd
    obtain ⟨d', c', hd', hc', hderived⟩ :=
      h.exists_derived hr (List.getElem?_eq_some_iff.1 hc).1
    obtain rfl := Option.some.inj (hd.symm.trans hd')
    obtain rfl := Option.some.inj (hc.symm.trans hc')
    rw [hderived]
    rfl
  cases hops with
  | one mem =>
    rw [beside_one] at hc
    rw [inputs_one] at hd
    exact hname _ mem i c hc hd
  | @two left right left_mem right_mem =>
    rw [inputs_two] at hd
    change (joined left right left.columns right.columns)[i]? = some c at hc
    have hlength := h.length_order left_mem
    by_cases hi : i < left.width
    · have hleft : left.columns[i]? = some c := by
        rw [joined] at hc
        split at hc
        · exact hc
        · rwa [List.getElem?_append_left hi] at hc
      rw [List.getElem?_append_left (by omega)] at hd
      exact hname _ left_mem i c hleft hd
    · have hright : right.columns[i - left.width]? = some c := by
        rw [joined] at hc
        split at hc
        · exact absurd (List.getElem?_eq_some_iff.1 hc).1 hi
        · rwa [List.getElem?_append_right (Nat.le_of_not_lt hi)] at hc
      rw [List.getElem?_append_right (by omega), hlength] at hd
      exact hname _ right_mem _ c hright hd

/-- A column of the operands, and its name and place among those that are shown. -/
def Input (a : Arena) (operands : List Relation) (d : Nat) (p : String × Nat) : Prop :=
  p.2 < breadth operands ∧ (a.inputs operands)[p.2]? = some d ∧
    (a.derived[d]?).map (·.name) = some p.1

/-- The columns of the operands are the ones that are shown; a relation beside itself has each of its
columns again. -/
theorem Stores.forall₂_inputs {b : Algebra} {operands : List Relation} (h : Stores a b)
    (hops : Pair b operands) : ∃ again : List (String × Nat),
      (∀ p ∈ again, p.2 < breadth operands) ∧
      List.Forall₂ (Input a operands) (a.inputs operands)
        (((beside operands).map (·.name)).zipIdx ++ again) := by
  have hfirst : ∀ l : List Nat, l.length = breadth operands →
      (∀ (i d : Nat), l[i]? = some d → (a.inputs operands)[i]? = some d) →
      List.Forall₂ (Input a operands) l ((beside operands).map (·.name)).zipIdx := by
    intro l hlength hl
    rw [List.forall₂_iff_get]
    refine ⟨by simpa [breadth] using hlength, fun i hi hi' => ?_⟩
    have hib : i < (beside operands).length := by rwa [← breadth, ← hlength]
    have hd := hl i _ (List.getElem?_eq_getElem hi)
    have hname := h.input_name hops (List.getElem?_eq_getElem hib) hd
    simp only [List.get_eq_getElem, List.getElem_zipIdx, List.getElem_map, Nat.zero_add]
    exact ⟨by omega, hd, hname⟩
  cases hops with
  | one mem =>
    refine ⟨[], by simp, ?_⟩
    rw [List.append_nil]
    refine hfirst _ ?_ fun i d hd => hd
    rw [inputs_one, h.length_order mem, breadth_one]
  | @two left right left_mem right_mem =>
    by_cases hself : left.id = right.id
    · have hleft := hfirst (a.order left.id) (by rw [h.length_order left_mem, breadth_self hself]) (by
        intro i d hd
        have hi := (List.getElem?_eq_some_iff.1 hd).1
        rw [inputs_two, List.getElem?_append_left hi, hd])
      refine ⟨((beside [left, right]).map (·.name)).zipIdx, ?_, ?_⟩
      · intro p hp
        obtain ⟨i, hi, rfl⟩ := List.getElem_of_mem hp
        simp only [List.getElem_zipIdx, Nat.zero_add]
        simpa [breadth] using hi
      · have hinputs : a.inputs [left, right] = a.order left.id ++ a.order left.id := by
          rw [inputs_two, hself]
        rw [hinputs]
        exact List.rel_append hleft hleft
    · refine ⟨[], by simp, ?_⟩
      rw [List.append_nil]
      refine hfirst _ ?_ fun i d hd => hd
      rw [inputs_two, List.length_append, h.length_order left_mem, h.length_order right_mem]
      exact (breadth_two hself).symm

/-- Different expressions over the operands have different ancestors. -/
theorem Stores.deriving_nil {b : Algebra} {operands : List Relation} (h : Stores a b)
    (hops : Pair b operands) (owner : Nat) :
    Deriving a owner (a.encode operands) (· < breadth operands) .empty [] a :=
  ⟨.refl a, holds_empty a owner _, by simp, fun _ _ he he' => h.encode_inj hops he he'⟩

/-- The names of columns that are shown as they are. -/
theorem passThrough_eq (columns : List OutputColumn) :
    passThrough columns = (columns.map (·.name)).mapIdx fun i name => ⟨name, none, .column i⟩ := by
  simp [passThrough, List.mapIdx_eq_zipIdx_map, List.zipIdx_map, Function.comp_def]

/-- Passing on the columns of the operands shows each of them once. -/
theorem passOn_follows {b : Algebra} {operands : List Relation} (h : Stores a b)
    (hops : Pair b operands) (owner : Nat) :
    Follows (passOn owner (operands.map (·.id))) a (.ok (passThrough (beside operands)))
      (fun memo shown a' =>
        Deriving a owner (a.encode operands) (· < breadth operands) memo shown a')
      (Grows a) := by
  obtain ⟨again, hagain, hinputs⟩ := h.forall₂_inputs hops
  have hcolumns : ((operands.map (·.id)).mapM fun operand => look (·.columns operand)).on a =
      (.ok ((operands.map (·.id)).map a.order), a) := by
    refine on_mapM_look fun r hr => ?_
    obtain ⟨s, hs, rfl⟩ := List.mem_map.1 hr
    exact h.columns_eq (hops.mem hs)
  have hshown : (((beside operands).map (·.name)).zipIdx ++ again).foldlM
      (fun shown p => showUnder (some p.1) shown (.column p.2)) [] =
      .ok (passThrough (beside operands)) := by
    rw [List.foldlM_append, foldlM_showUnder_zipIdx _ [] 0 (by simp)]
    change again.foldlM _ _ = _
    rw [passThrough_eq]
    simp only [Nat.zero_add, List.nil_append]
    refine foldlM_showUnder_again fun p hp => ?_
    have hlt := hagain p hp
    refine ⟨_, List.mem_mapIdx.2 ⟨p.2, by simpa [breadth] using hlt, rfl⟩, rfl⟩
  rw [← hshown]
  refine follows_bind_ok hcolumns ?_
  rw [← List.flatMap_def, List.flatMap_map]
  refine follows_foldlM hinputs ?_ (h.deriving_nil hops owner)
  rintro memo shown a' d ⟨name, i⟩ ⟨hi, hd, hname⟩ hderiving
  simp only [] at hi hd hname
  have hcolumn : a.encode operands (.column i) = .column (.derived d) := by
    simp only [encode, Expr.map, hd, Option.getD_some]
  refine hderiving.memo_follows (e := .column i) hi (by rw [← hcolumn]; rfl) ?_ (by simp)
  · intro _
    obtain ⟨v, hv, hvname⟩ := Option.map_eq_some_iff.1 hname
    change a'.nameOf (a.encode operands (.column i)) = _
    rw [hcolumn, nameOf, column, hderiving.grows.derived_eq hv, ← hvname]
    rfl

/-- The columns of a table are shown under their own names. -/
theorem declared_follows (a : Arena) (t : Table) :
    Follows (t.columns.zipIdx.foldlM (fun memo (c, i) => do
        return (← derive t.id memo (.column (.declared t.id i)) (some c.name)).2) .empty) a
      (.ok (Relation.table t).columns)
      (fun memo shown a' => Grows a a' ∧ Holds a' t.id (Expr.map (.declared t.id)) memo shown)
      (Grows a) := by
  have hshown : (t.columns.zipIdx.map fun p => (p.1.name, p.2)).foldlM
      (fun shown p => showUnder (some p.1) shown (.column p.2)) [] =
      .ok (Relation.table t).columns := by
    have hfold := foldlM_showUnder_zipIdx (t.columns.map (·.name)) [] 0 (by simp)
    rw [List.zipIdx_map] at hfold
    refine hfold.trans ?_
    simp [Relation.columns, List.mapIdx_eq_zipIdx_map, List.zipIdx_map, Function.comp_def]
  have hnil : Deriving a t.id (Expr.map (ColumnHandle.declared t.id)) (fun _ => True) .empty [] a :=
    ⟨.refl a, holds_empty a _ _, by simp, fun e e' he he' => Expr.eq_of_map_eq
      (fun _ _ _ _ heq => (ColumnHandle.declared.inj heq).2) he he'⟩
  rw [← hshown]
  refine (follows_foldlM (R := fun c p => p = (c.1.name, c.2)) (P := fun memo shown a' =>
    Deriving a t.id (Expr.map (.declared t.id)) (fun _ => True) memo shown a')
    (List.forall₂_map_right_iff.2 (List.forall₂_same.2 fun _ _ => rfl)) ?_ hnil).mono
    (fun memo shown a' _ h => ⟨h.grows, h.holds⟩) fun a' h => h
  rintro memo shown a' ⟨c, i⟩ _ rfl hderiving
  exact hderiving.memo_follows (e := .column i) trivial rfl (by simp) fun _ => rfl

end

end Arena

end RelationalAlgebra
