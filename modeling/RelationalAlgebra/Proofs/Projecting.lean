import RelationalAlgebra.Proofs.Deriving

/-!
# Projecting in an arena

The columns of a projection are derived from its arguments one after the other
(`deriveWhole_follows`, `deriveShown_follows`).  Under each name there has to be one column.  The arena
asks for that after it has derived the column, of all the columns but this one, whereas the tree asks
before it lists it: `showNamed_eq` says that this is the same question, and `Deriving.clash_eq` that the
arena's handles answer it as the list of columns does.
-/

namespace RelationalAlgebra

open RelationalAlgebra.Relation

namespace Arena

section

variable {a a' : Arena} {b : Algebra} {owner d : Nat} {ancestor : Expr Nat → Expr ColumnHandle}
  {P : Nat → Prop} {memo : Memo} {shown : List OutputColumn} {operand : Relation}

/-! ## A whole table -/

/-- Resolving a name against the operand of a projection. -/
theorem Stores.resolve_follows (h : Stores a b) (hop : operand ∈ b.relations) (building : String)
    (e : Expr String) {P : Expr ColumnHandle → Expr Nat → Arena → Prop} {Q : Arena → Prop}
    (hP : ∀ bound, bound.All (· < operand.width) → P (a.encode [operand] bound) bound a)
    (hQ : Q a) : Follows (look (·.resolve [operand.id] building e)) a
      (Algebra.bind [operand] building e) P Q := by
  have hops : ∀ s ∈ [operand], s ∈ b.relations := by
    intro s hs
    rwa [List.mem_singleton.1 hs]
  exact follows_look (h.resolve_eq hops building e)
    (fun bound hbound => hP bound (h.sound.all_lt_of_bind hop hbound)) hQ

/-- The columns of a whole table are shown one after the other. -/
theorem deriveWhole_follows (h : Stores a b) (hop : operand ∈ b.relations) (owner : Nat)
    (building : String) (t : Table) :
    Follows (deriveWhole owner operand.id building t) a (Algebra.wholeColumns operand building t)
      (fun memo shown a' =>
        Deriving a owner (a.encode [operand]) (· < breadth [operand]) memo shown a')
      (Grows a) := by
  refine follows_foldlM (forall₂_self _) ?_ (h.deriving_nil (.one hop) owner)
  rintro memo shown a' e _ rfl hderiving
  have hstores := h.grow hderiving.grows
  refine (hstores.resolve_follows hop building e (P := fun bound e' a'' => a'' = a' ∧
    bound = a.encode [operand] e' ∧ e'.All (· < operand.width)) ?_ hderiving.grows).bind ?_
  · intro e' he'
    exact ⟨rfl, hderiving.grows.encode_eq _ _, he'⟩
  · rintro _ e' _ ⟨rfl, rfl, he'⟩
    rw [showOnce_eq]
    refine hderiving.memo_follows ?_ (Expr.stripAlias_map _ e') ?_ (by simp)
    · rw [breadth_one]
      exact he'.stripAlias
    · intro _
      rw [← hderiving.grows.encode_eq]
      exact hstores.nameOf_eq hop he'.stripAlias

/-! ## Columns under different names -/

/-- The name of the column with a source, if another column has it as well. -/
def clash? (shown : List OutputColumn) (source : Expr Nat) : Option String :=
  (shown.find? (·.source == source)).bind fun c =>
    if shown.any (fun d => d.source != source && d.name == c.name) then some c.name else none

/-- No other column has the name of one of those whose names are different. -/
theorem clash?_of_nodup {shown : List OutputColumn} (hnames : (shown.map (·.name)).Nodup)
    (source : Expr Nat) : clash? shown source = none := by
  unfold clash?
  cases hfind : shown.find? (·.source == source) with
  | none => rfl
  | some c =>
    have hc := List.mem_of_find?_eq_some hfind
    have hsource : c.source = source := by simpa using List.find?_some hfind
    rw [Option.bind_some, if_neg]
    intro hother
    obtain ⟨d, hd, hdc⟩ := List.any_eq_true.1 hother
    simp only [Bool.and_eq_true, bne_iff_ne, ne_eq, beq_iff_eq] at hdc
    exact hdc.1 (List.inj_on_of_nodup_map hnames hd hc hdc.2 ▸ hsource)

/-- A column that is new clashes with those of its name. -/
theorem clash?_concat {shown : List OutputColumn} {source : Expr Nat}
    (hnew : ∀ d ∈ shown, d.source ≠ source) (name : String) (label : Option String) :
    clash? (shown ++ [⟨name, label, source⟩]) source =
      if shown.any (·.name == name) then some name else none := by
  have hfind : shown.find? (·.source == source) = none := by
    simpa using hnew
  have hsame : shown.any (fun d => d.source != source && d.name == name) =
      shown.any (·.name == name) := by
    rw [Bool.eq_iff_iff, List.any_eq_true, List.any_eq_true]
    refine exists_congr fun d => and_congr_right fun hd => ?_
    simp [hnew d hd]
  unfold clash?
  rw [List.find?_append, hfind, Option.none_or, List.find?_singleton,
    if_pos (beq_self_eq_true source), Option.bind_some, List.any_append, hsame]
  simp

/-- Showing a column under a name that no other one has is showing it and looking for one that has. -/
theorem showNamed_eq (operand : Relation) (building : String) {shown : List OutputColumn}
    (hnames : (shown.map (·.name)).Nodup) (e : Expr Nat) :
    Algebra.showNamed operand building shown e =
      (do
        let shown ← showUnder (Algebra.nameOf? operand e.stripAlias.1) shown e
        match clash? shown e.stripAlias.1 with
        | some name => throw (.invalidProjection
            (building ++ " names '" ++ name ++ "' twice; alias one of them"))
        | none => return shown) := by
  unfold Algebra.showNamed showUnder Algebra.outputColumn
  generalize e.stripAlias = stripped
  obtain ⟨source, label⟩ := stripped
  simp only []
  by_cases hany : shown.any (·.source == source) = true
  · simp only [if_pos hany]
    change _ = (match clash? shown source with
      | some name => _
      | none => _)
    rw [clash?_of_nodup hnames]
    rfl
  · simp only [if_neg hany]
    cases label <|> Algebra.nameOf? operand source with
    | none => rfl
    | some name =>
      have hnew : ∀ d ∈ shown, d.source ≠ source := by
        intro d hd hsource
        exact hany (List.any_eq_true.2 ⟨d, hd, by simpa using hsource⟩)
      change _ = (match clash? (shown ++ [⟨name, label, source⟩]) source with
        | some name => _
        | none => _)
      rw [clash?_concat hnew]
      change (if shown.any (·.name == name) then _ else _) = _
      by_cases hname : shown.any (·.name == name) = true
      · simp only [if_pos hname]
        rfl
      · simp only [if_neg hname]

/-- Columns that are there are read one after the other. -/
theorem mapM_column {l : List Nat} (h : ∀ d ∈ l, ∃ v, a.derived[d]? = some v) :
    ∃ vs, l.mapM a.column = .ok vs ∧ ∀ v, v ∈ vs ↔ ∃ d ∈ l, a.derived[d]? = some v := by
  induction l with
  | nil => exact ⟨[], rfl, by simp⟩
  | cons d rest ih =>
    obtain ⟨v, hv⟩ := h d (List.mem_cons_self ..)
    obtain ⟨vs, hvs, hmem⟩ := ih fun d' hd' => h d' (List.mem_cons_of_mem _ hd')
    refine ⟨v :: vs, ?_, fun w => ?_⟩
    · rw [List.mapM_cons, column, hv, hvs]
      rfl
    · rw [List.mem_cons, hmem]
      simp [hv, eq_comm]

/-- A column other than the one that shows a source shows another source. -/
theorem Deriving.ne_iff (h : Deriving a owner ancestor P memo shown a') {source : Expr Nat}
    (hsource : source.All P) (hd : d ∈ memo.order)
    (hancestor : (a'.derived[d]?).map (·.ancestor) = some (ancestor source)) {d' j : Nat}
    {c' : OutputColumn} (hd' : memo.order[j]? = some d') (hc' : shown[j]? = some c') :
    d' ≠ d ↔ c'.source ≠ source := by
  have hv' := h.holds.derived j d' c' hd' hc'
  refine not_congr ⟨?_, fun heq => ?_⟩
  · rintro rfl
    rw [hv'] at hancestor
    exact h.inj _ _ (h.sources c' (List.mem_of_getElem? hc')) hsource (Option.some.inj hancestor)
  · have hfound := (h.holds.byAncestor _ _).2 ⟨hd, hancestor⟩
    have hfound' := (h.holds.byAncestor (ancestor source) d').2
      ⟨List.mem_of_getElem? hd', by rw [hv', heq]; rfl⟩
    exact Option.some.inj (hfound'.symm.trans hfound)

/-- The column that shows a source is the first of the list that does. -/
theorem Deriving.find?_source (h : Deriving a owner ancestor P memo shown a') {source : Expr Nat}
    (hsource : source.All P) (hd : d ∈ memo.order)
    (hancestor : (a'.derived[d]?).map (·.ancestor) = some (ancestor source)) :
    ∃ c, shown.find? (·.source == source) = some c ∧
      a'.derived[d]? = some ⟨owner, ancestor c.source, c.label, c.name⟩ := by
  obtain ⟨i, hi⟩ := List.getElem?_of_mem hd
  obtain ⟨c, hc, hv⟩ := h.holds.exists_shown hi
  have hcsource : c.source = source := by
    by_contra hne
    exact (h.ne_iff hsource hd hancestor hi hc).2 hne rfl
  refine ⟨c, ?_, hv⟩
  cases hfound : shown.find? (·.source == source) with
  | none =>
    have hnone := List.find?_eq_none.1 hfound c (List.mem_of_getElem? hc)
    exact absurd (beq_iff_eq.2 hcsource) hnone
  | some c' =>
    have hc'source : c'.source = source := by simpa using List.find?_some hfound
    obtain ⟨j, hj⟩ := List.getElem?_of_mem (List.mem_of_find?_eq_some hfound)
    obtain ⟨d', hd', -⟩ := h.holds.exists_column hj
    have hsame : d' = d := by
      by_contra hne
      exact (h.ne_iff hsource hd hancestor hd' hj).1 hne hc'source
    have hji : j = i := by
      refine (List.getElem?_inj (List.getElem?_eq_some_iff.1 hd').1 h.holds.nodup).1 ?_
      rw [hd', hi, hsame]
    rw [hji, hc] at hj
    exact hj.symm

/-- What the arena says of the other columns of the name is what the list of columns says. -/
theorem Deriving.clash_eq (h : Deriving a owner ancestor P memo shown a') {source : Expr Nat}
    (hsource : source.All P) (hd : d ∈ memo.order)
    (hancestor : (a'.derived[d]?).map (·.ancestor) = some (ancestor source)) :
    ∃ v others, a'.column d = .ok v ∧
      (memo.order.filter (· != d)).mapM a'.column = .ok others ∧
      (if others.any (·.name == v.name) then some v.name else none) = clash? shown source := by
  obtain ⟨c, hfind, hv⟩ := h.find?_source hsource hd hancestor
  obtain ⟨others, hothers, hmem⟩ := mapM_column (a := a') (l := memo.order.filter (· != d))
    fun d' hd' => h.holds.exists_derived (List.mem_of_mem_filter hd')
  refine ⟨_, others, by rw [column, hv]; rfl, hothers, ?_⟩
  simp only []
  have hany : others.any (·.name == c.name) =
      shown.any fun c' => c'.source != source && c'.name == c.name := by
    rw [Bool.eq_iff_iff, List.any_eq_true, List.any_eq_true]
    constructor
    · rintro ⟨v', hv', hname⟩
      obtain ⟨d', hd', hderived⟩ := (hmem v').1 hv'
      rw [List.mem_filter, bne_iff_ne] at hd'
      obtain ⟨j, hj⟩ := List.getElem?_of_mem hd'.1
      obtain ⟨c', hc', hderived'⟩ := h.holds.exists_shown hj
      obtain rfl := Option.some.inj (hderived.symm.trans hderived')
      have hne := (h.ne_iff hsource hd hancestor hj hc').1 hd'.2
      exact ⟨c', List.mem_of_getElem? hc', by simpa using ⟨hne, by simpa using hname⟩⟩
    · rintro ⟨c', hc', hboth⟩
      simp only [Bool.and_eq_true, bne_iff_ne, ne_eq, beq_iff_eq] at hboth
      obtain ⟨j, hj⟩ := List.getElem?_of_mem hc'
      obtain ⟨d', hd', hderived⟩ := h.holds.exists_column hj
      have hne := (h.ne_iff hsource hd hancestor hd' hj).2 hboth.1
      refine ⟨_, (hmem _).2 ⟨d', ?_, hderived⟩, by simpa using hboth.2⟩
      rw [List.mem_filter, bne_iff_ne]
      exact ⟨List.mem_of_getElem? hd', hne⟩
  rw [clash?, hfind, Option.bind_some, hany]

/-! ## Single columns -/

/-- What deriving the columns of a projection keeps: the list of columns is that of the memo, and their
names are pairwise different. -/
structure DerivingNamed (a : Arena) (owner : Nat) (operand : Relation) (memo : Memo)
    (handles : List Nat) (shown : List OutputColumn) (a' : Arena) : Prop where
  deriving_columns : Deriving a owner (a.encode [operand]) (· < breadth [operand]) memo shown a'
  handles_eq : handles = memo.order
  names : (shown.map (·.name)).Nodup

/-- The names stay different when one more column is shown. -/
theorem nodup_names_showNamed {building : String} {shown shown' : List OutputColumn}
    {e : Expr Nat} (h : (shown.map (·.name)).Nodup)
    (hshown : Algebra.showNamed operand building shown e = .ok shown') :
    (shown'.map (·.name)).Nodup := by
  rcases Algebra.showNamed_ok hshown with rfl | ⟨c, -, -, hnew, rfl⟩
  · exact h
  · exact Algebra.nodup_map_concat h hnew

/-- One more bound column is derived as it is shown, where the names of the others are different. -/
theorem Deriving.bound_follows {building : String} (hstores : Stores a' b)
    (hop : operand ∈ b.relations)
    (h : Deriving a owner (a.encode [operand]) (· < breadth [operand]) memo shown a')
    (hnames : (shown.map (·.name)).Nodup) {e : Expr Nat} (he : e.All (· < operand.width)) :
    Follows (do
        let (column, memo') ← derive owner memo (a.encode [operand] e) none
        let name := (← look (·.column column)).name
        let others ← look fun a => (memo.order.filter (· != column)).mapM a.column
        if others.any (·.name == name) then
          fail (.invalidProjection (building ++ " names '" ++ name ++ "' twice; alias one of them"))
        return (memo', if column ∈ memo.order then memo.order else memo.order ++ [column])) a'
      (Algebra.showNamed operand building shown e)
      (fun p shown' a'' =>
        Deriving a owner (a.encode [operand]) (· < breadth [operand]) p.1 shown' a'' ∧
          p.2 = p.1.order)
      (Grows a) := by
  have hsource : e.stripAlias.1.All (· < breadth [operand]) := by
    rw [breadth_one]
    exact he.stripAlias
  have hname : a'.nameOf (a.encode [operand] e.stripAlias.1) =
      .ok (Algebra.nameOf? operand e.stripAlias.1) := by
    rw [← h.grows.encode_eq]
    exact hstores.nameOf_eq hop he.stripAlias
  rw [showNamed_eq operand building hnames]
  refine (h.derive_follows hsource (Expr.stripAlias_map _ e) (fun _ => hname) (by simp)).bind ?_
  rintro ⟨d, memo'⟩ shown' a'' ⟨hderiving', hancestor, horder⟩
  have hd : d ∈ memo'.order := by
    rw [horder]
    split
    · assumption
    · simp
  have hothers : memo.order.filter (· != d) = memo'.order.filter (· != d) := by
    rw [horder]
    split
    · rfl
    · simp
  obtain ⟨v, others, hv, hread, hclash⟩ := hderiving'.clash_eq hsource hd hancestor
  rw [← hothers] at hread
  have hlook : (look (·.column d)).on a'' = (.ok v, a'') := congrArg (·, a'') hv
  have hlooks : (look fun a => (memo.order.filter (· != d)).mapM a.column).on a'' =
      (.ok others, a'') := congrArg (·, a'') hread
  refine follows_bind_ok hlook (follows_bind_ok hlooks ?_)
  rw [← hclash]
  by_cases hany : others.any (·.name == v.name) = true
  · simp only [if_pos hany]
    exact follows_fail hderiving'.grows
  · simp only [if_neg hany]
    exact follows_pure ⟨hderiving', horder.symm⟩

/-- One more column of a projection is derived as it is shown. -/
theorem DerivingNamed.deriveNamed_follows {handles : List Nat} {building : String}
    (hstores : Stores a b) (hop : operand ∈ b.relations)
    (h : DerivingNamed a owner operand memo handles shown a') (arg : Algebra.ProjectArg) :
    Follows (deriveNamed owner operand.id building memo handles arg) a'
      (do
        Algebra.showNamed operand building shown
          (← Algebra.bind [operand] building (← arg.column)))
      (fun p shown' a'' => DerivingNamed a owner operand p.1 p.2 shown' a'') (Grows a) := by
  have hgrows := h.deriving_columns.grows
  have hstores' := hstores.grow hgrows
  unfold deriveNamed
  refine (follows_check (P := fun e e' a'' => e = e' ∧ a'' = a') (fun e _ => ⟨rfl, rfl⟩)
    hgrows).bind ?_
  rintro e _ a' ⟨rfl, rfl⟩
  refine (hstores'.resolve_follows hop building e (P := fun bound e' a'' => a'' = a' ∧
    bound = a.encode [operand] e' ∧ e'.All (· < operand.width)) ?_ hgrows).bind ?_
  · intro e' he'
    exact ⟨rfl, hgrows.encode_eq _ _, he'⟩
  · rintro _ e' a' ⟨rfl, rfl, he'⟩
    obtain ⟨hderiving, rfl, hnames⟩ := h
    exact (hderiving.bound_follows hstores' hop hnames he').mono (fun p shown' a'' hshown hp =>
      ⟨hp.1, hp.2, nodup_names_showNamed hnames hshown⟩) fun _ h => h

/-- The columns of a projection are derived as they are shown. -/
theorem deriveShown_follows (h : Stores a b) (hop : operand ∈ b.relations) (owner : Nat)
    (building : String) (args : List Algebra.ProjectArg) :
    Follows (deriveShown owner operand.id building args) a
      (Algebra.shownColumns operand building args)
      (fun p shown a' => DerivingNamed a owner operand p.1 p.2 shown a') (Grows a) := by
  refine follows_foldlM (forall₂_self _) ?_
    ⟨h.deriving_nil (.one hop) owner, rfl, by simp⟩
  rintro ⟨memo, handles⟩ shown a' arg _ rfl hderiving
  exact hderiving.deriveNamed_follows h hop arg

end

end Arena

end RelationalAlgebra
