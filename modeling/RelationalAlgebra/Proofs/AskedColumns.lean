import RelationalAlgebra.Proofs.Invariants
import RelationalAlgebra.Proofs.Keeping

/-!
# The columns that a projection was asked for

Each argument of a projection of columns asks for an expression, which is what it resolves to without its
outermost alias, and would show it under a name: the alias, or else the expression's own name.  The
projection shows each expression once (`Algebra.ShowsAsked`): the columns stand in the order in which
their expressions are first asked for, and the first argument to ask decides the name.  A later argument
for the same expression adds nothing, not even under another alias.

So every argument finds its column, and finds it under its own name exactly if all arguments for one
expression agree on the name.  The main statement is `Arena.project_asked`.
-/

namespace RelationalAlgebra

/-! ## Keeping the first of each -/

theorem eraseDups_concat {α : Type} [BEq α] [LawfulBEq α] (l : List α) (x : α) :
    (l ++ [x]).eraseDups = if x ∈ l then l.eraseDups else l.eraseDups ++ [x] := by
  rw [List.eraseDups_append]
  by_cases hx : x ∈ l <;> simp [hx, List.removeAll, List.eraseDups_cons]

/-- What is told apart before is told apart after. -/
theorem eraseDups_map {α β : Type} [BEq α] [LawfulBEq α] [BEq β] [LawfulBEq β] {f : α → β}
    {l : List α} (h : ∀ x ∈ l, ∀ y ∈ l, f x = f y → x = y) :
    (l.map f).eraseDups = l.eraseDups.map f := by
  induction l using List.reverseRecOn with
  | nil => rfl
  | append_singleton l x ih =>
    have hl := ih fun y hy z hz => h y (List.mem_append_left _ hy) z (List.mem_append_left _ hz)
    have hx : f x ∈ l.map f ↔ x ∈ l := by
      refine ⟨fun hmem => ?_, List.mem_map_of_mem⟩
      obtain ⟨y, hy, heq⟩ := List.mem_map.1 hmem
      rwa [← h y (List.mem_append_left _ hy) x (List.mem_append_right _ (List.mem_singleton_self x)) heq]
    rw [List.map_append, List.map_singleton, eraseDups_concat, eraseDups_concat, hl]
    simp only [hx]
    split
    · rfl
    · rw [List.map_append, List.map_singleton]

/-- A key that is mapped is looked up as it was. -/
theorem lookup_map {α β γ : Type} [BEq α] [LawfulBEq α] [BEq β] [LawfulBEq β] {f : α → β}
    {l : List (α × γ)} {k : α} (h : ∀ x ∈ l, f k = f x.1 → k = x.1) :
    (l.map fun x => (f x.1, x.2)).lookup (f k) = l.lookup k := by
  induction l with
  | nil => rfl
  | cons x rest ih =>
    have hrest := ih fun y hy => h y (List.mem_cons_of_mem _ hy)
    have hx : (f k == f x.1) = (k == x.1) := by
      rw [Bool.eq_iff_iff, beq_iff_eq, beq_iff_eq]
      exact ⟨h x (List.mem_cons_self ..), congrArg f⟩
    rw [List.map_cons, List.lookup_cons, List.lookup_cons, hx, hrest]

/-- All items have the value that is found for their key exactly if items of one key have one value. -/
theorem forall_lookup_iff {α β : Type} [BEq α] [LawfulBEq α] {l : List (α × β)} :
    (∀ x ∈ l, l.lookup x.1 = some x.2) ↔ ∀ x ∈ l, ∀ y ∈ l, x.1 = y.1 → x.2 = y.2 := by
  constructor
  · intro h x hx y hy heq
    have hfound := h x hx
    rw [heq, h y hy] at hfound
    exact (Option.some.inj hfound).symm
  · intro h x hx
    cases hfound : l.lookup x.1 with
    | none =>
      have hne := List.lookup_eq_none_iff.1 hfound x hx
      simp at hne
    | some v =>
      obtain ⟨before, after, heq, -⟩ := List.lookup_eq_some_iff.1 hfound
      have hmem : (x.1, v) ∈ l := by
        rw [heq]
        simp
      rw [h x hx _ hmem rfl]

/-- A computation on every item of a list, where another one comes to a result. -/
theorem mapM_ok_map {α β γ ε ε' : Type} {f : α → Except ε β} {g : α → Except ε' γ} {φ : β → γ}
    (h : ∀ x y, f x = .ok y → g x = .ok (φ y)) {l : List α} {l' : List β} (hl : l.mapM f = .ok l') :
    l.mapM g = .ok (l'.map φ) := by
  induction l generalizing l' with
  | nil =>
    cases hl
    rfl
  | cons x rest ih =>
    rw [List.mapM_cons] at hl ⊢
    obtain ⟨y, hy, hl⟩ := bind_ok_iff.1 hl
    obtain ⟨ys, hys, hl⟩ := bind_ok_iff.1 hl
    cases hl
    rw [h x y hy, ih hys]
    rfl

/-! ## What is shown of what was asked for -/

section

variable {α β : Type} [DecidableEq α] [DecidableEq β] {asked : List (Expr α × Option String)}
  {shown : List (Expr α × String)}

/-- Each expression that was asked for is shown once, in the order in which they were first asked for and
under the name of the first one who did. -/
structure ShowsAsked (asked : List (Expr α × Option String)) (shown : List (Expr α × String)) :
    Prop where
  sources : shown.map (·.1) = (asked.map (·.1)).eraseDups
  names : ∀ c ∈ shown, asked.lookup c.1 = some (some c.2)

namespace ShowsAsked

/-- What is shown is what was asked for. -/
theorem mem_iff (h : ShowsAsked asked shown) (e : Expr α) :
    e ∈ shown.map (·.1) ↔ e ∈ asked.map (·.1) := by
  rw [h.sources, List.mem_eraseDups]

/-- Asking for what is shown already adds nothing. -/
theorem again (h : ShowsAsked asked shown) {x : Expr α × Option String}
    (hx : x.1 ∈ shown.map (·.1)) : ShowsAsked (asked ++ [x]) shown := by
  refine ⟨?_, fun c hc => ?_⟩
  · rw [List.map_append, List.map_singleton, eraseDups_concat, h.sources,
      if_pos ((h.mem_iff _).1 hx)]
  · rw [List.lookup_append, h.names c hc]
    rfl

/-- Asking for something else adds it. -/
theorem concat (h : ShowsAsked asked shown) {e : Expr α} {name : String}
    (he : e ∉ shown.map (·.1)) : ShowsAsked (asked ++ [(e, some name)]) (shown ++ [(e, name)]) := by
  rw [h.mem_iff] at he
  refine ⟨?_, fun c hc => ?_⟩
  · rw [List.map_append, List.map_append, List.map_singleton, List.map_singleton, eraseDups_concat,
      h.sources, if_neg he]
  · rw [List.lookup_append]
    rcases List.mem_append.1 hc with hc | hc
    · rw [h.names c hc]
      rfl
    · obtain rfl := List.mem_singleton.1 hc
      have hnone : asked.lookup e = none := by
        rw [List.lookup_eq_none_iff]
        intro x hx
        rw [bne_iff_ne]
        intro heq
        exact he (heq ▸ List.mem_map_of_mem hx)
      rw [hnone, Option.none_or]
      simp

/-- Expressions that are told apart can be replaced by others. -/
theorem map (h : ShowsAsked asked shown) {f : Expr α → Expr β}
    (hf : ∀ e ∈ shown.map (·.1), ∀ e' ∈ shown.map (·.1), f e = f e' → e = e') :
    ShowsAsked (asked.map fun x => (f x.1, x.2)) (shown.map fun c => (f c.1, c.2)) := by
  simp only [h.mem_iff] at hf
  constructor
  · have hasked : (asked.map fun x => (f x.1, x.2)).map (·.1) = (asked.map (·.1)).map f := by
      simp
    have hshown : (shown.map fun c => (f c.1, c.2)).map (·.1) = (shown.map (·.1)).map f := by
      simp
    rw [hasked, hshown, eraseDups_map hf, h.sources]
  · intro c' hc'
    obtain ⟨c, hc, rfl⟩ := List.mem_map.1 hc'
    rw [← h.names c hc]
    exact lookup_map fun x hx =>
      hf _ ((h.mem_iff _).1 (List.mem_map_of_mem hc)) _ (List.mem_map_of_mem hx)

/-- Everyone who asks finds the expression under the own name exactly if all who ask for one expression
agree on the name. -/
theorem forall_exists_iff (h : ShowsAsked asked shown) :
    (∀ x ∈ asked, ∃ c ∈ shown, c.1 = x.1 ∧ some c.2 = x.2) ↔
      ∀ x ∈ asked, ∀ y ∈ asked, x.1 = y.1 → x.2 = y.2 := by
  rw [← forall_lookup_iff]
  refine forall_congr' fun x => forall_congr' fun hx => ?_
  constructor
  · rintro ⟨c, hc, hsource, hname⟩
    rw [← hsource, h.names c hc, hname]
  · intro hfound
    obtain ⟨c, hc, hsource⟩ := List.mem_map.1 ((h.mem_iff _).2 (List.mem_map_of_mem hx))
    refine ⟨c, hc, hsource, Option.some.inj ?_⟩
    rw [← h.names c hc, hsource, hfound]

end ShowsAsked

end

/-! ## The arguments of a projection -/

namespace Algebra

variable {operand : Relation} {building : String} {shown shown' : List OutputColumn} {e : Expr Nat}
  {asked : List (Expr Nat × Option String)}

/-- What is asked for by a bound expression: the expression without its outermost alias, and the name to
show it under, which is the alias or else its own. -/
def request (operand : Relation) (e : Expr Nat) : Expr Nat × Option String :=
  (e.stripAlias.1, e.stripAlias.2 <|> nameOf? operand e.stripAlias.1)

/-- What is asked for next is added to what is shown, if it is new. -/
theorem showsAsked_showNamed (h : ShowsAsked asked (shown.map fun c => (c.source, c.name)))
    (hshown : showNamed operand building shown e = .ok shown') :
    ShowsAsked (asked ++ [request operand e]) (shown'.map fun c => (c.source, c.name)) := by
  have hany : shown.any (·.source == e.stripAlias.1) = true ↔
      e.stripAlias.1 ∈ (shown.map fun c => (c.source, c.name)).map (·.1) := by
    simp
  by_cases hold : shown.any (·.source == e.stripAlias.1) = true
  · rw [showNamed, if_pos hold] at hshown
    cases hshown
    exact h.again (hany.1 hold)
  · rw [showNamed, if_neg hold] at hshown
    obtain ⟨c, hc, hshown⟩ := bind_ok_iff.1 hshown
    obtain ⟨hsource, -, hname⟩ := outputColumn_ok hc
    rw [hany, ← hsource] at hold
    split at hshown
    · cases hshown
    · cases hshown
      rw [request, hname, ← hsource, List.map_append]
      exact h.concat hold

/-- The expressions that the arguments of a projection stand for. -/
def bindArgs (operand : Relation) (building : String) (args : List ProjectArg) :
    Except Error (List (Expr Nat)) :=
  args.mapM fun arg => do bind [operand] building (← arg.column)

/-- The columns of a projection show what its arguments ask for. -/
theorem showsAsked_of_shownColumns {args : List ProjectArg}
    (h : shownColumns operand building args = .ok shown) :
    ∃ bounds, bindArgs operand building args = .ok bounds ∧
      ShowsAsked (bounds.map (request operand)) (shown.map fun c => (c.source, c.name)) := by
  refine foldlM_ok_steps (P := fun done shown => ∃ bounds,
    bindArgs operand building done = .ok bounds ∧
      ShowsAsked (bounds.map (request operand)) (shown.map fun c => (c.source, c.name)))
    ?_ ⟨[], rfl, rfl, List.forall_mem_nil _⟩ h
  rintro done arg before after - ⟨bounds, hbounds, hbefore⟩ hstep
  obtain ⟨expr, hexpr, hstep⟩ := bind_ok_iff.1 hstep
  obtain ⟨bound, hbound, hstep⟩ := bind_ok_iff.1 hstep
  refine ⟨bounds ++ [bound], ?_, ?_⟩
  · have harg : bindArgs operand building [arg] = .ok [bound] := by
      rw [bindArgs, List.mapM_cons, hexpr]
      change (Algebra.bind [operand] building expr >>= _) = _
      rw [hbound]
      rfl
    unfold bindArgs at hbounds harg ⊢
    rw [List.mapM_append, hbounds, harg]
    rfl
  · rw [List.map_append, List.map_singleton]
    exact showsAsked_showNamed hbefore hstep

end Algebra

namespace Arena

variable {a a' : Arena} {b : Algebra} {operand : Relation} {n j : Nat} {args : List (Arg Nat)}

/-! ## Asking in an arena -/

/-- The name to show a bound expression under: its outermost alias, or else its own. -/
def shownName (a : Arena) (bound : Expr ColumnHandle) : Except Stop (Option String) :=
  match bound.stripAlias.2 with
  | some label => .ok (some label)
  | none => a.nameOf bound.stripAlias.1

/-- What the arguments of a projection ask for, one after the other: what the argument resolves to,
without the outermost alias, and the name to show it under. -/
def asked (a : Arena) (operand : Nat) (args : List (Arg Nat)) :
    Except Stop (List (Expr ColumnHandle × Option String)) := do
  let r ← a.relation operand
  (← args.mapM (·.read a.relation)).mapM fun arg => do
    let expr ← arg.column.mapError .failure
    let bound ← a.resolve [operand] ("projection of " ++ r.describe) expr
    return (bound.stripAlias.1, ← a.shownName bound)

/-- A bound expression is shown under the name that it has over the tree. -/
theorem Stores.shownName_eq (h : Stores a b) (hop : operand ∈ b.relations) {e : Expr Nat}
    (he : e.All (· < operand.width)) :
    a.shownName (a.encode [operand] e) = .ok (Algebra.request operand e).2 := by
  have hname := h.nameOf_eq hop he.stripAlias
  rw [shownName, encode, Expr.stripAlias_map, ← encode, hname, Algebra.request]
  cases e.stripAlias.2 <;> rfl

/-- Arguments ask in the arena for what they ask for over the tree. -/
theorem Stores.asked_eq (h : Stores a b) (hop : operand ∈ b.relations)
    {read : List Algebra.ProjectArg} (hread : args.mapM (·.read a.relation) = .ok read)
    {bounds : List (Expr Nat)}
    (hbounds : Algebra.bindArgs operand ("projection of " ++ operand.describe) read = .ok bounds) :
    a.asked operand.id args = .ok (bounds.map fun e =>
      (a.encode [operand] (Algebra.request operand e).1, (Algebra.request operand e).2)) := by
  have hops : ∀ s ∈ [operand], s ∈ b.relations := by simpa using hop
  rw [asked, h.relation_eq hop]
  change (args.mapM (·.read a.relation) >>= _) = _
  rw [hread]
  refine mapM_ok_map (fun arg e he => ?_) hbounds
  obtain ⟨expr, hexpr, hbound⟩ := bind_ok_iff.1 he
  rw [hexpr]
  change (a.resolve ([operand].map (·.id)) _ expr >>= _) = _
  rw [h.resolve_eq hops, hbound]
  change (a.shownName (a.encode [operand] e) >>= _) = _
  rw [h.shownName_eq hop (h.sound.all_lt_of_bind hop hbound), encode, Expr.stripAlias_map]
  rfl

/-- What a projection that succeeds has built. -/
theorem Stores.exists_of_project (h : Stores a b) (hproject : (project n args).on a = (.ok j, a')) :
    ∃ operand ∈ b.relations, operand.id = n ∧ ∃ read shown,
      args.mapM (·.read a.relation) = .ok read ∧ j = b.size ∧
      (match Algebra.projectedTable? operand read with
        | some t => Algebra.wholeColumns operand ("projection of " ++ operand.describe) t
        | none => Algebra.shownColumns operand ("projection of " ++ operand.describe) read) = .ok shown ∧
      Stores a' (b.add (.projection b.size operand (Algebra.projectedTable? operand read) shown)) := by
  cases hread : args.mapM (·.read a.relation) with
  | error stop =>
    have hargs : (look fun a => args.mapM (·.read a.relation)).on a = (.error stop, a) :=
      congrArg (·, a) hread
    rw [project, on_bind_error hargs] at hproject
    cases hproject
  | ok read =>
    have hargs : (look fun a => args.mapM (·.read a.relation)).on a = (.ok read, a) :=
      congrArg (·, a) hread
    have hrest := hproject
    rw [project, on_bind_ok hargs] at hrest
    obtain ⟨operand, hop, rfl⟩ := h.exists_mem (lt_of_look_relation hrest)
    obtain ⟨r, b', hrun, rfl, hstores⟩ := (project_follows h hop hread).exists_of_ok hproject
    obtain ⟨-, shown, rfl, hshown, rfl⟩ := Algebra.project_ok_iff.1 hrun
    exact ⟨operand, hop, rfl, read, shown, rfl, rfl, hshown, hstores⟩

/-- The columns of a projection of columns, as they are stored, show what its arguments ask for. -/
theorem exists_columns_of_project (h : Reached a) (hproject : (project n args).on a = (.ok j, a'))
    {shown : List Nat} {memo : Memo} (hnode : a'.node j = .ok ⟨.projection n none shown, memo⟩) :
    ∃ asked columns, a.asked n args = .ok asked ∧ memo.order.mapM a'.column = .ok columns ∧
      (∀ c ∈ columns, c.owner = j) ∧
      ShowsAsked asked (columns.map fun c => (c.ancestor, c.name)) := by
  obtain ⟨b, -, hstores⟩ := h.sound
  obtain ⟨operand, hop, rfl, read, outputs, hread, rfl, hshown, hstores'⟩ :=
    hstores.exists_of_project hproject
  generalize Algebra.projectedTable? operand read = whole at hshown hstores'
  obtain ⟨hmem, memo', hstored, hholds⟩ := hstores'.exists_added
  have hnode' := Except.ok.inj (hstored.symm.trans hnode)
  rw [Node.mk.injEq] at hnode'
  obtain ⟨hoperator, rfl⟩ := hnode'
  obtain rfl : whole = none := by
    rw [operator, Operator.projection.injEq, Option.map_eq_none_iff] at hoperator
    exact hoperator.2.1
  obtain ⟨bounds, hbounds, hasked⟩ := Algebra.showsAsked_of_shownColumns hshown
  have hencode : a'.encode [operand] = a.encode [operand] :=
    (keeping_project operand.id args).encode_eq hproject hstores (by simpa using hop)
  -- expressions over the operand are told apart by their handles
  have hinj : ∀ e ∈ (outputs.map fun c => (c.source, c.name)).map (·.1),
      ∀ e' ∈ (outputs.map fun c => (c.source, c.name)).map (·.1),
      a.encode [operand] e = a.encode [operand] e' → e = e' := by
    have hlt := (hstores'.sound.projection_shown hmem).sources_lt
    rw [← breadth_one] at hlt
    simp only [List.map_map, List.mem_map, Function.comp]
    rintro _ ⟨c, hc, rfl⟩ _ ⟨c', hc', rfl⟩
    exact hstores.encode_inj (.one hop) (hlt c hc) (hlt c' hc')
  refine ⟨_, outputs.map fun c => ⟨b.size, a.encode [operand] c.source, c.label, c.name⟩,
    hstores.asked_eq hop hread hbounds, ?_, ?_, ?_⟩
  · rw [← hencode]
    exact hholds.mapM_column
  · simp
  · have hshows := hasked.map hinj
    simpa only [List.map_map, Function.comp_def] using hshows

/-- A projection of columns has a column for each argument, whose ancestor is what the argument resolves
to without its outermost alias.  The columns stand in the order in which their ancestors are first asked
for, and there are no others.  A column has the name of the first argument to ask for its ancestor; so
every argument has a column of its own name exactly if arguments for one expression agree on the name. -/
theorem project_asked (h : Reached a) (hproject : (project n args).on a = (.ok j, a'))
    {shown : List Nat} {memo : Memo} (hnode : a'.node j = .ok ⟨.projection n none shown, memo⟩) :
    ∃ asked columns, a.asked n args = .ok asked ∧ memo.order.mapM a'.column = .ok columns ∧
      (∀ c ∈ columns, c.owner = j) ∧
      (∀ x ∈ asked, ∃ c ∈ columns, c.ancestor = x.1) ∧
      columns.map (·.ancestor) = (asked.map (·.1)).eraseDups ∧
      (∀ c ∈ columns, asked.lookup c.ancestor = some (some c.name)) ∧
      ((∀ x ∈ asked, ∃ c ∈ columns, c.ancestor = x.1 ∧ some c.name = x.2) ↔
        ∀ x ∈ asked, ∀ y ∈ asked, x.1 = y.1 → x.2 = y.2) := by
  obtain ⟨asked, columns, hasked, hcolumns, howner, hshows⟩ := exists_columns_of_project h hproject hnode
  have hancestors : (columns.map fun c => (c.ancestor, c.name)).map (·.1) = columns.map (·.ancestor) := by
    simp
  refine ⟨asked, columns, hasked, hcolumns, howner, fun x hx => ?_, ?_, fun c hc => ?_, ?_⟩
  · have hmem := (hshows.mem_iff x.1).2 (List.mem_map_of_mem hx)
    rw [hancestors] at hmem
    exact List.mem_map.1 hmem
  · rw [← hancestors, hshows.sources]
  · exact hshows.names _ (List.mem_map_of_mem hc)
  · rw [← hshows.forall_exists_iff]
    simp only [List.mem_map, exists_exists_and_eq_and]

/-- A table of two columns. -/
def shelf : Arena :=
  ((Construction.createTable "books" [("id", .integer), ("title", .string)]).run.on .empty).2

theorem shelf_reached : Reached shelf := by
  refine .build _ .empty ?_
  decide_cbv

/-- A column that is asked for twice, by its plain and by its qualified name, is shown once. -/
theorem project_asked_shelf :
    ∃ args a' memo asked columns, Reached shelf ∧ (project 0 args).on shelf = (.ok 1, a') ∧
      a'.node 1 = .ok ⟨.projection 0 none [2, 3], memo⟩ ∧
      shelf.asked 0 args = .ok asked ∧ memo.order.mapM a'.column = .ok columns ∧
      asked.length = 3 ∧ columns.length = 2 ∧
      ∀ x ∈ asked, ∃ c ∈ columns, c.ancestor = x.1 ∧ some c.name = x.2 := by
  let args : List (Arg Nat) :=
    [.name "title", .expr (.aliased (.column "id") "key"), .name "books__title"]
  have hproject : (project 0 args).on shelf = (.ok 1, ((project 0 args).on shelf).2) :=
    Prod.ext (by cbv) rfl
  have hnode : ((project 0 args).on shelf).2.node 1 = .ok ⟨.projection 0 none [2, 3], ⟨[2, 3],
      [(.column (.derived 0), 3), (.column (.derived 1), 2)], [("key", 3), ("title", 2)]⟩⟩ := by cbv
  have hvalue : shelf.asked 0 args = .ok [(.column (.derived 1), some "title"),
      (.column (.derived 0), some "key"), (.column (.derived 1), some "title")] := by cbv
  obtain ⟨asked, columns, hasked, hcolumns, -, -, hancestors, -, hiff⟩ :=
    project_asked shelf_reached hproject hnode
  obtain rfl := Except.ok.inj (hvalue.symm.trans hasked)
  refine ⟨args, _, _, _, columns, shelf_reached, hproject, hnode, hvalue, hcolumns, rfl, ?_,
    hiff.2 (by decide)⟩
  have hlength := congrArg List.length hancestors
  rw [List.length_map] at hlength
  exact hlength

/-- A column that is asked for under two names is shown under the first one, and not under the second
one. -/
theorem project_asked_twice :
    ∃ args a' memo asked columns, Reached shelf ∧ (project 0 args).on shelf = (.ok 1, a') ∧
      a'.node 1 = .ok ⟨.projection 0 none [2], memo⟩ ∧
      shelf.asked 0 args = .ok asked ∧ memo.order.mapM a'.column = .ok columns ∧
      ¬ ∀ x ∈ asked, ∃ c ∈ columns, c.ancestor = x.1 ∧ some c.name = x.2 := by
  let args : List (Arg Nat) :=
    [.expr (.aliased (.column "id") "a"), .expr (.aliased (.column "id") "b")]
  have hproject : ((project 0 args).on shelf).1 = .ok 1 := by cbv
  exact ⟨args, ((project 0 args).on shelf).2,
    ⟨[2], [(.column (.derived 0), 2)], [("a", 2)]⟩,
    [(.column (.derived 0), some "a"), (.column (.derived 0), some "b")],
    [⟨1, .column (.derived 0), some "a", "a"⟩],
    shelf_reached, Prod.ext hproject rfl, by cbv, by cbv, by cbv, by decide⟩

end Arena

end RelationalAlgebra
