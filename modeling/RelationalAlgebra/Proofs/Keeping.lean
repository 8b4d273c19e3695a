import RelationalAlgebra.Proofs.Refinement

/-!
# What building leaves behind

Work on an arena puts relations behind those that are there and changes none of them (`Keeping`), however
far it comes.  So a handle that was given out stays good, and an expression over the columns of relations
that are there is stored as it was before (`Keeping.encode_eq`).  What was built is stored behind the rest
(`Builds.exists_of_ok`, `Stores.exists_added`).
-/

namespace RelationalAlgebra

namespace Arena

section

variable {α β ι : Type}

/-! ## Work that keeps the relations -/

/-- The work leaves all relations where they are. -/
def Keeping (x : Work α) : Prop := ∀ a, a.nodes <+: (x.on a).2.nodes

/-- Work that puts no relation into the arena keeps those that there are. -/
theorem keeping_of_nodes_eq {x : Work α} (h : ∀ a, (x.on a).2.nodes = a.nodes) : Keeping x := by
  intro a
  simp [h a]

theorem keeping_pure (v : α) : Keeping (pure v) := keeping_of_nodes_eq fun _ => rfl

theorem keeping_look (question : Arena → Except Stop α) : Keeping (look question) :=
  keeping_of_nodes_eq fun _ => rfl

theorem keeping_check (outcome : Except Error α) : Keeping (check outcome) :=
  keeping_of_nodes_eq fun _ => rfl

theorem keeping_fail (cause : Error) : Keeping (fail cause : Work α) :=
  keeping_of_nodes_eq fun _ => rfl

theorem keeping_push (operator : Operator) (memo : Memo) : Keeping (push operator memo) :=
  fun a => List.prefix_append a.nodes _

/-- One step after the other keeps what both keep. -/
theorem Keeping.bind {x : Work α} {f : α → Work β} (h : Keeping x) (hf : ∀ v, Keeping (f v)) :
    Keeping (x >>= f) := by
  intro a
  have hfirst := h a
  cases hx : x.on a with
  | mk outcome a' =>
    rw [hx] at hfirst
    cases outcome with
    | ok v =>
      rw [on_bind_ok hx]
      exact hfirst.trans (hf v a')
    | error stop =>
      rw [on_bind_error hx]
      exact hfirst

theorem keeping_foldlM {f : β → ι → Work β} (h : ∀ v i, Keeping (f v i)) (l : List ι) (v : β) :
    Keeping (l.foldlM f v) := by
  induction l generalizing v with
  | nil => exact keeping_pure v
  | cons i rest ih =>
    rw [List.foldlM_cons]
    exact (h v i).bind ih

theorem keeping_mapM {f : ι → Work β} (h : ∀ i, Keeping (f i)) (l : List ι) : Keeping (l.mapM f) := by
  induction l with
  | nil => exact keeping_pure []
  | cons i rest ih =>
    rw [List.mapM_cons]
    exact (h i).bind fun v => ih.bind fun vs => keeping_pure (v :: vs)

/-- Work behind a refusal keeps the relations if it does so wherever nothing is refused. -/
theorem keeping_unless {c : Prop} [Decidable c] {e : Error} {x : Work α} (h : Keeping x) :
    Keeping (if c then fail e >>= fun _ : PUnit => x else x) := by
  split
  · exact (keeping_fail e).bind fun _ => h
  · exact h

/-! ## Columns -/

theorem keeping_derive (owner : Nat) (memo : Memo) (bound : Expr ColumnHandle)
    (hint : Option String) : Keeping (derive owner memo bound hint) := by
  unfold derive
  simp only []
  split
  · exact keeping_pure _
  · split
    all_goals
      refine Keeping.bind ?_ fun name => ?_
      · first | exact keeping_pure _ | exact keeping_look _
      cases name with
      | some name => exact (keeping_of_nodes_eq fun _ => rfl).bind fun column => keeping_pure _
      | none => exact keeping_fail _

theorem keeping_passOn (owner : Nat) (operands : List Nat) : Keeping (passOn owner operands) :=
  (keeping_mapM (fun _ => keeping_look _) operands).bind fun columns =>
    keeping_foldlM (fun _ _ => (keeping_derive _ _ _ _).bind fun _ => keeping_pure _)
      columns.flatten _

theorem keeping_deriveWhole (owner operand : Nat) (building : String) (t : Table) :
    Keeping (deriveWhole owner operand building t) :=
  keeping_foldlM (fun _ _ => (keeping_look _).bind fun _ =>
    (keeping_derive _ _ _ _).bind fun _ => keeping_pure _) t.qualifiedColumns _

theorem keeping_deriveNamed (owner operand : Nat) (building : String) (memo : Memo)
    (shown : List Nat) (arg : Algebra.ProjectArg) :
    Keeping (deriveNamed owner operand building memo shown arg) := by
  unfold deriveNamed
  exact (keeping_check _).bind fun expr => (keeping_look _).bind fun bound =>
    (keeping_derive _ _ _ _).bind fun derived => (keeping_look _).bind fun column =>
      (keeping_look _).bind fun others => keeping_unless (keeping_pure _)

theorem keeping_deriveShown (owner operand : Nat) (building : String)
    (args : List Algebra.ProjectArg) : Keeping (deriveShown owner operand building args) :=
  keeping_foldlM (fun _ _ => keeping_deriveNamed _ _ _ _ _ _) args _

/-! ## Relations -/

theorem keeping_project (operand : Nat) (args : List (Arg Nat)) : Keeping (project operand args) := by
  unfold project
  refine (keeping_look _).bind fun read => (keeping_look _).bind fun r => keeping_unless ?_
  refine (keeping_look _).bind fun owner => (keeping_look _).bind fun whole => ?_
  cases whole with
  | some whole =>
    exact (keeping_look _).bind fun t =>
      (keeping_deriveWhole _ _ _ _).bind fun memo => keeping_push _ memo
  | none => exact (keeping_deriveShown _ _ _ _).bind fun derived => keeping_push _ _

theorem keeping_join (kind : JoinKind) (left right : Nat) (condition : Predicate) :
    Keeping (join kind left right condition) := by
  unfold join
  exact (keeping_look _).bind fun l => (keeping_look _).bind fun r => keeping_unless <|
    (keeping_check _).bind fun equality => (keeping_look _).bind fun bound =>
      (keeping_look _).bind fun owner => (keeping_passOn _ _).bind fun memo => keeping_push _ memo

theorem keeping_joinInferred (kind : JoinKind) (left right : Nat) :
    Keeping (joinInferred kind left right) :=
  (keeping_look _).bind fun _ => (keeping_look _).bind fun _ =>
    (keeping_check _).bind fun condition => keeping_join kind left right condition

end

/-! ## What is stored of operands -/

variable {α : Type} {x : Work α} {a a' : Arena} {b : Algebra} {r : Relation} {n : Nat}

/-- Work that keeps the relations stores the expressions over them as they were stored. -/
theorem Keeping.encode_eq (hx : Keeping x) {outcome : Except Stop α} (hon : x.on a = (outcome, a'))
    (h : Stores a b) {operands : List Relation} (hops : ∀ s ∈ operands, s ∈ b.relations) :
    a'.encode operands = a.encode operands := by
  have hmore := hx a
  rw [hon] at hmore
  exact funext (encode_more hmore fun s hs => h.length ▸ h.sound.id_lt_size (hops s hs))

/-! ## What work has built -/

/-- Work that builds has built what the computation builds. -/
theorem Builds.exists_of_ok {x : Work Nat} {y : Except Error (Relation × Algebra)}
    (h : Builds x a b y) (hon : x.on a = (.ok n, a')) :
    ∃ r b', y = .ok (r, b') ∧ n = r.id ∧ Stores a' b' := by
  cases y with
  | error cause =>
    obtain ⟨a'', hstop, -⟩ := h
    rw [hon] at hstop
    cases hstop
  | ok built =>
    obtain ⟨n', a'', hbuilt, hid, hstores⟩ := h
    rw [hon] at hbuilt
    cases hbuilt
    exact ⟨built.1, built.2, rfl, hid, hstores⟩

/-- What is stored of the relation that was built last. -/
theorem Stores.exists_added (h : Stores a (b.add r)) :
    r ∈ (b.add r).relations ∧ ∃ memo, a.node r.id = .ok ⟨a.operator memo.order r, memo⟩ ∧
      Holds a r.id (a.ancestor r) memo r.columns := by
  have hmem : r ∈ (b.add r).relations := List.mem_append_right _ (List.mem_singleton_self r)
  obtain ⟨memo, hnode, hholds⟩ := h.keeps r hmem
  exact ⟨hmem, memo, congrArg follow hnode, hholds⟩

/-- Work that goes on from a relation had the handle of one. -/
theorem lt_of_look_relation {f : Relation → Work α} {v : α}
    (h : (look (·.relation n) >>= f).on a = (.ok v, a')) : n < a.nodes.length := by
  by_contra hge
  have hnone : (look (·.relation n)).on a = (.error .dangling, a) := by
    rw [on_look, relation, List.getElem?_eq_none (Nat.le_of_not_lt hge)]
  rw [on_bind_error hnone] at h
  cases h

end Arena

end RelationalAlgebra
