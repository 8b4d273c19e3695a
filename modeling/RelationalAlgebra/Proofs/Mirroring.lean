import RelationalAlgebra.Arena.Session
import RelationalAlgebra.Proofs.Embedding
import RelationalAlgebra.Proofs.Refinement

/-!
# Two arenas side by side

Let one arena store an algebra and another one store it under other identities, with more beside it
(`Mirrored`).  Whatever is built in both of them, they stay like that: the work has the same outcome in
both, it leaves no handle dangling, and what it builds stands under handles that correspond (`Mirrors`).

This is shown for each operation that builds one relation (`mirrors_of_builds`).  What is put together
from these has nothing else to do with arenas, and so wire forms and chains follow step by step
(`ofWire_mirrors`, `chain_mirrors`).  A table is declared in both arenas or in neither, which makes it
all constructions (`Construction.run_mirrors`).
-/

namespace RelationalAlgebra

open RelationalAlgebra.Relation

namespace Arena

/-! ## What mirrors what -/

/-- The second arena stores what the first one does, under other identities and with more beside it. -/
structure Mirrored (f : Nat → Nat) (c b : Algebra) (a a' : Arena) : Prop where
  stores : Stores a c
  stores' : Stores a' b
  embeds : Algebra.Embeds f c b

/-- An algebra goes on to another one, and its identities stay what they are in the mirror. -/
structure Onward (f : Nat → Nat) (c : Algebra) (g : Nat → Nat) (d : Algebra) : Prop where
  derives : c.Derives d
  same : ∀ n < c.size, g n = f n

/-- Two outcomes agree: both are failures for one reason, or results with `R`. -/
inductive SameOutcome {α : Type} (R : α → α → Prop) : Except Stop α → Except Stop α → Prop
  | failure (cause : Error) : SameOutcome R (.error (.failure cause)) (.error (.failure cause))
  | ok {v v' : α} (result : R v v') : SameOutcome R (.ok v) (.ok v')

/-- Work in two arenas that are mirrored has outcomes that agree and leaves them mirrored. -/
def Mirrors {α : Type} (f : Nat → Nat) (c : Algebra) (a a' : Arena) (x x' : Work α)
    (R : (Nat → Nat) → Algebra → α → α → Prop) : Prop :=
  ∃ g d b', Onward f c g d ∧ Mirrored g d b' (x.on a).2 (x'.on a').2 ∧
    SameOutcome (R g d) (x.on a).1 (x'.on a').1

/-- Handles that correspond. -/
def Handles (g : Nat → Nat) (d : Algebra) (n n' : Nat) : Prop := n < d.size ∧ n' = g n

section

variable {α β : Type} {f g h : Nat → Nat} {b c d e : Algebra} {a a' : Arena} {x x' : Work α}
  {R : (Nat → Nat) → Algebra → α → α → Prop} {S : (Nat → Nat) → Algebra → β → β → Prop}

theorem Onward.refl (f : Nat → Nat) (c : Algebra) : Onward f c f c := ⟨.refl, fun _ _ => rfl⟩

theorem Onward.trans (hfg : Onward f c g d) (hgh : Onward g d h e) : Onward f c h e := by
  refine ⟨hfg.derives.trans hgh.derives, fun n hn => ?_⟩
  rw [hgh.same n (Nat.lt_of_lt_of_le hn hfg.derives.size_le), hfg.same n hn]

/-- Handles go on to correspond. -/
theorem Handles.onward {n n' : Nat} (hn : Handles f c n n') (hfg : Onward f c g d) :
    Handles g d n n' :=
  ⟨Nat.lt_of_lt_of_le hn.1 hfg.derives.size_le, by rw [hfg.same n hn.1]; exact hn.2⟩

/-- Work after which the arenas store what they stored before. -/
theorem mirrors_still {a₁ a₁' : Arena} (hm : Mirrored f c b a₁ a₁')
    {outcome outcome' : Except Stop α} (hx : x.on a = (outcome, a₁))
    (hx' : x'.on a' = (outcome', a₁')) (houtcome : SameOutcome (R f c) outcome outcome') :
    Mirrors f c a a' x x' R := by
  refine ⟨f, c, b, .refl f c, ?_, ?_⟩
  · rw [hx, hx']
    exact hm
  · rw [hx, hx']
    exact houtcome

theorem mirrors_pure (hm : Mirrored f c b a a') {v v' : α} (hv : R f c v v') :
    Mirrors f c a a' (pure v) (pure v') R :=
  mirrors_still hm rfl rfl (.ok hv)

theorem mirrors_fail (hm : Mirrored f c b a a') (cause : Error) :
    Mirrors f c a a' (fail cause : Work α) (fail cause) R :=
  mirrors_still hm rfl rfl (.failure cause)

/-- One step after the other. -/
theorem Mirrors.bind {k k' : α → Work β} (hx : Mirrors f c a a' x x' R)
    (hk : ∀ g d b' a₁ a₁' v v', Onward f c g d → Mirrored g d b' a₁ a₁' → R g d v v' →
      Mirrors g d a₁ a₁' (k v) (k' v') S) :
    Mirrors f c a a' (x >>= k) (x' >>= k') S := by
  obtain ⟨g, d, b', honward, hm, houtcome⟩ := hx
  generalize hrun : x.on a = p, hrun' : x'.on a' = p' at hm houtcome
  obtain ⟨outcome, a₁⟩ := p
  obtain ⟨outcome', a₁'⟩ := p'
  cases houtcome with
  | failure cause =>
    refine ⟨g, d, b', honward, ?_, ?_⟩
    · rw [on_bind_error hrun, on_bind_error hrun']
      exact hm
    · rw [on_bind_error hrun, on_bind_error hrun']
      exact .failure cause
  | ok result =>
    obtain ⟨h, e, b'', honward', hm', houtcome'⟩ := hk g d b' a₁ a₁' _ _ honward hm result
    refine ⟨h, e, b'', honward.trans honward', ?_, ?_⟩
    · rw [on_bind_ok hrun, on_bind_ok hrun']
      exact hm'
    · rw [on_bind_ok hrun, on_bind_ok hrun']
      exact houtcome'

/-- A step that needs no arena. -/
theorem mirrors_check_bind (hm : Mirrored f c b a a') (y : Except Error α) {k k' : α → Work β}
    (hk : ∀ v, Mirrors f c a a' (k v) (k' v) S) :
    Mirrors f c a a' (check y >>= k) (check y >>= k') S := by
  cases y with
  | error cause =>
    exact mirrors_still hm (on_bind_error rfl) (on_bind_error rfl) (.failure cause)
  | ok v =>
    have hrun : ∀ (k : α → Work β) (a : Arena), (check (.ok v) >>= k).on a = (k v).on a :=
      fun _ _ => on_bind_ok rfl
    unfold Mirrors
    rw [hrun, hrun]
    exact hk v

end

/-! ## One relation -/

section

variable {f : Nat → Nat} {b c : Algebra} {a a' : Arena} {x x' : Work Nat}

/-- Work in two arenas builds in both what a computation on the algebras builds in the smaller one. -/
theorem mirrors_of_builds (hm : Mirrored f c b a a') {y : Except Error (Relation × Algebra)}
    (hx : Builds x a c y) (hx' : Builds x' a' b (Algebra.renamed f b y))
    (hy : Algebra.AddsOne c y) :
    Mirrors f c a a' x x' Handles := by
  cases y with
  | error cause =>
    obtain ⟨a₁, hrun, hstores⟩ := hx
    obtain ⟨a₁', hrun', hstores'⟩ := hx'
    exact mirrors_still ⟨hstores, hstores', hm.embeds⟩ hrun hrun' (.failure cause)
  | ok p =>
    obtain ⟨hbuilt, hnot, hc'⟩ := hy p rfl
    obtain ⟨n, a₁, hrun, hn, hstores⟩ := hx
    obtain ⟨n', a₁', hrun', hn', hstores'⟩ := hx'
    rw [hc'] at hstores
    refine ⟨f, c.add p.1, b.add (p.1.rename f), ⟨.add .refl hbuilt hnot, fun _ _ => rfl⟩, ?_, ?_⟩
    · rw [hrun, hrun']
      exact ⟨hstores, hstores', hm.embeds.add p.1⟩
    · rw [hrun, hrun']
      have hlt := hstores.sound.id_lt_size (List.mem_append_right _ (List.mem_singleton_self p.1))
      refine .ok ⟨hn ▸ hlt, ?_⟩
      rw [hn', hn]
      exact id_rename f p.1

/-- The relation of a handle in both arenas. -/
theorem Mirrored.exists_relation (hm : Mirrored f c b a a') {n n' : Nat} (hn : Handles f c n n') :
    ∃ r ∈ c.relations, r.id = n ∧ r.rename f ∈ b.relations ∧ (r.rename f).id = n' := by
  obtain ⟨r, hr, hid⟩ := hm.stores.sound.exists_of_lt hn.1
  exact ⟨r, hr, hid, hm.embeds.keeps r hr, by rw [id_rename, hid, hn.2]⟩

theorem select_mirrors (hm : Mirrored f c b a a') {n n' : Nat} (hn : Handles f c n n')
    (condition : Predicate) :
    Mirrors f c a a' (select n condition) (select n' condition) Handles := by
  obtain ⟨r, hr, rfl, hr', rfl⟩ := hm.exists_relation hn
  have hfollows := select_follows hm.stores' hr' condition
  rw [hm.embeds.run_select] at hfollows
  exact mirrors_of_builds hm (select_follows hm.stores hr condition) hfollows
    (Algebra.addsOne_select hr condition)

theorem join_mirrors (hm : Mirrored f c b a a') {l l' r r' : Nat} (hl : Handles f c l l')
    (hr : Handles f c r r') (kind : JoinKind) (condition : Predicate) :
    Mirrors f c a a' (join kind l r condition) (join kind l' r' condition) Handles := by
  obtain ⟨left, hleft, rfl, hleft', rfl⟩ := hm.exists_relation hl
  obtain ⟨right, hright, rfl, hright', rfl⟩ := hm.exists_relation hr
  have hfollows := join_follows hm.stores' hleft' hright' kind condition
  rw [hm.embeds.run_join] at hfollows
  exact mirrors_of_builds hm (join_follows hm.stores hleft hright kind condition) hfollows
    (Algebra.addsOne_join hleft hright kind condition)

theorem joinInferred_mirrors (hm : Mirrored f c b a a') {l l' r r' : Nat} (hl : Handles f c l l')
    (hr : Handles f c r r') (kind : JoinKind) :
    Mirrors f c a a' (joinInferred kind l r) (joinInferred kind l' r') Handles := by
  obtain ⟨left, hleft, rfl, hleft', rfl⟩ := hm.exists_relation hl
  obtain ⟨right, hright, rfl, hright', rfl⟩ := hm.exists_relation hr
  have hfollows := joinInferred_follows hm.stores' hleft' hright' kind
  rw [hm.embeds.run_joinInferred] at hfollows
  exact mirrors_of_builds hm (joinInferred_follows hm.stores hleft hright kind) hfollows
    (Algebra.addsOne_joinInferred hleft hright kind)

end

/-! ## References that correspond -/

section

variable {ρ σ : Type} {R S : ρ → σ → Prop}

/-- Arguments that refer to relations that correspond, and are the same otherwise. -/
inductive Arg.Matches (R : ρ → σ → Prop) : Arg ρ → Arg σ → Prop
  | relation {r : ρ} {s : σ} (h : R r s) : Arg.Matches R (.relation r) (.relation s)
  | record (table : String) : Arg.Matches R (.record table) (.record table)
  | name (n : String) : Arg.Matches R (.name n) (.name n)
  | expr (e : Expr String) : Arg.Matches R (.expr e) (.expr e)

/-- Links that refer to relations that correspond, and are the same otherwise. -/
inductive Link.Matches (R : ρ → σ → Prop) : Link ρ → Link σ → Prop
  | filter (condition : Predicate) : Link.Matches R (.filter condition) (.filter condition)
  | find (id : Value) : Link.Matches R (.find id) (.find id)
  | project {args : List (Arg ρ)} {args' : List (Arg σ)} (h : List.Forall₂ (Arg.Matches R) args args') :
      Link.Matches R (.project args) (.project args')
  | join {r : ρ} {s : σ} (condition : Predicate) (h : R r s) :
      Link.Matches R (.join r condition) (.join s condition)
  | leftJoin {r : ρ} {s : σ} (condition : Predicate) (h : R r s) :
      Link.Matches R (.leftJoin r condition) (.leftJoin s condition)
  | joinInferred {r : ρ} {s : σ} (h : R r s) : Link.Matches R (.joinInferred r) (.joinInferred s)

theorem Arg.Matches.mono {arg : Arg ρ} {arg' : Arg σ} (hRS : ∀ r s, R r s → S r s)
    (h : arg.Matches R arg') : arg.Matches S arg' := by
  cases h with
  | relation h => exact .relation (hRS _ _ h)
  | record table => exact .record table
  | name n => exact .name n
  | expr e => exact .expr e

theorem Link.Matches.mono {link : Link ρ} {link' : Link σ} (hRS : ∀ r s, R r s → S r s)
    (h : link.Matches R link') : link.Matches S link' := by
  cases h with
  | filter condition => exact .filter condition
  | find id => exact .find id
  | project h => exact .project (h.imp fun _ _ => Arg.Matches.mono hRS)
  | join condition h => exact .join condition (hRS _ _ h)
  | leftJoin condition h => exact .leftJoin condition (hRS _ _ h)
  | joinInferred h => exact .joinInferred (hRS _ _ h)

end

section

variable {f : Nat → Nat} {b c : Algebra} {a a' : Arena}

/-- Arguments that correspond speak of one relation under two identities. -/
theorem Mirrored.read_eq (hm : Mirrored f c b a a') {args args' : List (Arg Nat)}
    (h : List.Forall₂ (Arg.Matches (Handles f c)) args args') :
    ∃ read, args.mapM (·.read a.relation) = .ok read ∧
      args'.mapM (·.read a'.relation) = .ok (read.map (·.rename f)) := by
  induction h with
  | nil => exact ⟨[], rfl, rfl⟩
  | @cons arg arg' rest rest' harg _ ih =>
    obtain ⟨read, hread, hread'⟩ := ih
    have hfirst : ∃ first, arg.read a.relation = .ok first ∧
        arg'.read a'.relation = .ok (first.rename f) := by
      cases harg with
      | relation hn =>
        obtain ⟨r, hr, rfl, hr', rfl⟩ := hm.exists_relation hn
        refine ⟨.relation r, ?_, ?_⟩
        · rw [Arg.read, hm.stores.relation_eq hr]
          rfl
        · rw [Arg.read, hm.stores'.relation_eq hr']
          rfl
      | record table => exact ⟨_, rfl, rfl⟩
      | name n => exact ⟨_, rfl, rfl⟩
      | expr e => exact ⟨_, rfl, rfl⟩
    obtain ⟨first, hfirst, hfirst'⟩ := hfirst
    refine ⟨first :: read, ?_, ?_⟩
    · rw [List.mapM_cons, hfirst, hread]
      rfl
    · rw [List.mapM_cons, hfirst', hread']
      rfl

theorem project_mirrors (hm : Mirrored f c b a a') {n n' : Nat} (hn : Handles f c n n')
    {args args' : List (Arg Nat)} (hargs : List.Forall₂ (Arg.Matches (Handles f c)) args args') :
    Mirrors f c a a' (project n args) (project n' args') Handles := by
  obtain ⟨r, hr, rfl, hr', rfl⟩ := hm.exists_relation hn
  obtain ⟨read, hread, hread'⟩ := hm.read_eq hargs
  have hfollows := project_follows hm.stores' hr' hread'
  rw [hm.embeds.run_project] at hfollows
  exact mirrors_of_builds hm (project_follows hm.stores hr hread) hfollows
    (Algebra.addsOne_project hr read)

/-! ## Several relations -/

theorem wireTable_mirrors (hm : Mirrored f c b a a') (name : String) :
    Mirrors f c a a' (wireTable name) (wireTable name) Handles := by
  have hlook : (look fun a => .ok (a.tableNamed? name)).on a =
      (.ok ((c.table? name).map (·.id)), a) := by
    rw [← hm.stores.tables name]
    rfl
  have hlook' : (look fun a => .ok (a.tableNamed? name)).on a' =
      (.ok (((c.table? name).map (·.id)).map f), a') := by
    have htable : a'.tableNamed? name = ((c.table? name).map (·.id)).map f := by
      rw [hm.stores'.tables name, hm.embeds.table?, Option.map_map, Option.map_map]
      rfl
    rw [← htable]
    rfl
  unfold wireTable
  cases htable : c.table? name with
  | none =>
    rw [htable] at hlook hlook'
    exact mirrors_still hm (on_bind_ok hlook) (on_bind_ok hlook') (.failure _)
  | some t =>
    rw [htable] at hlook hlook'
    have hlt := hm.stores.sound.id_lt_size (Algebra.mem_of_table? htable).1
    exact mirrors_still hm (on_bind_ok hlook) (on_bind_ok hlook') (.ok ⟨hlt, rfl⟩)

/-- The relations of a wire form. -/
theorem ofWireWithin_mirrors (depth : Nat) (hm : Mirrored f c b a a') (j : Json) :
    Mirrors f c a a' (ofWireWithin depth j) (ofWireWithin depth j) Handles := by
  induction depth generalizing f c b a a' j with
  | zero => exact mirrors_fail hm _
  | succ depth ih =>
    unfold ofWireWithin
    refine mirrors_check_bind hm _ fun type => ?_
    by_cases htable : type = "table"
    · rw [if_pos htable]
      exact mirrors_check_bind hm _ fun name => wireTable_mirrors hm name
    rw [if_neg htable]
    by_cases hselection : type = "selection"
    · rw [if_pos hselection]
      refine mirrors_check_bind hm _ fun operand => ?_
      refine (ih hm operand).bind fun g d b' a₁ a₁' n n' _ hm hn => ?_
      exact mirrors_check_bind hm _ fun condition => select_mirrors hm hn _
    rw [if_neg hselection]
    by_cases hjoin : type = "inner_join" ∨ type = "left_join"
    · rw [if_pos hjoin]
      refine mirrors_check_bind hm _ fun left => ?_
      refine (ih hm left).bind fun g d b' a₁ a₁' l l' _ hm hl => ?_
      refine mirrors_check_bind hm _ fun right => ?_
      refine (ih hm right).bind fun h e b'' a₂ a₂' r r' honward hm hr => ?_
      exact mirrors_check_bind hm _ fun condition => join_mirrors hm (hl.onward honward) hr _ _
    rw [if_neg hjoin]
    by_cases hprojection : type = "table_projection"
    · rw [if_pos hprojection]
      refine mirrors_check_bind hm _ fun operand => ?_
      refine (ih hm operand).bind fun g d b' a₁ a₁' n n' _ hm hn => ?_
      refine mirrors_check_bind hm _ fun name => ?_
      refine (wireTable_mirrors hm name).bind fun h e b'' a₂ a₂' t t' honward hm ht => ?_
      exact project_mirrors hm (hn.onward honward) (.cons (.relation ht) .nil)
    rw [if_neg hprojection]
    exact mirrors_fail hm _

theorem ofWire_mirrors (hm : Mirrored f c b a a') (j : Json) :
    Mirrors f c a a' (ofWire j) (ofWire j) Handles := ofWireWithin_mirrors j.depth hm j

/-- One link of a chain. -/
theorem link_mirrors (hm : Mirrored f c b a a') {n n' : Nat} (hn : Handles f c n n')
    {next next' : Link Nat} (hlink : next.Matches (Handles f c) next') :
    Mirrors f c a a' (link n next) (link n' next') Handles := by
  cases hlink with
  | filter condition => exact select_mirrors hm hn condition
  | find id => exact select_mirrors hm hn (Predicate.hasId id)
  | project hargs => exact project_mirrors hm hn hargs
  | join condition hr => exact join_mirrors hm hn hr .inner condition
  | leftJoin condition hr => exact join_mirrors hm hn hr .leftOuter condition
  | joinInferred hr => exact joinInferred_mirrors hm hn hr .inner

theorem chain_mirrors (hm : Mirrored f c b a a') {n n' : Nat} (hn : Handles f c n n')
    {links links' : List (Link Nat)}
    (hlinks : List.Forall₂ (Link.Matches (Handles f c)) links links') :
    Mirrors f c a a' (chain n links) (chain n' links') Handles := by
  unfold chain
  induction links generalizing f c b a a' n n' links' with
  | nil =>
    cases hlinks
    exact mirrors_pure hm hn
  | cons first rest ih =>
    obtain ⟨first', rest', hfirst, hrest, rfl⟩ := List.forall₂_cons_left_iff.1 hlinks
    rw [List.foldlM_cons, List.foldlM_cons]
    refine (link_mirrors hm hn hfirst).bind fun g d b' a₁ a₁' v v' honward hm hv => ?_
    refine ih hm hv (hrest.imp fun _ _ => Link.Matches.mono fun _ _ h => h.onward honward)

/-! ## Constructions -/

/-- Work in two arenas declares one table in both. -/
def Declares (f : Nat → Nat) (c b : Algebra) (a a' : Arena) (x x' : Work Nat) : Prop :=
  ∃ t, Algebra.Built c (.table t) ∧ (x.on a).1 = .ok t.id ∧ (x'.on a').1 = .ok (f t.id) ∧
    Mirrored f (c.add (.table t)) (b.add (.table (t.rename f))) (x.on a).2 (x'.on a').2

theorem createTable_mirrors (hm : Mirrored f c b a a') (name : String)
    (columns : List (String × ColumnType)) :
    Mirrors f c a a' (createTable name columns) (createTable name columns) Handles ∨
      Declares f c b a a' (createTable name columns) (createTable name columns) := by
  have hfollows := createTable_follows hm.stores name columns
  have hfollows' := createTable_follows hm.stores' name columns
  rw [hm.embeds.run_createTable] at hfollows'
  cases hy : (Algebra.createTable name columns).run c with
  | error cause =>
    rw [hy] at hfollows hfollows'
    obtain ⟨a₁, hrun, hstores⟩ := hfollows
    obtain ⟨a₁', hrun', hstores'⟩ := hfollows'
    exact .inl (mirrors_still ⟨hstores, hstores', hm.embeds⟩ hrun hrun' (.failure cause))
  | ok p =>
    rw [hy] at hfollows hfollows'
    obtain ⟨t, d⟩ := p
    obtain ⟨n, a₁, hrun, rfl, hstores⟩ := hfollows
    obtain ⟨n', a₁', hrun', rfl, hstores'⟩ := hfollows'
    obtain ⟨-, -, rfl⟩ := Algebra.createTable_ok_iff.1 hy
    refine .inr ⟨t, Algebra.Sound.built_last hstores.sound, by rw [hrun], by rw [hrun']; rfl, ?_⟩
    rw [hrun, hrun']
    exact ⟨hstores, hstores', hm.embeds.add (.table t)⟩

/-- Constructions that refer to relations that correspond, and are the same otherwise. -/
inductive Construction.Matches {ρ σ : Type} (R : ρ → σ → Prop) :
    Construction ρ → Construction σ → Prop
  | createTable (name : String) (columns : List (String × ColumnType)) :
      Construction.Matches R (.createTable name columns) (.createTable name columns)
  | select {r : ρ} {s : σ} (condition : Predicate) (h : R r s) :
      Construction.Matches R (.select r condition) (.select s condition)
  | project {r : ρ} {s : σ} {args : List (Arg ρ)} {args' : List (Arg σ)} (h : R r s)
      (hargs : List.Forall₂ (Arg.Matches R) args args') :
      Construction.Matches R (.project r args) (.project s args')
  | join {l r : ρ} {l' r' : σ} (kind : JoinKind) (condition : Predicate) (hl : R l l')
      (hr : R r r') : Construction.Matches R (.join kind l r condition) (.join kind l' r' condition)
  | joinInferred {l r : ρ} {l' r' : σ} (kind : JoinKind) (hl : R l l') (hr : R r r') :
      Construction.Matches R (.joinInferred kind l r) (.joinInferred kind l' r')
  | ofWire (wire : Json) : Construction.Matches R (.ofWire wire) (.ofWire wire)
  | chain {r : ρ} {s : σ} {links : List (Link ρ)} {links' : List (Link σ)} (h : R r s)
      (hlinks : List.Forall₂ (Link.Matches R) links links') :
      Construction.Matches R (.chain r links) (.chain s links')

section

variable {ρ : Type} {R : ρ → ρ → Prop}

theorem Arg.forall₂_self {args : List (Arg ρ)}
    (h : ∀ r ∈ args.flatMap (·.references), R r r) : List.Forall₂ (Arg.Matches R) args args := by
  refine List.forall₂_same.2 fun arg harg => ?_
  have hrefs : ∀ r ∈ arg.references, R r r := fun r hr => h r (List.mem_flatMap.2 ⟨arg, harg, hr⟩)
  cases arg with
  | relation r => exact .relation (hrefs r (List.mem_singleton_self r))
  | record table => exact .record table
  | name n => exact .name n
  | expr e => exact .expr e

theorem Link.forall₂_self {links : List (Link ρ)}
    (h : ∀ r ∈ links.flatMap (·.references), R r r) : List.Forall₂ (Link.Matches R) links links := by
  refine List.forall₂_same.2 fun link hlink => ?_
  have hrefs : ∀ r ∈ link.references, R r r :=
    fun r hr => h r (List.mem_flatMap.2 ⟨link, hlink, hr⟩)
  cases link with
  | filter condition => exact .filter condition
  | find id => exact .find id
  | project args => exact .project (Arg.forall₂_self hrefs)
  | join right condition => exact .join condition (hrefs right (List.mem_singleton_self right))
  | leftJoin right condition =>
    exact .leftJoin condition (hrefs right (List.mem_singleton_self right))
  | joinInferred right => exact .joinInferred (hrefs right (List.mem_singleton_self right))

/-- A construction matches itself if all relations it refers to correspond to themselves. -/
theorem Construction.matches_self {k : Construction ρ} (h : ∀ r ∈ k.references, R r r) :
    k.Matches R k := by
  cases k with
  | createTable name columns => exact .createTable name columns
  | select operand condition => exact .select condition (h operand (List.mem_singleton_self operand))
  | project operand args =>
    exact .project (h operand (List.mem_cons_self ..))
      (Arg.forall₂_self fun r hr => h r (List.mem_cons_of_mem _ hr))
  | join kind left right condition =>
    exact .join kind condition (h left (List.mem_cons_self ..))
      (h right (List.mem_cons_of_mem _ (List.mem_singleton_self right)))
  | joinInferred kind left right =>
    exact .joinInferred kind (h left (List.mem_cons_self ..))
      (h right (List.mem_cons_of_mem _ (List.mem_singleton_self right)))
  | ofWire wire => exact .ofWire wire
  | chain operand links =>
    exact .chain (h operand (List.mem_cons_self ..))
      (Link.forall₂_self fun r hr => h r (List.mem_cons_of_mem _ hr))

end

theorem stores_empty : Stores .empty .empty := by
  refine ⟨Algebra.sound_empty, rfl, ?_, fun name => rfl⟩
  intro r hr
  cases hr

/-- An arena mirrors itself. -/
theorem Stores.mirrored (h : Stores a b) : Mirrored (fun n => n) b b a a :=
  ⟨h, h, Algebra.embeds_self b⟩

/-- A construction builds in both arenas the same, or declares a table in both. -/
theorem Construction.run_mirrors (hm : Mirrored f c b a a') {k k' : Construction Nat}
    (hk : k.Matches (Handles f c) k') :
    Mirrors f c a a' k.run k'.run Handles ∨ Declares f c b a a' k.run k'.run := by
  cases hk with
  | createTable name columns => exact createTable_mirrors hm name columns
  | select condition h => exact .inl (select_mirrors hm h condition)
  | project h hargs => exact .inl (project_mirrors hm h hargs)
  | join kind condition hl hr => exact .inl (join_mirrors hm hl hr kind condition)
  | joinInferred kind hl hr => exact .inl (joinInferred_mirrors hm hl hr kind)
  | ofWire wire => exact .inl (ofWire_mirrors hm wire)
  | chain h hlinks => exact .inl (chain_mirrors hm h hlinks)

end

end Arena

end RelationalAlgebra
