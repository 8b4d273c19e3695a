import Mathlib
import RelationalAlgebra.Proofs.Answering

/-!
# Constructions that fail leave no trace

What a construction that fails has put into the arena stays there, but no answer tells of it.  Take some
of the steps that fail out of a session, or all of them: the steps that are left have the answers they
had (`transcript_of_trimmed`).

The session without these steps is `Within` the other one: it has the relations of the other one under
other identities, and the same names for them.  A step that both take keeps it so and has one answer
(`Within.take`), and so does a step that fails and is taken by the longer session alone
(`Within.fail`).
-/

namespace RelationalAlgebra

namespace Arena

/-! ## References that are looked up -/

/-- Two outcomes agree: both stop for one reason, or come to results for which `R` holds. -/
inductive Agree {α β ε : Type} (R : α → β → Prop) : Except ε α → Except ε β → Prop
  | stop (e : ε) : Agree R (.error e) (.error e)
  | ok {v : α} {w : β} (result : R v w) : Agree R (.ok v) (.ok w)

section

variable {α β α' β' ε ρ σ τ ι : Type} {x : Except ε α} {y : Except ε β} {R : α → β → Prop}
  {S : α' → β' → Prop} {f : ρ → Except ε σ} {g : ρ → Except ε τ} {T : σ → τ → Prop}

theorem Agree.map {φ : α → α'} {ψ : β → β'} (h : Agree R x y) (hφ : ∀ v w, R v w → S (φ v) (ψ w)) :
    Agree S (x.map φ) (y.map ψ) := by
  cases h with
  | stop e => exact .stop e
  | ok result => exact .ok (hφ _ _ result)

theorem Agree.bind {k : α → Except ε α'} {k' : β → Except ε β'} (h : Agree R x y)
    (hk : ∀ v w, R v w → Agree S (k v) (k' w)) : Agree S (x >>= k) (y >>= k') := by
  cases h with
  | stop e => exact .stop e
  | ok result => exact hk _ _ result

theorem agree_mapM {k : ι → Except ε α} {k' : ι → Except ε β} (h : ∀ i, Agree R (k i) (k' i))
    (l : List ι) : Agree (List.Forall₂ R) (l.mapM k) (l.mapM k') := by
  induction l with
  | nil => exact .ok .nil
  | cons i rest ih =>
    rw [List.mapM_cons, List.mapM_cons]
    exact (h i).bind fun v w hvw => ih.bind fun vs ws hrest => .ok (.cons hvw hrest)

theorem Arg.agree_mapM (h : ∀ r, Agree T (f r) (g r)) (arg : Arg ρ) :
    Agree (Arg.Matches T) (arg.mapM f) (arg.mapM g) := by
  cases arg with
  | relation r => exact (h r).map fun _ _ => .relation
  | record table => exact .ok (.record table)
  | name n => exact .ok (.name n)
  | expr e => exact .ok (.expr e)

theorem Link.agree_mapM (h : ∀ r, Agree T (f r) (g r)) (link : Link ρ) :
    Agree (Link.Matches T) (link.mapM f) (link.mapM g) := by
  cases link with
  | filter condition => exact .ok (.filter condition)
  | find id => exact .ok (.find id)
  | project args => exact (Arena.agree_mapM (Arg.agree_mapM h) args).map fun _ _ => .project
  | join right condition => exact (h right).map fun _ _ => .join condition
  | leftJoin right condition => exact (h right).map fun _ _ => .leftJoin condition
  | joinInferred right => exact (h right).map fun _ _ => .joinInferred

/-- A construction refers to relations that correspond if each of its references does. -/
theorem Construction.agree_mapM (h : ∀ r, Agree T (f r) (g r)) (k : Construction ρ) :
    Agree (Construction.Matches T) (k.mapM f) (k.mapM g) := by
  cases k with
  | createTable name columns => exact .ok (.createTable name columns)
  | select operand condition => exact (h operand).map fun _ _ => .select condition
  | project operand args =>
    refine (h operand).bind fun r s hrs => ?_
    exact (Arena.agree_mapM (Arg.agree_mapM h) args).bind fun _ _ hargs => .ok (.project hrs hargs)
  | join kind left right condition =>
    refine (h left).bind fun _ _ hleft => ?_
    exact (h right).bind fun _ _ hright => .ok (.join kind condition hleft hright)
  | joinInferred kind left right =>
    refine (h left).bind fun _ _ hleft => ?_
    exact (h right).bind fun _ _ hright => .ok (.joinInferred kind hleft hright)
  | ofWire wire => exact .ok (.ofWire wire)
  | chain operand links =>
    refine (h operand).bind fun r s hrs => ?_
    exact (Arena.agree_mapM (Link.agree_mapM h) links).bind fun _ _ hlinks => .ok (.chain hrs hlinks)

theorem Question.agree_mapM (h : ∀ r, Agree T (f r) (g r)) (q : Question ρ) :
    Agree (Question.Matches T) (q.mapM f) (q.mapM g) := by
  cases q with
  | description r => exact (h r).map fun _ _ => .description
  | columnNames r => exact (h r).map fun _ _ => .columnNames
  | column r name => exact (h r).map fun _ _ => .column name
  | table r name => exact (h r).map fun _ _ => .table name
  | wire r => exact (h r).map fun _ _ => .wire
  | sql r => exact (h r).map fun _ _ => .sql
  | equal l r =>
    refine (h l).bind fun _ _ hl => ?_
    exact (h r).bind fun _ _ hr => .ok (.equal hl hr)

end

/-! ## One session within another -/

namespace Session

/-- The first session has the relations of the second one, under other identities, and the same names
for them. -/
structure Within (f : Nat → Nat) (c b : Algebra) (s t : Session) : Prop where
  mirrored : Mirrored f c b s.arena t.arena
  names : List.Forall₂ (fun p q => p.1 = q.1 ∧ Handles f c p.2 q.2) s.names t.names

section

variable {s : Session} {construction : Construction String} {label : String} {k : Construction Nat}
  {a : Arena} {stop : Stop} {r : Nat}

/-- A construction that refers to a name that nothing was given does not begin. -/
theorem take_unknown (hk : construction.mapM s.handle = .error stop) :
    s.take (.build construction label) = (s, .error stop) := by
  simp only [Session.take, hk]

theorem take_stopped (hk : construction.mapM s.handle = .ok k)
    (hrun : k.run.on s.arena = (.error stop, a)) :
    s.take (.build construction label) = (⟨a, s.names⟩, .error stop) := by
  have hrun : k.run.run.run s.arena = (.error stop, a) := hrun
  simp only [Session.take, hk, hrun]

theorem take_built (hk : construction.mapM s.handle = .ok k)
    (hrun : k.run.on s.arena = (.ok r, a)) :
    s.take (.build construction label) = (⟨a, (label, r) :: s.names⟩, .ok .built) := by
  have hrun : k.run.run.run s.arena = (.ok r, a) := hrun
  simp only [Session.take, hk, hrun]

end

section

variable {f g : Nat → Nat} {b c d : Algebra} {s t : Session}

/-- Every session starts within itself. -/
theorem within_start : Within (fun n => n) .empty .empty start start :=
  ⟨stores_empty.mirrored, .nil⟩

/-- Names are looked up in both sessions alike. -/
theorem Within.handle (h : Within f c b s t) (name : String) :
    Agree (Handles f c) (s.handle name) (t.handle name) := by
  unfold Session.handle
  have hnames := h.names
  generalize s.names = names, t.names = names' at hnames
  induction hnames with
  | nil => exact .stop Stop.dangling
  | @cons p q rest rest' hpq _ ih =>
    obtain ⟨heq, hhandles⟩ := hpq
    rw [List.lookup_cons, List.lookup_cons, heq]
    cases name == q.1 with
    | true => exact .ok hhandles
    | false => exact ih

/-- The handles of the longer session are those of relations. -/
theorem Within.handle_self (h : Within f c b s t) (name : String) :
    Agree (Handles (fun n => n) b) (t.handle name) (t.handle name) := by
  have hagree := h.handle name
  generalize s.handle name = x, t.handle name = y at hagree
  cases hagree with
  | stop e => exact .stop e
  | ok hhandles =>
    obtain ⟨r, -, -, hr', rfl⟩ := h.mirrored.exists_relation hhandles
    exact .ok ⟨h.mirrored.stores'.sound.id_lt_size hr', rfl⟩

/-- Names stay the same for what goes on. -/
theorem Within.names_onward (h : Within f c b s t) (hsize : c.size ≤ d.size)
    (hsame : ∀ n < c.size, g n = f n) :
    List.Forall₂ (fun p q => p.1 = q.1 ∧ Handles g d p.2 q.2) s.names t.names := by
  refine h.names.imp fun p q hpq => ⟨hpq.1, Nat.lt_of_lt_of_le hpq.2.1 hsize, ?_⟩
  rw [hsame _ hpq.2.1]
  exact hpq.2.2

end

/-! ## Steps that are kept -/

/-- Work in two arenas that are mirrored comes to relations that correspond, or fails in both. -/
def Advances (f : Nat → Nat) (c : Algebra) (a a' : Arena) (x x' : Work Nat) : Prop :=
  ∃ g d b', c.size ≤ d.size ∧ (∀ n < c.size, g n = f n) ∧
    Mirrored g d b' (x.on a).2 (x'.on a').2 ∧ SameOutcome (Handles g d) (x.on a).1 (x'.on a').1

section

variable {f : Nat → Nat} {b c : Algebra} {a a' : Arena} {x x' : Work Nat} {s t : Session}

theorem advances_of_mirrors (h : Mirrors f c a a' x x' Handles) : Advances f c a a' x x' := by
  obtain ⟨g, d, b', honward, hm, houtcome⟩ := h
  exact ⟨g, d, b', honward.derives.size_le, honward.same, hm, houtcome⟩

theorem advances_of_declares (h : Declares f c b a a' x x') : Advances f c a a' x x' := by
  obtain ⟨t, hbuilt, hrun, hrun', hm⟩ := h
  refine ⟨f, _, _, (List.prefix_append c.relations [.table t]).length_le, fun _ _ => rfl, hm, ?_⟩
  rw [hrun, hrun']
  have hlt := hm.stores.sound.id_lt_size
    (List.mem_append_right _ (List.mem_singleton_self (Relation.table t)))
  exact .ok ⟨hlt, rfl⟩

/-- A construction that both sessions ask for. -/
theorem Within.build (h : Within f c b s t) (construction : Construction String) (label : String) :
    (s.take (.build construction label)).2 = (t.take (.build construction label)).2 ∧
      ∃ g d b', Within g d b' (s.take (.build construction label)).1
        (t.take (.build construction label)).1 := by
  have hagree := Construction.agree_mapM h.handle construction
  generalize hk : construction.mapM s.handle = y, hk' : construction.mapM t.handle = y' at hagree
  cases hagree with
  | stop e =>
    rw [take_unknown hk, take_unknown hk']
    exact ⟨rfl, f, c, b, h⟩
  | @ok k k' hmatches =>
    obtain ⟨g, d, b', hsize, hsame, hm, houtcome⟩ : Advances f c s.arena t.arena k.run k'.run :=
      (Construction.run_mirrors h.mirrored hmatches).elim advances_of_mirrors advances_of_declares
    have hnames := h.names_onward hsize hsame
    generalize hrun : k.run.on s.arena = p, hrun' : k'.run.on t.arena = p' at hm houtcome
    obtain ⟨outcome, a⟩ := p
    obtain ⟨outcome', a'⟩ := p'
    cases houtcome with
    | failure cause =>
      rw [take_stopped hk hrun, take_stopped hk' hrun']
      exact ⟨rfl, g, d, b', hm, hnames⟩
    | ok hhandles =>
      rw [take_built hk hrun, take_built hk' hrun']
      exact ⟨rfl, g, d, b', hm, .cons ⟨rfl, hhandles⟩ hnames⟩

/-- A question that both sessions ask. -/
theorem Within.ask (h : Within f c b s t) (question : Question String) :
    (s.take (.ask question)).2 = (t.take (.ask question)).2 := by
  have hagree := Question.agree_mapM h.handle question
  change question.mapM s.handle >>= (·.answer s.arena) = question.mapM t.handle >>= _
  generalize question.mapM s.handle = y, question.mapM t.handle = y' at hagree
  cases hagree with
  | stop e => rfl
  | ok hmatches =>
    obtain ⟨answer, hanswer, hanswer'⟩ := Question.answer_mirrored h.mirrored hmatches
    exact hanswer.trans hanswer'.symm

/-- A step that both sessions take has one answer, and leaves one within the other. -/
theorem Within.take (h : Within f c b s t) (step : Step) :
    (s.take step).2 = (t.take step).2 ∧
      ∃ g d b', Within g d b' (s.take step).1 (t.take step).1 := by
  cases step with
  | build construction label => exact h.build construction label
  | ask question => exact ⟨h.ask question, f, c, b, h⟩

/-! ## Steps that are left out -/

/-- A step that fails and that the longer session alone takes leaves one within the other. -/
theorem Within.fail (h : Within f c b s t) {step : Step} {stop : Stop}
    (hfail : (t.take step).2 = .error stop) : ∃ g b', Within g c b' s (t.take step).1 := by
  cases step with
  | ask question => exact ⟨f, b, h⟩
  | build construction label =>
    have hagree := Construction.agree_mapM h.handle_self construction
    generalize hk : construction.mapM t.handle = y at hagree
    cases hagree with
    | stop e =>
      rw [take_unknown hk]
      exact ⟨f, b, h⟩
    | @ok k _ hmatches =>
      have hstores := h.mirrored.stores'
      rcases Construction.run_mirrors hstores.mirrored hmatches with hmirrors | hdeclares
      · obtain ⟨_, d, _, honward, hm, houtcome⟩ := hmirrors
        generalize hrun : k.run.on t.arena = p at hm houtcome
        obtain ⟨outcome, a⟩ := p
        cases houtcome with
        | failure cause =>
          -- what was built before it stopped is no table, and identities are moved past it
          obtain ⟨g, hembeds, hsame⟩ :=
            h.mirrored.embeds.shift h.mirrored.stores.sound hstores.sound honward.derives
          rw [take_stopped hk hrun]
          exact ⟨g, d, ⟨h.mirrored.stores, hm.stores, hembeds⟩,
            h.names_onward (Nat.le_refl c.size) hsame⟩
        | ok hhandles =>
          rw [take_built hk hrun] at hfail
          cases hfail
      · obtain ⟨u, -, hrun, -, -⟩ := hdeclares
        have hbuilt : k.run.on t.arena = (.ok u.id, (k.run.on t.arena).2) := Prod.ext hrun rfl
        rw [take_built hk hbuilt] at hfail
        cases hfail

end

/-! ## Whole sessions -/

/-- A record of steps with their answers without some of those that fail. -/
inductive Trimmed : List (Step × Except Stop Answer) → List (Step × Except Stop Answer) → Prop
  | nil : Trimmed [] []
  | keep {entry : Step × Except Stop Answer} {all kept : List (Step × Except Stop Answer)}
      (rest : Trimmed all kept) : Trimmed (entry :: all) (entry :: kept)
  | drop {step : Step} {stop : Stop} {all kept : List (Step × Except Stop Answer)}
      (rest : Trimmed all kept) : Trimmed ((step, .error stop) :: all) kept

/-- All steps that fail may be left out. -/
theorem trimmed_filter (all : List (Step × Except Stop Answer)) :
    Trimmed all (all.filter (·.2.isOk)) := by
  induction all with
  | nil => exact .nil
  | cons entry rest ih =>
    obtain ⟨step, answer⟩ := entry
    cases answer with
    | error stop => exact .drop ih
    | ok answer => exact .keep ih

/-- What goes on within a longer session has the answers of the longer session. -/
theorem Within.transcript {f : Nat → Nat} {b c : Algebra} {s t : Session} (h : Within f c b s t)
    {steps : List Step} {kept : List (Step × Except Stop Answer)}
    (htrim : Trimmed (t.transcript steps) kept) : s.transcript (kept.map (·.1)) = kept := by
  induction steps generalizing f b c s t kept with
  | nil =>
    cases htrim
    rfl
  | cons step rest ih =>
    rw [Session.transcript] at htrim
    generalize hentry : (step, (t.take step).2) = entry at htrim
    cases htrim with
    | keep htrim =>
      obtain ⟨hanswer, g, d, b', hnext⟩ := h.take step
      subst hentry
      rw [List.map_cons, Session.transcript, ih hnext htrim, hanswer]
    | drop htrim =>
      obtain ⟨rfl, hfail⟩ := Prod.mk.inj hentry
      obtain ⟨g, b', hnext⟩ := h.fail hfail
      exact ih hnext htrim

/-- Failures are not observable: if steps that fail are taken out of a session, the steps that are left
have the same answers. -/
theorem transcript_of_trimmed {steps : List Step} {kept : List (Step × Except Stop Answer)}
    (htrim : Trimmed (start.transcript steps) kept) : start.transcript (kept.map (·.1)) = kept :=
  within_start.transcript htrim

/-- A chain that stops at its second link and leaves the relation of the first one behind, and a
projection after it. -/
def sample : List Step :=
  [.build (.createTable "t" [("a", .integer), ("b", .string)]) "t",
    .build (.chain "t" [.project [.name "b"], .project [.name "b", .name "c"]]) "u",
    .build (.project "t" [.name "b"]) "v",
    .ask (.columnNames "v")]

/-- The projection has one handle after the chain and another one without it, and the answers are the
same. -/
theorem transcript_of_trimmed_sample :
    (start.transcript sample).map (·.2.isOk) = [true, false, true, true] ∧
      (sample.foldl (fun s step => (s.take step).1) start).names = [("v", 2), ("t", 0)] ∧
      ((sample.eraseIdx 1).foldl (fun s step => (s.take step).1) start).names =
        [("v", 1), ("t", 0)] ∧
      Trimmed (start.transcript sample) ((start.transcript sample).filter (·.2.isOk)) ∧
      start.transcript (((start.transcript sample).filter (·.2.isOk)).map (·.1)) =
        (start.transcript sample).filter (·.2.isOk) :=
  ⟨by cbv, by cbv, by cbv, trimmed_filter _, transcript_of_trimmed (trimmed_filter _)⟩

end Session

end Arena

end RelationalAlgebra
