import RelationalAlgebra.Error

/-!
# Computations with a state that may fail

Building relations and compiling them are computations of one kind: they carry a state along and
stop at the first failure.  This file takes such computations apart.

* `run_bind_ok_iff` and its companions say what it means for a step to have succeeded.
* `Ends` says that a computation succeeds and what is true of its result, and `Ends.bind` chains
  two of them.
-/

namespace RelationalAlgebra

section

variable {σ ε α β : Type} {s s' : σ}

/-! ## Taking a success apart -/

theorem bind_ok_iff {x : Except ε α} {f : α → Except ε β} {b : β} :
    x >>= f = .ok b ↔ ∃ a, x = .ok a ∧ f a = .ok b := by
  cases x with
  | error e => simp [bind, Except.bind]
  | ok a => simp [bind, Except.bind]

theorem map_ok_iff {x : Except ε α} {f : α → β} {b : β} :
    x.map f = .ok b ↔ ∃ a, x = .ok a ∧ f a = b := by
  cases x with
  | error e => simp [Except.map]
  | ok a => simp [Except.map]

/-- Two steps succeed when the first does and the second does from where it ended. -/
theorem run_bind_ok_iff {x : StateT σ (Except ε) α} {f : α → StateT σ (Except ε) β} {b : β} :
    (x >>= f).run s = .ok (b, s') ↔ ∃ a t, x.run s = .ok (a, t) ∧ (f a).run t = .ok (b, s') := by
  rw [StateT.run_bind]
  cases h : x.run s with
  | error e => simp [bind, Except.bind]
  | ok p =>
    obtain ⟨a, t⟩ := p
    constructor
    · intro hf
      exact ⟨a, t, rfl, hf⟩
    · rintro ⟨a', t', hp, hf⟩
      rw [Except.ok.injEq, Prod.mk.injEq] at hp
      obtain ⟨rfl, rfl⟩ := hp
      exact hf

/-- A computation without a state leaves the state alone. -/
theorem run_lift_ok_iff {x : Except ε α} {a : α} :
    (liftM x : StateT σ (Except ε) α).run s = .ok (a, s') ↔ x = .ok a ∧ s' = s := by
  cases x with
  | error e => simp [liftM, monadLift, MonadLift.monadLift, bind, Except.bind]
  | ok b => simp [liftM, monadLift, MonadLift.monadLift, bind, Except.bind, pure, Except.pure,
      eq_comm]

/-- Going on from a computation without a state. -/
theorem run_lift_bind {x : Except ε α} {f : α → StateT σ (Except ε) β} :
    ((liftM x : StateT σ (Except ε) α) >>= f).run s = x >>= fun a => (f a).run s := by
  cases x <;> rfl

/-- Two steps fail when the first does, or the second does from where the first ended. -/
theorem run_bind_error_iff {x : StateT σ (Except ε) α} {f : α → StateT σ (Except ε) β} {e : ε} :
    (x >>= f).run s = .error e ↔
      x.run s = .error e ∨ ∃ a t, x.run s = .ok (a, t) ∧ (f a).run t = .error e := by
  rw [StateT.run_bind]
  cases h : x.run s with
  | error e' => simp [bind, Except.bind]
  | ok p =>
    obtain ⟨a, t⟩ := p
    constructor
    · intro hf
      exact .inr ⟨a, t, rfl, hf⟩
    · rintro (hx | ⟨a', t', hp, hf⟩)
      · cases hx
      · rw [Except.ok.injEq, Prod.mk.injEq] at hp
        obtain ⟨rfl, rfl⟩ := hp
        exact hf

theorem run_lift_error_iff {x : Except ε α} {e : ε} :
    (liftM x : StateT σ (Except ε) α).run s = .error e ↔ x = .error e := by
  cases x with
  | error e' => simp [liftM, monadLift, MonadLift.monadLift, bind, Except.bind]
  | ok b => simp [liftM, monadLift, MonadLift.monadLift, bind, Except.bind, pure, Except.pure]

theorem run_pure_ok_iff {a b : α} :
    (pure a : StateT σ (Except ε) α).run s = .ok (b, s') ↔ b = a ∧ s' = s := by
  rw [StateT.run_pure]
  simp [pure, Except.pure, eq_comm]

/-- A failure is no success. -/
theorem run_throw_ok_iff {e : ε} {a : α} :
    (throw e : StateT σ (Except ε) α).run s = .ok (a, s') ↔ False := by
  simp [throw, throwThe, MonadExceptOf.throw, Functor.map, Except.map]

theorem run_get_ok_iff {a : σ} :
    (get : StateT σ (Except ε) σ).run s = .ok (a, s') ↔ a = s ∧ s' = s := by
  simp [pure, Except.pure, eq_comm]

theorem run_set_ok_iff {t : σ} {u : PUnit} :
    (set t : StateT σ (Except ε) PUnit).run s = .ok (u, s') ↔ s' = t := by
  simp [pure, Except.pure, eq_comm]

theorem map_error_iff {x : Except ε α} {f : α → β} {e : ε} :
    x.map f = .error e ↔ x = .error e := by
  cases x with
  | error e' => simp [Except.map]
  | ok a => simp [Except.map]

theorem bind_error_iff {x : Except ε α} {f : α → Except ε β} {e : ε} :
    x >>= f = .error e ↔ x = .error e ∨ ∃ a, x = .ok a ∧ f a = .error e := by
  cases x with
  | error e' => simp [bind, Except.bind]
  | ok a => simp [bind, Except.bind]

/-! ## Computations that succeed -/

/-- The computation succeeds from `s`, and `P` holds of its value and of the state after it. -/
def Ends (x : StateT σ (Except ε) α) (s : σ) (P : α → σ → Prop) : Prop :=
  ∃ a t, x.run s = .ok (a, t) ∧ P a t

variable {x : StateT σ (Except ε) α} {f : α → StateT σ (Except ε) β}
  {P : α → σ → Prop} {Q : β → σ → Prop}

/-- Steps that succeed one after the other. -/
theorem Ends.bind (hx : Ends x s P) (hf : ∀ a t, P a t → Ends (f a) t Q) :
    Ends (x >>= f) s Q := by
  obtain ⟨a, t, hrun, ha⟩ := hx
  obtain ⟨b, u, hrun', hb⟩ := hf a t ha
  exact ⟨b, u, run_bind_ok_iff.2 ⟨a, t, hrun, hrun'⟩, hb⟩

theorem Ends.mono {Q : α → σ → Prop} (hx : Ends x s P)
    (h : ∀ a t, P a t → Q a t) : Ends x s Q := by
  obtain ⟨a, t, hrun, ha⟩ := hx
  exact ⟨a, t, hrun, h a t ha⟩

theorem ends_of_run {a : α} {t : σ} (hrun : x.run s = .ok (a, t)) (h : P a t) :
    Ends x s P := ⟨a, t, hrun, h⟩

theorem ends_pure {a : α} (h : P a s) : Ends (pure a : StateT σ (Except ε) α) s P :=
  ends_of_run (run_pure_ok_iff.2 ⟨rfl, rfl⟩) h

/-- Looking at the state. -/
theorem Ends.get {f : σ → StateT σ (Except ε) β} (h : Ends (f s) s Q) :
    Ends (MonadState.get >>= f) s Q :=
  Ends.bind (P := fun a t => a = s ∧ t = s) ⟨s, s, rfl, rfl, rfl⟩
    (by rintro a t ⟨rfl, rfl⟩; exact h)

theorem ends_lift {y : Except ε α} {a : α} (hy : y = .ok a) (h : P a s) :
    Ends (liftM y : StateT σ (Except ε) α) s P :=
  ends_of_run (run_lift_ok_iff.2 ⟨hy, rfl⟩) h

theorem ends_set {t : σ} {P : PUnit → σ → Prop} (h : P ⟨⟩ t) :
    Ends (set t : StateT σ (Except ε) PUnit) s P := ⟨⟨⟩, t, rfl, h⟩

/-- Changing the state. -/
theorem ends_modify {g : σ → σ} {P : PUnit → σ → Prop} (h : P ⟨⟩ (g s)) :
    Ends (modify g : StateT σ (Except ε) PUnit) s P := ⟨⟨⟩, g s, rfl, h⟩

/-- Going through a list: `inv k done` holds when the first `k` items are done. -/
theorem ends_mapM_zipIdx (inv : Nat → List β → σ → Prop) {l : List α}
    {f : α × Nat → StateT σ (Except ε) β}
    (step : ∀ k a done s, l[k]? = some a → inv k done s →
      Ends (f (a, k)) s fun b t => inv (k + 1) (done ++ [b]) t)
    (h : inv 0 [] s) : Ends (l.zipIdx.mapM f) s fun done t => inv l.length done t := by
  have hrest : ∀ (rest before : List α) (done : List β) (s : σ), l = before ++ rest →
      inv before.length done s → Ends ((rest.zipIdx before.length).mapM f) s
        fun more t => inv l.length (done ++ more) t := by
    intro rest
    induction rest with
    | nil =>
      intro before done s hl hinv
      rw [hl, List.append_nil, List.zipIdx_nil, List.mapM_nil]
      exact ends_pure (by rwa [List.append_nil])
    | cons a rest ih =>
      intro before done s hl hinv
      rw [List.zipIdx_cons, List.mapM_cons]
      have ha : l[before.length]? = some a := by
        rw [hl, List.getElem?_append_right (Nat.le_refl _), Nat.sub_self]
        rfl
      refine (step _ a done s ha hinv).bind fun b t hb => ?_
      have hnext := ih (before ++ [a]) (done ++ [b]) t (by rw [hl]; simp)
        (by rwa [List.length_append])
      rw [List.length_append] at hnext
      refine hnext.bind fun more u hmore => ends_pure ?_
      rwa [List.append_assoc] at hmore
  exact (hrest l [] [] s rfl h).mono fun done t hdone => hdone

end

end RelationalAlgebra
