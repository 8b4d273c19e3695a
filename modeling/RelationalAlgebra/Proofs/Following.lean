import Mathlib.Data.List.Forall2
import RelationalAlgebra.Arena.Build

/-!
# Work on an arena

What is done in an arena is done there for good, so that it matters how far work came before it stopped.
`Work.on` is the outcome of work together with the arena after it.

`Follows x a y P Q` says that the work `x` does in the arena `a` what a computation `y` on trees does:
it comes to a result when `y` does, and then `P` holds, or stops for the reason for which `y` fails, and
then `Q` holds of what it leaves behind.  Steps that follow make up work that follows (`Follows.bind`),
and so do rounds of a loop (`follows_foldlM`).
-/

namespace RelationalAlgebra

namespace Arena

/-! ## Work that follows a computation -/

/-- The outcome of work on an arena, and the arena after it. -/
def Work.on {α : Type} (x : Work α) (a : Arena) : Except Stop α × Arena := x.run.run a

section

variable {α β γ δ : Type} {a a' : Arena}

theorem on_look (question : Arena → Except Stop α) (a : Arena) :
    (look question).on a = (question a, a) := rfl

theorem on_check (outcome : Except Error α) (a : Arena) :
    (check outcome).on a = (outcome.mapError .failure, a) := rfl

/-- Work goes on from where it has come to. -/
theorem on_bind_ok {x : Work α} {f : α → Work β} {v : α} (h : x.on a = (.ok v, a')) :
    (x >>= f).on a = (f v).on a' := by
  unfold Work.on at h ⊢
  rw [ExceptT.run_bind, StateT.run_bind]
  change (x.run.run a : Except Stop α × Arena) = _ at h
  simp only [h]
  rfl

/-- Work that has stopped does not go on. -/
theorem on_bind_error {x : Work α} {f : α → Work β} {stop : Stop} (h : x.on a = (.error stop, a')) :
    (x >>= f).on a = (.error stop, a') := by
  unfold Work.on at h ⊢
  rw [ExceptT.run_bind, StateT.run_bind]
  change (x.run.run a : Except Stop α × Arena) = _ at h
  simp only [h]
  rfl

/-- The work comes to a result for which, with the result of the computation, `P` holds in the arena
after it; or it stops for the reason for which the computation fails, and `Q` holds of the arena after
it. -/
def Follows (x : Work α) (a : Arena) (y : Except Error β) (P : α → β → Arena → Prop)
    (Q : Arena → Prop) : Prop :=
  match y with
  | .ok w => ∃ v a', x.on a = (.ok v, a') ∧ P v w a'
  | .error cause => ∃ a', x.on a = (.error (.failure cause), a') ∧ Q a'

/-- Asking the arena about one item after the other. -/
theorem on_mapM_look {ι : Type} {question : ι → Arena → Except Stop α} {l : List ι} {g : ι → α}
    (h : ∀ i ∈ l, question i a = .ok (g i)) :
    (l.mapM fun i => look (question i)).on a = (.ok (l.map g), a) := by
  induction l with
  | nil => rfl
  | cons i rest ih =>
    have hrest := ih fun j hj => h j (List.mem_cons_of_mem _ hj)
    have hfirst : (look (question i)).on a = (.ok (g i), a) := by
      rw [on_look, h i (List.mem_cons_self ..)]
    rw [List.mapM_cons, on_bind_ok hfirst, on_bind_ok hrest]
    rfl

variable {x : Work α} {y : Except Error β} {P : α → β → Arena → Prop} {Q : Arena → Prop}

theorem follows_pure {v : α} {w : β} (h : P v w a) : Follows (pure v) a (.ok w) P Q :=
  ⟨v, a, rfl, h⟩

theorem follows_fail {cause : Error} (h : Q a) : Follows (fail cause) a (.error cause) P Q :=
  ⟨a, rfl, h⟩

/-- One step after the other, where what the first one leaves behind when it stops is enough. -/
theorem Follows.andThen {f : α → Work γ} {g : β → Except Error δ} {P' : γ → δ → Arena → Prop}
    {Q' : Arena → Prop} (h : Follows x a y P Q) (hQ : ∀ a', Q a' → Q' a')
    (hf : ∀ v w a', y = .ok w → P v w a' → Follows (f v) a' (g w) P' Q') :
    Follows (x >>= f) a (y >>= g) P' Q' := by
  cases y with
  | error cause =>
    obtain ⟨a', hx, hstop⟩ := h
    exact ⟨a', on_bind_error hx, hQ a' hstop⟩
  | ok w =>
    obtain ⟨v, a', hx, hP⟩ := h
    have hfollows := hf v w a' rfl hP
    change Follows (x >>= f) a (g w) P' Q'
    unfold Follows at hfollows ⊢
    rw [on_bind_ok hx]
    exact hfollows

/-- One step after the other. -/
theorem Follows.bind {f : α → Work γ} {g : β → Except Error δ} {P' : γ → δ → Arena → Prop}
    (h : Follows x a y P Q) (hf : ∀ v w a', P v w a' → Follows (f v) a' (g w) P' Q) :
    Follows (x >>= f) a (y >>= g) P' Q :=
  h.andThen (fun _ hstop => hstop) fun v w a' _ => hf v w a'

theorem Follows.mono {P' : α → β → Arena → Prop} {Q' : Arena → Prop} (h : Follows x a y P Q)
    (hP : ∀ v w a', y = .ok w → P v w a' → P' v w a') (hQ : ∀ a', Q a' → Q' a') :
    Follows x a y P' Q' := by
  cases y with
  | error cause =>
    obtain ⟨a', hx, h⟩ := h
    exact ⟨a', hx, hQ a' h⟩
  | ok w =>
    obtain ⟨v, a', hx, h⟩ := h
    exact ⟨v, a', hx, hP v w a' rfl h⟩

/-- Work that does not stop for what the computation does not see. -/
theorem follows_bind_ok {f : α → Work γ} {v : α} {z : Except Error δ} {P' : γ → δ → Arena → Prop}
    (h : x.on a = (.ok v, a')) (hf : Follows (f v) a' z P' Q) : Follows (x >>= f) a z P' Q := by
  unfold Follows at hf ⊢
  rw [on_bind_ok h]
  exact hf

/-- Asking the arena something that the computation asks the trees. -/
theorem follows_look {question : Arena → Except Stop α} {φ : β → α}
    (h : question a = (y.mapError .failure).map φ) (hP : ∀ w, y = .ok w → P (φ w) w a) (hQ : Q a) :
    Follows (look question) a y P Q := by
  cases y with
  | error cause => exact ⟨a, by rw [on_look, h]; rfl, hQ⟩
  | ok w => exact ⟨φ w, a, by rw [on_look, h]; rfl, hP w rfl⟩

theorem follows_check {P : β → β → Arena → Prop} (hP : ∀ w, y = .ok w → P w w a) (hQ : Q a) :
    Follows (check y) a y P Q :=
  follows_look (φ := id) (by cases y <;> rfl) hP hQ

theorem forall₂_self {ι : Type} (l : List ι) : List.Forall₂ (· = ·) l l :=
  List.forall₂_same.2 fun _ _ => rfl

/-- One item after the other, as long as what holds before an item holds after it. -/
theorem follows_foldlM {ι κ : Type} {R : ι → κ → Prop} {f : α → ι → Work α}
    {g : β → κ → Except Error β} {l : List ι} {l' : List κ} (hl : List.Forall₂ R l l')
    (step : ∀ v w a' i j, R i j → P v w a' → Follows (f v i) a' (g w j) P Q) {v : α} {w : β}
    (h : P v w a) : Follows (l.foldlM f v) a (l'.foldlM g w) P Q := by
  induction hl generalizing v w a with
  | nil => exact follows_pure h
  | cons hij _ ih =>
    rw [List.foldlM_cons, List.foldlM_cons]
    exact (step v w a _ _ hij h).bind fun v' w' a' hnext => ih hnext

end

end Arena

end RelationalAlgebra
