import Mathlib.Algebra.Ring.Nat
import Mathlib.Init

set_option linter.style.header false

/-! Programs with a state that survives exceptions. `Keeps` is partial correctness over
both exits: whatever the program returns or throws, the invariant holds afterwards. The
rules follow the constructors of `do` blocks. A graded relation says how far two states may
lie apart; its grades add up along a program and along a run over events. -/
namespace ExceptionStates

variable {ε σ α β : Type}

def final : EStateM.Result ε σ α → σ
  | .ok _ s => s
  | .error _ s => s

@[simp] theorem final_ok (a : α) (s : σ) : final (.ok a s : EStateM.Result ε σ α) = s := rfl

@[simp] theorem final_error (e : ε) (s : σ) :
    final (.error e s : EStateM.Result ε σ α) = s := rfl

theorem bind_ok {m : EStateM ε σ α} {f : α → EStateM ε σ β} {s s' : σ} {a : α}
    (h : m s = .ok a s') : (m >>= f) s = f a s' := by
  change (match m s with
    | .ok a s => f a s
    | .error e s => .error e s) = _
  rw [h]

theorem bind_error {m : EStateM ε σ α} {f : α → EStateM ε σ β} {s s' : σ} {e : ε}
    (h : m s = .error e s') : (m >>= f) s = .error e s' := by
  change (match m s with
    | .ok a s => f a s
    | .error e s => .error e s) = _
  rw [h]

theorem bind_run_congr {m m' : EStateM ε σ α} {s : σ} (h : m s = m' s)
    (f : α → EStateM ε σ β) : (m >>= f) s = (m' >>= f) s := by
  cases hm : m' s with
  | ok a s' => rw [bind_ok hm, bind_ok (h.trans hm)]
  | error e s' => rw [bind_error hm, bind_error (h.trans hm)]

@[simp] theorem pure_run (a : α) (s : σ) : (pure a : EStateM ε σ α) s = .ok a s := rfl

@[simp] theorem get_run (s : σ) : (get : EStateM ε σ σ) s = .ok s s := rfl

@[simp] theorem modify_run (f : σ → σ) (s : σ) :
    (modify f : EStateM ε σ Unit) s = .ok () (f s) := rfl

@[simp] theorem set_run (s s' : σ) : (set s' : EStateM ε σ Unit) s = .ok () s' := rfl

@[simp] theorem throw_run (e : ε) (s : σ) : (throw e : EStateM ε σ α) s = .error e s := rfl

@[simp] theorem get_bind_run (f : σ → EStateM ε σ α) (s : σ) : (get >>= f) s = f s s := rfl

@[simp] theorem modify_bind_run (g : σ → σ) (f : Unit → EStateM ε σ α) (s : σ) :
    (modify g >>= f) s = f () (g s) := rfl

def Keeps (I : σ → Prop) (m : EStateM ε σ α) : Prop := ∀ s, I s → I (final (m s))

variable {I : σ → Prop}

theorem keeps_pure (a : α) : Keeps I (pure a : EStateM ε σ α) := fun _ h => h

theorem keeps_throw (e : ε) : Keeps I (throw e : EStateM ε σ α) := fun _ h => h

theorem keeps_modify {f : σ → σ} (hf : ∀ s, I s → I (f s)) :
    Keeps I (modify f : EStateM ε σ Unit) := hf

/-- Sequencing: the continuation only has to keep the invariant from states that have it. -/
theorem final_bind {m : EStateM ε σ α} {f : α → EStateM ε σ β} {s : σ}
    (hm : I (final (m s))) (hf : ∀ a, Keeps I (f a)) : I (final ((m >>= f) s)) := by
  cases h : m s with
  | ok a s' =>
    rw [h] at hm
    rw [bind_ok h]
    exact hf a s' hm
  | error e s' =>
    rw [h] at hm
    rw [bind_error h]
    exact hm

theorem keeps_bind {m : EStateM ε σ α} {f : α → EStateM ε σ β}
    (hm : Keeps I m) (hf : ∀ a, Keeps I (f a)) : Keeps I (m >>= f) :=
  fun s hs => final_bind (hm s hs) hf

/-- Reading the state: the continuation may use what holds of the state it was given. -/
theorem keeps_get_bind {f : σ → EStateM ε σ α}
    (hf : ∀ s, I s → I (final (f s s))) : Keeps I (get >>= f) := hf

theorem keeps_ok {m : EStateM ε σ α} (hm : Keeps I m) {s s' : σ} {a : α} (hs : I s)
    (hrun : m s = .ok a s') : I s' := by
  have hfinal := hm s hs
  rwa [hrun] at hfinal

def ThrowsOnly (E : ε → Prop) (m : EStateM ε σ α) (s : σ) : Prop :=
  ∀ e s', m s = .error e s' → E e

variable {E : ε → Prop}

theorem throwsOnly_ok {m : EStateM ε σ α} {s s' : σ} {a : α} (h : m s = .ok a s') :
    ThrowsOnly E m s := by
  intro e s'' he
  rw [h] at he
  cases he

theorem throwsOnly_bind {m : EStateM ε σ α} {f : α → EStateM ε σ β} {s : σ}
    (hm : ThrowsOnly E m s) (hf : ∀ a s', m s = .ok a s' → ThrowsOnly E (f a) s') :
    ThrowsOnly E (m >>= f) s := by
  intro e s' he
  cases h : m s with
  | ok a s₁ =>
    rw [bind_ok h] at he
    exact hf a s₁ h e s' he
  | error e₁ s₁ =>
    rw [bind_error h] at he
    cases he
    exact hm e s' h

end ExceptionStates

namespace GradedPrograms

open ExceptionStates

variable {ε σ α β E : Type}

structure Graded (W : ℕ → σ → σ → Prop) : Prop where
  refl : ∀ s, W 0 s s
  trans : ∀ {j k s t u}, W j s t → W k t u → W (j + k) s u
  mono : ∀ {j k s t}, j ≤ k → W j s t → W k s t

/-- From states with the property the program goes no further than the grade. -/
def Spends (W : ℕ → σ → σ → Prop) (I : σ → Prop) (k : ℕ) (m : EStateM ε σ α) : Prop :=
  ∀ s, I s → W k s (final (m s))

variable {W : ℕ → σ → σ → Prop} {I J : σ → Prop} {j k l : ℕ}

theorem spends_pure (h : Graded W) (a : α) : Spends W I 0 (pure a : EStateM ε σ α) :=
  fun s _ => h.refl s

theorem spends_throw (h : Graded W) (e : ε) : Spends W I 0 (throw e : EStateM ε σ α) :=
  fun s _ => h.refl s

theorem spends_modify {f : σ → σ} (hf : ∀ s, I s → W k s (f s)) :
    Spends W I k (modify f : EStateM ε σ Unit) := hf

theorem spends_mono (h : Graded W) {m : EStateM ε σ α} (hjk : j ≤ k) (hm : Spends W I j m) :
    Spends W I k m := fun s hs => h.mono hjk (hm s hs)

theorem spent_bind (h : Graded W) {m : EStateM ε σ α} {f : α → EStateM ε σ β} {s : σ}
    (hm : W j s (final (m s))) (hJ : J (final (m s))) (hf : ∀ a, Spends W J k (f a))
    (hl : j + k ≤ l) : W l s (final ((m >>= f) s)) := by
  cases hrun : m s with
  | ok a s' =>
    rw [hrun] at hm hJ
    rw [bind_ok hrun]
    exact h.mono hl (h.trans hm (hf a s' hJ))
  | error e s' =>
    rw [hrun] at hm
    rw [bind_error hrun]
    exact h.mono (Nat.le_trans (Nat.le_add_right j k) hl) hm

theorem spends_bind (h : Graded W) {m : EStateM ε σ α} {f : α → EStateM ε σ β}
    (hm : Spends W I j m) (hJ : ∀ s, I s → J (final (m s))) (hf : ∀ a, Spends W J k (f a))
    (hl : j + k ≤ l) : Spends W I l (m >>= f) :=
  fun s hs => spent_bind h (hm s hs) (hJ s hs) hf hl

theorem spends_get_bind {f : σ → EStateM ε σ α} (hf : ∀ s, I s → W k s (final (f s s))) :
    Spends W I k (get >>= f) := hf

/-- The allowances of the events of a run add up. -/
theorem foldl_spends (h : Graded W) {step : σ → E → σ} {cost : E → ℕ} {A : E → Prop}
    (hI : ∀ s e, A e → I s → I (step s e)) (hstep : ∀ s e, A e → I s → W (cost e) s (step s e))
    (events : List E) : ∀ s, (∀ e ∈ events, A e) → I s →
      W (events.map cost).sum s (events.foldl step s) := by
  induction events with
  | nil => exact fun s _ _ => h.refl s
  | cons e events ih =>
    intro s hA hs
    have he := hA e List.mem_cons_self
    have hrest := ih (step s e) (fun e' he' => hA e' (List.mem_cons_of_mem _ he')) (hI s e he hs)
    rw [List.map_cons, List.sum_cons]
    exact h.trans (hstep s e he hs) hrest

end GradedPrograms
