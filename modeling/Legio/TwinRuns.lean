import Legio.ExceptionStates

set_option linter.style.header false

/-! Two runs of one program from related states. `Twin` says that they end alike: both
return the same value, or both throw the same exception, and the states are related again.
The rules follow the constructors of `do` blocks. A run over events may leave out those
that the relation does not notice. -/
namespace TwinRuns

open ExceptionStates

variable {ε σ α β E : Type}

inductive Paired (R : σ → σ → Prop) :
    EStateM.Result ε σ α → EStateM.Result ε σ α → Prop where
  | ok (a : α) {s s' : σ} : R s s' → Paired R (.ok a s) (.ok a s')
  | error (e : ε) {s s' : σ} : R s s' → Paired R (.error e s) (.error e s')

def Twin (R : σ → σ → Prop) (m : EStateM ε σ α) : Prop :=
  ∀ s s', R s s' → Paired R (m s) (m s')

/-- Two runs from related states end in related ones, each in its own way. -/
def Aligned (R : σ → σ → Prop) (m : EStateM ε σ α) : Prop :=
  ∀ s s', R s s' → R (final (m s)) (final (m s'))

/-- A run of the program alone, beside a state that stays as it is. -/
def Unnoticed (R : σ → σ → Prop) (m : EStateM ε σ α) : Prop :=
  ∀ s s', R s s' → R (final (m s)) s'

variable {R : σ → σ → Prop}

theorem paired_final {r r' : EStateM.Result ε σ α} (h : Paired R r r') :
    R (final r) (final r') := by
  cases h with
  | ok a h => exact h
  | error e h => exact h

theorem twin_pure (a : α) : Twin R (pure a : EStateM ε σ α) := fun _ _ h => .ok a h

theorem twin_throw (e : ε) : Twin R (throw e : EStateM ε σ α) := fun _ _ h => .error e h

theorem twin_modify {f : σ → σ} (hf : ∀ s s', R s s' → R (f s) (f s')) :
    Twin R (modify f : EStateM ε σ Unit) := fun s s' h => .ok () (hf s s' h)

theorem twin_bind {m : EStateM ε σ α} {f : α → EStateM ε σ β} (hm : Twin R m)
    (hf : ∀ a, Twin R (f a)) : Twin R (m >>= f) := by
  intro s s' h
  have hpaired := hm s s' h
  generalize hs : m s = r at hpaired
  generalize hs' : m s' = r' at hpaired
  cases hpaired with
  | ok a h =>
    rw [bind_ok hs, bind_ok hs']
    exact hf a _ _ h
  | error e h =>
    rw [bind_error hs, bind_error hs']
    exact .error e h

theorem twin_get_bind {f : σ → EStateM ε σ α}
    (hf : ∀ s s', R s s' → Paired R (f s s) (f s' s')) : Twin R (get >>= f) := hf

theorem paired_set_bind {t t' s s' : σ} {f : Unit → EStateM ε σ α}
    (h : Paired R (f () t) (f () t')) : Paired R ((set t >>= f) s) ((set t' >>= f) s') := h

theorem aligned_of_twin {m : EStateM ε σ α} (hm : Twin R m) : Aligned R m :=
  fun s s' h => paired_final (hm s s' h)

theorem aligned_bind {m : EStateM ε σ α} {f : α → EStateM ε σ β} (hm : Twin R m)
    (hf : ∀ a, Aligned R (f a)) : Aligned R (m >>= f) := by
  intro s s' h
  have hpaired := hm s s' h
  generalize hs : m s = r at hpaired
  generalize hs' : m s' = r' at hpaired
  cases hpaired with
  | ok a h =>
    rw [bind_ok hs, bind_ok hs']
    exact hf a _ _ h
  | error e h =>
    rw [bind_error hs, bind_error hs']
    exact h

theorem unnoticed_pure (a : α) : Unnoticed R (pure a : EStateM ε σ α) := fun _ _ h => h

theorem unnoticed_throw (e : ε) : Unnoticed R (throw e : EStateM ε σ α) := fun _ _ h => h

theorem unnoticed_modify {f : σ → σ} (hf : ∀ s s', R s s' → R (f s) s') :
    Unnoticed R (modify f : EStateM ε σ Unit) := hf

theorem unnoticed_bind {m : EStateM ε σ α} {f : α → EStateM ε σ β} (hm : Unnoticed R m)
    (hf : ∀ a, Unnoticed R (f a)) : Unnoticed R (m >>= f) :=
  fun s s' h => final_bind (I := fun s => R s s') (hm s s' h) fun a s h => hf a s s' h

/-- Leaving out the events that are not noticed leaves the run related to what it was. -/
theorem foldl_filter {step : σ → E → σ} {loud : E → Bool}
    (hloud : ∀ e s s', loud e = true → R s s' → R (step s e) (step s' e))
    (hsilent : ∀ e s s', loud e = false → R s s' → R (step s e) s') (events : List E) :
    ∀ s s', R s s' → R (events.foldl step s) ((events.filter loud).foldl step s') := by
  induction events with
  | nil => exact fun s s' h => h
  | cons e events ih =>
    intro s s' h
    cases he : loud e with
    | true =>
      rw [List.filter_cons_of_pos he]
      exact ih _ _ (hloud e s s' he h)
    | false =>
      rw [List.filter_cons_of_neg (by rw [he]; exact Bool.false_ne_true)]
      exact ih _ _ (hsilent e s s' he h)

end TwinRuns
