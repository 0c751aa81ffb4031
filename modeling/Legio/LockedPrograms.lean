import Legio.ExceptionStates
import Mathlib.Data.Finset.Basic

set_option linter.style.header false

/-! Programs of one thread that takes locks. The locks are not recursive: what happens when a
thread asks for a lock it holds is undefined, and the run stops there, with no handler to
take it up again. A program `Follows` one without locks if it does the same, never asks for
such a lock and gives back what it took; it `Blocks` from a state where it comes to ask for
one. -/
namespace LockedPrograms

open ExceptionStates

variable {L ε σ α β : Type}

/-- The locks that the thread holds, beside its memory. -/
structure Thread (L σ : Type) where
  held : Finset L
  memory : σ

/-- A run stops at an exception, or `blocked` where it asks for a lock of its own. -/
inductive Stop (L ε : Type) where
  | thrown (e : ε)
  | blocked (lock : L)
  deriving DecidableEq

abbrev LockM (L ε σ : Type) := EStateM (Stop L ε) (Thread L σ)

def under (held : Finset L) : EStateM.Result ε σ α → EStateM.Result (Stop L ε) (Thread L σ) α
  | .ok a s => .ok a ⟨held, s⟩
  | .error e s => .error (.thrown e) ⟨held, s⟩

def free (m : EStateM ε σ α) : LockM L ε σ α := fun t => under t.held (m t.memory)

def memory : LockM L ε σ σ := free get

def raise (e : ε) : LockM L ε σ α := free (throw e)

def handled (body : LockM L ε σ Unit) : LockM L ε σ Unit := fun t =>
  match body t with
  | .ok _ t => .ok () t
  | .error (.thrown _) t => .ok () t
  | .error (.blocked lock) t => .error (.blocked lock) t

def Follows (held : Finset L) (p : LockM L ε σ α) (m : EStateM ε σ α) : Prop :=
  ∀ s, p ⟨held, s⟩ = under held (m s)

def Blocks (held : Finset L) (p : LockM L ε σ α) (s : σ) : Prop :=
  ∃ lock t, p ⟨held, s⟩ = .error (.blocked lock) t

variable {held : Finset L} {lock : L} {p : LockM L ε σ α} {m : EStateM ε σ α} {s u : σ}

theorem follows_free (held : Finset L) (m : EStateM ε σ α) : Follows held (free m) m :=
  fun _ => rfl

theorem follows_pure (held : Finset L) (a : α) :
    Follows held (pure a : LockM L ε σ α) (pure a) := fun _ => rfl

theorem follows_raise (held : Finset L) (e : ε) :
    Follows held (raise e : LockM L ε σ α) (throw e) := fun _ => rfl

theorem final_under (r : EStateM.Result ε σ α) :
    final (under held r : EStateM.Result (Stop L ε) (Thread L σ) α) = ⟨held, final r⟩ := by
  cases r <;> rfl

theorem bind_of_ok {f : α → LockM L ε σ β} {a : α} (h : p ⟨held, s⟩ = .ok a ⟨held, u⟩) :
    (p >>= f) ⟨held, s⟩ = f a ⟨held, u⟩ := bind_ok h

theorem memory_bind (f : σ → LockM L ε σ β) : (memory >>= f) ⟨held, s⟩ = f s ⟨held, s⟩ :=
  bind_of_ok rfl

/-- Sequencing from one state: the rest is judged where the first program ends. -/
theorem under_bind {f : α → LockM L ε σ β} {g : α → EStateM ε σ β}
    (hp : p ⟨held, s⟩ = under held (m s))
    (hf : ∀ a u, m s = .ok a u → f a ⟨held, u⟩ = under held (g a u)) :
    (p >>= f) ⟨held, s⟩ = under held ((m >>= g) s) := by
  cases hm : m s with
  | ok a u =>
    rw [hm] at hp
    rw [bind_ok hp, bind_ok hm]
    exact hf a u hm
  | error e u =>
    rw [hm] at hp
    rw [bind_error hp, bind_error hm]
    rfl

theorem follows_bind {f : α → LockM L ε σ β} {g : α → EStateM ε σ β} (hp : Follows held p m)
    (hf : ∀ a, Follows held (f a) (g a)) : Follows held (p >>= f) (m >>= g) :=
  fun s => under_bind (hp s) fun a u _ => hf a u

theorem follows_memory {f : σ → LockM L ε σ β} {g : σ → EStateM ε σ β}
    (hf : ∀ s, f s ⟨held, s⟩ = under held (g s s)) : Follows held (memory >>= f) (get >>= g) :=
  fun s => hf s

theorem follows_handled {p : LockM L ε σ Unit} {m : EStateM ε σ Unit} (hp : Follows held p m) :
    Follows held (handled p) (modify fun s => final (m s)) := by
  intro s
  rw [handled, hp s, modify_run]
  cases m s <;> rfl

theorem not_blocks (hp : Follows held p m) (s : σ) : ¬ Blocks held p s := by
  rintro ⟨lock, t, h⟩
  rw [hp s] at h
  cases hm : m s <;> rw [hm] at h <;> cases h

theorem blocks_congr {p' : LockM L ε σ α} (h : p ⟨held, s⟩ = p' ⟨held, s⟩)
    (hblocks : Blocks held p' s) : Blocks held p s := by
  obtain ⟨lock, t, hrun⟩ := hblocks
  exact ⟨lock, t, h.trans hrun⟩

theorem blocks_bind (h : Blocks held p s) (f : α → LockM L ε σ β) : Blocks held (p >>= f) s := by
  obtain ⟨lock, t, h⟩ := h
  exact ⟨lock, t, bind_error h⟩

theorem blocks_after {f : α → LockM L ε σ β} {a : α} (hp : p ⟨held, s⟩ = .ok a ⟨held, u⟩)
    (h : Blocks held (f a) u) : Blocks held (p >>= f) s := by
  obtain ⟨lock, t, h⟩ := h
  exact ⟨lock, t, (bind_of_ok hp).trans h⟩

theorem blocks_handled {p : LockM L ε σ Unit} (h : Blocks held p s) :
    Blocks held (handled p) s := by
  obtain ⟨lock, t, h⟩ := h
  refine ⟨lock, t, ?_⟩
  rw [handled, h]

/-- A program that would return `a` and leave `u` does so, or it blocks on the way. -/
def Passes (held : Finset L) (p : LockM L ε σ α) (s : σ) (a : α) (u : σ) : Prop :=
  p ⟨held, s⟩ = .ok a ⟨held, u⟩ ∨ Blocks held p s

theorem passes_bind {f : α → LockM L ε σ β} {a : α} {b : β} {w : σ} (hp : Passes held p s a u)
    (hf : Passes held (f a) u b w) : Passes held (p >>= f) s b w := by
  rcases hp with hp | hblocks
  · exact hf.imp (bind_of_ok hp).trans (blocks_after hp)
  · exact Or.inr (blocks_bind hblocks f)

section Scopes
variable [DecidableEq L]

/-- The end of a scope: an exception releases the lock like a return does. -/
def released (lock : L) :
    EStateM.Result (Stop L ε) (Thread L σ) α → EStateM.Result (Stop L ε) (Thread L σ) α
  | .ok a t => .ok a { t with held := t.held.erase lock }
  | .error (.thrown e) t => .error (.thrown e) { t with held := t.held.erase lock }
  | .error (.blocked other) t => .error (.blocked other) t

def locked (lock : L) (body : LockM L ε σ α) : LockM L ε σ α := fun t =>
  if lock ∈ t.held then .error (.blocked lock) t
  else released lock (body { t with held := insert lock t.held })

theorem follows_locked (hlock : lock ∉ held) (hp : Follows (insert lock held) p m) :
    Follows held (locked lock p) m := by
  intro s
  rw [locked, if_neg hlock]
  dsimp only
  rw [hp s]
  cases m s with
  | ok a u =>
    rw [under, released, Finset.erase_insert hlock]
    rfl
  | error e u =>
    rw [under, released, Finset.erase_insert hlock]
    rfl

theorem read_run (hlock : lock ∉ held) (f : σ → α) (s : σ) :
    (locked lock (do return f (← memory)) : LockM L ε σ α) ⟨held, s⟩ = .ok (f s) ⟨held, s⟩ :=
  follows_locked (m := do return f (← get)) hlock (fun _ => rfl) s

theorem blocks_locked (hlock : lock ∈ held) : Blocks held (locked lock p) s :=
  ⟨lock, ⟨held, s⟩, if_pos hlock⟩

theorem blocks_inside (hlock : lock ∉ held) (h : Blocks (insert lock held) p s) :
    Blocks held (locked lock p) s := by
  obtain ⟨other, t, h⟩ := h
  refine ⟨other, t, ?_⟩
  rw [locked, if_neg hlock]
  dsimp only
  rw [h]
  rfl

theorem locked_ok (hlock : lock ∉ held) {a : α}
    (h : p ⟨insert lock held, s⟩ = .ok a ⟨insert lock held, u⟩) :
    locked lock p ⟨held, s⟩ = .ok a ⟨held, u⟩ := by
  rw [locked, if_neg hlock]
  dsimp only
  rw [h, released, Finset.erase_insert hlock]

theorem passes_locked (hlock : lock ∉ held) {a : α} (hp : Passes (insert lock held) p s a u) :
    Passes held (locked lock p) s a u :=
  hp.imp (locked_ok hlock) (blocks_inside hlock)

end Scopes

end LockedPrograms
