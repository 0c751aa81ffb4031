import Legio.SequencedFlooding

set_option linter.style.header false

/-! The way of a flooded packet. A node passes on what it accepts to its other channels, so
a copy in flight has come from the source without turning back; and as long as nodes accept
a number once, without visiting a node twice. -/
namespace FloodingTrails

open ChannelTopology SequencedFlooding

variable {V Chan M : Type}

/-- Ways out of `x` that never go back over the channel they came by. -/
inductive Wander (N : Cabling V Chan) (x : V) : Chan → Prop where
  | start (c) (owner : N.owner c = x) : Wander N x c
  | next (c c') (way : Wander N x c) (owner : N.owner c' = N.remote c) (turn : c' ≠ N.peer c) :
      Wander N x c'

/-- Ways out of `x` that in addition visit no node twice, with the nodes after `x`. -/
inductive Trail (N : Cabling V Chan) (x : V) : List V → Chan → Prop where
  | start (c) (owner : N.owner c = x) : Trail N x [] c
  | next (visited c c') (way : Trail N x visited c) (away : N.remote c ≠ x)
      (fresh : N.remote c ∉ visited) (owner : N.owner c' = N.remote c) (turn : c' ≠ N.peer c) :
      Trail N x (N.remote c :: visited) c'

/-- Some way out of `x` leads back to it without visiting another node twice. -/
def OnCycle (N : Cabling V Chan) (x : V) : Prop := ∃ visited c, Trail N x visited c ∧ N.remote c = x

variable {N : Cabling V Chan} {x : V}

theorem trail_away {visited : List V} {c : Chan} (h : Trail N x visited c) : x ∉ visited := by
  induction h with
  | start c owner => exact List.not_mem_nil
  | next visited c c' way away fresh owner turn ih =>
    rw [List.mem_cons, not_or]
    exact ⟨away.symm, ih⟩

/-- A broadcast in flight has left a trail of nodes that have seen it. -/
structure Trailed (N : Cabling V Chan) (x : V) (s : State V Chan M) : Prop where
  trail : ∀ c, ∀ p ∈ s.queue c, p.content.isSome = true →
    ∃ visited, Trail N x visited c ∧ ∀ v ∈ visited, p.index < s.seen v

variable [DecidableEq V] [DecidableEq Chan] {s s' : State V Chan M}

theorem step_trailed (h : Trailed N x s) (hs : Step N x s s') : Trailed N x s' := by
  constructor
  intro c' q hq hsome
  cases hs with
  | send content targets own all =>
    rcases mem_push.mp hq with hold | ⟨htarget, rfl⟩
    · exact h.trail c' q hold hsome
    · refine ⟨[], .start c' (own c' htarget), fun v hv => ?_⟩
      cases hv
  | accept c p rest head hne fresh =>
    have hseen : ∀ v i, i < s.seen v → i < Function.update s.seen (N.remote c) (p.index + 1) v := by
      intro v i hi
      by_cases hv : v = N.remote c
      · subst hv
        rw [Function.update_self]
        omega
      · rw [Function.update_of_ne hv]
        exact hi
    have hold : q ∈ s.queue c' →
        ∃ visited, Trail N x visited c' ∧ ∀ v ∈ visited, q.index < (s.accept N c p).seen v := by
      intro hmem
      obtain ⟨visited, htrail, hvisited⟩ := h.trail c' q hmem hsome
      exact ⟨visited, htrail, fun v hv => hseen v _ (hvisited v hv)⟩
    have hqueue : q ∈ (if p.content.isSome then push s.queue (others N (N.remote c) (N.peer c)) p
        else s.queue) c' := hq
    split_ifs at hqueue with hp
    · rcases mem_push.mp hqueue with hmem | ⟨htarget, rfl⟩
      · exact hold hmem
      · -- passed on: the accepting node has not been visited, having seen less
        obtain ⟨howner, hturn⟩ := of_decide_eq_true htarget
        obtain ⟨visited, htrail, hvisited⟩ :=
          h.trail c q (by rw [head]; exact List.mem_cons_self) hp
        have hfresh : N.remote c ∉ visited := fun hmem =>
          Nat.lt_irrefl _ (Nat.lt_of_lt_of_le (hvisited _ hmem) fresh)
        refine ⟨N.remote c :: visited, .next visited c c' htrail hne hfresh howner hturn, ?_⟩
        intro v hv
        rcases List.mem_cons.mp hv with rfl | hv
        · simp only [State.accept, Function.update_self]
          exact Nat.lt_succ_self _
        · exact hseen v _ (hvisited v hv)
    · exact hold hqueue
  | echo c p targets mem own =>
    rcases mem_push.mp hq with hold | ⟨htarget, rfl⟩
    · exact h.trail c' q hold hsome
    · refine ⟨[], .start c' (own c' htarget), fun v hv => ?_⟩
      cases hv
  | take c p rest head stale =>
    have hmem : q ∈ s.queue c' := by
      by_cases hc : c' = c
      · subst hc
        simp only [State.take, Function.update_self] at hq
        exact List.mem_of_mem_tail hq
      · simp only [State.take, Function.update_of_ne hc] at hq
        exact hq
    exact h.trail c' q hmem hsome

theorem reachable_trailed (h : Reachable N x s) : Trailed N x s := by
  induction h with
  | initial => exact ⟨fun c p hp => by cases hp⟩
  | step _ hs ih => exact step_trailed ih hs

/-- No broadcast is on its way back to a source that lies on no cycle. -/
theorem no_return (h : Reachable N x s) (hx : ¬ OnCycle N x) {c : Chan} (hc : N.remote c = x)
    {p : Packet M} (hp : p ∈ s.queue c) : p.content = none := by
  cases hcontent : p.content with
  | none => rfl
  | some m =>
    obtain ⟨visited, htrail, _⟩ :=
      (reachable_trailed h).trail c p hp (by rw [hcontent]; rfl)
    exact absurd ⟨visited, c, htrail, hc⟩ hx

end FloodingTrails
