import Mathlib.Algebra.GroupWithZero.Nat
import Mathlib.Data.Fintype.Basic

set_option linter.style.header false

/-! Two sides agree on a session by an offer and an answer. Either side may offer; where
both do, the firm side ignores the other's offer and the yielding side withdraws its own.
What a side makes it sends later. Messages arrive in any order and more than once, but
none that is older than one that has arrived already is listened to. The sides of a
session are named by whether they are firm. -/
namespace OfferAnswer

inductive Kind where
  | offer
  | answer
  deriving DecidableEq

/-- `yielded` is a side that had sent an offer before it sent its answer. -/
inductive Phase where
  | fresh
  | offering
  | offered
  | completed
  | answering
  | answered
  | yielded
  deriving DecidableEq

instance : Fintype Phase where
  elems := {.fresh, .offering, .offered, .completed, .answering, .answered, .yielded}
  complete p := by cases p <;> decide

def Phase.sent : Phase → List Kind
  | .fresh | .offering | .answering => []
  | .offered | .completed => [.offer]
  | .answered => [.answer]
  | .yielded => [.offer, .answer]

-- Numerals of the counts below.
local instance neZero_seen : NeZero 3 := ⟨Nat.succ_ne_zero 2⟩

/-- A side, and how many messages of the other side are old to it. -/
structure Side where
  phase : Phase
  seen : Fin 3
  deriving DecidableEq

structure Session where
  firm : Side
  yielding : Side
  deriving DecidableEq

def initial : Session := ⟨⟨.fresh, 0⟩, ⟨.fresh, 0⟩⟩

def Session.side (s : Session) : Bool → Side
  | true => s.firm
  | false => s.yielding

def Session.setSide (s : Session) (r : Bool) (x : Side) : Session :=
  match r with
  | true => { s with firm := x }
  | false => { s with yielding := x }

inductive Event where
  | connect (r : Bool)
  | gathered (r : Bool)
  | deliver (r : Bool) (i : Fin 2)
  deriving DecidableEq

def Phase.connect : Phase → Phase
  | .fresh => .offering
  | p => p

def Phase.gathered : Phase → Phase
  | .offering => .offered
  | .answering => .answered
  | p => p

def Phase.react (firm : Bool) : Kind → Phase → Phase
  | .offer, .fresh => .answering
  | .offer, .offering => if firm then .offering else .answering
  | .offer, .offered => if firm then .offered else .yielded
  | .answer, .offered => .completed
  | _, p => p

def Side.Listens (x : Side) (i : Fin 2) : Prop := x.seen.val ≤ i.val

instance (x : Side) (i : Fin 2) : Decidable (x.Listens i) := inferInstanceAs (Decidable (_ ≤ _))

def Side.hear (r : Bool) (x : Side) (kind : Kind) (i : Fin 2) : Side :=
  if x.Listens i then ⟨x.phase.react r kind, i.succ⟩ else x

def Session.step (s : Session) : Event → Session
  | .connect r => s.setSide r { s.side r with phase := (s.side r).phase.connect }
  | .gathered r => s.setSide r { s.side r with phase := (s.side r).phase.gathered }
  | .deliver r i =>
    match (s.side !r).phase.sent[i.val]? with
    | none => s
    | some kind => s.setSide r ((s.side r).hear r kind i)

@[simp] theorem side_setSide (s : Session) (r : Bool) (x : Side) : (s.setSide r x).side r = x := by
  cases r <;> rfl

@[simp] theorem side_setSide_other (s : Session) (r : Bool) (x : Side) :
    (s.setSide r x).side (!r) = s.side !r := by
  cases r <;> rfl

/-- The phases in which the two sides can be at one time, the firm side first, with how
much they have seen of each other. -/
def consistent : Phase → Fin 3 → Phase → Fin 3 → Bool
  | .fresh, i, .fresh, j | .fresh, i, .offering, j | .fresh, i, .offered, j => i = 0 && j = 0
  | .offering, i, .fresh, j | .offering, i, .offering, j => i = 0 && j = 0
  | .offered, i, .fresh, j | .offered, i, .offering, j => i = 0 && j = 0
  | .offering, i, .offered, j | .offered, i, .offered, j => i ≤ 1 && j = 0
  | .offered, i, .answering, j | .offered, i, .answered, j => i = 0 && j = 1
  | .offered, i, .yielded, j => i ≤ 1 && j = 1
  | .completed, i, .answered, j => i = 1 && j = 1
  | .completed, i, .yielded, j => i = 2 && j = 1
  | .answering, i, .offered, j | .answered, i, .offered, j => i = 1 && j = 0
  | .answered, i, .completed, j => i = 1 && j = 1
  | _, _, _, _ => false

def Consistent (s : Session) : Prop :=
  consistent s.firm.phase s.firm.seen s.yielding.phase s.yielding.seen = true

theorem initial_consistent : Consistent initial := rfl

theorem consistent_connect (r : Bool) : ∀ p i q j, consistent p i q j = true →
    Consistent (Session.step ⟨⟨p, i⟩, ⟨q, j⟩⟩ (.connect r)) := by
  unfold Consistent
  cases r <;> decide +kernel

theorem consistent_gathered (r : Bool) : ∀ p i q j, consistent p i q j = true →
    Consistent (Session.step ⟨⟨p, i⟩, ⟨q, j⟩⟩ (.gathered r)) := by
  unfold Consistent
  cases r <;> decide +kernel

theorem consistent_deliver (r : Bool) : ∀ (k : Fin 2) p i q j, consistent p i q j = true →
    Consistent (Session.step ⟨⟨p, i⟩, ⟨q, j⟩⟩ (.deliver r k)) := by
  unfold Consistent
  cases r <;> decide +kernel

theorem consistent_step {s : Session} (h : Consistent s) (e : Event) : Consistent (s.step e) := by
  cases e with
  | connect r => exact consistent_connect r _ _ _ _ h
  | gathered r => exact consistent_gathered r _ _ _ _ h
  | deliver r k => exact consistent_deliver r k _ _ _ _ h

/-- The phases that a message is meant for: an answer is for whoever has sent an offer, an
offer is for whoever has not agreed on a session. -/
def Phase.awaits : Kind → Phase → Bool
  | .offer, .fresh | .offer, .offering | .offer, .offered => true
  | .answer, .offered => true
  | _, _ => false

theorem listens_cases (kind : Kind) (r : Bool) : ∀ (k : Fin 2) p i q j,
    consistent p i q j = true →
    (Session.side ⟨⟨p, i⟩, ⟨q, j⟩⟩ !r).phase.sent[k.val]? = some kind →
    (Session.side ⟨⟨p, i⟩, ⟨q, j⟩⟩ r).Listens k →
    (Session.side ⟨⟨p, i⟩, ⟨q, j⟩⟩ r).phase.awaits kind = true := by
  cases kind <;> cases r <;> decide +kernel

/-- Whatever a side listens to is meant for the phase it is in. -/
theorem listens_awaits {s : Session} (h : Consistent s) {r : Bool} {k : Fin 2} {kind : Kind}
    (hsent : (s.side !r).phase.sent[k.val]? = some kind) (hlistens : (s.side r).Listens k) :
    (s.side r).phase.awaits kind = true :=
  listens_cases kind r k _ _ _ _ h hsent hlistens

theorem offers_cases : ∀ i j, consistent .offered i .offered j = true → j = 0 := by decide

/-- While both sides wait for an answer, the firm side's offer is still to come. -/
theorem offers_unseen {s : Session} (h : Consistent s) (hfirm : s.firm.phase = .offered)
    (hyielding : s.yielding.phase = .offered) : s.yielding.seen = 0 := by
  rw [Consistent, hfirm, hyielding] at h
  exact offers_cases _ _ h

end OfferAnswer
