import Legio.PublishedTable
import Legio.RoutingLinks

set_option linter.style.header false

/-! The data channels of a Peering and what they do to Routing. The callbacks that
`setDataChannel` puts on a channel share the member `mDataChannel` and read it when they
run. The open and close events of the channels come in any order. -/
namespace PeeringChannels

open LegioBinary LegioMessage LegioCrypto LegioNode Containers ExceptionStates
open LocalLinks RoutingLinks
open NodeRuns (NodeEvent)

variable {Id Pair Ecdh Chan : Type}

inductive Phase where
  | connecting
  | opened
  | closed
  deriving DecidableEq

/-- The last event of a channel since it was set, and whether `disconnect` has dropped it. -/
structure Status where
  phase : Phase
  disconnected : Bool
  deriving DecidableEq

/-- A Peering with the node whose Routing it shares; `status` covers every channel that was
ever set on it. -/
structure Peering (Id Pair Ecdh Chan : Type) where
  node : Node Id Pair Ecdh Chan
  mRemoteId : Id
  mDataChannel : Option Chan
  status : Chan → Option Status

inductive Event (Id Chan : Type) where
  | connect (channel : Chan)
  | disconnect
  | onDataChannel (channel : Chan) (label : String)
  | opened (channel : Chan)
  | closed (channel : Chan)
  | act (event : NodeEvent Id Chan)

def dataChannelName : String := "legio"

section Model
variable [DecidableEq Chan]

def Peering.enter (p : Peering Id Pair Ecdh Chan) (channel : Chan) (phase : Phase) :
    Peering Id Pair Ecdh Chan :=
  { p with status :=
      Function.update p.status channel ((p.status channel).map fun s => { s with phase }) }

def Peering.setDataChannel (p : Peering Id Pair Ecdh Chan) (dataChannel : Chan) :
    Peering Id Pair Ecdh Chan :=
  { p with
    mDataChannel := some dataChannel
    status := Function.update p.status dataChannel (some ⟨.connecting, false⟩) }

variable [LinearOrder Id]

/-- `disconnect`; the close that it asks for is one of the events that may follow. -/
def Peering.disconnect (p : Peering Id Pair Ecdh Chan) : Peering Id Pair Ecdh Chan :=
  match p.mDataChannel with
  | none => p
  | some channel =>
    { p with
      node := final (Node.removeChannel channel p.node)
      mDataChannel := none
      status := Function.update p.status channel
        ((p.status channel).map fun s => { s with disconnected := true }) }

def Peering.connect (p : Peering Id Pair Ecdh Chan) (channel : Chan) :
    Peering Id Pair Ecdh Chan := p.disconnect.setDataChannel channel

def Peering.onDataChannel (p : Peering Id Pair Ecdh Chan) (channel : Chan) (label : String) :
    Peering Id Pair Ecdh Chan :=
  if label = dataChannelName then p.setDataChannel channel else p

/-- `onClosed` of any channel. There is no entry for a null channel to be removed. -/
def Peering.onClosed (p : Peering Id Pair Ecdh Chan) : Peering Id Pair Ecdh Chan :=
  match p.mDataChannel with
  | none => p
  | some channel => { p with node := final (Node.removeChannel channel p.node) }

variable (K : CryptoPP Id Pair Ecdh) (H : Host Id)

/-- `onOpen` of any channel. `addChannel` dereferences a null channel: no result. -/
def Peering.onOpen (p : Peering Id Pair Ecdh Chan) : Option (Peering Id Pair Ecdh Chan) :=
  p.mDataChannel.map fun channel =>
    { p with node := final (Node.addNeighbor K H p.mRemoteId channel
        (final (Node.addChannel channel p.node))) }

def Peering.step (p : Peering Id Pair Ecdh Chan) :
    Event Id Chan → Option (Peering Id Pair Ecdh Chan)
  | .connect channel => some (p.connect channel)
  | .disconnect => some p.disconnect
  | .onDataChannel channel label => some (p.onDataChannel channel label)
  | .opened channel => (p.onOpen K H).map fun p => p.enter channel .opened
  | .closed channel => some (p.onClosed.enter channel .closed)
  | .act event => some { p with node := event.apply K H p.node }

/-- Every channel object is set once, its events follow, and only the Peering registers it. -/
def Peering.Possible (p : Peering Id Pair Ecdh Chan) : Event Id Chan → Prop
  | .connect channel | .onDataChannel channel _ =>
    p.status channel = none ∧ channel ∉ p.node.routing.mChannels
  | .disconnect => True
  | .opened channel | .closed channel => ∃ s, p.status channel = some s
  | .act event => ∀ channel, p.status channel ≠ none →
      .addChannel channel ∉ calls event ∧ .removeChannel channel ∉ calls event

/-- An event of a channel registers or unregisters this one and nothing else. -/
def Concerns (p p' : Peering Id Pair Ecdh Chan) : Event Id Chan → Prop
  | .opened channel => ∃ r, Call.Frame p.node.routing r (.addChannel channel) ∧
      Call.Frame r p'.node.routing (.addNeighbor p.mRemoteId channel)
  | .closed channel => Call.Frame p.node.routing p'.node.routing (.removeChannel channel)
  | _ => True

structure Kept (p : Peering Id Pair Ecdh Chan) : Prop where
  registered : ∀ channel, p.status channel = some ⟨.opened, false⟩ →
    channel ∈ p.node.routing.mChannels
  unregistered : ∀ channel s, p.status channel = some s → s.phase = .closed →
    channel ∉ p.node.routing.mChannels

/-- The member is the channel whose event it is, or nothing is left to be registered or
unregistered. -/
def Peering.Current (p : Peering Id Pair Ecdh Chan) : Event Id Chan → Prop
  | .opened channel => ∃ current, p.mDataChannel = some current ∧
      (current = channel ∨ channel ∈ p.node.routing.mChannels ∧
        current ∈ p.node.routing.mChannels ∧ p.mRemoteId ∈ p.node.routing.mNeighbors)
  | .closed channel => p.mDataChannel = some channel ∨
      channel ∉ p.node.routing.mChannels ∧
        ∀ current, p.mDataChannel = some current → current ∉ p.node.routing.mChannels
  | _ => True

def PossibleRun : Peering Id Pair Ecdh Chan → List (Event Id Chan) → Prop
  | _, [] => True
  | p, event :: events => p.Possible event ∧
      ∀ p', p.step K H event = some p' → PossibleRun p' events

/-- Every event of the run has a result and concerns its channel only, and Routing is right
before and after each of them. -/
def ConcernedThroughout : Peering Id Pair Ecdh Chan → List (Event Id Chan) → Prop
  | p, [] => Kept p
  | p, event :: events => Kept p ∧
      ∃ p', p.step K H event = some p' ∧ Concerns p p' event ∧ ConcernedThroughout p' events

def AlwaysCurrent : Peering Id Pair Ecdh Chan → List (Event Id Chan) → Prop
  | _, [] => True
  | p, event :: events => p.Current event ∧
      ∀ p', p.step K H event = some p' → AlwaysCurrent p' events

structure Start (p : Peering Id Pair Ecdh Chan) : Prop where
  bound : Bound p.node.routing
  mDataChannel : p.mDataChannel = none
  status : ∀ channel, p.status channel = none

end Model

section Invariant
variable [DecidableEq Chan] [LinearOrder Id]
variable {K : CryptoPP Id Pair Ecdh} {H : Host Id} {p p' : Peering Id Pair Ecdh Chan}
  {channel : Chan}

/-- Of the channels that were set only open ones are registered, and all of these that were
not dropped. -/
structure Tidy (p : Peering Id Pair Ecdh Chan) : Prop where
  bound : Bound p.node.routing
  absent : ∀ c s, p.status c = some s → s.phase ≠ .opened → c ∉ p.node.routing.mChannels
  registered : ∀ c, p.status c = some ⟨.opened, false⟩ → c ∈ p.node.routing.mChannels
  current : ∀ c, p.mDataChannel = some c → ∃ phase, p.status c = some ⟨phase, false⟩

omit [DecidableEq Chan] in
theorem tidy_start (h : Start p) : Tidy p := by
  refine ⟨h.bound, fun c s hs => ?_, fun c hs => ?_, fun c hc => ?_⟩
  · rw [h.status c] at hs
    cases hs
  · rw [h.status c] at hs
    cases hs
  · rw [h.mDataChannel] at hc
    cases hc

omit [DecidableEq Chan] in
theorem kept_of_tidy (h : Tidy p) : Kept p where
  registered := h.registered
  unregistered c s hs hclosed := h.absent c s hs (by rw [hclosed]; decide)

theorem tidy_set (h : Tidy p) (hnew : p.status channel = none)
    (hfree : channel ∉ p.node.routing.mChannels) : Tidy (p.setDataChannel channel) := by
  have hother : ∀ c s, Function.update p.status channel (some ⟨.connecting, false⟩) c = some s →
      c = channel ∧ s = ⟨.connecting, false⟩ ∨ p.status c = some s := by
    intro c s hs
    by_cases hc : c = channel
    · rw [hc, Function.update_self, Option.some.injEq] at hs
      exact Or.inl ⟨hc, hs.symm⟩
    · rw [Function.update_of_ne hc] at hs
      exact Or.inr hs
  refine ⟨h.bound, fun c s hs hphase => ?_, fun c hs => ?_, fun c hc => ?_⟩
  · rcases hother c s hs with ⟨rfl, -⟩ | hold
    · exact hfree
    · exact h.absent c s hold hphase
  · rcases hother c _ hs with ⟨-, heq⟩ | hold
    · cases heq
    · exact h.registered c hold
  · obtain rfl := Option.some.inj hc
    exact ⟨.connecting, Function.update_self ..⟩

theorem tidy_disconnect (h : Tidy p) : Tidy p.disconnect := by
  unfold Peering.disconnect
  cases hcurrent : p.mDataChannel with
  | none => exact h
  | some channel =>
    obtain ⟨phase, hstatus⟩ := h.current channel hcurrent
    have hother : ∀ c s, Function.update p.status channel
        ((p.status channel).map fun s => { s with disconnected := true }) c = some s →
          c = channel ∧ s = ⟨phase, true⟩ ∨ c ≠ channel ∧ p.status c = some s := by
      intro c s hs
      by_cases hc : c = channel
      · rw [hc, Function.update_self, hstatus, Option.map_some, Option.some.injEq] at hs
        exact Or.inl ⟨hc, hs.symm⟩
      · rw [Function.update_of_ne hc] at hs
        exact Or.inr ⟨hc, hs⟩
    refine ⟨bound_frame h.bound (removeChannel_frame p.node.routing channel),
      fun c s hs hphase => ?_, fun c hs => ?_, fun c hc => ?_⟩
    · rcases hother c s hs with ⟨rfl, -⟩ | ⟨-, hold⟩
      · exact Finset.notMem_erase c _
      · exact fun hmem => h.absent c s hold hphase (Finset.mem_of_mem_erase hmem)
    · rcases hother c _ hs with ⟨-, heq⟩ | ⟨hne, hold⟩
      · cases heq
      · exact Finset.mem_erase.mpr ⟨hne, h.registered c hold⟩
    · cases hc

omit [LinearOrder Id] in
theorem disconnect_new (hnew : p.status channel = none)
    (hfree : channel ∉ p.node.routing.mChannels) :
    p.disconnect.status channel = none ∧ channel ∉ p.disconnect.node.routing.mChannels := by
  unfold Peering.disconnect
  cases p.mDataChannel with
  | none => exact ⟨hnew, hfree⟩
  | some c =>
    refine ⟨?_, fun hmem => hfree (Finset.mem_of_mem_erase hmem)⟩
    dsimp only
    by_cases hc : channel = c
    · rw [hc, Function.update_self, ← hc, hnew]
      rfl
    · rw [Function.update_of_ne hc, hnew]

theorem tidy_enter (hbound : Bound p.node.routing) {s : Status} {phase : Phase}
    (hs : p.status channel = some s)
    (hself : channel ∈ p.node.routing.mChannels ↔ phase = .opened)
    (habsent : ∀ c s, c ≠ channel → p.status c = some s → s.phase ≠ .opened →
      c ∉ p.node.routing.mChannels)
    (hregistered : ∀ c, c ≠ channel → p.status c = some ⟨.opened, false⟩ →
      c ∈ p.node.routing.mChannels)
    (hcurrent : ∀ c, p.mDataChannel = some c → ∃ phase, p.status c = some ⟨phase, false⟩) :
    Tidy (p.enter channel phase) := by
  have hstatus : (p.enter channel phase).status channel = some { s with phase } := by
    simp only [Peering.enter, Function.update_self, hs, Option.map_some]
  have hother : ∀ c, c ≠ channel → (p.enter channel phase).status c = p.status c :=
    fun c hc => Function.update_of_ne hc _ _
  refine ⟨hbound, fun c t ht hphase => ?_, fun c ht => ?_, fun c hc => ?_⟩
  · by_cases heq : c = channel
    · rw [heq, hstatus, Option.some.injEq] at ht
      subst ht
      rw [heq]
      exact fun hmem => hphase (hself.mp hmem)
    · rw [hother c heq] at ht
      exact habsent c t heq ht hphase
  · by_cases heq : c = channel
    · rw [heq, hstatus, Option.some.injEq] at ht
      rw [heq]
      exact hself.mpr (congrArg Status.phase ht)
    · rw [hother c heq] at ht
      exact hregistered c heq ht
  · obtain ⟨phase', hold⟩ := hcurrent c hc
    by_cases heq : c = channel
    · rw [heq, hs, Option.some.injEq] at hold
      rw [heq, hstatus, hold]
      exact ⟨phase, rfl⟩
    · exact ⟨phase', (hother c heq).trans hold⟩

theorem onOpen_frames (hc : p.mDataChannel = some channel) :
    ∃ p', p.onOpen K H = some p' ∧ p'.status = p.status ∧ p'.mDataChannel = p.mDataChannel ∧
      ∃ r, Call.Frame p.node.routing r (.addChannel channel) ∧
        Call.Frame r p'.node.routing (.addNeighbor p.mRemoteId channel) := by
  have hopen : p.onOpen K H = some { p with node := final (Node.addNeighbor K H p.mRemoteId channel
      (final (Node.addChannel channel p.node))) } := by
    simp only [Peering.onOpen, hc, Option.map_some]
  exact ⟨_, hopen, rfl, rfl, _, apply_frame (K := K) H p.node (.addChannel channel),
    apply_frame (K := K) H (final (Node.addChannel channel p.node))
      (.addNeighbor p.mRemoteId channel)⟩

theorem registers_other_iff {r r₁ r' : Routing Id Chan} {remoteId : Id} {c : Chan}
    (hadd : Call.Frame r r₁ (.addChannel c))
    (hneighbor : Call.Frame r₁ r' (.addNeighbor remoteId c)) (channel : Chan) :
    (∃ r₂, Call.Frame r r₂ (.addChannel channel) ∧
      Call.Frame r₂ r' (.addNeighbor remoteId channel)) ↔
      c = channel ∨ channel ∈ r.mChannels ∧ c ∈ r.mChannels ∧ remoteId ∈ r.mNeighbors := by
  have hunbound : remoteId ∉ r.mNeighbors ↔ r.mNeighbors.lookup remoteId = none := by
    rw [mem_iff_lookup, ← Option.ne_none_iff_exists', not_not]
  have hchannels : r'.mChannels = insert c r.mChannels := hneighbor.1.trans hadd.1
  have hself : c ∈ r₁.mChannels := by
    rw [hadd.1]
    exact Finset.mem_insert_self c _
  constructor
  · rintro ⟨r₂, hadd₂, hneighbor₂⟩
    by_cases heq : c = channel
    · exact Or.inl heq
    have hsame : insert c r.mChannels = insert channel r.mChannels :=
      hchannels.symm.trans (hneighbor₂.1.trans hadd₂.1)
    refine Or.inr ⟨?_, ?_, ?_⟩
    · have hmem := Finset.mem_insert_self channel r.mChannels
      rw [← hsame, Finset.mem_insert] at hmem
      exact hmem.resolve_left (Ne.symm heq)
    · have hmem := Finset.mem_insert_self c r.mChannels
      rw [hsame, Finset.mem_insert] at hmem
      exact hmem.resolve_left heq
    · by_contra hnone
      rw [hunbound] at hnone
      have hfirst := hneighbor.2 remoteId
      have hsecond := hneighbor₂.2 remoteId
      have hself₂ : channel ∈ r₂.mChannels := by
        rw [hadd₂.1]
        exact Finset.mem_insert_self channel _
      rw [if_pos ⟨rfl, (hadd.2 remoteId).trans hnone, hself⟩] at hfirst
      rw [if_pos ⟨rfl, (hadd₂.2 remoteId).trans hnone, hself₂⟩, hfirst] at hsecond
      exact heq (Option.some.inj hsecond)
  · rintro (rfl | ⟨hmem, hc, hbound⟩)
    · exact ⟨r₁, hadd, hneighbor⟩
    · rw [← not_not (a := remoteId ∈ r.mNeighbors), hunbound] at hbound
      refine ⟨r, ⟨(Finset.insert_eq_of_mem hmem).symm, fun _ => rfl⟩, ?_, fun id => ?_⟩
      · rw [hchannels, Finset.insert_eq_of_mem hc]
      · rw [hneighbor.2 id, hadd.2 id, if_neg fun h => hbound ((hadd.2 remoteId).symm.trans h.2.1),
          if_neg fun h => hbound h.2.1]

/-- An open event has a result and registers its own channel exactly where the member allows
it. -/
theorem concerns_opened_iff : (∃ p', p.step K H (.opened channel) = some p' ∧
    Concerns p p' (.opened channel)) ↔ p.Current (.opened channel) := by
  cases hc : p.mDataChannel with
  | none =>
    refine iff_of_false ?_ ?_
    · rintro ⟨p', hstep, -⟩
      rw [Peering.step, Peering.onOpen, hc] at hstep
      cases hstep
    · rintro ⟨c, hsome, -⟩
      rw [hc] at hsome
      cases hsome
  | some c =>
    obtain ⟨q, hopen, _, _, r, hadd, hneighbor⟩ := onOpen_frames (K := K) (H := H) hc
    have hstep : p.step K H (.opened channel) = some (q.enter channel .opened) := by
      rw [Peering.step, hopen]
      rfl
    have hregisters := registers_other_iff hadd hneighbor channel
    constructor
    · rintro ⟨p', hp', hconcerns⟩
      obtain rfl := Option.some.inj (hstep.symm.trans hp')
      exact ⟨c, hc, hregisters.mp hconcerns⟩
    · rintro ⟨c', hc', hcurrent⟩
      obtain rfl := Option.some.inj (hc.symm.trans hc')
      exact ⟨_, hstep, hregisters.mpr hcurrent⟩

theorem tidy_opened (h : Tidy p) {s : Status} (hs : p.status channel = some s)
    (hstep : p.step K H (.opened channel) = some p')
    (hconcerns : Concerns p p' (.opened channel)) : Tidy p' := by
  cases hc : p.mDataChannel with
  | none =>
    rw [Peering.step, Peering.onOpen, hc] at hstep
    cases hstep
  | some c =>
    obtain ⟨q, hopen, hstatus, hmember, -⟩ := onOpen_frames (K := K) (H := H) hc
    rw [Peering.step, hopen] at hstep
    have hresult : q.enter channel .opened = p' := Option.some.inj hstep
    subst hresult
    obtain ⟨r, hadd, hneighbor⟩ := hconcerns
    have hchannels : q.node.routing.mChannels = insert channel p.node.routing.mChannels :=
      hneighbor.1.trans hadd.1
    have hbound : Bound q.node.routing := bound_frame (bound_frame h.bound hadd) hneighbor
    refine tidy_enter hbound (hstatus ▸ hs) (iff_of_true ?_ rfl)
      (fun c s hne ht hphase => ?_) (fun c hne ht => ?_) ?_
    · rw [hchannels]
      exact Finset.mem_insert_self channel _
    · rw [hstatus] at ht
      rw [hchannels, Finset.mem_insert, or_iff_right hne]
      exact h.absent c s ht hphase
    · rw [hstatus] at ht
      rw [hchannels]
      exact Finset.mem_insert_of_mem (h.registered c ht)
    · rw [hstatus, hmember]
      exact h.current

theorem removeChannel_same_iff {r : Routing Id Chan} (h : Bound r) :
    Call.Frame r r (.removeChannel channel) ↔ channel ∉ r.mChannels := by
  constructor
  · intro hframe hmem
    rw [hframe.1] at hmem
    exact Finset.notMem_erase channel _ hmem
  · intro hfree
    refine ⟨(Finset.erase_eq_of_notMem hfree).symm, fun id => ?_⟩
    rw [if_neg fun hbound => hfree (h id channel hbound)]

/-- Removing one channel is like removing another one only where neither is registered. -/
theorem removeChannel_other_iff {r r' : Routing Id Chan} (h : Bound r) {c : Chan}
    (hremoved : Call.Frame r r' (.removeChannel c)) :
    Call.Frame r r' (.removeChannel channel) ↔
      c = channel ∨ channel ∉ r.mChannels ∧ c ∉ r.mChannels := by
  constructor
  · intro hframe
    by_cases heq : c = channel
    · exact Or.inl heq
    have hsame : r.mChannels.erase c = r.mChannels.erase channel :=
      hremoved.1.symm.trans hframe.1
    refine Or.inr ⟨fun hmem => ?_, fun hmem => ?_⟩
    · have hleft := Finset.mem_erase.mpr ⟨Ne.symm heq, hmem⟩
      rw [hsame] at hleft
      exact Finset.notMem_erase channel _ hleft
    · have hleft := Finset.mem_erase.mpr ⟨heq, hmem⟩
      rw [← hsame] at hleft
      exact Finset.notMem_erase c _ hleft
  · rintro (rfl | ⟨hfree, hc⟩)
    · exact hremoved
    · refine ⟨?_, fun id => ?_⟩
      · rw [hremoved.1, Finset.erase_eq_of_notMem hc, Finset.erase_eq_of_notMem hfree]
      · rw [hremoved.2 id, if_neg fun hbound => hc (h id c hbound),
          if_neg fun hbound => hfree (h id channel hbound)]

theorem concerns_closed_iff (h : Tidy p) :
    Concerns p (p.onClosed.enter channel .closed) (.closed channel) ↔
      p.Current (.closed channel) := by
  have hrouting : (p.onClosed.enter channel .closed).node = p.onClosed.node := rfl
  rw [Concerns, hrouting, Peering.Current]
  cases hc : p.mDataChannel with
  | none =>
    have hsame : p.onClosed = p := by rw [Peering.onClosed, hc]
    rw [hsame, removeChannel_same_iff h.bound]
    simp
  | some c =>
    have hremoved : Call.Frame p.node.routing p.onClosed.node.routing (.removeChannel c) := by
      rw [Peering.onClosed, hc]
      exact removeChannel_frame p.node.routing c
    rw [removeChannel_other_iff h.bound hremoved]
    simp

theorem tidy_closed (h : Tidy p) {s : Status} (hs : p.status channel = some s)
    (hconcerns : Concerns p (p.onClosed.enter channel .closed) (.closed channel)) :
    Tidy (p.onClosed.enter channel .closed) := by
  have hstatus : p.onClosed.status = p.status := by
    unfold Peering.onClosed
    cases p.mDataChannel <;> rfl
  have hmember : p.onClosed.mDataChannel = p.mDataChannel := by
    unfold Peering.onClosed
    cases hc : p.mDataChannel with
    | none => exact hc
    | some c => rfl
  have hframe : Call.Frame p.node.routing p.onClosed.node.routing (.removeChannel channel) :=
    hconcerns
  have hchannels : p.onClosed.node.routing.mChannels = p.node.routing.mChannels.erase channel :=
    hframe.1
  refine tidy_enter (bound_frame h.bound hframe) (hstatus ▸ hs) (iff_of_false ?_ (by decide))
    (fun c s hne ht hphase => ?_) (fun c hne ht => ?_) ?_
  · rw [hchannels]
    exact Finset.notMem_erase channel _
  · rw [hstatus] at ht
    rw [hchannels]
    exact fun hmem => h.absent c s ht hphase (Finset.mem_of_mem_erase hmem)
  · rw [hstatus] at ht
    rw [hchannels]
    exact Finset.mem_erase.mpr ⟨hne, h.registered c ht⟩
  · rw [hstatus, hmember]
    exact h.current

theorem links_event (n : Node Id Pair Ecdh Chan) (event : NodeEvent Id Chan) :
    ∃ made, links (event.apply K H n) = links (run K H n made) ∧ ∀ c,
      (.addChannel c ∈ made → .addChannel c ∈ calls event) ∧
      (.removeChannel c ∈ made → .removeChannel c ∈ calls event) := by
  by_cases hevent : event.data = []
  · exact ⟨calls event, links_act H n hevent, fun c => ⟨fun h => h, fun h => h⟩⟩
  · cases event with
    | received channel data =>
      rcases links_onMessage (K := K) H n channel data with hsame | ⟨_, source, -, -, -, hlinks⟩
      · exact ⟨[], hsame, fun c => by simp⟩
      · exact ⟨[.addNeighbor source channel], hlinks, fun c => by simp⟩
    | addChannel | removeChannel | addNeighbor | removeNeighbor | status | update | send
    | broadcast => exact absurd rfl hevent

theorem tidy_act (h : Tidy p) {event : NodeEvent Id Chan} (hp : p.Possible (.act event)) :
    Tidy { p with node := event.apply K H p.node } := by
  obtain ⟨made, hlinks, hcalls⟩ := links_event (K := K) (H := H) p.node event
  have hchannels : (event.apply K H p.node).routing.mChannels =
      (run K H p.node made).routing.mChannels := congrArg Prod.fst hlinks
  have hneighbors : (event.apply K H p.node).routing.mNeighbors =
      (run K H p.node made).routing.mNeighbors := congrArg Prod.snd hlinks
  have hmem : ∀ c, p.status c ≠ none → (c ∈ (event.apply K H p.node).routing.mChannels ↔
      c ∈ p.node.routing.mChannels) := by
    intro c hc
    obtain ⟨hadd, hremove⟩ := hp c hc
    rw [hchannels]
    exact mem_run H made (fun hmade => hadd ((hcalls c).1 hmade))
      fun hmade => hremove ((hcalls c).2 hmade)
  refine ⟨fun id c hc => ?_, fun c s hs hphase => ?_, fun c hs => ?_, h.current⟩
  · rw [hneighbors] at hc
    rw [hchannels]
    exact bound_run H h.bound made id c hc
  · rw [hmem c (by rw [hs]; exact Option.some_ne_none s)]
    exact h.absent c s hs hphase
  · rw [hmem c (by rw [hs]; exact Option.some_ne_none _)]
    exact h.registered c hs

theorem step_current (h : Tidy p) {event : Event Id Chan} (hp : p.Possible event)
    (hcurrent : p.Current event) :
    ∃ p', p.step K H event = some p' ∧ Concerns p p' event ∧ Tidy p' := by
  cases event with
  | connect channel =>
    obtain ⟨hnew, hfree⟩ := disconnect_new hp.1 hp.2
    exact ⟨_, rfl, trivial, tidy_set (tidy_disconnect h) hnew hfree⟩
  | disconnect => exact ⟨_, rfl, trivial, tidy_disconnect h⟩
  | onDataChannel channel label =>
    refine ⟨_, rfl, trivial, ?_⟩
    unfold Peering.onDataChannel
    split_ifs
    · exact tidy_set h hp.1 hp.2
    · exact h
  | opened channel =>
    obtain ⟨s, hs⟩ := hp
    obtain ⟨p', hstep, hconcerns⟩ := (concerns_opened_iff (K := K) (H := H)).mpr hcurrent
    exact ⟨p', hstep, hconcerns, tidy_opened h hs hstep hconcerns⟩
  | closed channel =>
    obtain ⟨s, hs⟩ := hp
    have hconcerns := (concerns_closed_iff h).mpr hcurrent
    exact ⟨_, rfl, hconcerns, tidy_closed h hs hconcerns⟩
  | act event => exact ⟨_, rfl, trivial, tidy_act h hp⟩

theorem concerns_current (h : Tidy p) {event : Event Id Chan}
    (hstep : p.step K H event = some p') (hconcerns : Concerns p p' event) :
    p.Current event := by
  cases event with
  | opened channel => exact concerns_opened_iff.mp ⟨p', hstep, hconcerns⟩
  | closed channel =>
    obtain rfl := Option.some.inj hstep
    exact (concerns_closed_iff h).mp hconcerns
  | connect | disconnect | onDataChannel | act => trivial

theorem run_concerned_iff (events : List (Event Id Chan)) : ∀ p : Peering Id Pair Ecdh Chan,
    Tidy p → PossibleRun K H p events →
    (ConcernedThroughout K H p events ↔ AlwaysCurrent K H p events) := by
  induction events with
  | nil =>
    intro p h _
    exact ⟨fun _ => trivial, fun _ => kept_of_tidy h⟩
  | cons event events ih =>
    intro p h hp
    obtain ⟨hp, hrest⟩ := hp
    constructor
    · rintro ⟨-, p', hstep, hconcerns, hthroughout⟩
      have hcurrent := concerns_current h hstep hconcerns
      obtain ⟨q, hstep', _, htidy⟩ := step_current (K := K) (H := H) h hp hcurrent
      obtain rfl : p' = q := Option.some.inj (hstep.symm.trans hstep')
      refine ⟨hcurrent, fun q hq => ?_⟩
      obtain rfl : p' = q := Option.some.inj (hstep.symm.trans hq)
      exact (ih p' htidy (hrest p' hstep)).mp hthroughout
    · rintro ⟨hcurrent, halways⟩
      obtain ⟨p', hstep, hconcerns, htidy⟩ := step_current (K := K) (H := H) h hp hcurrent
      exact ⟨kept_of_tidy h, p', hstep, hconcerns,
        (ih p' htidy (hrest p' hstep)).mpr (halways p' hstep)⟩

/-- Over any run, the events of each channel concern this channel exactly as long as they
find it in the member, or find nothing that is left to be changed. -/
theorem channel_events_iff (h : Start p) (events : List (Event Id Chan))
    (hp : PossibleRun K H p events) :
    ConcernedThroughout K H p events ↔ AlwaysCurrent K H p events :=
  run_concerned_iff events p (tidy_start h) hp

end Invariant

-- Both sides call `connect`: a channel of the remote side comes in before the own opens.
namespace Sample

open LegioNode.Sample (host)
open PublishedTable.Sample (started)

abbrev crypto := LegioCrypto.Sample.crypto

def peering (n : Node (Fin 4) (Fin 4) (Fin 4) ℕ) : Peering (Fin 4) (Fin 4) (Fin 4) ℕ :=
  ⟨n, 2, none, fun _ => none⟩

theorem start_peering : Start (peering (started 1)) where
  bound id c hc := by
    have hnone : (started 1).routing.neighbors = ∅ := by decide +kernel
    have hmem : id ∈ (started 1).routing.neighbors := mem_iff_lookup.mpr ⟨c, hc⟩
    rw [hnone] at hmem
    exact absurd hmem (Finset.notMem_empty id)
  mDataChannel := rfl
  status _ := rfl

def bothConnect : List (Event (Fin 4) ℕ) :=
  [.connect 0, .onDataChannel 1 dataChannelName, .opened 0]

def inTurn : List (Event (Fin 4) ℕ) := [.connect 0, .opened 0, .closed 0]

variable {n : Node (Fin 4) (Fin 4) (Fin 4) ℕ}

theorem bothConnect_possible (h : n.routing.mChannels = ∅) :
    PossibleRun crypto host (peering n) bothConnect := by
  have hfree : ∀ c : ℕ, c ∉ n.routing.mChannels := fun c => h ▸ Finset.notMem_empty c
  refine ⟨⟨rfl, hfree 0⟩, fun p' hp => ?_⟩
  cases hp
  refine ⟨⟨rfl, hfree 1⟩, fun p' hp => ?_⟩
  cases hp
  exact ⟨⟨_, rfl⟩, fun _ _ => trivial⟩

theorem bothConnect_other (h : n.routing.mChannels = ∅) :
    ¬ AlwaysCurrent crypto host (peering n) bothConnect := by
  rintro ⟨-, hconnected⟩
  obtain ⟨-, hincoming⟩ := hconnected _ rfl
  obtain ⟨⟨c, hc, hcurrent⟩, -⟩ := hincoming _ rfl
  obtain rfl : 1 = c := Option.some.inj hc
  rcases hcurrent with heq | ⟨hmem, -⟩
  · cases heq
  · have hregistered : 0 ∈ n.routing.mChannels := hmem
    rw [h] at hregistered
    exact Finset.notMem_empty 0 hregistered

theorem inTurn_possible (h : n.routing.mChannels = ∅) :
    PossibleRun crypto host (peering n) inTurn := by
  refine ⟨⟨rfl, h ▸ Finset.notMem_empty 0⟩, fun p' hp => ?_⟩
  cases hp
  refine ⟨⟨_, rfl⟩, fun p' hp => ?_⟩
  cases hp
  exact ⟨⟨_, rfl⟩, fun _ _ => trivial⟩

theorem inTurn_current : AlwaysCurrent crypto host (peering n) inTurn := by
  refine ⟨trivial, fun p' hp => ?_⟩
  cases hp
  refine ⟨⟨0, rfl, Or.inl rfl⟩, fun p' hp => ?_⟩
  cases hp
  exact ⟨Or.inl rfl, fun _ _ => trivial⟩

/-- One channel at a time. -/
theorem inTurn_concerned : ConcernedThroughout crypto host (peering (started 1)) inTurn :=
  (channel_events_iff start_peering inTurn (inTurn_possible (by decide +kernel))).mpr
    inTurn_current

/-- The open event of channel 0 registers channel 1. -/
theorem other_registered : ¬ ∀ events : List (Event (Fin 4) ℕ),
    PossibleRun crypto host (peering (started 1)) events →
      ConcernedThroughout crypto host (peering (started 1)) events := by
  intro hall
  have hempty : (started 1).routing.mChannels = ∅ := by decide +kernel
  have hpossible := bothConnect_possible hempty
  exact bothConnect_other hempty ((run_concerned_iff bothConnect _ (tidy_start start_peering)
    hpossible).mp (hall bothConnect hpossible))

end Sample

end PeeringChannels
