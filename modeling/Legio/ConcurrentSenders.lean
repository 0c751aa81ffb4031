import Legio.NodeRuns
import Legio.TransportSteps
import Mathlib.Data.List.Chain

set_option linter.style.header false

/-! Threads that send at the same time through one transport of a node, to one receiver
over one channel. A call takes its number, and later hands its message to the channel; the
steps of different calls interleave. Unbounded numbers of calls, the order in which messages
were handed over and the receiver's verdicts are history variables. -/
namespace ConcurrentSenders

open LegioBinary LegioCrypto LegioMessage LegioNode Containers ExceptionStates ReplayFilter
open TransportSteps NodeNetwork

variable {Id Pair Ecdh Chan Thread : Type}

inductive Call where
  | send (payload : Binary) (random : Iv)
  | broadcast (payload : Binary)

structure Ticket (Id : Type) where
  index : ℕ
  message : Message Id

structure World (Id Pair Ecdh Chan Thread : Type) where
  sender : Node Id Pair Ecdh Chan
  receiver : Node Id Pair Ecdh Chan
  outstanding : Thread → Option (Ticket Id)
  counter : ℕ
  handed : List ℕ
  verdicts : List Bool

inductive Action (Thread : Type) where
  | allocate (thread : Thread) (call : Call)
  | handOver (thread : Thread)
  | deliver

section Model
variable [LinearOrder Id] [DecidableEq Chan] [DecidableEq Thread]
  (K : CryptoPP Id Pair Ecdh) (H : Host Id) (port : Port) (near far : Chan)

/-- The part of a call up to the message that is numbered and signed. -/
def Call.allocate (remoteId : Id) : Call → NodeM Id Pair Ecdh Chan (Message Id)
  | .send payload random => Transport.directMessage K H port remoteId payload random
  | .broadcast payload =>
    match port with
    | .signaling => throw (.logicError "Transport does not support broadcasting")
    | .user => Transport.makeMessage K H .user payload none

def Call.run (remoteId : Id) : Call → NodeM Id Pair Ecdh Chan Unit
  | .send payload random => Transport.send K H port remoteId payload random
  | .broadcast payload => Transport.broadcast K H port payload

def passes (n : Node Id Pair Ecdh Chan) (data : Binary) : Bool :=
  match Message.parse K H.byteOrder data with
  | .error _ => false
  | .ok m =>
    match m.source with
    | none => false
    | some id => ((n.transport port).checkSequence id m.sequence).1

def World.step (w : World Id Pair Ecdh Chan Thread) : Action Thread →
    World Id Pair Ecdh Chan Thread
  | .allocate thread call =>
    -- a thread makes one call at a time
    if (w.outstanding thread).isSome then w
    else
      let result := call.allocate K H port (w.receiver.id K) w.sender
      { w with
        sender := final result
        outstanding := match result with
          | .ok m _ => Function.update w.outstanding thread (some ⟨w.counter, m⟩)
          | .error _ _ => w.outstanding
        counter := w.counter + (((final result).transport port).mSendSequence -
          (w.sender.transport port).mSendSequence).toNat }
  | .handOver thread =>
    match w.outstanding thread with
    | none => w
    | some ticket =>
      { w with
        sender := final (Node.send K H ticket.message w.sender)
        outstanding := Function.update w.outstanding thread none
        handed := w.handed ++ [ticket.index] }
  | .deliver =>
    match w.sender.wire.outbox near with
    | [] => w
    | data :: _ =>
      { w with
        sender := { w.sender with wire := w.sender.wire.pop near }
        receiver := arrive K H w.receiver far data
        verdicts := w.verdicts ++ [passes K H port w.receiver data] }

def run (w : World Id Pair Ecdh Chan Thread) (actions : List (Action Thread)) :
    World Id Pair Ecdh Chan Thread :=
  actions.foldl (World.step K H port near far) w

structure Joined (w : World Id Pair Ecdh Chan Thread) : Prop where
  sender : Typed w.sender
  receiver : Typed w.receiver
  apart : w.receiver.id K ≠ w.sender.id K
  attached : near ∈ w.sender.routing.mChannels
  isOpen : w.sender.wire.isOpen near = true
  routed : w.sender.routing.findRoute (w.receiver.id K) = some near
  registered : far ∈ w.receiver.routing.mChannels

structure Start (w : World Id Pair Ecdh Chan Thread) : Prop where
  joined : Joined K near far w
  idle : ∀ thread, w.outstanding thread = none
  counter : w.counter = (w.sender.transport port).mSendSequence.toNat
  handed : w.handed = []
  verdicts : w.verdicts = []
  empty : w.sender.wire.outbox near = []
  unknown : (w.receiver.transport port).mSequences.lookup (w.sender.id K) = none

/-- The step hands over a message with a newer number than the one before, and fewer than
`2^31 - 1` calls have taken a number since. -/
def InTurn (w : World Id Pair Ecdh Chan Thread) : Action Thread → Prop
  | .handOver thread => ∀ ticket ∈ w.outstanding thread, ∀ last ∈ w.handed.getLast?,
    last < ticket.index ∧ ticket.index ≤ last + sequenceWindow
  | _ => True

instance (w : World Id Pair Ecdh Chan Thread) : DecidablePred (InTurn w)
  | .allocate _ _ => isTrue trivial
  | .handOver thread => inferInstanceAs (Decidable (∀ ticket ∈ w.outstanding thread,
    ∀ last ∈ w.handed.getLast?, _ ∧ _))
  | .deliver => isTrue trivial

def AllInTurn : World Id Pair Ecdh Chan Thread → List (Action Thread) → Prop
  | _, [] => True
  | w, action :: actions =>
    InTurn w action ∧ AllInTurn (w.step K H port near far action) actions

instance : ∀ (actions : List (Action Thread)) (w : World Id Pair Ecdh Chan Thread),
    Decidable (AllInTurn K H port near far w actions)
  | [], _ => isTrue trivial
  | action :: actions, w =>
    have : Decidable (AllInTurn K H port near far (w.step K H port near far action) actions) :=
      instDecidableAllInTurn actions _
    inferInstanceAs (Decidable (_ ∧ _))

end Model

section Filter
variable [DecidableEq Id]

def verdictsOf (t : Transport Id) : List (Id × ℕ) → List Bool
  | [] => []
  | m :: run => (present t m).1 :: verdictsOf (present t m).2 run

theorem verdictsOf_concat (t : Transport Id) (run : List (Id × ℕ)) (m : Id × ℕ) :
    verdictsOf t (run ++ [m]) = verdictsOf t run ++ [(present (presentAll t run) m).1] := by
  induction run generalizing t with
  | nil => rfl
  | cons a run ih => exact congrArg _ (ih _)

@[simp] theorem length_verdictsOf (t : Transport Id) (run : List (Id × ℕ)) :
    (verdictsOf t run).length = run.length := by
  induction run generalizing t with
  | nil => rfl
  | cons a run ih => simp [verdictsOf, ih]

theorem checkSequence_congr {t t' : Transport Id} {id : Id}
    (h : t.mSequences.lookup id = t'.mSequences.lookup id) (sequence : UInt32) :
    (t.checkSequence id sequence).1 = (t'.checkSequence id sequence).1 ∧
      (t.checkSequence id sequence).2.mSequences.lookup id =
        (t'.checkSequence id sequence).2.mSequences.lookup id := by
  have hmem : id ∈ t.mSequences ↔ id ∈ t'.mSequences := by
    rw [mem_iff_lookup, mem_iff_lookup, h]
  rw [Transport.checkSequence, Transport.checkSequence, h]
  cases t'.mSequences.lookup id with
  | none => exact ⟨rfl, by simp only [lookup_emplace, hmem, h]⟩
  | some last =>
    dsimp only
    split_ifs
    · exact ⟨rfl, by rw [AList.lookup_insert, AList.lookup_insert]⟩
    · exact ⟨rfl, h⟩

/-- A later number, but not by too much. -/
def Newer (last i : ℕ) : Prop := last < i ∧ i ≤ last + sequenceWindow

theorem present_newer {t : Transport Id} {id : Id} {last i : ℕ}
    (h : t.mSequences.lookup id = some (UInt32.ofNat last)) (hi : Newer last i) :
    (present t (id, i)).1 = true ∧
      (present t (id, i)).2.mSequences.lookup id = some (UInt32.ofNat i) := by
  obtain ⟨hlt, hle⟩ := hi
  have hcompare : compareSequence (UInt32.ofNat i) (UInt32.ofNat last) > 0 := by
    rw [compareSequence_ofNat hle (by omega), if_neg (by omega), if_pos hlt]
    decide
  rw [present, Transport.checkSequence, h]
  dsimp only
  rw [if_pos hcompare]
  exact ⟨rfl, AList.lookup_insert _⟩

theorem present_first {t : Transport Id} {id : Id} (h : t.mSequences.lookup id = none) (i : ℕ) :
    (present t (id, i)).1 = true ∧
      (present t (id, i)).2.mSequences.lookup id = some (UInt32.ofNat i) := by
  rw [present, Transport.checkSequence, h]
  exact ⟨rfl, lookup_emplace_of_notMem _ (AList.lookup_eq_none.mp h)⟩

theorem verdicts_in_turn (id : Id) (run : List ℕ) : ∀ (t : Transport Id) (last : ℕ),
    t.mSequences.lookup id = some (UInt32.ofNat last) → (last :: run).IsChain Newer →
      ∀ v ∈ verdictsOf t (run.map fun i => (id, i)), v = true := by
  induction run with
  | nil =>
    intro t last h hchain v hv
    cases hv
  | cons i run ih =>
    intro t last h hchain v hv
    obtain ⟨hnewer, htail⟩ := List.isChain_cons_cons.mp hchain
    obtain ⟨hpass, hentry⟩ := present_newer h hnewer
    rcases List.mem_cons.mp hv with rfl | hv
    · exact hpass
    · exact ih _ i hentry htail v hv

theorem verdicts_from_start {t : Transport Id} {id : Id} (h : t.mSequences.lookup id = none)
    {run : List ℕ} (hchain : run.IsChain Newer) :
    ∀ v ∈ verdictsOf t (run.map fun i => (id, i)), v = true := by
  cases run with
  | nil =>
    intro v hv
    cases hv
  | cons i run =>
    obtain ⟨hpass, hentry⟩ := present_first h i
    intro v hv
    rcases List.mem_cons.mp hv with rfl | hv
    · exact hpass
    · exact verdicts_in_turn id run _ i hentry hchain v hv

/-- Inside the window, all pass exactly if the numbers increase. -/
theorem verdicts_iff_increasing {t : Transport Id} (ht : t.mSequences = ∅) (id : Id)
    (run : List ℕ) (hw : ∀ a ∈ run, ∀ b ∈ run, a ≤ b + sequenceWindow) :
    (∀ v ∈ verdictsOf t (run.map fun i => (id, i)), v = true) ↔ run.Pairwise (· < ·) := by
  induction run using List.reverseRecOn with
  | nil =>
    constructor
    · intro _
      exact List.Pairwise.nil
    · intro _ v hv
      cases hv
  | append_singleton run i ih =>
    have hprefix := ih fun a ha b hb =>
      hw a (List.mem_append_left _ ha) b (List.mem_append_left _ hb)
    have hwindow : WithinWindow (run.map (fun i => (id, i)) ++ [(id, i)]) := by
      intro a ha b hb _
      have hindex : ∀ c ∈ run.map (fun i => (id, i)) ++ [(id, i)], c.2 ∈ run ++ [i] := by
        intro c hc
        rw [← List.map_singleton (f := fun i => (id, i)), ← List.map_append] at hc
        obtain ⟨j, hj, rfl⟩ := List.mem_map.mp hc
        exact hj
      exact hw a.2 (hindex a ha) b.2 (hindex b hb)
    have hlast := present_iff ht hwindow
    have hnumbers : (∀ k, (id, k) ∈ run.map (fun i => (id, i)) → k < i) ↔ ∀ k ∈ run, k < i := by
      simp
    rw [hnumbers] at hlast
    rw [List.map_append, List.map_singleton, verdictsOf_concat, List.pairwise_append]
    simp only [List.mem_append, List.mem_singleton, or_imp, forall_and, forall_eq, hprefix, hlast,
      List.pairwise_singleton, true_and]

end Filter

section Steps
variable [LinearOrder Id] [DecidableEq Chan] [DecidableEq Thread]
  {K : CryptoPP Id Pair Ecdh} (H : Host Id) {port : Port} {near far : Chan}

/-- The ways in which the first part of a call ends. -/
inductive Allocated (K : CryptoPP Id Pair Ecdh) (port : Port) (remoteId : Id)
    (n : Node Id Pair Ecdh Chan) :
    EStateM.Result Error (Node Id Pair Ecdh Chan) (Message Id) → Prop where
  | refused (e) : Allocated K port remoteId n (.error e n)
  | spent (e) : Allocated K port remoteId n (.error e (n.setTransport port { n.transport port with
      mSendSequence := (n.transport port).mSendSequence + 1 }))
  | made (m) (signed : SignedBy K n.ecdsaPair m) (type : m.type = (n.transport port).mType)
      (sequence : m.sequence = (n.transport port).mSendSequence)
      (destination : m.destination = none ∨ m.destination = some remoteId) :
      Allocated K port remoteId n (.ok m (n.setTransport port { n.transport port with
        mSendSequence := (n.transport port).mSendSequence + 1
        issued := (n.transport port).issued ++ [m] }))

omit [LinearOrder Id] [DecidableEq Chan] in
theorem makeMessage_allocated (n : Node Id Pair Ecdh Chan) (port : Port) (remoteId : Id)
    (body : Binary) {destination : Option Id}
    (hto : destination = none ∨ destination = some remoteId) :
    Allocated K port remoteId n (Transport.makeMessage K H port body destination n) := by
  rcases Nat.lt_or_ge uint16Max body.length with hlong | hfits
  · have hrun := makeMessage_too_long (K := K) H n port destination hlong
    rw [hrun]
    exact .spent _
  · obtain ⟨m, hrun, hsigned, htype, hsequence, hdestination, _⟩ :=
      makeMessage_spec (K := K) H n port destination hfits
    rw [hrun]
    rw [← hdestination] at hto
    exact .made m hsigned htype hsequence hto

omit [DecidableEq Chan] in
theorem call_allocated (call : Call) (remoteId : Id) (n : Node Id Pair Ecdh Chan) :
    Allocated K port remoteId n (call.allocate K H port remoteId n) := by
  cases call with
  | send payload random =>
    rw [Call.allocate]
    rcases directMessage_cases (K := K) H n port remoteId payload random with
      ⟨e, hrun⟩ | ⟨body, hrun⟩
    · rw [hrun]
      exact .refused e
    · rw [hrun]
      exact makeMessage_allocated H n port remoteId body (Or.inr rfl)
  | broadcast payload =>
    cases port with
    | signaling => exact .refused _
    | user => exact makeMessage_allocated H n .user remoteId payload (Or.inl rfl)

/-- A thread that is not disturbed runs the call as the transport has it. -/
theorem call_split (call : Call) (remoteId : Id) (n : Node Id Pair Ecdh Chan) :
    call.run K H port remoteId n =
      (call.allocate K H port remoteId >>= fun m => Node.send K H m) n := by
  cases call with
  | send payload random => rfl
  | broadcast payload =>
    cases port with
    | signaling => rfl
    | user =>
      rw [Call.run, Transport.broadcast, Call.allocate]
      rcases Nat.lt_or_ge uint16Max payload.length with hlong | hfits
      · have hrun := makeMessage_too_long (K := K) H n .user none hlong
        rw [bind_error hrun, bind_error hrun]
      · obtain ⟨m, hrun, _, _, _, hto, _⟩ := makeMessage_spec (K := K) H n .user none hfits
        have hflood : ¬ m.destination.isSome := by simp [hto]
        rw [bind_ok hrun, bind_ok hrun, Node.send, if_neg hflood]

omit [DecidableEq Thread] in
theorem send_posts {w : World Id Pair Ecdh Chan Thread} (hw : Joined K near far w)
    {m : Message Id} (hm : SignedBy K w.sender.ecdsaPair m)
    (hto : m.destination = none ∨ m.destination = some (w.receiver.id K)) :
    ∃ wire, final (Node.send K H m w.sender) = { w.sender with wire } ∧
      wire.isOpen = w.sender.wire.isOpen ∧
      wire.outbox near = w.sender.wire.outbox near ++ [frame K m] := by
  have hbinary : m.toBinary K H.byteOrder = .ok (frame K m) := toBinary_eq K H.byteOrder m hm.body
  rcases hto with hto | hto
  · have hflood : ¬ m.destination.isSome := by simp [hto]
    rw [Node.send, if_neg hflood]
    refine ⟨_, rfl, rfl, ?_⟩
    have hreached : near ∈ w.sender.routing.mChannels ∧ some near ≠ none ∧
        w.sender.wire.isOpen near = true := ⟨hw.attached, Option.some_ne_none near, hw.isOpen⟩
    simp only [Routing.broadcast, if_pos hreached, hbinary]
  · have hdirect : m.destination.isSome := by rw [hto]; rfl
    have hsource : ¬ m.source = none := by rw [hm.source]; exact Option.some_ne_none _
    have hsend : w.sender.wire.send near (frame K m) = .ok { w.sender.wire with
        outbox := Function.update w.sender.wire.outbox near
          (w.sender.wire.outbox near ++ [frame K m]) } := by
      rw [Wire.send, if_pos hw.isOpen]
    rw [Node.send, if_pos hdirect, Node.route, get_bind_run, Routing.route, if_neg hsource, hto]
    dsimp only
    rw [if_neg hw.apart, hw.routed]
    dsimp only
    rw [hbinary]
    dsimp only
    rw [hsend]
    exact ⟨_, rfl, rfl, Function.update_self ..⟩

/-- The receiver as far as messages of a transport leave it alone. -/
structure Filed (port : Port) (core : Pair × Routing Id Chan × LegioNode.Graph Id Ecdh)
    (table : UnorderedMap Id UInt32) (n : Node Id Pair Ecdh Chan) : Prop where
  typed : Typed n
  core : n.core = core
  table : (n.transport port).mSequences = table

variable {core : Pair × Routing Id Chan × LegioNode.Graph Id Ecdh}
  {table : UnorderedMap Id UInt32} {m : Message Id}

omit [LinearOrder Id] [DecidableEq Chan] in
theorem typed_setTransport {n : Node Id Pair Ecdh Chan} (h : Typed n) (port : Port)
    {t : Transport Id} (ht : t.mType = (n.transport port).mType) :
    Typed (n.setTransport port t) := by
  cases port with
  | signaling => exact ⟨ht.trans h.signaling, h.user⟩
  | user => exact ⟨h.signaling, ht.trans h.user⟩

omit [LinearOrder Id] [DecidableEq Chan] in
theorem filed_callback (id : Id) (payload : Binary) :
    Keeps (Filed port core table) (Node.callback port m id payload :
      NodeM Id Pair Ecdh Chan Unit) := by
  refine keeps_modify fun n hn => ⟨typed_setTransport hn.typed port rfl, ?_, ?_⟩
  · rw [core_setTransport]
    exact hn.core
  · rw [transport_setTransport]
    exact hn.table

omit [DecidableEq Chan] in
theorem filed_check (id : Id) (sequence : UInt32) {n : Node Id Pair Ecdh Chan} (hn : Typed n)
    (hcore : n.core = core) :
    Filed port core ((n.transport port).checkSequence id sequence).2.mSequences
      (final (Node.checkSequence port id sequence n)) := by
  rw [checkSequence_run, final_ok]
  refine ⟨typed_setTransport hn port (checkSequence_mType _ id sequence), ?_, ?_⟩
  · rw [core_setTransport]
    exact hcore
  · rw [transport_setTransport]

omit [DecidableEq Chan] in
theorem filed_after_check {f : Bool → NodeM Id Pair Ecdh Chan Unit}
    (hf : ∀ fresh table, Keeps (Filed port core table) (f fresh)) (id : Id) (sequence : UInt32)
    {n : Node Id Pair Ecdh Chan} (hn : Typed n) (hcore : n.core = core) :
    Filed port core ((n.transport port).checkSequence id sequence).2.mSequences
      (final ((Node.checkSequence port id sequence >>= f) n)) := by
  have hchecked : Filed port core _ (final (Node.checkSequence port id sequence n)) :=
    filed_check id sequence hn hcore
  rw [checkSequence_run, final_ok] at hchecked
  rw [bind_ok (checkSequence_run n port id sequence)]
  exact hf _ _ _ hchecked

omit [DecidableEq Chan] in
theorem filed_incoming (id : Id) {n : Node Id Pair Ecdh Chan} (hn : Typed n)
    (hcore : n.core = core) :
    Filed port core ((n.transport port).checkSequence id m.sequence).2.mSequences
      (final (Transport.incoming K port m id n)) := by
  exact incoming_reaches K (filed_callback id) (filed_check id m.sequence hn hcore)

theorem filed_broadcastable (id : Id) (channel : Option Chan) {n : Node Id Pair Ecdh Chan}
    (hn : Typed n) (hcore : n.core = core) :
    Filed .user core ((n.transport .user).checkSequence id m.sequence).2.mSequences
      (final (BroadcastableTransport.incoming K H m id channel n)) := by
  rw [BroadcastableTransport.incoming]
  cases m.destination with
  | some _ => exact filed_incoming id hn hcore
  | none =>
    apply filed_after_check _ id m.sequence hn hcore
    intro fresh table
    cases fresh with
    | false => exact keeps_pure _
    | true =>
      refine keeps_bind (keeps_modify fun n hn => ?_) fun _ => filed_callback id m.body
      exact ⟨⟨hn.typed.signaling, hn.typed.user⟩, hn.core, hn.table⟩

theorem filed_notifyMessage (hm : m.source = some (K.publicKey pair)) {n : Node Id Pair Ecdh Chan}
    (hn : Typed n) (htype : m.type = (n.transport port).mType) (hcore : n.core = core)
    (channel : Option Chan) :
    Filed port core
      ((n.transport port).checkSequence (K.publicKey pair) m.sequence).2.mSequences
      (final (Node.notifyMessage K H m channel n)) := by
  cases port with
  | user =>
    rw [notifyMessage_user H hn hm (htype.trans hn.user)]
    exact filed_broadcastable H (K.publicKey pair) channel hn hcore
  | signaling =>
    have hsignaling : m.type = MessageType.Signaling := htype.trans hn.signaling
    have hgraph : Graph.notifyMessage K H m channel n = .ok () n := by
      rw [Graph.notifyMessage, if_neg (by rw [hsignaling]; decide),
        if_neg (by rw [hsignaling]; decide)]
      rfl
    have haccept : Transport.notifyMessage K H .signaling m channel n =
        Transport.incoming K .signaling m (K.publicKey pair) n := by
      simp only [Transport.notifyMessage, get_bind_run, hm, htype, ne_eq, not_true_eq_false,
        if_false]
    have hincoming : Filed .signaling core
        ((n.transport .signaling).checkSequence (K.publicKey pair) m.sequence).2.mSequences
        (final (Transport.incoming K .signaling m (K.publicKey pair) n)) :=
      filed_incoming (K.publicKey pair) hn hcore
    have hskip : Keeps (Filed .signaling core
        ((n.transport .signaling).checkSequence (K.publicKey pair) m.sequence).2.mSequences)
        (Transport.notifyMessage K H .user m channel) := by
      refine keeps_get_bind fun n' hn' => ?_
      have huser : m.type ≠ (n'.transport .user).mType := by
        change m.type ≠ n'.userTransport.mType
        rw [hsignaling, hn'.typed.user]
        decide
      rw [hm]
      dsimp only
      rw [if_pos huser]
      exact hn'
    rw [Node.notifyMessage, bind_ok hgraph]
    rw [← haccept] at hincoming
    cases hrun : Transport.notifyMessage K H .signaling m channel n with
    | error e n' =>
      rw [bind_error hrun]
      rw [hrun] at hincoming
      exact hincoming
    | ok _ n' =>
      rw [bind_ok hrun]
      rw [hrun] at hincoming
      exact hskip n' hincoming

end Steps

section Runs
variable [LinearOrder Id] [DecidableEq Chan] [DecidableEq Thread]
  {K : CryptoPP Id Pair Ecdh} (H : Host Id) {port : Port} {near far : Chan}

structure Good (K : CryptoPP Id Pair Ecdh) (port : Port) (first : ℕ)
    (w : World Id Pair Ecdh Chan Thread) (ticket : Ticket Id) : Prop where
  signed : SignedBy K w.sender.ecdsaPair ticket.message
  type : ticket.message.type = (w.receiver.transport port).mType
  sequence : ticket.message.sequence = UInt32.ofNat ticket.index
  destination : ticket.message.destination = none ∨
    ticket.message.destination = some (w.receiver.id K)
  above : first ≤ ticket.index
  below : ticket.index < w.counter

/-- The filter has dealt with the first numbers handed over; the others are in flight. -/
structure Tracked (K : CryptoPP Id Pair Ecdh) (port : Port) (near far : Chan) (first : ℕ)
    (w : World Id Pair Ecdh Chan Thread) (dealt : List ℕ) (queue : List (Ticket Id)) : Prop where
  joined : Joined K near far w
  counter : (w.sender.transport port).mSendSequence = UInt32.ofNat w.counter
  started : first ≤ w.counter
  outstanding : ∀ thread ticket, w.outstanding thread = some ticket → Good K port first w ticket
  handed : w.handed = dealt ++ queue.map Ticket.index
  numbered : ∀ i ∈ w.handed, first ≤ i ∧ i < w.counter
  frames : w.sender.wire.outbox near = queue.map fun ticket => frame K ticket.message
  queued : ∀ ticket ∈ queue, Good K port first w ticket
  verdicts : w.verdicts = verdictsOf (.initial 0 0) (dealt.map fun i => (w.sender.id K, i))
  table : (w.receiver.transport port).mSequences.lookup (w.sender.id K) =
    (presentAll (.initial 0 0) (dealt.map fun i => (w.sender.id K, i))).mSequences.lookup
      (w.sender.id K)

variable {first : ℕ} {w w' : World Id Pair Ecdh Chan Thread} {dealt : List ℕ}
  {queue : List (Ticket Id)} {ticket : Ticket Id}

omit [LinearOrder Id] [DecidableEq Chan] [DecidableEq Thread] in
theorem good_congr (h : Good K port first w ticket)
    (hpair : w'.sender.ecdsaPair = w.sender.ecdsaPair)
    (htype : (w'.receiver.transport port).mType = (w.receiver.transport port).mType)
    (hid : w'.receiver.id K = w.receiver.id K) (hle : w.counter ≤ w'.counter) :
    Good K port first w' ticket := by
  constructor
  · rw [hpair]
    exact h.signed
  · rw [htype]
    exact h.type
  · exact h.sequence
  · rw [hid]
    exact h.destination
  · exact h.above
  · exact Nat.lt_of_lt_of_le h.below hle

omit [DecidableEq Chan] [DecidableEq Thread] in
theorem start_tracked (h : Start K port near far w) :
    Tracked K port near far w.counter w [] [] := by
  constructor
  · exact h.joined
  · rw [h.counter, UInt32.ofNat_toNat]
  · exact Nat.le_refl _
  · intro thread ticket hticket
    rw [h.idle] at hticket
    cases hticket
  · exact h.handed
  · intro i hi
    rw [h.handed] at hi
    cases hi
  · exact h.empty
  · intro ticket hticket
    cases hticket
  · exact h.verdicts
  · exact h.unknown

omit [LinearOrder Id] [DecidableEq Chan] in
theorem typed_transport {n n' : Node Id Pair Ecdh Chan} (h : Typed n) (h' : Typed n')
    (port : Port) :
    (n'.transport port).mType = (n.transport port).mType := by
  cases port with
  | signaling => exact h'.signaling.trans h.signaling.symm
  | user => exact h'.user.trans h.user.symm

omit [DecidableEq Chan] [DecidableEq Thread] in
theorem joined_sender {w : World Id Pair Ecdh Chan Thread} (h : Joined K near far w)
    {n : Node Id Pair Ecdh Chan} (htyped : Typed n) (hpair : n.ecdsaPair = w.sender.ecdsaPair)
    (hrouting : n.routing = w.sender.routing) (hopen : n.wire.isOpen = w.sender.wire.isOpen)
    (hs : w'.sender = n) (hr : w'.receiver = w.receiver) : Joined K near far w' := by
  subst hs
  constructor
  · exact htyped
  · rw [hr]
    exact h.receiver
  · rw [hr, Node.id, Node.id, hpair]
    exact h.apart
  · rw [hrouting]
    exact h.attached
  · rw [hopen]
    exact h.isOpen
  · rw [hrouting, hr]
    exact h.routed
  · rw [hr]
    exact h.registered

omit [DecidableEq Chan] [DecidableEq Thread] in
theorem tracked_counted (h : Tracked K port near far first w dealt queue) {t : Transport Id}
    {outstanding : Thread → Option (Ticket Id)}
    (htype : t.mType = (w.sender.transport port).mType)
    (hcount : t.mSendSequence = (w.sender.transport port).mSendSequence + 1)
    (hout : ∀ thread ticket, outstanding thread = some ticket →
      Good K port first { w with counter := w.counter + 1 } ticket) :
    Tracked K port near far first { w with
      sender := w.sender.setTransport port t
      outstanding
      counter := w.counter + (((w.sender.setTransport port t).transport port).mSendSequence -
        (w.sender.transport port).mSendSequence).toNat } dealt queue := by
  have hone : (((w.sender.setTransport port t).transport port).mSendSequence -
      (w.sender.transport port).mSendSequence).toNat = 1 := by
    rw [transport_setTransport, hcount, UInt32.add_comm, UInt32.add_sub_cancel]
    rfl
  have hpair : (w.sender.setTransport port t).ecdsaPair = w.sender.ecdsaPair := by
    cases port <;> rfl
  have hrouting : (w.sender.setTransport port t).routing = w.sender.routing := by
    cases port <;> rfl
  have hwire : (w.sender.setTransport port t).wire = w.sender.wire := by
    cases port <;> rfl
  have hid : (w.sender.setTransport port t).id K = w.sender.id K := congrArg K.publicKey hpair
  rw [hone]
  constructor
  · exact joined_sender h.joined (typed_setTransport h.joined.sender port htype) hpair hrouting
      (congrArg Wire.isOpen hwire) rfl rfl
  · rw [transport_setTransport, hcount, h.counter, UInt32.ofNat_add]
    rfl
  · exact Nat.le_succ_of_le h.started
  · intro thread ticket hticket
    exact good_congr (hout thread ticket hticket) hpair rfl rfl (Nat.le_refl _)
  · exact h.handed
  · exact fun i hi => ⟨(h.numbered i hi).1, Nat.lt_succ_of_lt (h.numbered i hi).2⟩
  · rw [hwire]
    exact h.frames
  · exact fun ticket hticket =>
      good_congr (h.queued ticket hticket) hpair rfl rfl (Nat.le_succ _)
  · rw [hid]
    exact h.verdicts
  · rw [hid]
    exact h.table

theorem tracked_allocate (h : Tracked K port near far first w dealt queue) (thread : Thread)
    (call : Call) :
    Tracked K port near far first (w.step K H port near far (.allocate thread call))
      dealt queue := by
  rw [World.step]
  split_ifs
  · exact h
  have hkept : ∀ thread ticket, w.outstanding thread = some ticket →
      Good K port first { w with counter := w.counter + 1 } ticket := fun thread ticket hticket =>
    good_congr (h.outstanding thread ticket hticket) rfl rfl rfl (Nat.le_succ _)
  have hcall : Allocated K port _ _ (call.allocate K H port (w.receiver.id K) w.sender) :=
    call_allocated H call (w.receiver.id K) w.sender
  generalize call.allocate K H port (w.receiver.id K) w.sender = result at hcall
  cases hcall with
  | refused e =>
    simp only [final_error, UInt32.sub_self, UInt32.toNat_zero, Nat.add_zero]
    exact h
  | spent e => exact tracked_counted h rfl rfl hkept
  | made m hsigned htype hsequence hto =>
    refine tracked_counted h rfl rfl fun thread' ticket hticket => ?_
    dsimp only at hticket
    rw [Function.update_apply] at hticket
    split_ifs at hticket
    · cases hticket
      have hfiled : m.type = (w.receiver.transport port).mType :=
        htype.trans (typed_transport h.joined.receiver h.joined.sender port)
      exact ⟨hsigned, hfiled, hsequence.trans h.counter, hto, h.started, Nat.lt_succ_self _⟩
    · exact hkept thread' ticket hticket

theorem tracked_handOver (h : Tracked K port near far first w dealt queue) (thread : Thread) :
    ∃ queue', Tracked K port near far first (w.step K H port near far (.handOver thread)) dealt
      queue' := by
  rw [World.step]
  cases hticket : w.outstanding thread with
  | none => exact ⟨queue, h⟩
  | some ticket =>
    have hgood := h.outstanding thread ticket hticket
    obtain ⟨wire, hsend, hopen, hposted⟩ :=
      send_posts H h.joined hgood.signed hgood.destination
    refine ⟨queue ++ [ticket], ?_⟩
    dsimp only
    rw [hsend]
    constructor
    · exact joined_sender (n := { w.sender with wire }) h.joined
        ⟨h.joined.sender.signaling, h.joined.sender.user⟩ rfl rfl hopen rfl rfl
    · exact h.counter
    · exact h.started
    · intro thread' ticket' hticket'
      dsimp only at hticket'
      rw [Function.update_apply] at hticket'
      split_ifs at hticket'
      exact good_congr (h.outstanding thread' ticket' hticket') rfl rfl rfl (Nat.le_refl _)
    · rw [h.handed, List.append_assoc, List.map_append, List.map_singleton]
    · intro i hi
      rcases List.mem_append.mp hi with hold | hnew
      · exact h.numbered i hold
      · rw [List.mem_singleton] at hnew
        subst hnew
        exact ⟨hgood.above, hgood.below⟩
    · rw [hposted, h.frames, List.map_append, List.map_singleton]
    · intro ticket' hticket'
      rcases List.mem_append.mp hticket' with hold | hnew
      · exact good_congr (h.queued ticket' hold) rfl rfl rfl (Nat.le_refl _)
      · rw [List.mem_singleton] at hnew
        subst hnew
        exact good_congr hgood rfl rfl rfl (Nat.le_refl _)
    · exact h.verdicts
    · exact h.table

theorem tracked_deliver (hK : EcdsaLaws K) (h : Tracked K port near far first w dealt queue) :
    ∃ dealt' queue', Tracked K port near far first (w.step K H port near far .deliver) dealt'
      queue' := by
  rw [World.step]
  cases queue with
  | nil =>
    have hempty : w.sender.wire.outbox near = [] := h.frames
    rw [hempty]
    exact ⟨dealt, [], h⟩
  | cons ticket queue =>
    have hfirst : w.sender.wire.outbox near = frame K ticket.message ::
      queue.map fun ticket => frame K ticket.message := h.frames
    have hgood := h.queued ticket List.mem_cons_self
    have hid : K.publicKey w.sender.ecdsaPair = w.sender.id K := rfl
    rw [hfirst]
    dsimp only
    have hreceived : Filed port w.receiver.core
        ((w.receiver.transport port).checkSequence (w.sender.id K)
          ticket.message.sequence).2.mSequences
        (arrive K H w.receiver far (frame K ticket.message)) := by
      rw [arrive, if_pos h.joined.registered, onMessage_emit H hK hgood.signed hgood.destination]
      exact filed_notifyMessage H hgood.signed.source h.joined.receiver hgood.type rfl (some far)
    have hpass : passes K H port w.receiver (frame K ticket.message) =
        (present (presentAll (.initial 0 0) (dealt.map fun i => (w.sender.id K, i)))
          (w.sender.id K, ticket.index)).1 := by
      rw [passes, frame, parse_signed hK _ hgood.signed]
      dsimp only
      rw [hgood.signed.source]
      dsimp only
      rw [hgood.sequence]
      exact (checkSequence_congr h.table _).1
    have hcore := hreceived.core
    simp only [Node.core, Prod.mk.injEq] at hcore
    obtain ⟨hpair, hrouting, _⟩ := hcore
    have hremote : (arrive K H w.receiver far (frame K ticket.message)).id K = w.receiver.id K :=
      congrArg K.publicKey hpair
    have htype := typed_transport h.joined.receiver hreceived.typed port
    refine ⟨dealt ++ [ticket.index], queue, ?_⟩
    constructor
    · constructor
      · exact ⟨h.joined.sender.signaling, h.joined.sender.user⟩
      · exact hreceived.typed
      · rw [hremote]
        exact h.joined.apart
      · exact h.joined.attached
      · exact h.joined.isOpen
      · rw [hremote]
        exact h.joined.routed
      · rw [hrouting]
        exact h.joined.registered
    · exact h.counter
    · exact h.started
    · exact fun thread ticket hticket =>
        good_congr (h.outstanding thread ticket hticket) rfl htype hremote (Nat.le_refl _)
    · rw [h.handed, List.map_cons, List.append_assoc, List.singleton_append]
    · exact h.numbered
    · simp only [Wire.pop, Function.update_self, hfirst, List.tail_cons]
    · exact fun ticket' hticket' => good_congr (h.queued ticket' (List.mem_cons_of_mem _ hticket'))
        rfl htype hremote (Nat.le_refl _)
    · rw [h.verdicts, hpass, List.map_append, List.map_singleton]
      exact (verdictsOf_concat _ _ _).symm
    · rw [hreceived.table, List.map_append, List.map_singleton, presentAll_concat]
      have hentry := (checkSequence_congr h.table ticket.message.sequence).2
      rw [hgood.sequence] at hentry ⊢
      exact hentry

theorem tracked_step (hK : EcdsaLaws K) (h : Tracked K port near far first w dealt queue)
    (action : Action Thread) : ∃ dealt' queue',
      Tracked K port near far first (w.step K H port near far action) dealt' queue' := by
  cases action with
  | allocate thread call => exact ⟨dealt, queue, tracked_allocate H h thread call⟩
  | handOver thread => exact ⟨dealt, tracked_handOver H h thread⟩
  | deliver => exact tracked_deliver H hK h

theorem run_tracked (hK : EcdsaLaws K) (actions : List (Action Thread)) :
    ∀ (w : World Id Pair Ecdh Chan Thread) (dealt : List ℕ) (queue : List (Ticket Id)),
      Tracked K port near far first w dealt queue → ∃ dealt' queue',
        Tracked K port near far first (run K H port near far w actions) dealt' queue' := by
  induction actions with
  | nil => exact fun w dealt queue h => ⟨dealt, queue, h⟩
  | cons action actions ih =>
    intro w dealt queue h
    obtain ⟨dealt', queue', hstep⟩ := tracked_step H hK h action
    exact ih _ dealt' queue' hstep

/-- Steps in turn hand over numbers in turn. -/
theorem step_in_turn {action : Action Thread} (hturn : InTurn w action)
    (h : w.handed.IsChain Newer) : (w.step K H port near far action).handed.IsChain Newer := by
  cases action with
  | allocate thread call =>
    rw [World.step]
    split_ifs
    · exact h
    · exact h
  | handOver thread =>
    rw [World.step]
    cases hticket : w.outstanding thread with
    | none => exact h
    | some ticket =>
      dsimp only
      rw [List.isChain_append]
      refine ⟨h, List.isChain_singleton _, ?_⟩
      intro last hlast i hi
      rw [List.head?_cons, Option.mem_some_iff] at hi
      subst hi
      exact hturn ticket hticket last hlast
  | deliver =>
    rw [World.step]
    cases w.sender.wire.outbox near <;> exact h

theorem run_in_turn (actions : List (Action Thread)) :
    ∀ w : World Id Pair Ecdh Chan Thread, AllInTurn K H port near far w actions →
      w.handed.IsChain Newer → (run K H port near far w actions).handed.IsChain Newer := by
  induction actions with
  | nil => exact fun w _ h => h
  | cons action actions ih =>
    rintro w ⟨hturn, hrest⟩ h
    exact ih _ hrest (step_in_turn H hturn h)

/-- Every message that was handed over reaches the filter once, or is still on its way. If
all steps are in turn, everything passes, however long the run. In a run that takes fewer
numbers than the window holds, everything passes only if the numbers were handed over in
increasing order. -/
theorem concurrent_senders (hK : EcdsaLaws K) {w₀ : World Id Pair Ecdh Chan Thread}
    (h : Start K port near far w₀) (actions : List (Action Thread)) :
    let w := run K H port near far w₀ actions
    w.verdicts.length + (w.sender.wire.outbox near).length = w.handed.length ∧
    (AllInTurn K H port near far w₀ actions → ∀ v ∈ w.verdicts, v = true) ∧
    (w.counter ≤ w₀.counter + sequenceWindow + 1 → w.sender.wire.outbox near = [] →
      ((∀ v ∈ w.verdicts, v = true) ↔ w.handed.Pairwise (· < ·))) := by
  intro w
  obtain ⟨dealt, queue, htracked⟩ := run_tracked H hK actions w₀ [] [] (start_tracked h)
  have hverdicts := htracked.verdicts
  have hhanded := htracked.handed
  refine ⟨?_, ?_, ?_⟩
  · rw [hverdicts, hhanded, htracked.frames]
    simp
  · intro hturn
    have hchain : w.handed.IsChain Newer := by
      apply run_in_turn H actions w₀ hturn
      rw [h.handed]
      exact List.isChain_nil
    rw [hhanded] at hchain
    rw [hverdicts]
    exact verdicts_from_start rfl (List.isChain_append.mp hchain).1
  · intro hfew hempty
    have hqueue : queue = [] := by
      have hframes := htracked.frames
      rw [hempty] at hframes
      exact List.map_eq_nil_iff.mp hframes.symm
    subst hqueue
    rw [List.map_nil, List.append_nil] at hhanded
    rw [hverdicts, hhanded]
    apply verdicts_iff_increasing rfl
    intro a ha b hb
    rw [← hhanded] at ha hb
    have hbelow := (htracked.numbered a ha).2
    have habove := (htracked.numbered b hb).1
    change a < w.counter at hbelow
    omega

end Runs

-- Two threads of node 1 broadcast to node 2.
namespace Sample
open LegioNode.Sample

def sender : Node (Fin 4) (Fin 4) (Fin 4) ℕ :=
  { node 1 with routing := ⟨some (RoutingTable.empty.add 2 2), {0}, emplace 2 0 ∅⟩ }

def receiver : Node (Fin 4) (Fin 4) (Fin 4) ℕ :=
  { node 2 with routing := ⟨some .empty, {0}, ∅⟩ }

def before : World (Fin 4) (Fin 4) (Fin 4) ℕ Bool := ⟨sender, receiver, fun _ => none, 0, [], []⟩

theorem before_start : Start LegioCrypto.Sample.crypto .user 0 0 before where
  joined :=
    { sender := ⟨rfl, rfl⟩
      receiver := ⟨rfl, rfl⟩
      apart := by decide
      attached := by decide
      isOpen := rfl
      routed := by decide
      registered := by decide }
  idle _ := rfl
  counter := rfl
  handed := rfl
  verdicts := rfl
  empty := rfl
  unknown := rfl

def schedule (threads : List Bool) : List (Action Bool) :=
  [.allocate false (.broadcast [1]), .allocate true (.broadcast [2])] ++
    threads.map .handOver ++ [.deliver, .deliver]

/-- The second thread overtakes the first, whose message is then dropped. -/
theorem overtaken_dropped : ∃ w : World (Fin 4) (Fin 4) (Fin 4) ℕ Bool,
    Start LegioCrypto.Sample.crypto .user 0 0 w ∧
      (run LegioCrypto.Sample.crypto host .user 0 0 w (schedule [true, false])).verdicts =
        [true, false] :=
  ⟨before, before_start, by decide +kernel⟩

theorem in_order_passes :
    (run LegioCrypto.Sample.crypto host .user 0 0 before (schedule [false, true])).verdicts.length =
      2 ∧ ∀ v ∈ (run LegioCrypto.Sample.crypto host .user 0 0 before
        (schedule [false, true])).verdicts, v = true := by
  refine ⟨by decide +kernel, ?_⟩
  apply (concurrent_senders host LegioCrypto.Sample.ecdsaLaws before_start
    (schedule [false, true])).2.1
  decide +kernel

end Sample

end ConcurrentSenders
