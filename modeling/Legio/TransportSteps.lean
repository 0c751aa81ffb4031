import Legio.NodeDispatch
import Legio.ReplayFilter

set_option linter.style.header false

/-! What the user transport does to its node: one equation for every way a message is sent
or received. Sequence numbers are read as indices above the first one of their source. -/
namespace TransportSteps

open LegioBinary LegioCrypto LegioMessage LegioNode Containers ExceptionStates ReplayFilter

variable {Id Pair Ecdh Chan : Type}

def frame (K : CryptoPP Id Pair Ecdh) (m : Message Id) : Binary :=
  m.signedBytes K ++ m.signature

/-- The table entry of a source of which every index below `seen` is dealt with. -/
def residue (start : UInt32) : ℕ → Option UInt32
  | 0 => none
  | k + 1 => some (start + UInt32.ofNat k)

theorem compareSequence_shift (start : UInt32) {i k : ℕ} (hi : i ≤ sequenceWindow)
    (hk : k ≤ sequenceWindow) :
    compareSequence (start + UInt32.ofNat i) (start + UInt32.ofNat k) > 0 ↔ k < i := by
  have hadd : ∀ j, start + UInt32.ofNat j = UInt32.ofNat (start.toNat + j) := by
    intro j
    rw [UInt32.ofNat_add, UInt32.ofNat_toNat]
  rw [hadd, hadd, compareSequence_ofNat (by omega) (by omega)]
  split_ifs with heq hlt
  · constructor
    · intro h
      exact absurd h (by decide)
    · omega
  · constructor
    · omega
    · intro _
      decide
  · constructor
    · intro h
      exact absurd h (by decide)
    · omega

section Table
variable [DecidableEq Id]

theorem checkSequence_kept (t : Transport Id) (id : Id) (sequence : UInt32) :
    ∃ table, (t.checkSequence id sequence).2 = { t with mSequences := table } := by
  unfold Transport.checkSequence
  split
  · exact ⟨_, rfl⟩
  · split_ifs
    · exact ⟨_, rfl⟩
    · exact ⟨t.mSequences, rfl⟩

theorem checkSequence_other (t : Transport Id) {id id' : Id} (hne : id' ≠ id)
    (sequence : UInt32) :
    (t.checkSequence id sequence).2.mSequences.lookup id' = t.mSequences.lookup id' := by
  unfold Transport.checkSequence
  split
  · exact lookup_emplace_ne _ _ hne
  · split_ifs
    · exact AList.lookup_insert_ne hne
    · rfl

theorem checkSequence_residue {t : Transport Id} {id : Id} {start : UInt32} {seen i : ℕ}
    (h : t.mSequences.lookup id = residue start seen) (hseen : seen ≤ sequenceWindow + 1)
    (hi : i ≤ sequenceWindow) :
    (t.checkSequence id (start + UInt32.ofNat i)).1 = decide (seen ≤ i) ∧
      (t.checkSequence id (start + UInt32.ofNat i)).2.mSequences.lookup id =
        residue start (if seen ≤ i then i + 1 else seen) := by
  unfold Transport.checkSequence
  cases seen with
  | zero =>
    rw [residue] at h
    rw [h, if_pos (Nat.zero_le i)]
    refine ⟨(decide_eq_true (Nat.zero_le i)).symm, lookup_emplace_of_notMem _ ?_⟩
    rw [mem_iff_lookup]
    rintro ⟨b, hb⟩
    rw [h] at hb
    cases hb
  | succ k =>
    rw [residue] at h
    rw [h]
    dsimp only
    have hcompare := compareSequence_shift start hi (by omega : k ≤ sequenceWindow)
    by_cases hlt : k < i
    · rw [if_pos (hcompare.mpr hlt), if_pos (by omega : k + 1 ≤ i)]
      exact ⟨(decide_eq_true (by omega)).symm, AList.lookup_insert _⟩
    · rw [if_neg (fun hpos => hlt (hcompare.mp hpos)), if_neg (by omega : ¬ k + 1 ≤ i)]
      exact ⟨(decide_eq_false (by omega)).symm, h⟩

end Table

section Receive
variable [LinearOrder Id] [DecidableEq Chan] {K : CryptoPP Id Pair Ecdh} (H : Host Id)
variable {n : Node Id Pair Ecdh Chan} {m : Message Id} {pair : Pair}

structure Typed (n : Node Id Pair Ecdh Chan) : Prop where
  signaling : n.signaling.mType = MessageType.Signaling
  user : n.userTransport.mType = MessageType.User

theorem notifyMessage_user (hn : Typed n) {source : Id} (hsource : m.source = some source)
    (htype : m.type = MessageType.User) (channel : Option Chan) :
    Node.notifyMessage K H m channel n =
      BroadcastableTransport.incoming K H m source channel n := by
  have hhello : m.type ≠ MessageType.Hello := by rw [htype]; decide
  have hstate : m.type ≠ MessageType.State := by rw [htype]; decide
  have hsignaling : m.type ≠ (n.transport .signaling).mType := by
    change m.type ≠ n.signaling.mType
    rw [htype, hn.signaling]
    decide
  have huser : ¬ m.type ≠ (n.transport .user).mType := by
    change ¬ m.type ≠ n.userTransport.mType
    rw [htype, hn.user]
    decide
  have hgraph : Graph.notifyMessage K H m channel n = .ok () n := by
    rw [Graph.notifyMessage, if_neg hhello, if_neg hstate]
    rfl
  have hskip : Transport.notifyMessage K H .signaling m channel n = .ok () n := by
    simp only [Transport.notifyMessage, get_bind_run, hsource, if_pos hsignaling]
    rfl
  have haccept : Transport.notifyMessage K H .user m channel n =
      BroadcastableTransport.incoming K H m source channel n := by
    simp only [Transport.notifyMessage, get_bind_run, hsource, if_neg huser]
  rw [Node.notifyMessage, bind_ok hgraph, bind_ok hskip, haccept]

omit [DecidableEq Chan] in
theorem userCheck_run (n : Node Id Pair Ecdh Chan) (source : Id) (sequence : UInt32) :
    Node.checkSequence .user source sequence n =
      .ok (n.userTransport.checkSequence source sequence).1
        { n with userTransport := (n.userTransport.checkSequence source sequence).2 } :=
  checkSequence_run n .user source sequence

theorem incoming_broadcast (hto : m.destination = none) (source : Id) (channel : Option Chan) :
    final (BroadcastableTransport.incoming K H m source channel n) =
      if (n.userTransport.checkSequence source m.sequence).1 then
        { n with
          wire := n.routing.broadcast K H.byteOrder n.wire m channel
          userTransport := { (n.userTransport.checkSequence source m.sequence).2 with
            delivered := n.userTransport.delivered ++ [⟨m, source, m.body⟩] } }
      else
        { n with userTransport := (n.userTransport.checkSequence source m.sequence).2 } := by
  have hdelivered := checkSequence_delivered n.userTransport source m.sequence
  simp only [BroadcastableTransport.incoming, hto]
  rw [bind_ok (userCheck_run n source m.sequence)]
  cases (n.userTransport.checkSequence source m.sequence).1 with
  | true =>
    rw [if_pos rfl, if_pos rfl, ← hdelivered]
    rfl
  | false => rfl

theorem incoming_direct {d : Id} (hto : m.destination = some d) (source : Id)
    (channel : Option Chan) : ∃ payloads : List Binary,
    final (BroadcastableTransport.incoming K H m source channel n) =
      { n with userTransport := { (n.userTransport.checkSequence source m.sequence).2 with
          delivered := n.userTransport.delivered ++
            payloads.map fun payload => ⟨m, source, payload⟩ } } := by
  have hdelivered := checkSequence_delivered n.userTransport source m.sequence
  simp only [BroadcastableTransport.incoming, hto, Transport.incoming]
  rw [bind_ok (userCheck_run n source m.sequence)]
  generalize (n.userTransport.checkSequence source m.sequence).1 = fresh
  generalize (n.userTransport.checkSequence source m.sequence).2 = t at hdelivered
  have hsilent : ({ n with userTransport := t } : Node Id Pair Ecdh Chan) =
      { n with userTransport := { t with
          delivered := n.userTransport.delivered ++
            ([] : List Binary).map fun payload => ⟨m, source, payload⟩ } } := by
    rw [List.map_nil, List.append_nil, ← hdelivered]
  cases fresh with
  | false => exact ⟨[], hsilent⟩
  | true =>
    rw [if_pos rfl]
    cases CipherBody.parse m.body with
    | error e => exact ⟨[], hsilent⟩
    | ok cipherBody =>
      simp only [get_bind_run]
      split_ifs
      · exact ⟨[], hsilent⟩
      · cases cipherBody.decrypt K n.graph.mEcdh with
        | error e => exact ⟨[], hsilent⟩
        | ok payload =>
          refine ⟨[payload], ?_⟩
          rw [← hdelivered]
          rfl

theorem onMessage_emit (hK : EcdsaLaws K) (hm : SignedBy K pair m)
    (hto : m.destination = none ∨ m.destination = some (n.id K)) (channel : Chan) :
    Node.onMessage K H n channel (frame K m) =
      final (Node.notifyMessage K H m (some channel) n) := by
  have hsource : ¬ m.source = none := by
    rw [hm.source]
    exact Option.some_ne_none _
  have hroute : n.routing.route (n.id K) m (some channel) = .ok (.emit m (some channel)) := by
    rw [Routing.route, if_neg hsource]
    rcases hto with hto | hto
    · rw [hto]
    · simp only [hto, if_true]
  have hrun : Node.route K H m (some channel) n =
      Node.notifyMessage K H m (some channel) n := by
    simp only [Node.route, get_bind_run, hroute]
  rw [Node.onMessage, frame, parse_signed hK _ hm]
  exact congrArg final hrun

theorem onMessage_emitted (hK : EcdsaLaws K) (hn : Typed n) (hm : SignedBy K pair m)
    (htype : m.type = MessageType.User)
    (hto : m.destination = none ∨ m.destination = some (n.id K)) (channel : Chan) :
    Node.onMessage K H n channel (frame K m) =
      final (BroadcastableTransport.incoming K H m (K.publicKey pair) (some channel) n) := by
  rw [onMessage_emit H hK hm hto, notifyMessage_user H hn hm.source htype]

end Receive

section Send
variable [LinearOrder Id] {K : CryptoPP Id Pair Ecdh} (H : Host Id)

omit [LinearOrder Id] in
theorem makeMessage_spec (a : Node Id Pair Ecdh Chan) (port : Port) {body : Binary}
    (destination : Option Id) (hbody : body.length ≤ uint16Max) :
    ∃ message, Transport.makeMessage K H port body destination a =
        .ok message (a.setTransport port { a.transport port with
          mSendSequence := (a.transport port).mSendSequence + 1
          issued := (a.transport port).issued ++ [message] }) ∧
      SignedBy K a.ecdsaPair message ∧ message.type = (a.transport port).mType ∧
      message.sequence = (a.transport port).mSendSequence ∧
      message.destination = destination ∧ message.body = body := by
  obtain ⟨message, hcreate, hrest⟩ :=
    create_signed K H.byteOrder (a.transport port).mType (a.transport port).mSendSequence body
      a.ecdsaPair destination hbody
  refine ⟨message, ?_, hrest⟩
  simp only [Transport.makeMessage, get_bind_run, hcreate]
  change EStateM.Result.ok message _ = _
  simp

omit [LinearOrder Id] in
/-- A number is used up even if the body is too long to be sent. -/
theorem makeMessage_too_long (a : Node Id Pair Ecdh Chan) (port : Port) {body : Binary}
    (destination : Option Id) (hbody : uint16Max < body.length) :
    Transport.makeMessage K H port body destination a =
      .error (.runtimeError "Message body is too long") (a.setTransport port { a.transport port with
        mSendSequence := (a.transport port).mSendSequence + 1 }) := by
  have hcreate : Message.create K H.byteOrder (a.transport port).mType
      (a.transport port).mSendSequence body (some a.ecdsaPair) destination =
        .error (.runtimeError "Message body is too long") :=
    sign_too_long K H.byteOrder ⟨_, _, none, destination, body, []⟩ a.ecdsaPair hbody
  simp only [Transport.makeMessage, get_bind_run, hcreate]
  rfl

def spend (n : Node Id Pair Ecdh Chan) : Node Id Pair Ecdh Chan :=
  { n with userTransport := { n.userTransport with
      mSendSequence := n.userTransport.mSendSequence + 1 } }

def issue (n : Node Id Pair Ecdh Chan) (m : Message Id) : Node Id Pair Ecdh Chan :=
  { n with userTransport := { n.userTransport with
      mSendSequence := n.userTransport.mSendSequence + 1
      issued := n.userTransport.issued ++ [m] } }

/-- A message made by the node under its present number. -/
structure Issued (K : CryptoPP Id Pair Ecdh) (n : Node Id Pair Ecdh Chan) (m : Message Id) :
    Prop where
  signed : SignedBy K n.ecdsaPair m
  type : m.type = n.userTransport.mType
  sequence : m.sequence = n.userTransport.mSendSequence

inductive Broadcast [DecidableEq Chan] (K : CryptoPP Id Pair Ecdh) (H : Host Id)
    (n : Node Id Pair Ecdh Chan) : Node Id Pair Ecdh Chan → Prop where
  | spent : Broadcast K H n (spend n)
  | flooded (m) (made : Issued K n m) (hto : m.destination = none) :
      Broadcast K H n { issue n m with
        wire := n.routing.broadcast K H.byteOrder n.wire m none }

omit [LinearOrder Id] in
theorem broadcast_flooded [DecidableEq Chan] (n : Node Id Pair Ecdh Chan) {payload : Binary}
    (hfits : payload.length ≤ uint16Max) :
    ∃ m, Issued K n m ∧ m.destination = none ∧ m.body = payload ∧
      final (Transport.broadcast K H .user payload n) = { issue n m with
        wire := n.routing.broadcast K H.byteOrder n.wire m none } := by
  obtain ⟨m, hrun, hsigned, htype, hsequence, hto, hbody⟩ :=
    makeMessage_spec (K := K) H n .user none hfits
  refine ⟨m, ⟨hsigned, htype, hsequence⟩, hto, hbody, ?_⟩
  rw [Transport.broadcast, bind_ok hrun]
  rfl

omit [LinearOrder Id] in
theorem broadcast_cases [DecidableEq Chan] (n : Node Id Pair Ecdh Chan) (payload : Binary) :
    Broadcast K H n (final (Transport.broadcast K H .user payload n)) := by
  rcases Nat.lt_or_ge uint16Max payload.length with hlong | hfits
  · have hrun := makeMessage_too_long (K := K) H n .user none hlong
    rw [Transport.broadcast, bind_error hrun]
    exact .spent
  · obtain ⟨m, hmade, hto, _, hrun⟩ := broadcast_flooded (K := K) H n hfits
    rw [hrun]
    exact .flooded m hmade hto

inductive Sent (K : CryptoPP Id Pair Ecdh) (n : Node Id Pair Ecdh Chan) [DecidableEq Chan] :
    Node Id Pair Ecdh Chan → Prop where
  | refused : Sent K n n
  | spent : Sent K n (spend n)
  | dropped (m d) (made : Issued K n m) (hto : m.destination = some d) : Sent K n (issue n m)
  | returned (m) (made : Issued K n m) (hto : m.destination = some (n.id K))
      (payloads : List Binary) :
      Sent K n { issue n m with userTransport :=
        { ((issue n m).userTransport.checkSequence (n.id K) m.sequence).2 with
          delivered := n.userTransport.delivered ++
            payloads.map fun payload => ⟨m, n.id K, payload⟩ } }
  | forwarded (m d channel) (made : Issued K n m) (hto : m.destination = some d)
      (hroute : n.routing.mNeighbors.lookup d = some channel)
      (hopen : n.wire.isOpen channel = true) :
      Sent K n { issue n m with wire := { n.wire with
        outbox := Function.update n.wire.outbox channel
          (n.wire.outbox channel ++ [frame K m]) } }

omit [LinearOrder Id] in
theorem findRoute_neighbor [DecidableEq Id] {r : Routing Id Chan} {id : Id} {channel : Chan}
    (h : r.findRoute id = some channel) : r.mNeighbors.lookup id = some channel := by
  unfold Routing.findRoute at h
  split at h
  · cases h
  · split at h
    · cases h
    · exact h

theorem directMessage_cases (n : Node Id Pair Ecdh Chan) (port : Port)
    (remoteId : Id) (payload : Binary) (random : Iv) :
    (∃ e, Transport.directMessage K H port remoteId payload random n = .error e n) ∨
      ∃ body, Transport.directMessage K H port remoteId payload random n =
        Transport.makeMessage K H port body (some remoteId) n := by
  rw [Transport.directMessage, get_bind_run]
  cases n.graph.get remoteId with
  | error e => exact Or.inl ⟨e, rfl⟩
  | ok remoteState =>
    dsimp only
    cases CipherBody.encrypt K payload n.graph.mEcdh remoteState.ecdhPublic random with
    | error e => exact Or.inl ⟨e, rfl⟩
    | ok cipherBody => exact Or.inr ⟨cipherBody.toBinary, rfl⟩

theorem send_cases [DecidableEq Chan] {n : Node Id Pair Ecdh Chan} (hn : Typed n)
    (remoteId : Id) (payload : Binary) (random : Iv) :
    Sent K n (final (Transport.send K H .user remoteId payload random n)) := by
  rw [Transport.send]
  rcases directMessage_cases (K := K) H n .user remoteId payload random with
    ⟨e, hrefused⟩ | ⟨body, hmake⟩
  · rw [bind_error hrefused]
    exact .refused
  rcases Nat.lt_or_ge uint16Max body.length with hlong | hfits
  · have hrun := makeMessage_too_long (K := K) H n .user (some remoteId) hlong
    rw [bind_error (hmake.trans hrun)]
    exact .spent
  obtain ⟨m, hrun, hsigned, htype, hsequence, hto, _⟩ :=
    makeMessage_spec (K := K) H n .user (some remoteId) hfits
  rw [bind_ok (hmake.trans hrun)]
  change Sent K n (final (Node.send K H m (issue n m)))
  have hmade : Issued K n m := ⟨hsigned, htype, hsequence⟩
  have hsource : ¬ m.source = none := by
    rw [hsigned.source]
    exact Option.some_ne_none _
  have hsome : m.destination.isSome = true := by rw [hto]; rfl
  rw [Node.send, if_pos hsome, Node.route, get_bind_run, Routing.route, if_neg hsource, hto]
  dsimp only
  split_ifs with hself
  · -- a node that sends to itself
    have hself' : remoteId = n.id K := hself
    subst hself'
    have hemit : Node.notifyMessage K H m none (issue n m) =
        BroadcastableTransport.incoming K H m (n.id K) none (issue n m) :=
      notifyMessage_user H (n := issue n m) ⟨hn.signaling, hn.user⟩ hsigned.source
        (htype.trans hn.user) none
    dsimp only
    rw [hemit]
    obtain ⟨payloads, hfinal⟩ :=
      incoming_direct (K := K) H (n := issue n m) hto (n.id K) none
    rw [hfinal]
    exact .returned m hmade hto payloads
  · cases hroute : (issue n m).routing.findRoute remoteId with
    | none => exact .dropped m remoteId hmade hto
    | some channel =>
      dsimp only
      rw [toBinary_eq K H.byteOrder m hsigned.body]
      dsimp only
      unfold Wire.send
      by_cases hopen : (issue n m).wire.isOpen channel = true
      · rw [if_pos hopen]
        exact .forwarded m remoteId channel hmade hto (findRoute_neighbor hroute) hopen
      · rw [if_neg hopen]
        exact .dropped m remoteId hmade hto

end Send

end TransportSteps
