import Legio.GraphRuns
import Legio.TransportSteps

set_option linter.style.header false

/-! A direct message from the sender's transport to the receiver's callback. The decryption
does not strip the tag, so sixteen bytes are appended to every payload. -/
namespace DirectMessages

open LegioBinary LegioCrypto LegioMessage LegioNode Containers ExceptionStates TransportSteps

variable {Id Pair Ecdh Chan : Type}

/-- The longest payload whose encrypted form fits into a message body. -/
def payloadLimit : ℕ := 65373

def calls (n : Node Id Pair Ecdh Chan) (port : Port) : List (Id × Binary) :=
  (n.transport port).delivered.map fun d => (d.remoteId, d.payload)

section Exchange
variable [LinearOrder Id]

/-- A message built at `a` reaches the receive callback at `b` once, with the identifier
of `a` and the payload as it was sent. -/
def ArrivesUnchanged (K : CryptoPP Id Pair Ecdh) (Hₐ Hᵦ : Host Id) (port : Port)
    (a b : Node Id Pair Ecdh Chan) (payload : Binary) (random : Iv) : Prop :=
  ∃ message a' data parsed remoteId b',
    Transport.directMessage K Hₐ port (b.id K) payload random a = .ok message a' ∧
    message.toBinary K Hₐ.byteOrder = .ok data ∧
    Message.parse K Hᵦ.byteOrder data = .ok parsed ∧
    parsed.source = some remoteId ∧
    Transport.incoming K port parsed remoteId b = .ok () b' ∧
    calls b' port = calls b port ++ [(a.id K, payload)]

/-- The sender's graph holds the receiver's current State, the receiver has not seen the
sequence number, and the payload fits. -/
structure Ready (K : CryptoPP Id Pair Ecdh) (port : Port) (a b : Node Id Pair Ecdh Chan)
    (payload : Binary) : Prop where
  state : ∃ s, a.graph.get (b.id K) = .ok s ∧ s.ecdhPublic = K.ecdhPublicKey b.graph.mEcdh
  fresh : ((b.transport port).checkSequence (a.id K) (a.transport port).mSendSequence).1 = true
  fits : payload.length ≤ payloadLimit

variable {K : CryptoPP Id Pair Ecdh} (Hₐ : Host Id) {port : Port}
variable {a b : Node Id Pair Ecdh Chan} {payload : Binary}

variable (hE : EcdhLaws K) (hG : GcmLaws K)
include hE hG

theorem directMessage_spec (h : Ready K port a b payload) (random : Iv) :
    ∃ message a' body, Transport.directMessage K Hₐ port (b.id K) payload random a =
        .ok message a' ∧ SignedBy K a.ecdsaPair message ∧
      message.sequence = (a.transport port).mSendSequence ∧
      message.destination = some (b.id K) ∧ message.body = CipherBody.toBinary body ∧
      body.source = K.ecdhPublicKey a.graph.mEcdh ∧
      body.destination = K.ecdhPublicKey b.graph.mEcdh ∧ body.iv.length = aesBlockSize ∧
      body.ciphertext.length = payload.length + gcmTagSize := by
  obtain ⟨s, hs, hkey⟩ := h.state
  obtain ⟨body, hencrypt, hsource, hdestination, hiv, hlength⟩ :=
    encrypt_spec hE hG payload a.graph.mEcdh b.graph.mEcdh random
  have hivlength : body.iv.length = aesBlockSize := by
    rw [hiv]
    exact random.property
  have hfits : body.toBinary.length ≤ uint16Max := by
    have hpayload := h.fits
    rw [length_toBinary hE hsource hdestination hivlength, hlength]
    unfold payloadLimit at hpayload
    unfold ecdhKeySize aesBlockSize gcmTagSize uint16Max
    omega
  obtain ⟨message, hrun, hsigned, _, hsequence, hto, hbody⟩ :=
    makeMessage_spec Hₐ a port (some (b.id K)) hfits
  have hdirect : Transport.directMessage K Hₐ port (b.id K) payload random a =
      Transport.makeMessage K Hₐ port body.toBinary (some (b.id K)) a := by
    simp only [Transport.directMessage, get_bind_run, hs, hkey, hencrypt]
  exact ⟨message, _, body, hdirect.trans hrun, hsigned, hsequence, hto, hbody, hsource,
    hdestination, hivlength, hlength⟩

/-- The receiver decrypts the message and calls back with as many bytes as the ciphertext
has, tag included. -/
theorem incoming_spec {message : Message Id} {body : CipherBody} {remoteId : Id} {e : Ecdh}
    (hbody : message.body = body.toBinary) (hsource : body.source = K.ecdhPublicKey e)
    (hdestination : body.destination = K.ecdhPublicKey b.graph.mEcdh)
    (hiv : body.iv.length = aesBlockSize) (hto : message.destination = some (b.id K))
    (hfresh : ((b.transport port).checkSequence remoteId message.sequence).1 = true) :
    ∃ b' received, Transport.incoming K port message remoteId b = .ok () b' ∧
      (b'.transport port).delivered =
        (b.transport port).delivered ++ [⟨message, remoteId, received⟩] ∧
      received.length = body.ciphertext.length := by
  have hparse : CipherBody.parse message.body = .ok body := by
    rw [hbody]
    apply parse_toBinary
    · rw [hsource, hE.public_length]
    · rw [hdestination, hE.public_length]
    · exact hiv
  obtain ⟨received, hdecrypt, hlength⟩ := decrypt_length hE hG hsource hdestination hiv
  have hcheck := checkSequence_run b port remoteId message.sequence
  rw [hfresh] at hcheck
  have hkept := checkSequence_delivered (b.transport port) remoteId message.sequence
  generalize ((b.transport port).checkSequence remoteId message.sequence).2 = t at hcheck hkept
  refine ⟨b.setTransport port { t with
    delivered := t.delivered ++ [⟨message, remoteId, received⟩] }, received, ?_, ?_, hlength⟩
  · have hrun : Node.callback port message remoteId received (b.setTransport port t) =
        .ok () (b.setTransport port { t with
          delivered := t.delivered ++ [⟨message, remoteId, received⟩] }) := by
      simp [Node.callback]
    rw [Transport.incoming, bind_ok hcheck]
    simp only [if_true, hto, hparse, get_bind_run, graph_setTransport, hdestination,
      ne_eq, not_true_eq_false, if_false, hdecrypt]
    exact hrun
  · rw [transport_setTransport, ← hkept]

/-- What really arrives: the sender's identifier and sixteen bytes too many. -/
theorem direct_message_received (hK : EcdsaLaws K) (Hᵦ : Host Id) (h : Ready K port a b payload)
    (random : Iv) :
    ∃ message a' data b' received,
      Transport.directMessage K Hₐ port (b.id K) payload random a = .ok message a' ∧
      message.toBinary K Hₐ.byteOrder = .ok data ∧
      Message.parse K Hᵦ.byteOrder data = .ok message ∧
      message.source = some (a.id K) ∧
      Transport.incoming K port message (a.id K) b = .ok () b' ∧
      calls b' port = calls b port ++ [(a.id K, received)] ∧
      received.length = payload.length + gcmTagSize := by
  obtain ⟨message, a', body, hrun, hsigned, hsequence, hto, hbody, hsource, hdestination, hiv,
    hlength⟩ := directMessage_spec Hₐ hE hG h random
  have hfresh := h.fresh
  rw [← hsequence] at hfresh
  obtain ⟨b', received, hincoming, hdelivered, hreceived⟩ :=
    incoming_spec hE hG hbody hsource hdestination hiv hto hfresh
  refine ⟨message, a', _, b', received, hrun, toBinary_eq K Hₐ.byteOrder message hsigned.body,
    parse_signed hK Hᵦ.byteOrder hsigned, hsigned.source, hincoming, ?_, hreceived.trans hlength⟩
  rw [calls, hdelivered, List.map_append]
  rfl

theorem not_arrivesUnchanged (hK : EcdsaLaws K) (Hᵦ : Host Id) (h : Ready K port a b payload)
    (random : Iv) : ¬ ArrivesUnchanged K Hₐ Hᵦ port a b payload random := by
  obtain ⟨message, a', data, b', received, hrun, hdata, hparse, hsource, hincoming, hcalls,
    hlength⟩ := direct_message_received Hₐ hE hG hK Hᵦ h random
  rintro ⟨message₂, a₂, data₂, parsed₂, remote₂, b₂, hrun₂, hdata₂, hparse₂, hsource₂,
    hincoming₂, hcalls₂⟩
  rw [hrun] at hrun₂
  cases hrun₂
  rw [hdata] at hdata₂
  cases hdata₂
  rw [hparse] at hparse₂
  cases hparse₂
  rw [hsource] at hsource₂
  cases hsource₂
  rw [hincoming] at hincoming₂
  cases hincoming₂
  rw [hcalls] at hcalls₂
  have hpayload : received = payload := by simpa using hcalls₂
  rw [hpayload] at hlength
  unfold gcmTagSize at hlength
  omega

/-- No payload arrives unchanged. What arrives is sixteen bytes longer. -/
theorem direct_message_never_unchanged (hK : EcdsaLaws K) (Hᵦ : Host Id)
    (h : Ready K port a b payload) (random : Iv) :
    ¬ ArrivesUnchanged K Hₐ Hᵦ port a b payload random ∧
    ∃ message a' b' received,
      Transport.directMessage K Hₐ port (b.id K) payload random a = .ok message a' ∧
      Transport.incoming K port message (a.id K) b = .ok () b' ∧
      calls b' port = calls b port ++ [(a.id K, received)] ∧
      received.length = payload.length + gcmTagSize := by
  obtain ⟨message, a', _, b', received, hrun, _, _, _, hincoming, hcalls, hlength⟩ :=
    direct_message_received Hₐ hE hG hK Hᵦ h random
  exact ⟨not_arrivesUnchanged Hₐ hE hG hK Hᵦ h random, message, a', b', received, hrun,
    hincoming, hcalls, hlength⟩

end Exchange

-- Node 1 knows the State of node 2 and sends it three bytes.
namespace Sample
open LegioNode.Sample

def sender : Node (Fin 4) (Fin 4) (Fin 4) ℕ :=
  final (Graph.insert LegioCrypto.Sample.crypto host
    ⟨2, 0, LegioCrypto.Sample.crypto.ecdhPublicKey 2, ∅⟩
    (final (Graph.construct LegioCrypto.Sample.crypto host 1 (node 1))))

def receiver : Node (Fin 4) (Fin 4) (Fin 4) ℕ :=
  final (Graph.construct LegioCrypto.Sample.crypto host 2 (node 2))

def random : Iv := ⟨List.replicate 16 7, rfl⟩

theorem ready : Ready LegioCrypto.Sample.crypto .user sender receiver [1, 2, 3] where
  state := ⟨⟨2, 0, LegioCrypto.Sample.crypto.ecdhPublicKey 2, ∅⟩, by rfl, by decide +kernel⟩
  fresh := by decide +kernel
  fits := by decide

theorem three_bytes_altered : ¬ ArrivesUnchanged LegioCrypto.Sample.crypto host host .user
    sender receiver [1, 2, 3] random :=
  not_arrivesUnchanged host LegioCrypto.Sample.ecdhLaws LegioCrypto.Sample.gcmLaws
    LegioCrypto.Sample.ecdsaLaws host ready random

theorem three_bytes_received : ∃ message a' b' received,
    Transport.directMessage LegioCrypto.Sample.crypto host .user 2 [1, 2, 3] random sender =
      .ok message a' ∧
    Transport.incoming LegioCrypto.Sample.crypto .user message 1 receiver = .ok () b' ∧
    calls b' .user = [(1, received)] ∧ received.length = 19 := by
  have h := direct_message_never_unchanged host LegioCrypto.Sample.ecdhLaws
    LegioCrypto.Sample.gcmLaws LegioCrypto.Sample.ecdsaLaws host ready random
  have hsender : sender.id LegioCrypto.Sample.crypto = 1 := by decide +kernel
  have hreceiver : receiver.id LegioCrypto.Sample.crypto = 2 := by decide +kernel
  have hcalls : calls receiver .user = [] := by decide +kernel
  rw [hsender, hreceiver, hcalls] at h
  exact h.2

end Sample

end DirectMessages
