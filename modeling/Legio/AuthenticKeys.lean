import Legio.InsertionOrder
import Legio.PayloadOrigins
import Legio.StateMessages

set_option linter.style.header false

/-! Whose key a payload is sealed for. Among honest nodes with an adversary, the State that a
node has of another one carries the ECDH key of that one, so nobody else can open what the two
send to each other. -/
namespace AuthenticKeys

open LegioBinary LegioCrypto LegioMessage LegioNode ExceptionStates NodeRuns InsertionOrder
open SignedProvenance StateMessages NeighborBindings DeliveredMessages DirectTraffic
open PayloadOrigins

variable {V Id Pair Ecdh Chan : Type} [LinearOrder Id] {K : CryptoPP Id Pair Ecdh}

theorem fromMessage_toMessage (hK : EcdsaLaws K) {s : State Id} {o : ByteOrder} {p : Pair}
    {m : Message Id} (hid : s.id = K.publicKey p) (hkey : s.ecdhPublic.length = ecdhKeySize)
    (h : s.toMessage K o p = .ok m) : State.fromMessage K m = .ok s := by
  have hfits : (s.body K).length ≤ uint16Max := by
    by_contra hlong
    have herror := sign_too_long K o
      (⟨MessageType.State, s.sequence, none, none, s.body K, []⟩ : Message Id) p
      (Nat.lt_of_not_le hlong)
    rw [State.toMessage, Message.create, herror] at h
    cases h
  obtain ⟨m', hm', hsigned, htype, hsequence, _, hbody⟩ :=
    create_signed K o MessageType.State s.sequence (s.body K) p none hfits
  rw [State.toMessage, hm'] at h
  cases h
  exact fromMessage_body hK hkey (hid ▸ hsigned.source) htype hsequence hbody

theorem get_stateOf {g : LegioNode.Graph Id Ecdh} {id : Id} {s : State Id} (h : g.get id = .ok s) :
    g.stateOf id = some s := by
  rw [← get_toOption g id, h]
  rfl

def SealedFor (K : CryptoPP Id Pair Ecdh) (a : Ecdh) (key : Binary) (body : Binary) : Prop :=
  ∃ payload random cipherBody, CipherBody.encrypt K payload a key random = .ok cipherBody ∧
    body = cipherBody.toBinary

/-- Of a message of node `x`: the State in it has the node's key, and what it carries to another
one of these nodes is sealed for that one. -/
structure Proper (K : CryptoPP Id Pair Ecdh) (pair : V → Pair) (ecdh : V → Ecdh) (x : V)
    (m : Message Id) : Prop where
  state : ∀ s, State.fromMessage K m = .ok s → s.ecdhPublic = K.ecdhPublicKey (ecdh x)
  body : ∀ port : Port, m.type = port.type → ∀ v, v ≠ x →
    m.destination = some (K.publicKey (pair v)) →
      SealedFor K (ecdh x) (K.ecdhPublicKey (ecdh v)) m.body

variable {pair : V → Pair} {ecdh : V → Ecdh} {x v : V} {m : Message Id}

theorem announced_proper (hK : EcdsaLaws K) (hE : EcdhLaws K)
    (h : Announced K (pair x) (ecdh x) m) : Proper K pair ecdh x m := by
  refine ⟨fun s hs => ?_, fun port htype => absurd htype (announced_type h port)⟩
  obtain ⟨s', o, hid, hkey, hmessage⟩ := h.state (fromMessage_type hs)
  have hlength : s'.ecdhPublic.length = ecdhKeySize := by rw [hkey, hE.public_length]
  rw [fromMessage_toMessage hK hid hlength hmessage] at hs
  cases hs
  exact hkey

omit [LinearOrder Id] in
/-- Whoever opens a body has the key that it is sealed for. -/
theorem opened_key (hE : EcdhLaws K) {a b c : Ecdh} {port : Port} {payload : Binary}
    {remoteId : Id} (hbody : SealedFor K a (K.ecdhPublicKey b) m.body)
    (hto : m.destination = some remoteId) (h : opened K c port m = some payload) :
    K.ecdhPublicKey c = K.ecdhPublicKey b := by
  obtain ⟨_, _, cipherBody, hencrypt, hbinary⟩ := hbody
  obtain ⟨hdestination, hparse⟩ := parse_encrypt hE hencrypt
  unfold opened at h
  rw [hto, hbinary, hparse] at h
  dsimp only at h
  split_ifs at h with hkey
  rw [not_not, hdestination] at hkey
  exact hkey.symm

section Networks
variable [DecidableEq V] [DecidableEq Chan] {net : Network V Id Chan}
  {w : World V Id Pair Ecdh Chan}

omit [DecidableEq V] [DecidableEq Chan] in
/-- The State that is stored of another honest node. -/
theorem stored_key (hid : Function.Injective fun v => K.publicKey (pair v))
    (h : Account K net pair ecdh (Proper K pair ecdh) w) (hv : v ≠ x) {s : State Id}
    (hs : (w.nodes x).graph.get (K.publicKey (pair v)) = .ok s) :
    s.ecdhPublic = K.ecdhPublicKey (ecdh v) := by
  obtain ⟨received, hanswers⟩ := h.nodes x
  obtain ⟨hstate, hown | ⟨m, ⟨data, hdata, hauthentic⟩, hm⟩⟩ :=
    hanswers.sound.states _ s (get_stateOf hs)
  · exact absurd (hid (hstate.symm.trans hown)) hv
  · have hsource := hauthentic.source
    rw [hstate] at hsource
    exact (hanswers.accounted data hdata _ m v hauthentic.parsed hsource).state s hm

omit [DecidableEq V] [DecidableEq Chan] in
theorem asked_proper (hid : Function.Injective fun v => K.publicKey (pair v))
    (h : Account K net pair ecdh (Proper K pair ecdh) w) {ev : NodeEvent Id Chan}
    (hasked : Asked K (w.nodes x) ev m) : Proper K pair ecdh x m := by
  obtain ⟨received, hanswers⟩ := h.nodes x
  have hother (port : Port) : port.type ≠ MessageType.State := by cases port <;> decide
  cases hasked with
  | broadcast _ htype _ hnone =>
    refine ⟨fun s hs => absurd (htype.symm.trans (fromMessage_type hs)) (hother .user),
      fun _ _ v _ hto => ?_⟩
    rw [hnone] at hto
    cases hto
  | send port remoteId payload random _ htype _ hto hsealed =>
    refine ⟨fun s hs => absurd (htype.symm.trans (fromMessage_type hs)) (hother port),
      fun _ _ v hv hnamed => ?_⟩
    obtain rfl : remoteId = K.publicKey (pair v) := Option.some.inj (hto.symm.trans hnamed)
    obtain ⟨s, cipherBody, hs, hencrypt, hbody⟩ := hsealed
    rw [stored_key hid h hv hs, hanswers.sound.mEcdh] at hencrypt
    exact ⟨payload, random, cipherBody, hencrypt, hbody⟩

theorem run_proper (hK : EcdsaLaws K) (hE : EcdhLaws K) {w₀ : World V Id Pair Ecdh Chan}
    (h₀ : Start K net w₀) {events : List (Event V Id Chan)} (h : Run K net w₀ events w) :
    Account K net (fun v => (w₀.nodes v).ecdsaPair) (fun v => (w₀.nodes v).graph.mEcdh)
      (Proper K (fun v => (w₀.nodes v).ecdsaPair) fun v => (w₀.nodes v).graph.mEcdh) w := by
  induction h with
  | start => exact account_start hK h₀ fun x m ha => announced_proper hK hE ha
  | @step events w event _ hevent ih =>
    cases event with
    | act v ev =>
      exact account_act hK h₀.identities (fun x m ha => announced_proper hK hE ha) ih v hevent
        fun m hasked => asked_proper h₀.identities ih hasked
    | deliver channel =>
      exact account_deliver hK h₀.identities (fun x m ha => announced_proper hK hE ha) ih channel
    | inject channel data =>
      exact account_inject hK h₀.identities (fun x m ha => announced_proper hK hE ha) ih hevent

theorem known_key (hK : EcdsaLaws K) (hE : EcdhLaws K) {w₀ : World V Id Pair Ecdh Chan}
    (h₀ : Start K net w₀) {events : List (Event V Id Chan)} (h : Run K net w₀ events w)
    (hv : v ≠ x) {s : State Id} (hs : (w.nodes x).graph.get ((w.nodes v).id K) = .ok s) :
    s.ecdhPublic = K.ecdhPublicKey (w.nodes v).graph.mEcdh := by
  have haccount := run_proper hK hE h₀ h
  obtain ⟨_, hanswers⟩ := haccount.nodes v
  rw [Node.id, hanswers.sound.ecdsaPair] at hs
  rw [hanswers.sound.mEcdh]
  exact stored_key h₀.identities haccount hv hs

/-- Over every run among honest nodes and an adversary: the State that a node has of another
honest one carries the ECDH key of that one, and a frame of a transport that it has signed for
that one, wherever it is found, can be opened with that key only. -/
theorem keys_authentic (hK : EcdsaLaws K) (hE : EcdhLaws K) {w₀ : World V Id Pair Ecdh Chan}
    (h₀ : Start K net w₀) {events : List (Event V Id Chan)} (h : Run K net w₀ events w) {x v : V}
    (hv : v ≠ x) :
    (∀ s, (w.nodes x).graph.get ((w.nodes v).id K) = .ok s →
      s.ecdhPublic = K.ecdhPublicKey (w.nodes v).graph.mEcdh) ∧
    ∀ data, (data ∈ w.known ∨ ∃ u channel, data ∈ (w.nodes u).wire.outbox channel) →
      ∀ o m (port : Port), Message.parse K o data = .ok m → m.type = port.type →
        m.source = some ((w.nodes x).id K) → m.destination = some ((w.nodes v).id K) →
          SealedFor K (w.nodes x).graph.mEcdh (K.ecdhPublicKey (w.nodes v).graph.mEcdh) m.body ∧
          ∀ ecdh payload, opened K ecdh port m = some payload →
            K.ecdhPublicKey ecdh = K.ecdhPublicKey (w.nodes v).graph.mEcdh := by
  refine ⟨fun s hs => known_key hK hE h₀ h hv hs,
    fun data hdata o m port hparse htype hsource hto => ?_⟩
  have haccount := run_proper hK hE h₀ h
  obtain ⟨_, hanswers⟩ := haccount.nodes x
  obtain ⟨_, hremote⟩ := haccount.nodes v
  rw [Node.id, hanswers.sound.ecdsaPair] at hsource
  rw [Node.id, hremote.sound.ecdsaPair] at hto
  rw [hanswers.sound.mEcdh, hremote.sound.mEcdh]
  have hproper : Proper K (fun v => (w₀.nodes v).ecdsaPair) (fun v => (w₀.nodes v).graph.mEcdh)
      x m := by
    rcases hdata with hknown | ⟨u, channel, hmem⟩
    · exact haccount.known data hknown o m x hparse hsource
    · exact haccount.outbox u channel data hmem o m x hparse hsource
  have hbody := hproper.body port htype v hv hto
  exact ⟨hbody, fun ecdh payload hopened => opened_key hE hbody hto hopened⟩

end Networks

-- The message of `DirectTraffic` from node 2 to node 1, while it waits.
namespace Sample
open DirectTraffic.Sample (crypto net before before_start)
open LegioNode.Sample (host)

def sent : World Bool (Fin 4) (Fin 4) (Fin 4) ℕ :=
  DirectTraffic.Sample.events.foldl (World.step crypto net) before

theorem sent_run : Run crypto net before DirectTraffic.Sample.events sent := by
  refine run_of_possible before DirectTraffic.Sample.events [] before
    (fun w event hevent => ?_) .start
  simp only [DirectTraffic.Sample.events, List.mem_cons, List.not_mem_nil, or_false] at hevent
  rcases hevent with rfl | rfl | rfl | rfl | rfl | rfl | rfl | rfl
  all_goals first | exact rfl | exact trivial

theorem message_sealed : ∃ data ∈ (sent.nodes true).wire.outbox 1, ∃ m,
    Message.parse crypto host.byteOrder data = .ok m ∧ m.type = Port.user.type ∧
      SealedFor crypto (sent.nodes true).graph.mEcdh
        (crypto.ecdhPublicKey (sent.nodes false).graph.mEcdh) m.body := by
  set data := ((sent.nodes true).wire.outbox 1).getLastD [] with hdata
  have hrun : data ∈ (sent.nodes true).wire.outbox 1 ∧
      (Message.parse crypto host.byteOrder data).toOption.map
        (fun m => (m.type, m.source, m.destination)) =
          some (Port.user.type, some ((sent.nodes true).id crypto),
            some ((sent.nodes false).id crypto)) := by
    decide +kernel
  obtain ⟨hmem, hmessage⟩ := hrun
  cases hparse : Message.parse crypto host.byteOrder data with
  | error e =>
    rw [hparse] at hmessage
    cases hmessage
  | ok m =>
    rw [hparse] at hmessage
    obtain ⟨htype, hsource, hto⟩ : m.type = Port.user.type ∧
        m.source = some ((sent.nodes true).id crypto) ∧
        m.destination = some ((sent.nodes false).id crypto) := by
      simpa [Except.toOption] using hmessage
    obtain ⟨_, hframes⟩ := keys_authentic LegioCrypto.Sample.ecdsaLaws
      LegioCrypto.Sample.ecdhLaws before_start sent_run (x := true) (v := false) (by decide)
    exact ⟨data, hmem, m, hparse, htype, (hframes data (Or.inr ⟨true, 1, hmem⟩) _ m .user hparse
      htype hsource hto).1⟩

end Sample

end AuthenticKeys
