import Legio.NodeComponents
import Legio.BinaryCodec

set_option linter.style.header false

/-! A Peering negotiates its connection with descriptions that the signaling transport
carries. The data channels themselves, and what Routing is told of them, are left out; so
is the encryption of the payloads. Fields from `sent` on are history variables. -/
namespace PeerNegotiation

open LegioBinary LegioNode Containers

inductive DescriptionType where
  | unspec
  | offer
  | answer
  | pranswer
  | rollback
  deriving DecidableEq

structure Description where
  type : DescriptionType
  sdp : Binary
  deriving DecidableEq

inductive SignalingState where
  | stable
  | haveLocalOffer
  | haveRemoteOffer
  | haveLocalPranswer
  | haveRemotePranswer
  deriving DecidableEq

/-- Descriptions and peer connections. `Writes` tells the texts that the library writes. What a
call gives to the `onLocalDescription` callback is part of its result; `gather` is the end of
the gathering. -/
structure Rtc (Pc : Type) where
  typeString : DescriptionType → Binary
  ofString : Binary → DescriptionType
  Writes : Binary → Prop
  initial : Pc
  signalingState : Pc → SignalingState
  gatheringComplete : Pc → Bool
  localDescription : Pc → Option Description
  createDataChannel : Pc → Pc × Option Description
  setRemoteDescription : Pc → Description → Except Error (Pc × Option Description)
  gather : Pc → Pc

section Laws
variable {Pc : Type} (R : Rtc Pc)

/-- A description of the given type that the library has made. -/
structure Made (type : DescriptionType) (d : Description) : Prop where
  type : d.type = type
  text : R.Writes d.sdp

/-- What a call leaves as it was, but for the state of the negotiation. -/
structure Settles (pc pc' : Pc) (state : SignalingState)
    (localDescription : Option Description) : Prop where
  state : R.signalingState pc' = state
  localDescription : R.localDescription pc' = localDescription
  gathering : R.gatheringComplete pc' = R.gatheringComplete pc

/-- The documented behaviour. A type is read as it was written, and no text holds a zero. A data
channel calls for an offer only where the connection has no local description; an offer that
is applied rolls back a local one and is answered; an answer completes the negotiation. At the
end of the gathering the candidates are part of the local description. -/
structure RtcLaws : Prop where
  type_read : ∀ type, R.ofString (R.typeString type) = type
  type_text : ∀ type, 0 ∉ R.typeString type
  sdp_text : ∀ sdp, R.Writes sdp → 0 ∉ sdp
  initial_state : R.signalingState R.initial = .stable
  initial_local : R.localDescription R.initial = none
  initial_gathering : R.gatheringComplete R.initial = false
  create_offers : ∀ pc, R.signalingState pc = .stable → R.localDescription pc = none →
    ∃ pc' d, R.createDataChannel pc = (pc', some d) ∧ Made R .offer d ∧
      Settles R pc pc' .haveLocalOffer (some d)
  create_silent : ∀ pc d, R.localDescription pc = some d →
    ∃ pc', R.createDataChannel pc = (pc', none) ∧
      Settles R pc pc' (R.signalingState pc) (some d)
  offer_answered : ∀ pc d, Made R .offer d →
    R.signalingState pc = .stable ∨ R.signalingState pc = .haveLocalOffer →
    ∃ pc' a, R.setRemoteDescription pc d = .ok (pc', some a) ∧ Made R .answer a ∧
      Settles R pc pc' .stable (some a)
  answer_completes : ∀ pc d, Made R .answer d → R.signalingState pc = .haveLocalOffer →
    ∃ pc', R.setRemoteDescription pc d = .ok (pc', none) ∧
      Settles R pc pc' .stable (R.localDescription pc)
  gather_complete : ∀ pc, R.gatheringComplete (R.gather pc) = true
  gather_state : ∀ pc, R.signalingState (R.gather pc) = R.signalingState pc
  gather_local : ∀ pc type d, R.localDescription pc = some d → Made R type d →
    ∃ d', R.localDescription (R.gather pc) = some d' ∧ Made R type d'

end Laws

structure Signal where
  sequence : UInt32
  payload : Binary
  deriving DecidableEq

structure Peering (Id Pc : Type) where
  localId : Id
  mRemoteId : Id
  mPeerConnection : Pc
  mTransport : LegioNode.Transport Id
  sent : List Signal
  received : List Signal
  ignored : Bool
  abandoned : Bool
  unasked : Bool

variable {Id Pc : Type} (R : Rtc Pc)

/-- `sendLocalDescription`, with the number that `Transport::send` takes. -/
def Peering.sendLocalDescription (p : Peering Id Pc) (description : Description) :
    Peering Id Pc :=
  { p with
    mTransport := { p.mTransport with mSendSequence := p.mTransport.mSendSequence + 1 }
    sent := p.sent ++ [⟨p.mTransport.mSendSequence,
      packStrings [R.typeString description.type, description.sdp]⟩] }

/-- The `onLocalDescription` callback, called if a description has been made. -/
def Peering.onLocalDescription (p : Peering Id Pc) : Option Description → Peering Id Pc
  | none => p
  | some description =>
    if R.gatheringComplete p.mPeerConnection then p.sendLocalDescription R description else p

/-- The end of the gathering with the `onGatheringStateChange` callback. -/
def Peering.onGatheringComplete (p : Peering Id Pc) : Peering Id Pc :=
  let p := { p with mPeerConnection := R.gather p.mPeerConnection }
  match R.localDescription p.mPeerConnection with
  | none => p
  | some description => p.sendLocalDescription R description

def Peering.connect (p : Peering Id Pc) : Peering Id Pc :=
  let (pc, description) := R.createDataChannel p.mPeerConnection
  { p with mPeerConnection := pc }.onLocalDescription R description

def Peering.outstanding (p : Peering Id Pc) : Bool :=
  R.signalingState p.mPeerConnection = .haveLocalOffer

/-- `Peering::receive` once the description is read; an exception of
`setRemoteDescription` ends it. -/
def Peering.receiveDescription [LinearOrder Id] (p : Peering Id Pc) (description : Description) :
    Peering Id Pc :=
  if description.type = .offer ∧ p.outstanding R ∧ p.mRemoteId < p.localId then
    { p with ignored := true }
  else
    let p := { p with
      abandoned := p.abandoned || (decide (description.type = .offer) && p.outstanding R)
      unasked := p.unasked || (decide (description.type = .answer) && !p.outstanding R) }
    match R.setRemoteDescription p.mPeerConnection description with
    | .error _ => p
    | .ok (pc, answer) => { p with mPeerConnection := pc }.onLocalDescription R answer

def Peering.receive [LinearOrder Id] (p : Peering Id Pc) (payload : Binary) : Peering Id Pc :=
  let strings := unpackStrings 2 payload
  p.receiveDescription R ⟨R.ofString (strings.getD 0 []), strings.getD 1 []⟩

theorem unpack_description {R : Rtc Pc} (hR : RtcLaws R) {d : Description}
    (htext : R.Writes d.sdp) (tail : Binary) :
    unpackStrings 2 (packStrings [R.typeString d.type, d.sdp] ++ tail) =
      [R.typeString d.type, d.sdp] := by
  have htexts : ∀ str ∈ [R.typeString d.type, d.sdp], (0 : UInt8) ∉ str := by
    rw [List.forall_mem_cons, List.forall_mem_singleton]
    exact ⟨hR.type_text d.type, hR.sdp_text d.sdp htext⟩
  exact unpack_pack htexts tail

/-- What follows the two strings is not read. -/
theorem receive_packed [LinearOrder Id] {R : Rtc Pc} (hR : RtcLaws R) (p : Peering Id Pc)
    {d : Description} (htext : R.Writes d.sdp) (tail : Binary) :
    p.receive R (packStrings [R.typeString d.type, d.sdp] ++ tail) = p.receiveDescription R d := by
  have hread : (⟨R.ofString ([R.typeString d.type, d.sdp].getD 0 []),
      [R.typeString d.type, d.sdp].getD 1 []⟩ : Description) = d := by
    rw [List.getD_cons_zero, hR.type_read]
    rfl
  rw [Peering.receive, unpack_description hR htext]
  exact congrArg (p.receiveDescription R) hread

/-- `Transport::incoming`, of which `Networking::receive` hands the payload on. -/
def Peering.incoming [LinearOrder Id] (p : Peering Id Pc) (signal : Signal) : Peering Id Pc :=
  let (fresh, t) := p.mTransport.checkSequence p.mRemoteId signal.sequence
  let p := { p with mTransport := t, received := p.received ++ [signal] }
  if fresh then p.receive R signal.payload else p

-- A connection that gathers no candidates.
namespace Sample

structure Connection where
  state : SignalingState
  localDescription : Option Description
  complete : Bool

def description (type : DescriptionType) : Description := ⟨type, ascii "v=0"⟩

def typeString : DescriptionType → Binary
  | .unspec => ascii "unspec"
  | .offer => ascii "offer"
  | .answer => ascii "answer"
  | .pranswer => ascii "pranswer"
  | .rollback => ascii "rollback"

def ofString (str : Binary) : DescriptionType :=
  if str = ascii "offer" then .offer
  else if str = ascii "answer" then .answer
  else if str = ascii "pranswer" then .pranswer
  else if str = ascii "rollback" then .rollback
  else .unspec

def rtc : Rtc Connection where
  typeString := typeString
  ofString := ofString
  Writes sdp := sdp = ascii "v=0"
  initial := ⟨.stable, none, false⟩
  signalingState pc := pc.state
  gatheringComplete pc := pc.complete
  localDescription pc := pc.localDescription
  createDataChannel pc :=
    if pc.localDescription = none then
      ({ pc with state := .haveLocalOffer, localDescription := some (description .offer) },
        some (description .offer))
    else (pc, none)
  setRemoteDescription pc d :=
    if d.type = .offer then
      .ok ({ pc with state := .stable, localDescription := some (description .answer) },
        some (description .answer))
    else if d.type = .answer ∧ pc.state = .haveLocalOffer then
      .ok ({ pc with state := .stable }, none)
    else .error (.logicError "unexpected description")
  gather pc := { pc with complete := true }

theorem made (type : DescriptionType) : Made rtc type (description type) := ⟨rfl, rfl⟩

theorem rtc_laws : RtcLaws rtc where
  type_read type := by
    change ofString (typeString type) = type
    cases type <;> decide
  type_text type := by
    change 0 ∉ typeString type
    cases type <;> decide
  sdp_text := by
    rintro sdp rfl
    decide
  initial_state := rfl
  initial_local := rfl
  initial_gathering := rfl
  create_offers := by
    intro pc hstate hlocal
    exact ⟨_, _, if_pos hlocal, made .offer, ⟨rfl, rfl, rfl⟩⟩
  create_silent := by
    intro pc d hlocal
    have hne : pc.localDescription ≠ none := by
      change pc.localDescription = some d at hlocal
      rw [hlocal]
      exact Option.some_ne_none d
    exact ⟨pc, if_neg hne, ⟨rfl, hlocal, rfl⟩⟩
  offer_answered := by
    intro pc d hmade hstate
    exact ⟨_, _, if_pos hmade.type, made .answer, ⟨rfl, rfl, rfl⟩⟩
  answer_completes := by
    intro pc d hmade hstate
    have hnot : d.type ≠ .offer := by
      rw [hmade.type]
      decide
    exact ⟨_, (if_neg hnot).trans (if_pos ⟨hmade.type, hstate⟩), ⟨rfl, rfl, rfl⟩⟩
  gather_complete _ := rfl
  gather_state _ := rfl
  gather_local _ _ d hlocal hmade := ⟨d, hlocal, hmade⟩

end Sample

end PeerNegotiation
