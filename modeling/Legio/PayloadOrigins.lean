import Legio.DeliveredMessages
import Legio.DirectTraffic
import Legio.PeerNegotiation

set_option linter.style.header false

/-! Whose call a payload comes from. Among honest nodes with an adversary, what a callback is
given under an honest node's identifier is what that node was asked to send, to everybody or to
the receiver, and to a direct payload sixteen bytes are appended. -/
namespace PayloadOrigins

open LegioBinary LegioCrypto LegioMessage LegioNode Containers ExceptionStates GraphInvariants
open NodeRuns NeighborBindings SignedProvenance DeliveredMessages DirectTraffic PeerNegotiation
open NodeNetwork (arrive)

variable {V Id Pair Ecdh Chan : Type}

section Nodes
variable [LinearOrder Id]

def Explained (K : CryptoPP Id Pair Ecdh) (o : ByteOrder) (ecdh : Ecdh) (own : Id)
    (received : List Binary) (n : Node Id Pair Ecdh Chan) : Prop :=
  ∀ port, ∀ d ∈ (n.transport port).delivered, d.remoteId ≠ own → ∃ data ∈ received,
    arrival K o own port data = some (d.message, d.remoteId) ∧
      opened K ecdh port d.message = some d.payload

variable {K : CryptoPP Id Pair Ecdh} {H : Host Id} {pair : Pair} {ecdh : Ecdh}
  {received : List Binary} {n n' : Node Id Pair Ecdh Chan} {own : Id} {o : ByteOrder}

theorem routed_delivered {m : Message Id} {port : Port} {d : Delivery Id}
    (h : d ∈ (routed K ecdh own n m port).delivered) :
    d ∈ (n.transport port).delivered ∨ posted own m = some (port, d.remoteId) ∧ d.message = m ∧
      opened K ecdh port m = some d.payload := by
  rw [routed] at h
  cases hposted : posted own m with
  | none =>
    rw [hposted] at h
    exact Or.inl h
  | some address =>
    obtain ⟨port', id⟩ := address
    rw [hposted] at h
    dsimp only at h
    by_cases hport : port = port'
    · subst hport
      rw [Function.update_self, taken] at h
      dsimp only at h
      split_ifs at h
      · rcases List.mem_append.mp h with hold | hnew
        · exact Or.inl hold
        · rw [Option.mem_toList, delivery, Option.map_eq_some_iff] at hnew
          obtain ⟨payload, hopened, rfl⟩ := hnew
          exact Or.inr ⟨rfl, rfl, hopened⟩
      · exact Or.inl h
    · rw [Function.update_of_ne hport] at h
      exact Or.inl h

theorem explained_mono (h : Explained K o ecdh own received n) (more : List Binary) :
    Explained K o ecdh own (received ++ more) n := by
  intro port d hd hremote
  obtain ⟨data, hdata, hrest⟩ := h port d hd hremote
  exact ⟨data, List.mem_append_left _ hdata, hrest⟩

theorem explained_inbox (h : Explained K o ecdh own received n) (hsame : inbox n' = inbox n) :
    Explained K o ecdh own received n' := by
  intro port d hd
  have hdelivered : (n'.transport port).delivered = (n.transport port).delivered :=
    congrArg Inbox.delivered (congrFun hsame port)
  exact h port d (hdelivered ▸ hd)

theorem explained_event [DecidableEq Chan] (hsound : Sound K H pair ecdh received n)
    (h : Explained K H.byteOrder ecdh (K.publicKey pair) received n) (ev : NodeEvent Id Chan) :
    Explained K H.byteOrder ecdh (K.publicKey pair) (received ++ ev.data) (ev.apply K H n) := by
  have hrouted {m : Message Id} {port : Port} {d : Delivery Id}
      (hinbox : inbox (ev.apply K H n) = routed K ecdh (K.publicKey pair) n m)
      (hd : d ∈ ((ev.apply K H n).transport port).delivered) :
      d ∈ (n.transport port).delivered ∨ posted (K.publicKey pair) m = some (port, d.remoteId) ∧
        d.message = m ∧ opened K ecdh port m = some d.payload := by
    have hdelivered := congrArg Inbox.delivered (congrFun hinbox port)
    exact routed_delivered (hdelivered ▸ hd)
  rcases inbox_event hsound ev with
    ⟨hstill, _⟩ | ⟨m, data, hdata, hparse, hinbox⟩ | ⟨m, hsource, hdata, hinbox⟩
  · exact explained_mono (explained_inbox h hstill) ev.data
  · intro port d hd hremote
    rcases hrouted hinbox hd with hold | ⟨hposted, rfl, hopened⟩
    · exact explained_mono h ev.data port d hold hremote
    · refine ⟨data, by simp [hdata], ?_, hopened⟩
      rw [arrival, hparse]
      dsimp only
      rw [destined, hposted]
      exact if_pos ⟨rfl, hremote⟩
  · intro port d hd hremote
    rcases hrouted hinbox hd with hold | ⟨hposted, _, _⟩
    · exact explained_mono h ev.data port d hold hremote
    · have hid := (posted_spec hposted).1
      rw [hsource, Option.some.injEq] at hid
      exact absurd hid.symm hremote

end Nodes

section Opening
variable [LinearOrder Id] {K : CryptoPP Id Pair Ecdh} {n : Node Id Pair Ecdh Chan} {b : Ecdh}
  {m : Message Id}

omit [LinearOrder Id] in
theorem parse_encrypt (hE : EcdhLaws K) {payload key : Binary} {a : Ecdh} {random : Iv}
    {cipherBody : CipherBody} (h : CipherBody.encrypt K payload a key random = .ok cipherBody) :
    cipherBody.destination = key ∧ CipherBody.parse cipherBody.toBinary = .ok cipherBody := by
  obtain ⟨secret, hsecret, hrest⟩ := bind_eq_ok h
  obtain ⟨encryption, hkey, hrest⟩ := bind_eq_ok hrest
  cases hrest
  have hlength : key.length = ecdhKeySize := by
    rw [CryptoPP.agree] at hsecret
    split_ifs at hsecret with hlength
    exact not_not.mp hlength
  have hiv : encryption.mIv.length = aesBlockSize := by
    rw [AesGcmEncryption.ofKey] at hkey
    split_ifs at hkey
    obtain ⟨_, _, hkey⟩ := bind_eq_ok hkey
    cases hkey
    exact random.property
  exact ⟨rfl, LegioMessage.parse_toBinary _ (hE.public_length a) hlength hiv⟩

/-- Whoever can open a sealed body finds the payload in it, and sixteen bytes after it. -/
theorem opened_sealed (hE : EcdhLaws K) (hG : GcmLaws K) (hS : StreamLaws K) {port : Port}
    {payload received : Binary} {random : Iv} {remoteId : Id}
    (hsealed : Sealed K n remoteId payload random m.body) (hto : m.destination = some remoteId)
    (h : opened K b port m = some received) :
    ∃ tail, received = payload ++ tail ∧ tail.length = gcmTagSize := by
  obtain ⟨s, cipherBody, _, hencrypt, hbody⟩ := hsealed
  generalize s.ecdhPublic = key at hencrypt
  obtain ⟨hdestination, hparse⟩ := parse_encrypt hE hencrypt
  unfold opened at h
  rw [hto, hbody, hparse] at h
  dsimp only at h
  split_ifs at h with hkey
  rw [not_not, hdestination] at hkey
  subst hkey
  obtain ⟨tail, hdecrypt, htail⟩ := decrypt_encrypt hE hG hS hencrypt
  rw [hdecrypt] at h
  cases h
  exact ⟨tail, rfl, htail⟩

end Opening

section Networks
variable [DecidableEq V] [LinearOrder Id] [DecidableEq Chan] (K : CryptoPP Id Pair Ecdh)
  (net : Network V Id Chan) (pair : V → Pair) (ecdh : V → Ecdh)

inductive Run (w₀ : World V Id Pair Ecdh Chan) :
    List (Event V Id Chan) → World V Id Pair Ecdh Chan → Prop where
  | start : Run w₀ [] w₀
  | step {events w event} : Run w₀ events w → w.Possible K net event →
      Run w₀ (events ++ [event]) (w.step K net event)

/-- Of what an honest node has signed, something holds. -/
def Accounted (Q : V → Message Id → Prop) (data : Binary) : Prop :=
  ∀ o m x, Message.parse K o data = .ok m → m.source = some (K.publicKey (pair x)) → Q x m

structure Answers (Q : V → Message Id → Prop) (v : V) (received : List Binary)
    (n : Node Id Pair Ecdh Chan) : Prop where
  sound : Sound K (net.host v) (pair v) (ecdh v) received n
  explained : Explained K (net.host v).byteOrder (ecdh v) (K.publicKey (pair v)) received n
  accounted : ∀ data ∈ received, Accounted K pair Q data

structure Account (Q : V → Message Id → Prop) (w : World V Id Pair Ecdh Chan) : Prop where
  nodes : ∀ v, ∃ received, Answers K net pair ecdh Q v received (w.nodes v)
  outbox : ∀ v channel, ∀ data ∈ (w.nodes v).wire.outbox channel, Accounted K pair Q data
  known : ∀ data ∈ w.known, Accounted K pair Q data

variable {K} {net} {pair} {ecdh} {Q Q' : V → Message Id → Prop} {data : Binary}
  {w w' : World V Id Pair Ecdh Chan} {n' : Node Id Pair Ecdh Chan}

omit [DecidableEq V] [LinearOrder Id] [DecidableEq Chan] in
theorem accounted_mono (hQ : ∀ x m, Q x m → Q' x m) (h : Accounted K pair Q data) :
    Accounted K pair Q' data :=
  fun o m x hparse hsource => hQ x m (h o m x hparse hsource)

omit [DecidableEq V] [DecidableEq Chan] in
theorem answers_mono (hQ : ∀ x m, Q x m → Q' x m) {v : V} {received : List Binary}
    {n : Node Id Pair Ecdh Chan} (h : Answers K net pair ecdh Q v received n) :
    Answers K net pair ecdh Q' v received n :=
  ⟨h.sound, h.explained, fun data hdata => accounted_mono hQ (h.accounted data hdata)⟩

omit [DecidableEq V] in
theorem answers_event {v : V} {received : List Binary} {n : Node Id Pair Ecdh Chan}
    (h : Answers K net pair ecdh Q v received n) (ev : NodeEvent Id Chan)
    (hdata : ∀ data ∈ ev.data, Accounted K pair Q data) :
    Answers K net pair ecdh Q v (received ++ ev.data) (ev.apply K (net.host v) n) := by
  refine ⟨sound_event h.sound ev, explained_event h.sound h.explained ev, fun data hmem => ?_⟩
  rcases List.mem_append.mp hmem with hold | hnew
  · exact h.accounted data hold
  · exact hdata data hnew

omit [DecidableEq V] [DecidableEq Chan] in
/-- What a node hands to a channel is accounted for, if what it announces and what its calls
ask for is. -/
theorem caused_accounted (hK : EcdsaLaws K)
    (hid : Function.Injective fun v => K.publicKey (pair v))
    (hannounced : ∀ x m, Announced K (pair x) (ecdh x) m → Q x m) {v : V}
    {received : List Binary} {n : Node Id Pair Ecdh Chan}
    (h : Answers K net pair ecdh Q v received n) {ev : NodeEvent Id Chan}
    (hdata : ∀ bytes ∈ ev.data, Accounted K pair Q bytes)
    (hcalled : ∀ m, Asked K n ev m → Q v m) {o : ByteOrder} {channel : Chan} {m : Message Id}
    (hbinary : m.toBinary K o = .ok data) (hcause : Cause K o n ev channel m) :
    Accounted K pair Q data := by
  intro o' m' x hparse hsource
  obtain rfl := NeighborBindings.parse_toBinary hK hbinary hparse
  have hcame (hcame : Came K o ev.data m') : Q x m' := by
    obtain ⟨bytes, hbytes, hparsed⟩ := hcame
    exact hdata bytes hbytes o m' x hparsed hsource
  have hown (hsigned : SignedBy K n.ecdsaPair m') : v = x := by
    have hsame := hsigned.source
    rw [hsource, h.sound.ecdsaPair, Option.some.injEq] at hsame
    exact hid hsame.symm
  cases hcause with
  | announced ha =>
    obtain rfl := hown ha.signed
    rw [h.sound.ecdsaPair, h.sound.mEcdh] at ha
    exact hannounced v m' ha
  | asked hsigned hasked _ =>
    obtain rfl := hown hsigned
    exact hcalled m' hasked
  | flooded came _ => exact hcame came
  | relayed _ came _ _ => exact hcame came
  | echoed came _ _ => exact hcame came

omit [DecidableEq Chan] in
theorem account_update (h : Account K net pair ecdh Q w) {v : V}
    (hnodes : w'.nodes = Function.update w.nodes v n')
    (hn : ∃ received, Answers K net pair ecdh Q v received n')
    (hfresh : ∀ channel, ∀ data ∈ n'.wire.outbox channel,
      data ∈ (w.nodes v).wire.outbox channel ∨ Accounted K pair Q data)
    (hknown : ∀ data ∈ w'.known, Accounted K pair Q data) :
    Account K net pair ecdh Q w' := by
  refine ⟨fun u => ?_, fun u channel data hdata => ?_, hknown⟩
  · rw [hnodes]
    by_cases hu : u = v
    · subst hu
      rw [Function.update_self]
      exact hn
    · rw [Function.update_of_ne hu]
      exact h.nodes u
  · rw [hnodes] at hdata
    by_cases hu : u = v
    · subst hu
      rw [Function.update_self] at hdata
      exact (hfresh channel data hdata).elim (h.outbox u channel data) id
    · rw [Function.update_of_ne hu] at hdata
      exact h.outbox u channel data hdata

omit [DecidableEq V] [DecidableEq Chan] in
theorem account_mono (hQ : ∀ x m, Q x m → Q' x m) (h : Account K net pair ecdh Q w) :
    Account K net pair ecdh Q' w := by
  refine ⟨fun v => ?_, fun v channel data hdata =>
    accounted_mono hQ (h.outbox v channel data hdata),
    fun data hdata => accounted_mono hQ (h.known data hdata)⟩
  obtain ⟨received, hanswers⟩ := h.nodes v
  exact ⟨received, answers_mono hQ hanswers⟩

section Steps
variable (hK : EcdsaLaws K) (hid : Function.Injective fun v => K.publicKey (pair v))
  (hannounced : ∀ x m, Announced K (pair x) (ecdh x) m → Q x m)
include hK hid hannounced

theorem account_act (h : Account K net pair ecdh Q w) (v : V) {ev : NodeEvent Id Chan}
    (hev : ev.data = [])
    (hcalled : ∀ m, Asked K (w.nodes v) ev m → Q v m) :
    Account K net pair ecdh Q (w.step K net (.act v ev)) := by
  obtain ⟨received, hanswers⟩ := h.nodes v
  have hdata : ∀ bytes ∈ ev.data, Accounted K pair Q bytes := by
    intro bytes hbytes
    rw [hev] at hbytes
    cases hbytes
  refine account_update h rfl ⟨_, answers_event hanswers ev hdata⟩
    (fun channel data hmem => ?_) h.known
  have hcaused := event_caused (K := K) (H := net.host v)
    (fun port => (hanswers.sound.transports port).typed) ev
  refine (fresh_caused hcaused hmem).imp_right ?_
  rintro ⟨m, hbinary, hcause⟩
  exact caused_accounted hK hid hannounced hanswers hdata hcalled hbinary hcause

theorem account_receive (h : Account K net pair ecdh Q w) {v : V} {c : Chan}
    (hdata : Accounted K pair Q data) :
    Account K net pair ecdh Q (w.receive K net v c data) := by
  obtain ⟨received, hanswers⟩ := h.nodes v
  have hall : ∀ bytes ∈ NodeEvent.data (.received c data : NodeEvent Id Chan),
      Accounted K pair Q bytes := by
    intro bytes hbytes
    rw [List.mem_singleton.mp hbytes]
    exact hdata
  refine account_update h (v := v) rfl ?_ (fun channel bytes hmem => ?_) h.known
  · rw [arrive]
    split_ifs
    · exact ⟨_, answers_event hanswers (.received c data) hall⟩
    · exact ⟨received, hanswers⟩
  · rw [arrive] at hmem
    split_ifs at hmem
    · refine (fresh_caused since_onMessage hmem).imp_right ?_
      rintro ⟨m, hbinary, hcause⟩
      refine caused_accounted hK hid hannounced hanswers hall (fun m hasked => ?_) hbinary
        hcause
      cases hasked with
      | broadcast hcall => cases hcall
      | send _ _ _ _ hcall => cases hcall
    · exact Or.inl hmem

omit [DecidableEq V] [LinearOrder Id] hK hid hannounced in
theorem pop_subset {n : Node Id Pair Ecdh Chan} {channel c : Chan}
    (hdata : data ∈ (n.wire.pop channel).outbox c) : data ∈ n.wire.outbox c := by
  simp only [Wire.pop, Function.update_apply] at hdata
  split_ifs at hdata with hc
  · subst hc
    exact List.mem_of_mem_tail hdata
  · exact hdata

omit [DecidableEq V] hK hid hannounced in
theorem answers_pop {v : V} {received : List Binary} {n : Node Id Pair Ecdh Chan}
    (h : Answers K net pair ecdh Q v received n) (channel : Chan) :
    Answers K net pair ecdh Q v received { n with wire := n.wire.pop channel } :=
  ⟨sound_wire h.sound fun _ _ hdata => Or.inl (pop_subset hdata), h.explained, h.accounted⟩

omit hK hid hannounced in
theorem account_pop (h : Account K net pair ecdh Q w) (u : V) (channel : Chan)
    {known : List Binary} (hknown : ∀ data ∈ known, Accounted K pair Q data) :
    Account K net pair ecdh Q { w with
      nodes := Function.update w.nodes u { w.nodes u with
        wire := (w.nodes u).wire.pop channel }
      known := known } := by
  obtain ⟨received, hanswers⟩ := h.nodes u
  exact account_update h rfl ⟨received, answers_pop hanswers channel⟩
    (fun c data hdata => Or.inl (pop_subset hdata)) hknown

theorem account_deliver (h : Account K net pair ecdh Q w) (channel : Chan) :
    Account K net pair ecdh Q (w.step K net (.deliver channel)) := by
  rw [World.step]
  cases net.owner channel with
  | none => exact h
  | some u =>
    dsimp only
    cases hout : (w.nodes u).wire.outbox channel with
    | nil => exact h
    | cons data rest =>
      have hdata : Accounted K pair Q data := h.outbox u channel data (hout ▸ List.mem_cons_self)
      dsimp only
      cases net.remote channel with
      | none =>
        refine account_pop h u channel fun bytes hbytes => ?_
        rcases List.mem_append.mp hbytes with hold | hnew
        · exact h.known bytes hold
        · rw [List.mem_singleton.mp hnew]
          exact hdata
      | some v => exact account_receive hK hid hannounced (account_pop h u channel h.known) hdata

omit [DecidableEq V] [DecidableEq Chan] hK hid hannounced in
theorem injected_accounted (h : Account K net pair ecdh Q w) {channel : Chan}
    (hevent : w.Possible K net (.inject channel data)) : Accounted K pair Q data := by
  rcases hevent.2 with hknown | hforeign
  · exact h.known data hknown
  · intro o m x hparse hsource
    obtain ⟨received, hanswers⟩ := h.nodes x
    rw [← hanswers.sound.ecdsaPair] at hsource
    exact absurd hsource (hforeign o m x hparse)

theorem account_inject (h : Account K net pair ecdh Q w) {channel : Chan}
    (hevent : w.Possible K net (.inject channel data)) :
    Account K net pair ecdh Q (w.step K net (.inject channel data)) := by
  rw [World.step]
  cases net.remote channel with
  | none => exact h
  | some v => exact account_receive hK hid hannounced h (injected_accounted h hevent)

end Steps

omit [DecidableEq V] in
theorem account_start (hK : EcdsaLaws K) {w₀ : World V Id Pair Ecdh Chan}
    (h₀ : Start K net w₀) {Q : V → Message Id → Prop}
    (hannounced : ∀ x m, Announced K (w₀.nodes x).ecdsaPair (w₀.nodes x).graph.mEcdh m → Q x m) :
    Account K net (fun v => (w₀.nodes v).ecdsaPair) (fun v => (w₀.nodes v).graph.mEcdh) Q w₀ := by
  refine ⟨fun v => ⟨[], created_sound (h₀.created v), fun port d hd _ => ?_, fun data hdata => ?_⟩,
    fun v channel data hdata o m x hparse hsource => ?_, fun data hdata => ?_⟩
  · have hempty : ((w₀.nodes v).transport port).delivered = [] :=
      congrArg Inbox.delivered (created_inbox (h₀.created v) port)
    rw [hempty] at hd
    cases hd
  · cases hdata
  · have ha := created_announced hK (h₀.created v) hdata hparse
    have hown := ha.signed.source
    rw [hsource, Option.some.injEq] at hown
    obtain rfl := h₀.identities hown
    exact hannounced x m ha
  · rw [h₀.known] at hdata
    cases hdata

def Wanted (K : CryptoPP Id Pair Ecdh) (events : List (Event V Id Chan)) (x : V)
    (m : Message Id) : Prop :=
  ∀ port : Port, m.type = port.type →
    ∃ call, ∃ n : Node Id Pair Ecdh Chan, Event.act x call ∈ events ∧ Asked K n call m

omit [DecidableEq V] [DecidableEq Chan] in
theorem wanted_mono {events : List (Event V Id Chan)} (event : Event V Id Chan) {x : V}
    {m : Message Id} (h : Wanted K events x m) : Wanted K (events ++ [event]) x m := by
  intro port htype
  obtain ⟨call, n, hcall, hasked⟩ := h port htype
  exact ⟨call, n, List.mem_append_left _ hcall, hasked⟩

omit [DecidableEq V] [DecidableEq Chan] in
theorem announced_type {p : Pair} {e : Ecdh} {m : Message Id} (h : Announced K p e m)
    (port : Port) : m.type ≠ port.type := by
  intro htype
  have hother : port.type ≠ MessageType.Hello ∧ port.type ≠ MessageType.State := by
    cases port <;> decide
  rcases h.type with hhello | hstate
  · exact hother.1 (htype.symm.trans hhello)
  · exact hother.2 (htype.symm.trans hstate)

theorem run_wanted (hK : EcdsaLaws K) {w₀ : World V Id Pair Ecdh Chan} (h₀ : Start K net w₀)
    {events : List (Event V Id Chan)} (h : Run K net w₀ events w) :
    Account K net (fun v => (w₀.nodes v).ecdsaPair) (fun v => (w₀.nodes v).graph.mEcdh)
      (Wanted K events) w := by
  have hannounced (events : List (Event V Id Chan)) (x : V) (m : Message Id)
      (ha : Announced K (w₀.nodes x).ecdsaPair (w₀.nodes x).graph.mEcdh m) :
      Wanted K events x m :=
    fun port htype => absurd htype (announced_type ha port)
  induction h with
  | start => exact account_start hK h₀ (hannounced [])
  | @step events w event _ hevent ih =>
    have hmono := account_mono
      (fun x m => wanted_mono (x := x) (m := m) event) ih
    have ha := hannounced (events ++ [event])
    cases event with
    | act v ev =>
      refine account_act hK h₀.identities ha hmono v hevent fun m hasked port _ => ?_
      exact ⟨ev, _, List.mem_append_right _ (List.mem_singleton_self _), hasked⟩
    | deliver channel => exact account_deliver hK h₀.identities ha hmono channel
    | inject channel data => exact account_inject hK h₀.identities ha hmono hevent

theorem run_of_possible (w₀ : World V Id Pair Ecdh Chan) (events : List (Event V Id Chan)) :
    ∀ past w, (∀ w, ∀ event ∈ events, World.Possible K net w event) → Run K net w₀ past w →
      Run K net w₀ (past ++ events) (events.foldl (World.step K net) w) := by
  induction events with
  | nil =>
    intro past w _ h
    rw [List.append_nil]
    exact h
  | cons event events ih =>
    intro past w hevents h
    have hrest := ih _ _ (fun w event hevent => hevents w event (List.mem_cons_of_mem _ hevent))
      (.step h (hevents w event List.mem_cons_self))
    rw [List.append_assoc] at hrest
    exact hrest

omit [DecidableEq V] [LinearOrder Id] [DecidableEq Chan] in
theorem type_inj {port port' : Port} (h : port.type = port'.type) : port = port' := by
  cases port <;> cases port' <;> first | rfl | exact absurd h (by decide)

/-- What a callback is given under an honest node's identifier. -/
theorem delivered_asked (hK : EcdsaLaws K) {w₀ : World V Id Pair Ecdh Chan} (h₀ : Start K net w₀)
    {events : List (Event V Id Chan)} (h : Run K net w₀ events w) {v x : V} (hx : x ≠ v)
    (port : Port) {d : Delivery Id} (hd : d ∈ ((w.nodes v).transport port).delivered)
    (hsource : d.remoteId = (w.nodes x).id K) :
    ∃ call, ∃ n : Node Id Pair Ecdh Chan, ∃ b, Event.act x call ∈ events ∧
      Asked K n call d.message ∧
      d.message.type = port.type ∧ opened K b port d.message = some d.payload ∧
      ∀ remoteId, d.message.destination = some remoteId → remoteId = (w.nodes v).id K := by
  have haccount := run_wanted hK h₀ h
  obtain ⟨received, hanswers⟩ := haccount.nodes v
  obtain ⟨_, hremote⟩ := haccount.nodes x
  rw [Node.id, hremote.sound.ecdsaPair] at hsource
  have hother : d.remoteId ≠ K.publicKey (w₀.nodes v).ecdsaPair := by
    rw [hsource]
    exact fun heq => hx (h₀.identities heq)
  obtain ⟨data, hdata, harrival, hopened⟩ := hanswers.explained port d hd hother
  obtain ⟨hparse, hposted, _⟩ := arrival_spec harrival
  obtain ⟨hnamed, htype⟩ := posted_spec hposted
  rw [hsource] at hnamed
  obtain ⟨call, n, hcall, hasked⟩ :=
    hanswers.accounted data hdata _ _ x hparse hnamed port htype
  refine ⟨call, n, _, hcall, hasked, htype, hopened, fun remoteId hto => ?_⟩
  by_contra haway
  rw [Node.id, hanswers.sound.ecdsaPair] at haway
  rw [posted_away (by rw [hto]; simp [haway])] at hposted
  cases hposted

/-- Over every run among honest nodes and an adversary: a payload that a callback is given as
another honest node's is one that this node was asked to broadcast, or one that it was asked to
send to the receiver by the same transport, with sixteen bytes appended. -/
theorem payloads_originate (hK : EcdsaLaws K) (hE : EcdhLaws K) (hG : GcmLaws K)
    (hS : StreamLaws K) {w₀ : World V Id Pair Ecdh Chan} (h₀ : Start K net w₀)
    {events : List (Event V Id Chan)} (h : Run K net w₀ events w) {v x : V} (hx : x ≠ v)
    {port : Port} {d : Delivery Id}
    (hd : d ∈ ((w.nodes v).transport port).delivered)
    (hsource : d.remoteId = (w.nodes x).id K) :
    (port = .user ∧ Event.act x (.broadcast .user d.payload) ∈ events) ∨
      ∃ payload random tail,
        Event.act x (.send port ((w.nodes v).id K) payload random) ∈ events ∧
        d.payload = payload ++ tail ∧ tail.length = gcmTagSize := by
  obtain ⟨call, n, b, hcall, hasked, htype, hopened, haddressed⟩ :=
    delivered_asked hK h₀ h hx _ hd hsource
  cases hasked with
  | broadcast hbroadcast htype' _ hnone =>
    obtain rfl : .user = port := type_inj (htype'.symm.trans htype)
    unfold opened at hopened
    rw [hnone] at hopened
    have hbody : d.message.body = d.payload := Option.some.inj hopened
    rw [hbody] at hbroadcast
    exact Or.inl ⟨rfl, hbroadcast ▸ hcall⟩
  | send port' remoteId payload random hsend htype' _ hto hsealed =>
    obtain rfl := type_inj (htype'.symm.trans htype)
    obtain rfl := haddressed remoteId hto
    obtain ⟨tail, hpayload, htail⟩ := opened_sealed hE hG hS hsealed hto hopened
    exact Or.inr ⟨payload, random, tail, hsend ▸ hcall, hpayload, htail⟩

/-- What `Peering::sendLocalDescription` gives to the transport. -/
def packed {Pc : Type} (R : Rtc Pc) (description : Description) : Binary :=
  packStrings [R.typeString description.type, description.sdp]

/-- Where the signaling transport carries descriptions only, and of honest nodes: a Peering that
is given a payload handles exactly a description that its other side has sent to it. -/
theorem descriptions_arrive (hK : EcdsaLaws K) (hE : EcdhLaws K) (hG : GcmLaws K)
    (hS : StreamLaws K) {Pc : Type} {R : Rtc Pc} (hR : RtcLaws R)
    {w₀ : World V Id Pair Ecdh Chan} (h₀ : Start K net w₀)
    {events : List (Event V Id Chan)} (h : Run K net w₀ events w)
    (hsignals : ∀ x remoteId payload random,
      Event.act x (.send .signaling remoteId payload random) ∈ events →
        ∃ description, R.Writes description.sdp ∧ payload = packed R description)
    {v x : V} (hx : x ≠ v) {d : Delivery Id} (hd : d ∈ (w.nodes v).signaling.delivered)
    (hsource : d.remoteId = (w.nodes x).id K) :
    ∃ description random,
      Event.act x (.send .signaling ((w.nodes v).id K) (packed R description) random) ∈ events ∧
      ∀ p : Peering Id Pc, p.receive R d.payload = p.receiveDescription R description := by
  obtain ⟨call, n, b, hcall, hasked, htype, hopened, haddressed⟩ :=
    delivered_asked hK h₀ h hx .signaling hd hsource
  cases hasked with
  | broadcast _ huser _ _ => exact absurd (htype.symm.trans huser) (by decide)
  | send port' remoteId payload random hsend hsignal _ hto hsealed =>
    obtain rfl : port' = .signaling := type_inj (hsignal.symm.trans htype)
    obtain rfl := haddressed remoteId hto
    rw [hsend] at hcall
    obtain ⟨description, htext, rfl⟩ := hsignals x _ payload random hcall
    obtain ⟨tail, hpayload, _⟩ := opened_sealed hE hG hS hsealed hto hopened
    refine ⟨description, random, hcall, fun p => ?_⟩
    rw [hpayload]
    exact receive_packed hR p htext tail

end Networks

-- Two nodes that have greeted each other. Node 2 sends a user message and a description to node
-- 1.
namespace Sample
open DirectTraffic.Sample (crypto net before before_start)
open DirectMessages.Sample (random)
open LegioNode.Sample (host)
open PeerNegotiation.Sample (description rtc rtc_laws Connection)

def offer : Description := description .offer

def events : List (Event Bool (Fin 4) ℕ) :=
  DirectTraffic.Sample.events ++ [.act true (.send .signaling 1 (packed rtc offer) random),
    .deliver 1, .deliver 1, .deliver 1, .deliver 1]

def reached : World Bool (Fin 4) (Fin 4) (Fin 4) ℕ := events.foldl (World.step crypto net) before

theorem reached_run : Run crypto net before events reached := by
  refine run_of_possible before events [] before (fun w event hevent => ?_) .start
  simp only [events, DirectTraffic.Sample.events, List.mem_append, List.mem_cons,
    List.not_mem_nil, or_false] at hevent
  rcases hevent with (rfl | rfl | rfl | rfl | rfl | rfl | rfl | rfl) | rfl | rfl | rfl | rfl | rfl
  all_goals first | exact rfl | exact trivial

/-- The user message of two bytes. -/
theorem message_originates : ∃ d ∈ ((reached.nodes false).transport .user).delivered,
    d.payload.length = 18 ∧ ∃ payload random tail,
      Event.act true (.send .user ((reached.nodes false).id crypto) payload random) ∈ events ∧
        d.payload = payload ++ tail ∧ tail.length = 16 := by
  obtain ⟨d, hd⟩ : ∃ d, ((reached.nodes false).transport .user).delivered = [d] := by
    exact List.length_eq_one_iff.mp (by decide +kernel)
  have hrun : ∀ d ∈ ((reached.nodes false).transport .user).delivered,
      d.remoteId = (reached.nodes true).id crypto ∧ d.payload.length = 18 := by
    decide +kernel
  have hmem : d ∈ ((reached.nodes false).transport .user).delivered :=
    hd ▸ List.mem_singleton_self d
  refine ⟨d, hmem, (hrun d hmem).2, ?_⟩
  rcases payloads_originate LegioCrypto.Sample.ecdsaLaws LegioCrypto.Sample.ecdhLaws
    LegioCrypto.Sample.gcmLaws LegioCrypto.Sample.streamLaws before_start reached_run
    (v := false) (x := true) (by decide) hmem (hrun d hmem).1 with ⟨_, hbroadcast⟩ | hsent
  · simp [events, DirectTraffic.Sample.events] at hbroadcast
  · exact hsent

/-- The offer, whatever Peering it is given to. -/
theorem description_arrives : ∃ d ∈ (reached.nodes false).signaling.delivered, ∃ sent,
    packed rtc sent = packed rtc offer ∧ ∀ p : Peering (Fin 4) Connection,
      p.receive rtc d.payload = p.receiveDescription rtc sent := by
  obtain ⟨d, hd⟩ : ∃ d, (reached.nodes false).signaling.delivered = [d] := by
    exact List.length_eq_one_iff.mp (by decide +kernel)
  have hrun : ∀ d ∈ (reached.nodes false).signaling.delivered,
      d.remoteId = (reached.nodes true).id crypto := by
    decide +kernel
  have hmem : d ∈ (reached.nodes false).signaling.delivered :=
    hd ▸ List.mem_singleton_self d
  have hsignals : ∀ x remoteId payload random,
      Event.act x (.send .signaling remoteId payload random) ∈ events →
        payload = packed rtc offer := by
    intro x remoteId payload random hsend
    simp [events, DirectTraffic.Sample.events] at hsend
    exact hsend.2.2.1
  obtain ⟨sent, random, hsent, harrives⟩ := descriptions_arrive
    LegioCrypto.Sample.ecdsaLaws LegioCrypto.Sample.ecdhLaws LegioCrypto.Sample.gcmLaws
    LegioCrypto.Sample.streamLaws rtc_laws before_start reached_run
    (fun x remoteId payload random hsend => ⟨offer, rfl, hsignals x remoteId payload random hsend⟩)
    (v := false) (x := true) (by decide) hmem (hrun d hmem)
  exact ⟨d, hmem, sent, hsignals true _ _ random hsent, harrives⟩

end Sample

end PayloadOrigins
