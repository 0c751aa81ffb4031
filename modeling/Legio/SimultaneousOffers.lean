import Legio.OfferAnswer
import Legio.PeerNegotiation
import Legio.TransportSteps

set_option linter.style.header false

/-! Two Peerings to each other, with a network that may deliver any message sent so far, at
any time and as often as it likes. The pair refines a session of `OfferAnswer` in which
the firm side is the one with the greater identifier. -/
namespace SimultaneousOffers

open LegioBinary LegioNode OfferAnswer PeerNegotiation ReplayFilter TransportSteps

variable {Id Pc : Type} (R : Rtc Pc)

/-- The two nodes by a name each, `!s` the one that `s` is peered with. -/
abbrev World (Id Pc : Type) := Bool → Peering Id Pc

inductive Happening where
  | connect (s : Bool)
  | gathered (s : Bool)
  | deliver (s : Bool) (signal : Signal)

def gathering (pc : Pc) : Bool :=
  (R.localDescription pc).isSome && !R.gatheringComplete pc

section Runs
variable [LinearOrder Id]

def step (w : World Id Pc) : Happening → World Id Pc
  | .connect s => Function.update w s ((w s).connect R)
  | .gathered s =>
    if gathering R (w s).mPeerConnection then
      Function.update w s ((w s).onGatheringComplete R)
    else w
  | .deliver s signal =>
    if signal ∈ (w !s).sent then Function.update w s ((w s).incoming R signal) else w

def run (w : World Id Pc) (happenings : List Happening) : World Id Pc :=
  happenings.foldl (step R) w

end Runs

structure Start [DecidableEq Id] (ids : Bool → Id) (w : World Id Pc) : Prop where
  distinct : ids true ≠ ids false
  localId : ∀ s, (w s).localId = ids s
  remoteId : ∀ s, (w s).mRemoteId = ids !s
  connection : ∀ s, (w s).mPeerConnection = R.initial
  unheard : ∀ s, (w s).mTransport.mSequences.lookup (ids !s) = none
  sent : ∀ s, (w s).sent = []
  received : ∀ s, (w s).received = []
  ignored : ∀ s, (w s).ignored = false
  abandoned : ∀ s, (w s).abandoned = false
  unasked : ∀ s, (w s).unasked = false

def type : Kind → DescriptionType
  | .offer => .offer
  | .answer => .answer

def described : Phase → Option Kind
  | .fresh => none
  | .offering | .offered | .completed => some .offer
  | .answering | .answered | .yielded => some .answer

def state : Phase → SignalingState
  | .offering | .offered => .haveLocalOffer
  | _ => .stable

def settled : Phase → Bool
  | .fresh | .offering | .answering => false
  | _ => true

structure Phased (pc : Pc) (phase : Phase) : Prop where
  state : R.signalingState pc = state phase
  local_some : ∀ kind, described phase = some kind →
    ∃ d, R.localDescription pc = some d ∧ Made R (type kind) d
  local_none : described phase = none → R.localDescription pc = none
  settled : R.gatheringComplete pc = settled phase

variable {R}

theorem Phased.settles {pc pc' : Pc} {phase phase' : Phase} (h : Phased R pc phase)
    {d : Description} {kind : Kind}
    (hpc : Settles R pc pc' (SimultaneousOffers.state phase') (some d))
    (hmade : Made R (type kind) d) (hkind : described phase' = some kind)
    (hsettled : SimultaneousOffers.settled phase' = SimultaneousOffers.settled phase) :
    Phased R pc' phase' where
  state := hpc.state
  local_some := by
    intro kind' hkind'
    obtain rfl : kind = kind' := Option.some.inj (hkind.symm.trans hkind')
    exact ⟨d, hpc.localDescription, hmade⟩
  local_none := by
    intro hnone
    rw [hkind] at hnone
    cases hnone
  settled := by rw [hpc.gathering, h.settled, hsettled]

theorem phased_initial (hR : RtcLaws R) : Phased R R.initial .fresh where
  state := hR.initial_state
  local_some := by
    intro kind hkind
    cases hkind
  local_none := fun _ => hR.initial_local
  settled := hR.initial_gathering

theorem phased_create (hR : RtcLaws R) {pc : Pc} {phase : Phase} (h : Phased R pc phase) :
    ∃ pc' made, R.createDataChannel pc = (pc', made) ∧ Phased R pc' phase.connect ∧
      (made = none ∨ R.gatheringComplete pc' = false) := by
  cases hkind : described phase with
  | none =>
    obtain rfl : phase = .fresh := by
      cases phase <;> first | rfl | cases hkind
    obtain ⟨pc', d, hcreate, hmade, hpc⟩ := hR.create_offers pc h.state (h.local_none rfl)
    replace hmade : Made R (type .offer) d := hmade
    have hphased : Phased R pc' .offering := h.settles hpc hmade rfl rfl
    exact ⟨pc', some d, hcreate, hphased, Or.inr hphased.settled⟩
  | some kind =>
    have hsame : phase.connect = phase := by
      cases phase <;> first | rfl | cases hkind
    obtain ⟨d, hlocal, hmade⟩ := h.local_some kind hkind
    obtain ⟨pc', hcreate, hpc⟩ := hR.create_silent pc d hlocal
    rw [h.state] at hpc
    rw [hsame]
    exact ⟨pc', none, hcreate, h.settles hpc hmade hkind rfl, Or.inl rfl⟩

theorem phased_gather (hR : RtcLaws R) {pc : Pc} {phase : Phase} (h : Phased R pc phase)
    (hgathering : gathering R pc = true) :
    Phased R (R.gather pc) phase.gathered ∧
      ∃ kind d, R.localDescription (R.gather pc) = some d ∧ Made R (type kind) d ∧
        phase.gathered.sent = phase.sent ++ [kind] := by
  rw [gathering, h.settled, Bool.and_eq_true, Bool.not_eq_true', Option.isSome_iff_ne_none]
    at hgathering
  obtain ⟨hdescribed, hunsettled⟩ := hgathering
  have hphase : phase = .offering ∨ phase = .answering := by
    cases phase with
    | fresh => exact absurd (h.local_none rfl) hdescribed
    | offering => exact Or.inl rfl
    | answering => exact Or.inr rfl
    | offered | completed | answered | yielded => cases hunsettled
  have hgathered : ∀ phase' kind, state phase' = state phase → described phase = some kind →
      described phase' = some kind → settled phase' = true → Phased R (R.gather pc) phase' ∧
        ∃ d, R.localDescription (R.gather pc) = some d ∧ Made R (type kind) d := by
    intro phase' kind hstate hkind hkind' hsettled
    obtain ⟨d, hlocal, hmade⟩ := h.local_some kind hkind
    obtain ⟨d', hlocal', hmade'⟩ := hR.gather_local pc _ d hlocal hmade
    refine ⟨⟨?_, ?_, ?_, ?_⟩, d', hlocal', hmade'⟩
    · rw [hR.gather_state, h.state, hstate]
    · intro other hother
      obtain rfl : kind = other := Option.some.inj (hkind'.symm.trans hother)
      exact ⟨d', hlocal', hmade'⟩
    · intro hnone
      rw [hkind'] at hnone
      cases hnone
    · rw [hR.gather_complete, hsettled]
  rcases hphase with rfl | rfl
  · obtain ⟨hphased, d, hlocal, hmade⟩ := hgathered .offered .offer rfl rfl rfl rfl
    exact ⟨hphased, .offer, d, hlocal, hmade, rfl⟩
  · obtain ⟨hphased, d, hlocal, hmade⟩ := hgathered .answered .answer rfl rfl rfl rfl
    exact ⟨hphased, .answer, d, hlocal, hmade, rfl⟩

theorem phased_ungathered {pc : Pc} {phase : Phase} (h : Phased R pc phase)
    (hgathering : gathering R pc = false) : phase.gathered = phase := by
  rw [gathering, h.settled] at hgathering
  cases phase with
  | offering | answering =>
    obtain ⟨d, hlocal, -⟩ := h.local_some _ rfl
    rw [hlocal] at hgathering
    cases hgathering
  | fresh | offered | completed | answered | yielded => rfl

/-- The kinds of the messages in `signals`, which are numbered from `start` on. -/
structure Signals (R : Rtc Pc) (start : UInt32) (kinds : List Kind) (signals : List Signal) :
    Prop where
  length : signals.length = kinds.length
  carries : ∀ k signal, signals[k]? = some signal → ∃ kind d, kinds[k]? = some kind ∧
    signal.sequence = start + UInt32.ofNat k ∧ Made R (type kind) d ∧
      signal.payload = packStrings [R.typeString d.type, d.sdp]

theorem signals_concat {start : UInt32} {kinds : List Kind} {signals : List Signal}
    (h : Signals R start kinds signals) {kind : Kind} {d : Description}
    (hmade : Made R (type kind) d) :
    Signals R start (kinds ++ [kind]) (signals ++ [⟨start + UInt32.ofNat kinds.length,
      packStrings [R.typeString d.type, d.sdp]⟩]) where
  length := by rw [List.length_append, List.length_append, h.length, List.length_singleton,
    List.length_singleton]
  carries := by
    intro k signal hsignal
    rcases lt_or_ge k signals.length with hlt | hge
    · rw [List.getElem?_append_left hlt] at hsignal
      obtain ⟨kind', d', hkind, hcarries⟩ := h.carries k signal hsignal
      refine ⟨kind', d', ?_, hcarries⟩
      rw [List.getElem?_append_left (h.length ▸ hlt), hkind]
    · rw [List.getElem?_append_right hge] at hsignal
      have hk : k = kinds.length := by
        have hlast := (List.getElem?_eq_some_iff.mp hsignal).1
        have hlength := h.length
        rw [List.length_singleton] at hlast
        omega
      subst hk
      rw [h.length, Nat.sub_self, List.getElem?_cons_zero] at hsignal
      obtain rfl := Option.some.inj hsignal
      exact ⟨kind, d, List.getElem?_concat_length, rfl, hmade, rfl⟩

section Sides
variable [LinearOrder Id]

def role (ids : Bool → Id) (x : Bool) : Bool := decide (ids (!x) < ids x)

theorem role_not {ids : Bool → Id} (hids : ids true ≠ ids false) (x : Bool) :
    role ids (!x) = !role ids x := by
  have hne : ids x ≠ ids !x := by
    cases x
    · exact hids.symm
    · exact hids
  rw [role, role, Bool.not_not]
  rcases lt_or_gt_of_ne hne with hlt | hgt
  · rw [decide_eq_true hlt, decide_eq_false hlt.not_gt]
    rfl
  · rw [decide_eq_true hgt, decide_eq_false hgt.not_gt]
    rfl

variable (R)

structure Follows (ids : Bool → Id) (first : Bool → UInt32) (x : Bool) (p : Peering Id Pc)
    (y : Side) : Prop where
  localId : p.localId = ids x
  remoteId : p.mRemoteId = ids !x
  phased : Phased R p.mPeerConnection y.phase
  signals : Signals R (first x) y.phase.sent p.sent
  next : p.mTransport.mSendSequence = first x + UInt32.ofNat y.phase.sent.length
  heard : p.mTransport.mSequences.lookup (ids !x) = residue (first !x) y.seen
  received : y.seen = 0 → p.received = []
  ignored : p.ignored = true → role ids x = true
  abandoned : p.abandoned = true → role ids x = false
  unasked : p.unasked = false

variable {R} {ids : Bool → Id} {first : Bool → UInt32} {x : Bool} {p : Peering Id Pc} {y : Side}

theorem Follows.silent (h : Follows R ids first x p y) {pc : Pc} {phase : Phase}
    (hpc : Phased R pc phase) (hsent : phase.sent = y.phase.sent) :
    Follows R ids first x { p with mPeerConnection := pc } ⟨phase, y.seen⟩ :=
  { h with
    phased := hpc
    signals := hsent ▸ h.signals
    next := hsent ▸ h.next }

theorem Follows.sends (h : Follows R ids first x p y) {pc : Pc} {phase : Phase}
    (hpc : Phased R pc phase) {kind : Kind} {d : Description} (hmade : Made R (type kind) d)
    (hsent : phase.sent = y.phase.sent ++ [kind]) :
    Follows R ids first x ({ p with mPeerConnection := pc }.sendLocalDescription R d)
      ⟨phase, y.seen⟩ :=
  { h with
    phased := hpc
    signals := by
      change Signals R (first x) phase.sent (p.sent ++ [_])
      rw [hsent, h.next]
      exact signals_concat h.signals hmade
    next := by
      change p.mTransport.mSendSequence + 1 = first x + UInt32.ofNat phase.sent.length
      rw [h.next, hsent, List.length_append, List.length_singleton, UInt32.ofNat_add,
        ← UInt32.add_assoc]
      rfl }

omit [LinearOrder Id] in
theorem onLocalDescription_quiet (p : Peering Id Pc)
    (hgathering : R.gatheringComplete p.mPeerConnection = false) (made : Option Description) :
    p.onLocalDescription R made = p := by
  cases made with
  | none => rfl
  | some d => exact if_neg (by rw [hgathering]; decide)

theorem follows_connect (hR : RtcLaws R) (h : Follows R ids first x p y) :
    Follows R ids first x (p.connect R) ⟨y.phase.connect, y.seen⟩ := by
  obtain ⟨pc', made, hcreate, hpc, hsilent⟩ := phased_create hR h.phased
  have hsent : y.phase.connect.sent = y.phase.sent := by
    cases y.phase <;> rfl
  have hconnect : p.connect R = { p with mPeerConnection := pc' } := by
    rw [Peering.connect, hcreate]
    rcases hsilent with rfl | hgathering
    · rfl
    · exact onLocalDescription_quiet _ hgathering made
  rw [hconnect]
  exact h.silent hpc hsent

theorem follows_gathered (hR : RtcLaws R) (h : Follows R ids first x p y)
    (hgathering : gathering R p.mPeerConnection = true) :
    Follows R ids first x (p.onGatheringComplete R) ⟨y.phase.gathered, y.seen⟩ := by
  obtain ⟨hpc, kind, d, hlocal, hmade, hsent⟩ := phased_gather hR h.phased hgathering
  have hcomplete : p.onGatheringComplete R =
      { p with mPeerConnection := R.gather p.mPeerConnection }.sendLocalDescription R d := by
    rw [Peering.onGatheringComplete]
    dsimp only
    rw [hlocal]
  rw [hcomplete]
  exact h.sends hpc hmade hsent

variable (R) in
/-- The Peering when `setRemoteDescription` has returned. -/
def applied (p : Peering Id Pc) (d : Description) (pc : Pc) : Peering Id Pc :=
  { p with
    mPeerConnection := pc
    abandoned := p.abandoned || (decide (d.type = .offer) && p.outstanding R)
    unasked := p.unasked || (decide (d.type = .answer) && !p.outstanding R) }

theorem receive_applied (p : Peering Id Pc) {d : Description}
    (hturn : ¬ (d.type = .offer ∧ p.outstanding R = true ∧ p.mRemoteId < p.localId)) {pc : Pc}
    {answer : Option Description}
    (hset : R.setRemoteDescription p.mPeerConnection d = .ok (pc, answer)) :
    p.receiveDescription R d = (applied R p d pc).onLocalDescription R answer := by
  rw [Peering.receiveDescription, if_neg hturn]
  dsimp only
  rw [hset]
  rfl

/-- A description is only applied by a side that may: an offer by the yielding one or by one
that has made none, an answer by one that has made an offer. -/
theorem Follows.marked (h : Follows R ids first x p y) {d : Description}
    (hturn : ¬ (d.type = .offer ∧ p.outstanding R = true ∧ p.mRemoteId < p.localId))
    (hasked : d.type = .answer → p.outstanding R = true) :
    Follows R ids first x (applied R p d p.mPeerConnection) y :=
  { h with
    abandoned := by
      intro habandoned
      rcases (Bool.or_eq_true _ _).mp habandoned with hold | hnew
      · exact h.abandoned hold
      · rw [Bool.and_eq_true, decide_eq_true_eq] at hnew
        refine decide_eq_false fun hfirm => hturn ⟨hnew.1, hnew.2, ?_⟩
        rw [h.localId, h.remoteId]
        exact hfirm
    unasked := by
      refine (Bool.or_eq_false_iff).mpr ⟨h.unasked, ?_⟩
      by_cases htype : d.type = .answer
      · rw [hasked htype, Bool.not_true, Bool.and_false]
      · rw [decide_eq_false htype, Bool.false_and] }

theorem follows_answer (hR : RtcLaws R) (h : Follows R ids first x p y) {d : Description}
    (hmade : Made R (type .answer) d) (hphase : y.phase = .offered) :
    Follows R ids first x (p.receiveDescription R d) ⟨.completed, y.seen⟩ := by
  have hstate : R.signalingState p.mPeerConnection = .haveLocalOffer := by
    rw [h.phased.state, hphase]
    rfl
  obtain ⟨pc, hset, hpc⟩ := hR.answer_completes p.mPeerConnection d hmade hstate
  obtain ⟨offer, hlocal, hoffer⟩ := h.phased.local_some .offer (by rw [hphase]; rfl)
  rw [hlocal] at hpc
  have hphased : Phased R pc .completed :=
    h.phased.settles hpc hoffer rfl (by rw [hphase]; rfl)
  have hturn : ¬ (d.type = .offer ∧ p.outstanding R = true ∧ p.mRemoteId < p.localId) := by
    rintro ⟨htype, -⟩
    rw [hmade.type] at htype
    cases htype
  rw [receive_applied p hturn hset]
  exact (h.marked hturn fun _ => decide_eq_true hstate).silent hphased (by rw [hphase]; rfl)

theorem follows_offer (hR : RtcLaws R) (h : Follows R ids first x p y) {d : Description}
    (hmade : Made R (type .offer) d) (hawaits : y.phase.awaits .offer = true) :
    Follows R ids first x (p.receiveDescription R d)
      ⟨y.phase.react (role ids x) .offer, y.seen⟩ := by
  have houtstanding : p.outstanding R = decide (state y.phase = .haveLocalOffer) := by
    rw [Peering.outstanding, h.phased.state]
  by_cases hturn : d.type = .offer ∧ p.outstanding R = true ∧ p.mRemoteId < p.localId
  · -- the tiebreaker
    have hrole : role ids x = true := by
      rw [role, ← h.remoteId, ← h.localId]
      exact decide_eq_true hturn.2.2
    have hkept : y.phase.react (role ids x) .offer = y.phase := by
      rw [hrole]
      rcases y with ⟨_ | _ | _ | _ | _ | _ | _, seen⟩
      · rw [houtstanding] at hturn
        cases hturn.2.1
      all_goals rfl
    rw [Peering.receiveDescription, if_pos hturn, hkept]
    exact { h with ignored := fun _ => hrole }
  · have hstable : R.signalingState p.mPeerConnection = .stable ∨
        R.signalingState p.mPeerConnection = .haveLocalOffer := by
      rw [h.phased.state]
      cases hphase : y.phase with
      | offering | offered => exact Or.inr rfl
      | fresh | completed | answering | answered | yielded => exact Or.inl rfl
    obtain ⟨pc, a, hset, hanswer, hpc⟩ :=
      hR.offer_answered p.mPeerConnection d hmade hstable
    replace hanswer : Made R (type .answer) a := hanswer
    have hmarked := h.marked hturn fun htype => by
      rw [hmade.type] at htype
      cases htype
    have hyields : state y.phase = .haveLocalOffer → role ids x = false := by
      intro hstate
      refine decide_eq_false fun hfirm => hturn ⟨hmade.type, ?_, ?_⟩
      · rw [houtstanding, decide_eq_true hstate]
      · rw [h.localId, h.remoteId]
        exact hfirm
    rw [receive_applied p hturn hset]
    cases hphase : y.phase with
    | fresh =>
      have hphased : Phased R pc .answering :=
        h.phased.settles hpc hanswer rfl (by rw [hphase]; rfl)
      rw [onLocalDescription_quiet _ hphased.settled]
      exact hmarked.silent hphased (by rw [hphase]; rfl)
    | offering =>
      have hphased : Phased R pc .answering :=
        h.phased.settles hpc hanswer rfl (by rw [hphase]; rfl)
      rw [onLocalDescription_quiet _ hphased.settled, hyields (by rw [hphase]; rfl)]
      exact hmarked.silent hphased (by rw [hphase]; rfl)
    | offered =>
      have hphased : Phased R pc .yielded :=
        h.phased.settles hpc hanswer rfl (by rw [hphase]; rfl)
      have hcomplete : R.gatheringComplete (applied R p d pc).mPeerConnection = true :=
        hphased.settled
      rw [Peering.onLocalDescription, if_pos hcomplete, hyields (by rw [hphase]; rfl)]
      exact hmarked.sends hphased hanswer (by rw [hphase]; rfl)
    | completed | answering | answered | yielded =>
      rw [hphase] at hawaits
      cases hawaits

theorem follows_description (hR : RtcLaws R) (h : Follows R ids first x p y) {kind : Kind}
    {d : Description} (hmade : Made R (type kind) d) (hawaits : y.phase.awaits kind = true) :
    Follows R ids first x (p.receiveDescription R d)
      ⟨y.phase.react (role ids x) kind, y.seen⟩ := by
  cases kind with
  | offer => exact follows_offer hR h hmade hawaits
  | answer =>
    have hphase : y.phase = .offered := by
      cases hphase : y.phase with
      | offered => rfl
      | fresh | offering | completed | answering | answered | yielded =>
        rw [hphase] at hawaits
        cases hawaits
    have hreact : y.phase.react (role ids x) .answer = .completed := by rw [hphase]; rfl
    rw [hreact]
    exact follows_answer hR h hmade hphase

/-- A signal of the other side is filtered by its number, which tells how many are older. -/
theorem follows_incoming (hR : RtcLaws R) (h : Follows R ids first x p y) {kinds : List Kind}
    {signals : List Signal} (hsignals : Signals R (first !x) kinds signals) {k : Fin 2}
    {signal : Signal} (hsignal : signals[k.val]? = some signal) {kind : Kind}
    (hkind : kinds[k.val]? = some kind)
    (hawaits : y.Listens k → y.phase.awaits kind = true) :
    Follows R ids first x (p.incoming R signal) (y.hear (role ids x) kind k) := by
  obtain ⟨kind', d, hkind', hsequence, hmade, hpayload⟩ := hsignals.carries k signal hsignal
  obtain rfl : kind = kind' := Option.some.inj (hkind.symm.trans hkind')
  have hseen : y.seen.val ≤ sequenceWindow + 1 := by
    have := y.seen.isLt
    unfold sequenceWindow
    omega
  have hk : k.val ≤ sequenceWindow := by
    have := k.isLt
    unfold sequenceWindow
    omega
  obtain ⟨hfresh, htable⟩ := checkSequence_residue h.heard hseen hk
  obtain ⟨table, hkept⟩ := checkSequence_kept p.mTransport (ids !x) signal.sequence
  rw [← hsequence] at hfresh htable
  rw [Peering.incoming, h.remoteId]
  dsimp only
  rw [hfresh]
  have hnext : (p.mTransport.checkSequence (ids !x) signal.sequence).2.mSendSequence =
      first x + UInt32.ofNat y.phase.sent.length := by
    rw [hkept]
    exact h.next
  by_cases hlistens : y.Listens k
  · have hle : y.seen.val ≤ k.val := hlistens
    rw [if_pos (decide_eq_true hle), Side.hear, if_pos hlistens, hpayload,
      ← List.append_nil (packStrings _), receive_packed hR _ hmade.text]
    rw [if_pos hle] at htable
    refine follows_description hR ?_ hmade (hawaits hlistens) (y := ⟨y.phase, k.succ⟩)
    exact { h with
      remoteId := rfl
      next := hnext
      heard := htable
      received := fun hzero => absurd hzero (Fin.succ_ne_zero k) }
  · have hlt : ¬ y.seen.val ≤ k.val := hlistens
    rw [if_neg (by rw [decide_eq_true_eq]; exact hlt), Side.hear, if_neg hlistens]
    rw [if_neg hlt] at htable
    exact { h with
      remoteId := rfl
      next := hnext
      heard := htable
      received := fun hzero => absurd (by rw [hzero]; exact Nat.zero_le _) hlt }

variable (R) in
structure Simulates (ids : Bool → Id) (first : Bool → UInt32) (w : World Id Pc)
    (s : Session) : Prop where
  distinct : ids true ≠ ids false
  follows : ∀ x, Follows R ids first x (w x) (s.side (role ids x))
  consistent : Consistent s

variable {w : World Id Pc} {s : Session}

theorem simulates_start (hR : RtcLaws R) (hw : Start R ids w) :
    Simulates R ids (fun x => (w x).mTransport.mSendSequence) w OfferAnswer.initial where
  distinct := hw.distinct
  follows := by
    intro x
    have hside : OfferAnswer.initial.side (role ids x) = ⟨.fresh, 0⟩ := by
      cases role ids x <;> rfl
    rw [hside]
    exact {
      localId := hw.localId x
      remoteId := hw.remoteId x
      phased := hw.connection x ▸ phased_initial hR
      signals := by
        rw [hw.sent x]
        refine ⟨rfl, ?_⟩
        intro k signal hsignal
        cases hsignal
      next := (UInt32.add_zero _).symm
      heard := hw.unheard x
      received := fun _ => hw.received x
      ignored := by
        rw [hw.ignored x]
        intro h
        cases h
      abandoned := by
        rw [hw.abandoned x]
        intro h
        cases h
      unasked := hw.unasked x }
  consistent := initial_consistent

theorem Simulates.moves (h : Simulates R ids first w s) {x : Bool} {p : Peering Id Pc} {y : Side}
    (hp : Follows R ids first x p y) (hs : Consistent (s.setSide (role ids x) y)) :
    Simulates R ids first (Function.update w x p) (s.setSide (role ids x) y) where
  distinct := h.distinct
  follows := by
    intro z
    rcases Bool.eq_or_eq_not z x with rfl | rfl
    · rw [Function.update_self, side_setSide]
      exact hp
    · rw [Function.update_of_ne (Bool.not_ne_self x), role_not h.distinct, side_setSide_other,
        ← role_not h.distinct]
      exact h.follows !x
  consistent := hs

theorem simulates_step (hR : RtcLaws R) (h : Simulates R ids first w s) (e : Happening) :
    ∃ s', Simulates R ids first (step R w e) s' := by
  cases e with
  | connect x =>
    exact ⟨_, h.moves (follows_connect hR (h.follows x))
      (consistent_step h.consistent (.connect (role ids x)))⟩
  | gathered x =>
    rw [step]
    split_ifs with hgathering
    · exact ⟨_, h.moves (follows_gathered hR (h.follows x) hgathering)
        (consistent_step h.consistent (.gathered (role ids x)))⟩
    · exact ⟨s, h⟩
  | deliver x signal =>
    rw [step]
    split_ifs with hsent
    · obtain ⟨i, hsignal⟩ := List.getElem?_of_mem hsent
      have hsignals := (h.follows !x).signals
      obtain ⟨kind, d, hkind, -⟩ := hsignals.carries i signal hsignal
      rw [role_not h.distinct] at hsignals hkind
      have hi : i < 2 := by
        have hlt := (List.getElem?_eq_some_iff.mp hkind).1
        have hsize : (s.side !role ids x).phase.sent.length ≤ 2 := by
          cases (s.side !role ids x).phase <;> decide
        omega
      have hstep := consistent_step h.consistent (.deliver (role ids x) ⟨i, hi⟩)
      rw [Session.step, hkind] at hstep
      exact ⟨_, h.moves (follows_incoming hR (h.follows x) hsignals (k := ⟨i, hi⟩) hsignal hkind
        (listens_awaits h.consistent hkind)) hstep⟩
    · exact ⟨s, h⟩

theorem simulates_run (hR : RtcLaws R) (h : Simulates R ids first w s)
    (happenings : List Happening) : ∃ s', Simulates R ids first (run R w happenings) s' := by
  induction happenings generalizing w s with
  | nil => exact ⟨s, h⟩
  | cons e happenings ih =>
    obtain ⟨s', h'⟩ := simulates_step hR h e
    exact ih h'

theorem waiting_phase (h : Follows R ids first x p y) (hwaits : p.outstanding R = true)
    (hgathered : gathering R p.mPeerConnection = false) : y.phase = .offered := by
  rw [Peering.outstanding, decide_eq_true_eq, h.phased.state] at hwaits
  have hungathered := phased_ungathered h.phased hgathered
  cases hphase : y.phase with
  | offered => rfl
  | fresh | completed | answering | answered | yielded =>
    rw [hphase] at hwaits
    cases hwaits
  | offering =>
    rw [hphase] at hungathered
    cases hungathered

def AllArrived (w : World Id Pc) : Prop :=
  ∀ x, ∀ signal ∈ (w x).sent, signal ∈ (w !x).received

variable (R) in
/-- The two sides are on the way to one session. -/
structure OneSession (w : World Id Pc) : Prop where
  ignored : ¬ ∀ x, (w x).ignored = true
  abandoned : ¬ ∀ x, (w x).abandoned = true
  unasked : ∀ x, (w x).unasked = false
  answered : AllArrived w → (∀ x, gathering R (w x).mPeerConnection = false) →
    ¬ ∀ x, (w x).outstanding R = true

theorem simulates_session (h : Simulates R ids first w s) : OneSession R w := by
  obtain ⟨x, hx⟩ : ∃ x, role ids x = true := by
    cases htrue : role ids true with
    | true => exact ⟨true, htrue⟩
    | false => exact ⟨false, by rw [← Bool.not_true, role_not h.distinct, htrue, Bool.not_false]⟩
  have hother : role ids (!x) = false := by rw [role_not h.distinct, hx, Bool.not_true]
  refine ⟨?_, ?_, fun x => (h.follows x).unasked, ?_⟩
  · intro hignored
    exact Bool.false_ne_true (hother.symm.trans ((h.follows !x).ignored (hignored !x)))
  · intro habandoned
    exact Bool.false_ne_true (((h.follows x).abandoned (habandoned x)).symm.trans hx)
  · intro harrived hgathered hwaiting
    have hfirm := h.follows x
    have hyielding := h.follows !x
    rw [hx] at hfirm
    rw [hother] at hyielding
    have hoffered := waiting_phase hfirm (hwaiting x) (hgathered x)
    -- the firm side has sent its offer, and the other one has seen nothing of it
    have hunseen : s.yielding.seen = 0 :=
      offers_unseen h.consistent hoffered (waiting_phase hyielding (hwaiting !x) (hgathered !x))
    have hreceived : (w !x).received = [] := hyielding.received hunseen
    have hsent : (w x).sent ≠ [] := by
      intro hnil
      have hlength := hfirm.signals.length
      rw [hnil, hoffered] at hlength
      cases hlength
    obtain ⟨signal, hsignal⟩ := List.exists_mem_of_ne_nil _ hsent
    have hlost := harrived x signal hsignal
    rw [hreceived] at hlost
    cases hlost

/-- However the two sides connect and the network orders and repeats their signals, they
come to one session. -/
theorem simultaneous_offers (hR : RtcLaws R) (hw : Start R ids w)
    (happenings : List Happening) : OneSession R (run R w happenings) := by
  obtain ⟨s, hs⟩ := simulates_run hR (simulates_start hR hw) happenings
  exact simulates_session hs

end Sides

namespace Sample

open PeerNegotiation.Sample

def ids (x : Bool) : ℕ := if x then 2 else 1

def world : World ℕ Connection := fun x =>
  ⟨ids x, ids !x, rtc.initial, Transport.initial 3 0, [], [], false, false, false⟩

theorem world_start : Start rtc ids world where
  distinct := by decide
  localId _ := rfl
  remoteId _ := rfl
  connection _ := rfl
  unheard _ := rfl
  sent _ := rfl
  received _ := rfl
  ignored _ := rfl
  abandoned _ := rfl
  unasked _ := rfl

def signal (sequence : UInt32) (type : DescriptionType) : Signal :=
  ⟨sequence, packStrings [rtc.typeString type, (description type).sdp]⟩

/-- Both sides offer, the answer overtakes the offer that it withdraws. -/
def glare : List Happening :=
  [.connect true, .connect false, .gathered true, .gathered false, .deliver false (signal 0 .offer),
    .deliver true (signal 1 .answer), .deliver true (signal 0 .offer), .connect false]

theorem glare_resolved :
    AllArrived (run rtc world glare) ∧ (∀ x, (run rtc world glare x).outstanding rtc = false) ∧
      OneSession rtc (run rtc world glare) :=
  ⟨by unfold AllArrived; decide +kernel, by decide +kernel,
    simultaneous_offers rtc_laws world_start glare⟩

/-- Before the candidates are gathered, both sides wait and nothing is on its way. -/
theorem silent_glare :
    ¬ ∀ (R : Rtc Connection) (ids : Bool → ℕ) (w : World ℕ Connection), RtcLaws R →
      Start R ids w → ∀ happenings, AllArrived (run R w happenings) →
        ¬ ∀ x, (run R w happenings x).outstanding R = true := by
  intro h
  refine h rtc ids world rtc_laws world_start [.connect true, .connect false] ?_ ?_
  · unfold AllArrived
    decide +kernel
  · decide +kernel

end Sample

end SimultaneousOffers
