import Legio.RoutingTableCompleteness
import Mathlib.Data.Fintype.Card

set_option linter.style.header false

/-! What is left of a State whose insertion throws. The only exception, apart from running
out of stack, is that the local State to announce first does not fit in a message, and it
comes after the sequence number has been taken. -/
namespace FailedInserts

open LegioBinary LegioCrypto LegioMessage LegioNode Containers
open ExceptionStates LinkStateStore GraphUpdates GraphRuns
open GraphInvariants (Withstands Placed keeps_broadcastStateWith keeps_updateVertice)
open RoutingTableCompleteness (withstands_rooted reachable_rooted)

variable {Id Pair Ecdh Chan : Type} [LinearOrder Id]
variable {K : CryptoPP Id Pair Ecdh} (H : Host Id)

/-- A node that has what it takes to announce its State. -/
def Ready (K : CryptoPP Id Pair Ecdh) (n : Node Id Pair Ecdh Chan) : Prop :=
  Rooted K n ∧ Bounded n

/-- Nesting too deep; in the source the process ends there. -/
abbrev Overflow : Error → Prop := fun e => e = .stackOverflow

theorem keeps_updateEdges (id : Id) (neighbors : Finset Id) :
    Keeps (Ready K) (Graph.updateEdges K H id neighbors : NodeM Id Pair Ecdh Chan Bool) := by
  intro n hn
  by_cases hid : id ∈ n.graph.mVertices
  · obtain ⟨n', hrun, hchange⟩ := updateEdges_spec H hn.1 hid neighbors
    rw [hrun]
    exact ⟨hchange.rooted, bounded_congr hn.2 hchange.kept⟩
  · rw [updateEdges_unknown H hid]
    exact hn

section Announcing
variable [DecidableEq Chan]

theorem withstands_ready : Withstands K H (fun n : Node Id Pair Ecdh Chan => Ready K n)
    (fun _ => True) fun _ => True where
  own _ _ := trivial
  signed _ _ _ _ := trivial
  edges := keeps_updateEdges H
  counted n hn := ⟨(withstands_rooted H).counted n hn.1, hn.2⟩
  announced n s m hn hm := ⟨(withstands_rooted H).announced n s m hn.1 hm, hn.2⟩
  stored n s p hn hs hp := ⟨(withstands_rooted H).stored n s p hn.1 hs hp, hn.2⟩
  entered n s hn hs hp := ⟨(withstands_rooted H).entered n s hn.1 hs hp, hn.2⟩

omit [DecidableEq Chan] in
theorem throws_updateStoredEdges {n : Node Id Pair Ecdh Chan} (h : Rooted K n) {id : Id}
    {p : Ptr} (hp : n.graph.mVertices.lookup id = some p) :
    ThrowsOnly Overflow (Graph.updateVertice.updateStoredEdges K H p) n := by
  cases hs : (n.graph.heap p).state with
  | none =>
    intro e n' hrun
    simp only [Graph.updateVertice.updateStoredEdges, get_bind_run, hs] at hrun
    cases hrun
  | some s =>
    obtain ⟨n', hrun, -⟩ := updateStoredEdges_spec H h hp hs
    exact throwsOnly_ok hrun

theorem throws_broadcastStateWith (hK : EcdsaLaws K) (hE : EcdhLaws K)
    {update : State Id → NodeM Id Pair Ecdh Chan Bool}
    (hu : ∀ s n, Ready K n → ThrowsOnly Overflow (update s) n) {n : Node Id Pair Ecdh Chan}
    (hn : Ready K n) : ThrowsOnly Overflow (Graph.broadcastStateWith K H update) n := by
  obtain ⟨message, hmessage, -⟩ := localState_message hK hE H.byteOrder hn.2
  have hcounted := (withstands_ready H).counted n hn
  intro e n' hrun
  simp only [Graph.broadcastStateWith, get_bind_run, modifyGraph, modify_bind_run, hmessage]
    at hrun
  refine throwsOnly_bind (hu _ _ hcounted) (fun accepted n₁ _ => ?_) e n' hrun
  exact throwsOnly_ok rfl

/-- Below the limit an update throws only when it nests too deeply. -/
theorem throws_updateVertice (hK : EcdsaLaws K) (hE : EcdhLaws K) (depth : ℕ) :
    ∀ (s : State Id) (n : Node Id Pair Ecdh Chan), Ready K n →
      ThrowsOnly Overflow (Graph.updateVertice K H depth s) n := by
  induction depth with
  | zero =>
    intro s n _ e n' hrun
    cases hrun
    rfl
  | succ depth ih =>
    intro s n hn
    have hbroadcast : ∀ n₀ : Node Id Pair Ecdh Chan,
        Keeps (fun n' => Ready K n' ∧ Placed n₀ n')
          (Graph.broadcastStateWith K H (Graph.updateVertice K H depth)) := fun n₀ =>
      keeps_broadcastStateWith (withstands_ready H) fun s _ =>
        keeps_updateVertice (withstands_ready H) depth s trivial n₀
    -- the vertex is where it was when the announcement is over, with its edges to follow
    have hafter : ∀ {n₁ : Node Id Pair Ecdh Chan} {id : Id} {p : Ptr}, Ready K n₁ →
        n₁.graph.mVertices.lookup id = some p →
        ThrowsOnly Overflow (do
          Graph.broadcastStateWith K H (Graph.updateVertice K H depth)
          Graph.updateVertice.updateStoredEdges K H p) n₁ := by
      intro n₁ id p hn₁ hp
      refine throwsOnly_bind (throws_broadcastStateWith H hK hE ih hn₁) fun _ n₂ hrun => ?_
      obtain ⟨hready, hplaced⟩ := keeps_ok (hbroadcast n₁) ⟨hn₁, fun _ _ hq => hq⟩ hrun
      exact throws_updateStoredEdges H hready.1 (hplaced _ _ hp)
    cases hp : n.graph.mVertices.lookup s.id with
    | none =>
      obtain ⟨hput, hstored⟩ := storeNew_spec hn.1.linked (Or.inr hn.1.root) hp
      have hentered := (withstands_ready H).entered n s hn trivial hp
      rw [ThrowsOnly, Graph.updateVertice]
      simp only [get_bind_run, Graph.findVertice, hp, modifyGraph, modify_bind_run]
      exact hafter hentered hstored
    | some p =>
      have hstore : ∀ {n₁ : Node Id Pair Ecdh Chan}, Ready K n₁ →
          n₁.graph.mVertices.lookup s.id = some p → ThrowsOnly Overflow (do
            modifyGraph fun g => g.modifyVertice p fun v => { v with state := some s }
            Graph.updateVertice.updateStoredEdges K H p) n₁ := by
        intro n₁ hn₁ hp₁
        obtain ⟨n', hrun, -⟩ := storeState_edges H hn₁.1 hp₁
        exact throwsOnly_ok hrun
      have hannounce : ThrowsOnly Overflow (do
          Graph.broadcastStateWith K H (Graph.updateVertice K H depth)
          modifyGraph fun g => g.modifyVertice p fun v => { v with state := some s }
          Graph.updateVertice.updateStoredEdges K H p) n := by
        refine throwsOnly_bind (throws_broadcastStateWith H hK hE ih hn) fun _ n₁ hrun => ?_
        obtain ⟨hready, hplaced⟩ := keeps_ok (hbroadcast n) ⟨hn, fun _ _ hq => hq⟩ hrun
        exact hstore hready (hplaced _ _ hp)
      rw [ThrowsOnly, Graph.updateVertice]
      simp only [get_bind_run, Graph.findVertice, hp]
      cases (n.graph.heap p).state with
      | none => exact hannounce
      | some current =>
        dsimp only
        split_ifs
        · exact throwsOnly_ok rfl
        · exact hannounce
        · exact hstore hn hp

theorem broadcastStateWith_overfull (hK : EcdsaLaws K) (hE : EcdhLaws K)
    (update : State Id → NodeM Id Pair Ecdh Chan Bool) {n : Node Id Pair Ecdh Chan}
    (hover : neighborLimit < n.routing.neighbors.card) :
    Graph.broadcastStateWith K H update n = .error (.runtimeError "Message body is too long")
      { n with graph := { n.graph with mStateSequence := n.graph.mStateSequence + 1 } } := by
  have hlong : uint16Max < ((n.localState K).body K).length := by
    have hkey : (n.localState K).ecdhPublic.length = ecdhKeySize := hE.public_length _
    exact Nat.lt_of_not_le fun hle => Nat.not_lt.mpr ((length_body_le_iff hK hkey).mp hle) hover
  have hmessage : (n.localState K).toMessage K H.byteOrder n.ecdsaPair =
      .error (.runtimeError "Message body is too long") :=
    sign_too_long K H.byteOrder
      ⟨MessageType.State, (n.localState K).sequence, none, none, (n.localState K).body K, []⟩
      n.ecdsaPair hlong
  simp only [Graph.broadcastStateWith, get_bind_run, modifyGraph, modify_bind_run, hmessage]
  rfl

/-- What is left of an announcement that throws: the sequence number is gone, and a State
whose sender was not stored at all has been entered. -/
structure Refused (s : State Id) (n n' : Node Id Pair Ecdh Chan) : Prop where
  kept : surroundings n' =
    { surroundings n with mStateSequence := n.graph.mStateSequence + 1 }
  stored : n'.graph.stateOf = n.graph.stateOf ∨
    n'.graph.stateOf = Function.update n.graph.stateOf s.id (some s)

theorem insert_overfull (hK : EcdsaLaws K) (hE : EcdhLaws K) {n : Node Id Pair Ecdh Chan}
    (hlinked : n.graph.Linked) (hover : neighborLimit < n.routing.neighbors.card) {s : State Id}
    (hfresh : Fresh n s) (hkey : ¬ KnownKey n s) :
    ∃ n', Graph.insert K H s n = .error (.runtimeError "Message body is too long") n' ∧
      Refused s n n' := by
  obtain ⟨depth, hdepth⟩ := H.stack_succ
  rw [Graph.insert, hdepth, Graph.updateVertice]
  cases hp : n.graph.mVertices.lookup s.id with
  | none =>
    obtain ⟨-, -, hview⟩ :=
      storeVertice_spec hlinked (v := { newVertice s.id with state := some s }) hp rfl
    simp only [get_bind_run, Graph.findVertice, hp, modifyGraph, modify_bind_run]
    refine ⟨_, bind_error (broadcastStateWith_overfull H hK hE _ (by exact hover)), rfl, ?_⟩
    exact Or.inr (congrArg View.states hview)
  | some p =>
    have hbroadcast := broadcastStateWith_overfull H hK hE (Graph.updateVertice K H depth) hover
    have hstate := stateOf_of_lookup hp
    simp only [get_bind_run, Graph.findVertice, hp]
    cases hc : (n.graph.heap p).state with
    | none => exact ⟨_, bind_error hbroadcast, rfl, Or.inl rfl⟩
    | some c =>
      rw [hc] at hstate
      have hnewer : ¬ compareSequence s.sequence c.sequence ≤ 0 := by
        have := hfresh c hstate
        omega
      have hdiff : c.ecdhPublic ≠ s.ecdhPublic := fun heq => hkey ⟨c, hstate, heq⟩
      dsimp only
      rw [if_neg hnewer, if_pos hdiff]
      exact ⟨_, bind_error hbroadcast, rfl, Or.inl rfl⟩

end Announcing

/-- The stored vertices, states and edges, the sequence of the local State and the routing
table are as they were. -/
structure Unchanged (n n' : Node Id Pair Ecdh Chan) : Prop where
  stored : view n'.graph = view n.graph
  sequence : n'.graph.mStateSequence = n.graph.mStateSequence
  table : n'.graph.mRoutingTable = n.graph.mRoutingTable
  published : n'.routing.mTable = n.routing.mTable

variable [DecidableEq Chan]

/-- If the insertion throws, it changes nothing. -/
def FailsCleanly (K : CryptoPP Id Pair Ecdh) (n : Node Id Pair Ecdh Chan) (s : State Id) : Prop :=
  ∀ e n', Graph.insert K H s n = .error e n' → ¬ Overflow e → Unchanged n n'

variable {initial : Node Id Pair Ecdh Chan → Prop}
variable {allowed : Node Id Pair Ecdh Chan → GraphEvent Id Chan → Prop}

/-- In every reachable state a failed insertion changes nothing exactly if the State is no
news, or brings no new key, or the local State fits in a message. -/
theorem failsCleanly_iff (hK : EcdsaLaws K) (hE : EcdhLaws K) {n : Node Id Pair Ecdh Chan}
    (h : Reachable K H initial allowed n) (s : State Id) :
    FailsCleanly H K n s ↔
      ¬ Fresh n s ∨ KnownKey n s ∨ n.routing.neighbors.card ≤ neighborLimit := by
  have hrooted := reachable_rooted H h
  constructor
  · intro hclean
    by_contra hcond
    push Not at hcond
    obtain ⟨hfresh, hkey, hover⟩ := hcond
    obtain ⟨n', hrun, hrefused⟩ := insert_overfull H hK hE hrooted.linked hover hfresh hkey
    have hsequence : n'.graph.mStateSequence = n.graph.mStateSequence + 1 :=
      congrArg Surroundings.mStateSequence hrefused.kept
    have hsame := (hclean _ n' hrun (by decide)).sequence
    rw [hsequence] at hsame
    exact absurd hsame (by simp)
  · intro hcond e n' hrun hthrown
    by_cases hfresh : Fresh n s
    · rcases hcond with hstale | hkey | hcard
      · exact absurd hfresh hstale
      · -- a newer State under the known key announces nothing
        obtain ⟨n₁, hok, -⟩ := insert_knownKey H hrooted hfresh hkey
        rw [hok] at hrun
        cases hrun
      · exact absurd (throws_updateVertice H hK hE H.stack s n ⟨hrooted, hcard⟩ e n' hrun)
          hthrown
    · rw [insert_notFresh H hfresh] at hrun
      cases hrun

-- A toy library with enough identities to go beyond the limit, and a node all of whose 1999
-- neighbours are connected.
namespace Sample

abbrev Name : Type := Fin 2000

def encodePoint (i : Name) : Binary :=
  .ofNat (i.val / 256) :: .ofNat i.val :: List.replicate 31 0

def decodePoint : Binary → Option Name
  | hi :: lo :: _ =>
    if h : hi.toNat * 256 + lo.toNat < 2000 then some ⟨hi.toNat * 256 + lo.toNat, h⟩ else none
  | _ => none

def sign (i : Name) (bin : Binary) : Binary :=
  encodePoint i ++ [LegioCrypto.Sample.checksum bin]

def crypto : CryptoPP Name Name Name where
  publicKey := id
  encodePoint := encodePoint
  decodePoint := decodePoint
  sign := sign
  verify i bin signature := signature == sign i bin
  ecdhPublicKey i := encodePoint i ++ List.replicate 32 0
  ecdhAgree i bin := some (List.replicate 32 (.ofNat i.val + bin.getD 1 0))
  sha256 bin := (bin ++ List.replicate 32 0).take 32
  setKeyWithIV key _ := LegioCrypto.Sample.refused key
  gcmEncryption key _ := ⟨LegioCrypto.Sample.keyStream key, fun _ => List.replicate gcmTagSize 0⟩
  gcmDecryption key _ := ⟨LegioCrypto.Sample.keyStream key, fun _ => List.replicate gcmTagSize 0⟩
  authenticatedEncryptionFilter := LegioCrypto.Sample.encryptionFilter
  arraySink size data := data.take size

theorem ecdsaLaws : EcdsaLaws crypto where
  encode_length _ := rfl
  decode_encode i := by
    have hi := i.isLt
    have hhigh : (UInt8.ofNat (i.val / 256)).toNat = i.val / 256 :=
      UInt8.toNat_ofNat_of_lt (show i.val / 256 < 256 by omega)
    have hlow : (UInt8.ofNat i.val).toNat = i.val % 256 := UInt8.toNat_ofNat'
    have hsum : i.val / 256 * 256 + i.val % 256 = i.val := by omega
    simp only [crypto, encodePoint, decodePoint, hhigh, hlow, hsum, dif_pos hi]
  verify_sign _ _ := by simp [crypto]

theorem ecdhLaws : EcdhLaws crypto where
  public_length _ := rfl
  agree_symmetric a b := by simp [crypto, encodePoint, UInt8.add_comm]
  agree_exists _ _ := rfl

def host : Host Name where
  byteOrder := .little
  address := id
  address_injective := Function.injective_id
  enumerate m := m.entries.map fun e => (e.1, e.2)
  enumerate_perm _ := .refl _
  stack := 3
  stack_nested := Nat.le_succ 2

def node : Node Name Name Name ℕ where
  ecdsaPair := 0
  wire := ⟨fun _ => true, fun _ => []⟩
  routing := .initial
  graph := emptyGraph 0 0
  signaling := .initial MessageType.Signaling 0
  userTransport := .initial MessageType.User 0

def others : List Name := (List.finRange 2000).filter fun i => i ≠ 0

def neighbors : UnorderedMap Name ℕ :=
  ⟨others.map fun i => ⟨i, i.val⟩, by
    rw [List.NodupKeys, List.keys, List.map_map]
    simpa [others, Function.comp_def] using (List.nodup_finRange 2000).filter _⟩

def crowd : GraphEvent Name ℕ :=
  .environment ⟨none, (Finset.range 2000).erase 0, neighbors⟩ node.wire node.signaling
    node.userTransport

def constructed : Node Name Name Name ℕ := final (Graph.construct crypto host 0 node)

def crowded : Node Name Name Name ℕ := final (crowd.handle crypto host constructed)

def announced : State Name := ⟨5, 0, crypto.ecdhPublicKey 5, {0}⟩

theorem card_crowded : crowded.routing.neighbors.card = 1999 := by
  have hkeys : keySet neighbors = Finset.univ.erase 0 := by
    ext i
    rw [mem_keySet, AList.mem_keys, neighbors, AList.keys, List.keys, List.map_map]
    simp [others, Function.comp_def]
  change (keySet neighbors).card = 1999
  rw [hkeys, Finset.card_erase_of_mem (Finset.mem_univ _), Finset.card_univ, Fintype.card_fin]

theorem reachable_crowded :
    @Reachable _ _ _ ℕ _ _ crypto host (fun _ => True) (fun _ _ => True) crowded := by
  obtain ⟨n', hrun, -⟩ := construct_step host ecdsaLaws ecdhLaws node
    (by unfold Bounded; decide) 0
  have hfinal : constructed = n' := congrArg final hrun
  have hstart : @Reachable _ _ _ ℕ _ _ crypto host (fun _ => True) (fun _ _ => True)
      constructed := by
    rw [hfinal]
    exact .construct 0 trivial hrun
  exact .event crowd hstart trivial

theorem unknown_crowded : crowded.graph.stateOf 5 = none := by decide +kernel

theorem fresh_crowded : Fresh crowded announced ∧ ¬ KnownKey crowded announced := by
  constructor
  · intro c hc
    rw [show crowded.graph.stateOf announced.id = none from unknown_crowded] at hc
    cases hc
  · rintro ⟨c, hc, -⟩
    rw [show crowded.graph.stateOf announced.id = none from unknown_crowded] at hc
    cases hc

theorem failsCleanly_sample : FailsCleanly host crypto crowded announced ↔
    ¬ Fresh crowded announced ∨ KnownKey crowded announced ∨
      crowded.routing.neighbors.card ≤ neighborLimit :=
  failsCleanly_iff host ecdsaLaws ecdhLaws reachable_crowded announced

/-- The State of an unknown node arrives at the crowded one. -/
theorem crowded_fails : ¬ ∀ (n : Node Name Name Name ℕ) (s : State Name),
    Reachable crypto host (fun _ => True) (fun _ _ => True) n →
      FailsCleanly host crypto n s := by
  intro h
  have hover : neighborLimit < crowded.routing.neighbors.card := by
    rw [card_crowded]
    decide
  have hrooted := reachable_rooted host reachable_crowded
  obtain ⟨n', hrun, hrefused⟩ :=
    insert_overfull host ecdsaLaws ecdhLaws hrooted.linked hover fresh_crowded.1 fresh_crowded.2
  have hsequence : n'.graph.mStateSequence = crowded.graph.mStateSequence + 1 :=
    congrArg Surroundings.mStateSequence hrefused.kept
  have hsame := (h crowded announced reachable_crowded _ n' hrun (by decide)).sequence
  rw [hsequence] at hsame
  exact absurd hsame (by simp)

end Sample

end FailedInserts
