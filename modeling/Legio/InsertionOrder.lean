import Legio.GraphRuns
import Legio.SerialNumbers

set_option linter.style.header false

/-! Inserting States of other nodes. The placeholders and the nested local updates depend
on the order of insertion; what is stored for the other nodes does not. -/
namespace InsertionOrder

open LegioBinary LegioCrypto LegioMessage LegioNode Containers RoutingTableSearch
open ExceptionStates LinkStateStore GraphUpdates GraphRuns ReplayFilter LatestValues

variable {Id Pair Ecdh Chan : Type} [LinearOrder Id] [DecidableEq Chan]

def insertAll (K : CryptoPP Id Pair Ecdh) (H : Host Id) :
    List (State Id) → NodeM Id Pair Ecdh Chan Unit
  | [] => pure ()
  | s :: states => do
    let _ ← Graph.insert K H s
    insertAll K H states

/-- The position of a State in the window that starts at `base`, in serial-number order. -/
def offset (base : Id → UInt32) (s : State Id) : ℕ := (s.sequence - base s.id).toNat

/-- States of other nodes, with different sequences for different States of a node and all
its sequences in one window. -/
structure Admissible (localId : Id) (base : Id → UInt32) (states : List (State Id)) : Prop where
  remote : ∀ s ∈ states, s.id ≠ localId
  distinct : ∀ s ∈ states, ∀ t ∈ states, s.id = t.id → s.sequence = t.sequence → s = t
  window : ∀ s ∈ states, offset base s ≤ sequenceWindow

variable {base : Id → UInt32} {states : List (State Id)} {localId : Id}

omit [LinearOrder Id] in
theorem ranked_of_admissible (h : Admissible localId base states) :
    Ranked State.id (offset base) states := by
  intro s hs t ht hid hoffset
  apply h.distinct s hs t ht hid
  have hsub : s.sequence - base s.id = t.sequence - base t.id := UInt32.toNat_inj.mp hoffset
  rw [hid] at hsub
  calc s.sequence = s.sequence - base t.id + base t.id := (UInt32.sub_add_cancel ..).symm
    _ = t.sequence := by rw [hsub, UInt32.sub_add_cancel]

omit [LinearOrder Id] in
/-- Inside the window `compare_sequence` compares the offsets. -/
theorem compareSequence_offset {s t : State Id} (hid : s.id = t.id)
    (hs : offset base s ≤ sequenceWindow) (ht : offset base t ≤ sequenceWindow) :
    0 < compareSequence s.sequence t.sequence ↔ offset base t < offset base s := by
  have hseq : ∀ s : State Id, s.sequence =
      UInt32.ofNat ((base s.id).toNat + offset base s) := by
    intro s
    rw [UInt32.ofNat_add, offset, UInt32.ofNat_toNat, UInt32.ofNat_toNat, UInt32.add_comm,
      UInt32.sub_add_cancel]
  rw [hseq s, hseq t, hid, compareSequence_ofNat (by omega) (by omega)]
  split_ifs <;> simp <;> omega

section Step
variable {K : CryptoPP Id Pair Ecdh} (H : Host Id) {n n' : Node Id Pair Ecdh Chan}

theorem updated_latest {s : State Id} {accepted : Bool} (hu : Updated H K n s accepted n')
    {history : List (State Id)}
    (hh : ∀ t ∈ history, offset base t ≤ sequenceWindow)
    (hw : offset base s ≤ sequenceWindow) {id : Id} (hid : id ≠ n.id K)
    (h : Latest State.id (offset base) n.graph.stateOf id history) :
    Latest State.id (offset base) n'.graph.stateOf id (history ++ [s]) := by
  have hbound : ∀ c, n.graph.stateOf id = some c → offset base c ≤ sequenceWindow :=
    fun c hc => hh c (h.presented hc).1
  -- a fresh State is stored under its identifier and leaves the other entries
  have hfresh : Fresh n s → (∀ id, id ≠ n.id K →
      n'.graph.stateOf id = if id = s.id then some s else n.graph.stateOf id) →
      Latest State.id (offset base) n'.graph.stateOf id (history ++ [s]) := by
    intro hf hstates
    by_cases heq : s.id = id
    · apply latest_replaced h heq (by rw [hstates id hid, if_pos heq.symm])
      intro c hc
      have hcid : s.id = c.id := heq.trans (h.presented hc).2.symm
      have := (compareSequence_offset hcid hw (hbound c hc)).mp (hf c (heq ▸ hc))
      omega
    · exact latest_kept h (by rw [hstates id hid, if_neg (Ne.symm heq)])
        fun heq' => absurd heq' heq
  cases hu with
  | stale hf =>
    apply latest_kept h rfl
    intro heq
    obtain ⟨c, hc, hle⟩ := not_fresh_iff.mp hf
    rw [heq] at hc
    have hcid : s.id = c.id := heq.trans (h.presented hc).2.symm
    refine ⟨c, hc, ?_⟩
    by_contra hlt
    have := (compareSequence_offset hcid hw (hbound c hc)).mpr (by omega)
    omega
  | accepted hf _ hview _ =>
    apply hfresh hf
    intro id _
    rw [← view_states, hview, accept_states, Function.update_apply, view_states]
  | answered hf _ hview _ =>
    apply hfresh hf
    intro id hid
    have hlocal : id ≠ (n.localState K).id := hid
    rw [← view_states, hview, accept_states, Function.update_apply, accept_states,
      Function.update_of_ne hlocal, view_states]

theorem updated_id {s : State Id} {accepted : Bool} (hu : Updated H K n s accepted n') :
    n'.id K = n.id K := by
  cases hu with
  | stale _ => rfl
  | accepted _ _ _ hkept => exact id_congr hkept
  | answered _ _ _ hann => exact announced_id H hann

variable (hK : EcdsaLaws K) (hE : EcdhLaws K)
include hK hE

theorem insert_remote (h : Invariant K n) {s : State Id} (hs : s.id ≠ n.id K) :
    ∃ accepted n', Graph.insert K H s n = .ok accepted n' ∧ Invariant K n' ∧
      Updated H K n s accepted n' := by
  obtain ⟨depth, hdepth⟩ := H.stack_succ_succ
  obtain ⟨accepted, n', hrun, hrooted, hlocal, hu⟩ :=
    updateVertice_spec H hK hE h.rooted h.current h.bounded hs depth
  rw [← hdepth] at hrun
  exact ⟨accepted, n', hrun, invariant_updated H h hrooted hlocal hu, hu⟩

theorem insertAll_latest (states : List (State Id)) : ∀ (n : Node Id Pair Ecdh Chan)
    (history : List (State Id)), Invariant K n →
    Admissible (n.id K) base (history ++ states) →
    (∀ id, id ≠ n.id K → Latest State.id (offset base) n.graph.stateOf id history) →
    ∃ n', insertAll K H states n = .ok () n' ∧ Invariant K n' ∧ n'.id K = n.id K ∧
      ∀ id, id ≠ n.id K →
        Latest State.id (offset base) n'.graph.stateOf id (history ++ states) := by
  induction states with
  | nil =>
    intro n history hinv _ hlatest
    exact ⟨n, rfl, hinv, rfl, by simpa using hlatest⟩
  | cons s states ih =>
    intro n history hinv ha hlatest
    obtain ⟨accepted, n₁, hrun₁, hinv₁, hu⟩ :=
      insert_remote H hK hE hinv (ha.remote s (by simp))
    have hid := updated_id H hu
    have hstep : ∀ id, id ≠ n.id K →
        Latest State.id (offset base) n₁.graph.stateOf id (history ++ [s]) := by
      intro id hne
      have hh : ∀ t ∈ history, offset base t ≤ sequenceWindow :=
        fun t ht => ha.window t (List.mem_append_left _ ht)
      exact updated_latest H hu hh (ha.window s (by simp)) hne (hlatest id hne)
    have hsplit : history ++ s :: states = history ++ [s] ++ states := by simp
    rw [hsplit] at ha ⊢
    rw [← hid] at ha hstep ⊢
    obtain ⟨n', hrun, hinv', hid', hlatest'⟩ := ih n₁ (history ++ [s]) hinv₁ ha hstep
    refine ⟨n', ?_, hinv', hid', hlatest'⟩
    rw [insertAll, bind_ok hrun₁]
    exact hrun

theorem construct_insertAll (n : Node Id Pair Ecdh Chan) (mEcdh : Ecdh) (hb : Bounded n)
    (ha : Admissible (n.id K) base states) :
    ∃ n', (Graph.construct K H mEcdh >>= fun _ => insertAll K H states) n = .ok () n' ∧
      Invariant K n' ∧ n'.id K = n.id K ∧
      ∀ id, id ≠ n.id K → Latest State.id (offset base) n'.graph.stateOf id states := by
  obtain ⟨n₁, message, hrun₁, hrooted, hlocal, hview, hann⟩ := construct_spec H hK hE n mEcdh hb
  have hid₀ := announced_id H hann
  have hid : n₁.id K = n.id K := hid₀
  have hinv : Invariant K n₁ := by
    obtain ⟨n₂, hrun₂, hinv₂⟩ := construct_step H hK hE n hb mEcdh
    rw [hrun₁] at hrun₂
    cases hrun₂
    exact hinv₂
  have hempty : ∀ id, id ≠ n₁.id K →
      Latest State.id (offset base) n₁.graph.stateOf id [] := by
    intro id hne
    apply latest_nil
    rw [hid] at hne
    rw [← view_states, hview, accept_states]
    exact Function.update_of_ne hne ..
  rw [← hid] at ha
  obtain ⟨n', hrun, hinv', hid', hlatest⟩ :=
    insertAll_latest H hK hE states n₁ [] hinv (by simpa using ha) hempty
  refine ⟨n', ?_, hinv', hid'.trans hid, ?_⟩
  · rw [bind_ok hrun₁]
    exact hrun
  · rw [← hid]
    simpa using hlatest

end Step

section Reading
variable {K : CryptoPP Id Pair Ecdh}

omit [DecidableEq Chan] in
theorem get_toOption (g : LegioNode.Graph Id Ecdh) (id : Id) :
    (g.get id).toOption = g.stateOf id := by
  unfold Graph.get Graph.stateOf
  cases g.findVertice id with
  | none => rfl
  | some p => cases hs : (g.heap p).state <;> simp [hs, Except.toOption]

omit [DecidableEq Chan] in
theorem mem_nodes (H : Host Id) (g : LegioNode.Graph Id Ecdh) (id : Id) :
    id ∈ g.nodes H ↔ (g.stateOf id).isSome := by
  unfold Graph.nodes
  simp only [List.mem_map, List.mem_filter]
  constructor
  · rintro ⟨⟨id', p⟩, ⟨hp, hs⟩, rfl⟩
    rw [stateOf_of_lookup ((mem_enumerate H _ _ _).mp hp)]
    exact hs
  · intro hs
    cases hp : g.mVertices.lookup id with
    | none =>
      rw [stateOf_of_notMem hp] at hs
      cases hs
    | some p =>
      rw [stateOf_of_lookup hp] at hs
      exact ⟨(id, p), ⟨(mem_enumerate H _ _ _).mpr hp, hs⟩, rfl⟩

omit [LinearOrder Id] [DecidableEq Chan] in
theorem nodup_nodes (H : Host Id) (g : LegioNode.Graph Id Ecdh) : (g.nodes H).Nodup :=
  (nodup_enumerate H g.mVertices).sublist (List.filter_sublist.map Prod.fst)

end Reading

/-- Two graphs constructed with the same routing neighbours, on hosts that may differ, and
given the same States in any order with any repetitions: they know the same nodes, have for
each other node the State of greatest serial number, and the same edges there. -/
theorem insertion_order {K : CryptoPP Id Pair Ecdh} (hK : EcdsaLaws K) (hE : EcdhLaws K)
    (H₁ H₂ : Host Id) (n₁ n₂ : Node Id Pair Ecdh Chan) (mEcdh₁ mEcdh₂ : Ecdh)
    (hid : n₂.id K = n₁.id K) (hneighbors : n₂.routing.neighbors = n₁.routing.neighbors)
    (hb : Bounded n₁) {states₁ states₂ : List (State Id)}
    (ha : Admissible (n₁.id K) base states₁) (hsame : ∀ s, s ∈ states₁ ↔ s ∈ states₂) :
    ∃ n₁' n₂',
      (Graph.construct K H₁ mEcdh₁ >>= fun _ => insertAll K H₁ states₁) n₁ = .ok () n₁' ∧
      (Graph.construct K H₂ mEcdh₂ >>= fun _ => insertAll K H₂ states₂) n₂ = .ok () n₂' ∧
      (n₁'.graph.nodes H₁).Perm (n₂'.graph.nodes H₂) ∧
      ∀ id, id ≠ n₁.id K →
        (n₁'.graph.get id).toOption = (n₂'.graph.get id).toOption ∧
        (∀ s, n₁'.graph.get id = .ok s ↔ s ∈ states₁ ∧ s.id = id ∧
          ∀ t ∈ states₁, t.id = id → offset base t ≤ offset base s) ∧
        ((n₁'.graph.get id).toOption.isSome → n₁'.graph.edgesOf id = n₂'.graph.edgesOf id) := by
  have ha₂ : Admissible (n₂.id K) base states₂ := by
    rw [hid]
    constructor
    · intro s hs
      exact ha.remote s ((hsame s).mpr hs)
    · intro s hs t ht
      exact ha.distinct s ((hsame s).mpr hs) t ((hsame t).mpr ht)
    · intro s hs
      exact ha.window s ((hsame s).mpr hs)
  have hb₂ : Bounded n₂ := by
    rw [Bounded, hneighbors]
    exact hb
  obtain ⟨n₁', hrun₁, hinv₁, hid₁, hlatest₁⟩ := construct_insertAll H₁ hK hE n₁ mEcdh₁ hb ha
  obtain ⟨n₂', hrun₂, hinv₂, hid₂, hlatest₂⟩ := construct_insertAll H₂ hK hE n₂ mEcdh₂ hb₂ ha₂
  have hranked := ranked_of_admissible ha
  have hagree : ∀ id, id ≠ n₁.id K → n₁'.graph.stateOf id = n₂'.graph.stateOf id := by
    intro id hne
    exact latest_agree (hlatest₁ id hne) (hlatest₂ id (hid ▸ hne)) hranked hsame
  refine ⟨n₁', n₂', hrun₁, hrun₂, ?_, ?_⟩
  · rw [List.perm_ext_iff_of_nodup (nodup_nodes _ _) (nodup_nodes _ _)]
    intro id
    rw [mem_nodes, mem_nodes]
    by_cases hne : id = n₁.id K
    · -- the local vertex has a State in both
      obtain ⟨c₁, hc₁, _⟩ := hinv₁.current
      obtain ⟨c₂, hc₂, _⟩ := hinv₂.current
      rw [hid₁] at hc₁
      rw [hid₂, hid] at hc₂
      rw [hne, hc₁, hc₂]
      rfl
    · rw [hagree id hne]
  · intro id hne
    refine ⟨?_, ?_, ?_⟩
    · rw [get_toOption, get_toOption, hagree id hne]
    · intro s
      rw [← latest_iff (hlatest₁ id hne) hranked, ← get_toOption]
      cases n₁'.graph.get id <;> simp [Except.toOption]
    · intro _
      have h₁ := hinv₁.follows id
      have h₂ := hinv₂.follows id
      rw [view_edges, view_states] at h₁ h₂
      rw [h₁, h₂, hagree id hne]

/-- Node 1 gets two States of node 2, one numbered after the wrap-around, and one of node
3, in two orders and with a repetition. -/
theorem insertion_order_sample :
    let older : State (Fin 4) := ⟨2, 4294967295, LegioCrypto.Sample.crypto.ecdhPublicKey 2, {1, 3}⟩
    let newer : State (Fin 4) := ⟨2, 0, LegioCrypto.Sample.crypto.ecdhPublicKey 2, {1}⟩
    let third : State (Fin 4) := ⟨3, 7, LegioCrypto.Sample.crypto.ecdhPublicKey 3, ∅⟩
    ∃ n₁' n₂',
      (Graph.construct LegioCrypto.Sample.crypto Sample.host 1 >>= fun _ =>
        insertAll LegioCrypto.Sample.crypto Sample.host [older, newer, third])
          (Sample.node 1) = .ok () n₁' ∧
      (Graph.construct LegioCrypto.Sample.crypto Sample.host 2 >>= fun _ =>
        insertAll LegioCrypto.Sample.crypto Sample.host [third, newer, older, newer])
          (Sample.node 1) = .ok () n₂' ∧
      (n₁'.graph.get 2).toOption = some newer ∧ (n₂'.graph.get 2).toOption = some newer := by
  intro older newer third
  have ha : Admissible (1 : Fin 4) (fun id => if id = 2 then 4294967295 else 7)
      [older, newer, third] := ⟨by decide, by decide, by unfold offset sequenceWindow; decide⟩
  have hsame : ∀ s, s ∈ [older, newer, third] ↔ s ∈ [third, newer, older, newer] := by
    intro s
    simp only [List.mem_cons, List.not_mem_nil, or_false]
    tauto
  obtain ⟨n₁', n₂', hrun₁, hrun₂, _, hget⟩ := insertion_order LegioCrypto.Sample.ecdsaLaws
    LegioCrypto.Sample.ecdhLaws Sample.host Sample.host (Sample.node 1) (Sample.node 1) 1 2
    rfl rfl (by unfold Bounded; decide) ha hsame
  obtain ⟨heq, hlatest, _⟩ := hget 2 (by decide)
  have hnewer := (hlatest newer).mpr (by decide)
  refine ⟨n₁', n₂', hrun₁, hrun₂, ?_, ?_⟩
  · rw [hnewer]
    rfl
  · rw [← heq, hnewer]
    rfl

end InsertionOrder
