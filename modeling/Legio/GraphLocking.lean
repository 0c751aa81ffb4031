import Legio.NodeLocks
import Legio.PublishedTable

set_option linter.style.header false

/-! Under which locks the graph calls the three functions whose comments ask for its mutex.
The functions of the graph run beside a list of these calls, each with whether the calling
thread held the mutex; without the list they are the functions of the node. -/
namespace GraphLocking

open LegioBinary LegioCrypto LegioMessage LegioNode Containers ExceptionStates LockedPrograms
open NodeLocks (Mutex ThreadM)

variable {Id Pair Ecdh Chan : Type}

inductive Helper where
  | updateVertice
  | updateEdges
  | computeRoutingTable
  deriving DecidableEq

structure Call where
  helper : Helper
  exclusive : Bool
  deriving DecidableEq

structure Memory (Id Pair Ecdh Chan : Type) where
  node : Node Id Pair Ecdh Chan
  calls : List Call

/-- What a thread runs beside the list of its calls. -/
abbrev CallM (Id Pair Ecdh Chan : Type) := LockM Mutex Error (Memory Id Pair Ecdh Chan)

def called (helper : Helper) : CallM Id Pair Ecdh Chan Unit := fun t =>
  .ok () { t with memory := { t.memory with
    calls := t.memory.calls ++ [⟨helper, decide (Mutex.graph ∈ t.held)⟩] } }

def recorded {α : Type} (calls : List Call) :
    EStateM.Result (Stop Mutex Error) (Thread Mutex (Node Id Pair Ecdh Chan)) α →
      EStateM.Result (Stop Mutex Error) (Thread Mutex (Memory Id Pair Ecdh Chan)) α
  | .ok a t => .ok a ⟨t.held, ⟨t.memory, calls⟩⟩
  | .error e t => .error e ⟨t.held, ⟨t.memory, calls⟩⟩

def within {α : Type} (p : ThreadM Id Pair Ecdh Chan α) : CallM Id Pair Ecdh Chan α := fun t =>
  recorded t.memory.calls (p ⟨t.held, t.memory.node⟩)

section Functions
variable [LinearOrder Id] [DecidableEq Chan] (K : CryptoPP Id Pair Ecdh) (H : Host Id)

def Graph.computeRoutingTable : CallM Id Pair Ecdh Chan Unit := do
  called .computeRoutingTable
  within (NodeLocks.Graph.computeRoutingTable K H)

def Graph.relink (id : Id) (neighbors : Finset Id) : CallM Id Pair Ecdh Chan Bool := do
  let n ← within memory
  match n.graph.findVertice id with
  | none => within (raise (.invalidArgument "Vertice not found"))
  | some vertice =>
    let currentNeighbors := keySet (n.graph.heap vertice).edges
    let added := neighbors \ currentNeighbors
    let removed := currentNeighbors \ neighbors
    if added = ∅ ∧ removed = ∅ then return false
    else
      within (free (modifyGraph fun g =>
        (iterate added).foldl (Graph.link vertice)
          ((iterate removed).foldl (Graph.unlink vertice) g)))
      Graph.computeRoutingTable K H
      return true

def Graph.updateEdges (id : Id) (neighbors : Finset Id) : CallM Id Pair Ecdh Chan Bool := do
  called .updateEdges
  Graph.relink K H id neighbors

def Graph.broadcastStateWith (update : State Id → CallM Id Pair Ecdh Chan Bool) :
    CallM Id Pair Ecdh Chan Unit := do
  let n ← within memory
  within (free (modifyGraph fun g => { g with mStateSequence := g.mStateSequence + 1 }))
  let neighbors ← within NodeLocks.Routing.neighbors
  let state : State Id :=
    ⟨n.id K, n.graph.mStateSequence, K.ecdhPublicKey n.graph.mEcdh, neighbors⟩
  match state.toMessage K H.byteOrder n.ecdsaPair with
  | .error e => within (raise e)
  | .ok message =>
    let _ ← update state
    within (NodeLocks.Routing.broadcast K H message none)
    within (free (modifyGraph fun g => { g with announced := g.announced ++ [state] }))

def Graph.updateVertice : ℕ → State Id → CallM Id Pair Ecdh Chan Bool
  | 0, _ => within (raise .stackOverflow)
  | depth + 1, state => do
    called .updateVertice
    let n ← within memory
    match n.graph.findVertice state.id with
    | some vertice =>
      match (n.graph.heap vertice).state with
      | some current =>
        if compareSequence state.sequence current.sequence ≤ 0 then return false
        else
          if current.ecdhPublic ≠ state.ecdhPublic then
            Graph.broadcastStateWith K H (Graph.updateVertice depth)
          within (free (modifyGraph fun g => g.modifyVertice vertice fun v =>
            { v with state := some state }))
          updateStoredEdges vertice
      | none =>
        Graph.broadcastStateWith K H (Graph.updateVertice depth)
        within (free (modifyGraph fun g => g.modifyVertice vertice fun v =>
          { v with state := some state }))
        updateStoredEdges vertice
    | none =>
      let vertice := n.graph.allocated
      within (free (modifyGraph fun g =>
        g.storeVertice { newVertice state.id with state := some state }))
      Graph.broadcastStateWith K H (Graph.updateVertice depth)
      updateStoredEdges vertice
where
  updateStoredEdges (vertice : Ptr) : CallM Id Pair Ecdh Chan Bool := do
    let n ← within memory
    match (n.graph.heap vertice).state with
    | some state =>
      let _ ← Graph.updateEdges K H (n.graph.heap vertice).mIdentifier state.neighbors
      return true
    | none => return true

def Graph.broadcastState : CallM Id Pair Ecdh Chan Unit :=
  Graph.broadcastStateWith K H (Graph.updateVertice K H H.stack)

def Graph.insert (state : State Id) : CallM Id Pair Ecdh Chan Bool :=
  locked .graph (Graph.updateVertice K H H.stack state)

def Graph.construct (mEcdh : Ecdh) : CallM Id Pair Ecdh Chan Unit := do
  let n ← within memory
  within (free (modifyGraph fun _ => emptyGraph (n.id K) mEcdh))
  let _ ← Graph.insert K H ⟨n.id K, 0 - 1, K.ecdhPublicKey mEcdh, ∅⟩

def Graph.notifyState (message : Message Id) (channel : Option Chan) :
    CallM Id Pair Ecdh Chan Unit :=
  match State.fromMessage K message with
  | .error e => within (raise e)
  | .ok state => do
    if ← Graph.insert K H state then
      within (NodeLocks.Routing.broadcast K H message channel)

def Graph.notifyNeighbor : CallM Id Pair Ecdh Chan Unit := do
  let neighbors ← within NodeLocks.Routing.neighbors
  let n ← within memory
  if ← Graph.updateEdges K H (n.id K) neighbors then
    Graph.broadcastState K H

def Routing.addNeighbor (remoteId : Id) (channel : Chan) : CallM Id Pair Ecdh Chan Unit := do
  let changed ← within (locked .routing (do
    let n ← memory
    free (set { n with routing := (n.routing.addNeighbor remoteId channel).1 })
    return (n.routing.addNeighbor remoteId channel).2))
  if changed then Graph.notifyNeighbor K H

def Graph.notifyHello (message : Message Id) (channel : Option Chan) :
    CallM Id Pair Ecdh Chan Unit :=
  match message.source, channel with
  | some source, some channel => do
    if ← within (NodeLocks.Routing.hasNeighbor source) then pure ()
    else Routing.addNeighbor K H source channel
  | _, _ => pure ()

def Graph.notifyMessage (message : Message Id) (channel : Option Chan) :
    CallM Id Pair Ecdh Chan Unit :=
  if message.type = MessageType.Hello then Graph.notifyHello K H message channel
  else if message.type = MessageType.State then Graph.notifyState K H message channel
  else pure ()

/-- Where threads enter the graph to change it. -/
inductive Entry (Id Ecdh Chan : Type) where
  | construct (mEcdh : Ecdh)
  | update
  | insert (state : State Id)
  | notifyMessage (message : Message Id) (channel : Option Chan)
  | notifyNeighbor

def Entry.run : Entry Id Ecdh Chan → CallM Id Pair Ecdh Chan Unit
  | .construct mEcdh => Graph.construct K H mEcdh
  | .update => within (NodeLocks.Graph.update K H)
  | .insert state => do let _ ← Graph.insert K H state
  | .notifyMessage message channel => Graph.notifyMessage K H message channel
  | .notifyNeighbor => Graph.notifyNeighbor K H

/-- What an entry does to a node that has no locks and records no calls. -/
def Entry.effect : Entry Id Ecdh Chan → NodeM Id Pair Ecdh Chan Unit
  | .construct mEcdh => LegioNode.Graph.construct K H mEcdh
  | .update => LegioNode.Graph.update K H
  | .insert state => do let _ ← LegioNode.Graph.insert K H state
  | .notifyMessage message channel => LegioNode.Graph.notifyMessage K H message channel
  | .notifyNeighbor => LegioNode.Graph.notifyNeighbor K H

end Functions

def forget (t : Thread Mutex (Memory Id Pair Ecdh Chan)) :
    Thread Mutex (Node Id Pair Ecdh Chan) := ⟨t.held, t.memory.node⟩

def forgotten {α : Type} :
    EStateM.Result (Stop Mutex Error) (Thread Mutex (Memory Id Pair Ecdh Chan)) α →
      EStateM.Result (Stop Mutex Error) (Thread Mutex (Node Id Pair Ecdh Chan)) α
  | .ok a t => .ok a (forget t)
  | .error e t => .error e (forget t)

def Erases {α : Type} (p : CallM Id Pair Ecdh Chan α) (q : ThreadM Id Pair Ecdh Chan α) : Prop :=
  ∀ t, forgotten (p t) = q (forget t)

section Erasure
variable {α β : Type} {p : CallM Id Pair Ecdh Chan α} {q : ThreadM Id Pair Ecdh Chan α}

theorem erases_pure (a : α) :
    Erases (pure a : CallM Id Pair Ecdh Chan α) (pure a) := fun _ => rfl

theorem erases_within (q : ThreadM Id Pair Ecdh Chan α) : Erases (within q) q := by
  intro t
  rw [within]
  cases h : q ⟨t.held, t.memory.node⟩ <;> exact h.symm

theorem erases_bind {f : α → CallM Id Pair Ecdh Chan β} {g : α → ThreadM Id Pair Ecdh Chan β}
    (hp : Erases p q) (hf : ∀ a, Erases (f a) (g a)) : Erases (p >>= f) (q >>= g) := by
  intro t
  have hp := hp t
  cases h : p t with
  | ok a t' =>
    rw [h] at hp
    rw [bind_ok h, bind_ok hp.symm]
    exact hf a t'
  | error e t' =>
    rw [h] at hp
    rw [bind_error h, bind_error hp.symm]
    rfl

theorem erases_called {f : Unit → CallM Id Pair Ecdh Chan α} (helper : Helper)
    (hf : Erases (f ()) q) : Erases (called helper >>= f) q := fun _ => hf _

theorem erases_locked {lock : Mutex} (hp : Erases p q) :
    Erases (locked lock p) (locked lock q) := by
  intro t
  rw [locked, locked]
  split_ifs with h h' h'
  · rfl
  · exact absurd h h'
  · exact absurd h' h
  · have hbody := hp { t with held := insert lock t.held }
    rw [← show q (forget { t with held := insert lock t.held }) =
      q { forget t with held := insert lock (forget t).held } from rfl, ← hbody]
    cases p { t with held := insert lock t.held } with
    | ok a u => rfl
    | error e u => cases e <;> rfl

end Erasure

section Entries
variable [LinearOrder Id] [DecidableEq Chan] (K : CryptoPP Id Pair Ecdh) (H : Host Id)

omit [DecidableEq Chan] in
theorem erases_updateEdges (id : Id) (neighbors : Finset Id) :
    Erases (Graph.updateEdges K H id neighbors : CallM Id Pair Ecdh Chan Bool)
      (NodeLocks.Graph.updateEdges K H id neighbors) := by
  refine erases_called _ (erases_bind (erases_within _) fun n => ?_)
  cases n.graph.findVertice id with
  | none => exact erases_within _
  | some vertice =>
    dsimp only
    split_ifs
    · exact erases_pure _
    · exact erases_bind (erases_within _) fun _ =>
        erases_bind (erases_called _ (erases_within _)) fun _ => erases_pure _

theorem erases_broadcastStateWith {update : State Id → CallM Id Pair Ecdh Chan Bool}
    {update' : State Id → ThreadM Id Pair Ecdh Chan Bool}
    (hupdate : ∀ state, Erases (update state) (update' state)) :
    Erases (Graph.broadcastStateWith K H update)
      (NodeLocks.Graph.broadcastStateWith K H update') := by
  refine erases_bind (erases_within _) fun n => erases_bind (erases_within _) fun _ =>
    erases_bind (erases_within _) fun neighbors => ?_
  dsimp only
  cases State.toMessage K H.byteOrder _ n.ecdsaPair with
  | error e => exact erases_within _
  | ok message =>
    exact erases_bind (hupdate _) fun _ => erases_bind (erases_within _) fun _ =>
      erases_within _

theorem erases_updateVertice (depth : ℕ) : ∀ state : State Id,
    Erases (Graph.updateVertice K H depth state : CallM Id Pair Ecdh Chan Bool)
      (NodeLocks.Graph.updateVertice K H depth state) := by
  induction depth with
  | zero => exact fun _ => erases_within _
  | succ depth ih =>
    intro state
    have hannounce := erases_broadcastStateWith K H ih
    have hstored : ∀ vertice, Erases
        (Graph.updateVertice.updateStoredEdges K H vertice : CallM Id Pair Ecdh Chan Bool)
        (NodeLocks.Graph.updateVertice.updateStoredEdges K H vertice) := by
      intro vertice
      refine erases_bind (erases_within _) fun n => ?_
      cases (n.graph.heap vertice).state with
      | none => exact erases_pure _
      | some state =>
        exact erases_bind (erases_updateEdges K H _ _) fun _ => erases_pure _
    refine erases_called _ (erases_bind (erases_within _) fun n => ?_)
    cases n.graph.findVertice state.id with
    | none =>
      exact erases_bind (erases_within _) fun _ => erases_bind hannounce fun _ => hstored _
    | some vertice =>
      dsimp only
      cases (n.graph.heap vertice).state with
      | none =>
        exact erases_bind hannounce fun _ => erases_bind (erases_within _) fun _ => hstored _
      | some current =>
        dsimp only
        split_ifs
        · exact erases_pure _
        · exact erases_bind hannounce fun _ => erases_bind (erases_within _) fun _ => hstored _
        · exact erases_bind (erases_within _) fun _ => hstored _

theorem erases_insert (state : State Id) :
    Erases (Graph.insert K H state : CallM Id Pair Ecdh Chan Bool)
      (NodeLocks.Graph.insert K H state) :=
  erases_locked (erases_updateVertice K H H.stack state)

theorem erases_notifyNeighbor :
    Erases (Graph.notifyNeighbor K H : CallM Id Pair Ecdh Chan Unit)
      (NodeLocks.Graph.notifyNeighbor K H) := by
  refine erases_bind (erases_within _) fun neighbors => erases_bind (erases_within _) fun n =>
    erases_bind (erases_updateEdges K H _ _) fun changed => ?_
  cases changed with
  | false => exact erases_pure _
  | true => exact erases_broadcastStateWith K H (erases_updateVertice K H H.stack)

theorem erases_notifyMessage (message : Message Id) (channel : Option Chan) :
    Erases (Graph.notifyMessage K H message channel : CallM Id Pair Ecdh Chan Unit)
      (NodeLocks.Graph.notifyMessage K H message channel) := by
  unfold Graph.notifyMessage NodeLocks.Graph.notifyMessage
  split_ifs
  · unfold Graph.notifyHello NodeLocks.Graph.notifyHello
    cases message.source with
    | none => exact erases_pure _
    | some source =>
      cases channel with
      | none => exact erases_pure _
      | some channel =>
        refine erases_bind (erases_within _) fun known => ?_
        cases known with
        | true => exact erases_pure _
        | false =>
          refine erases_bind (erases_within _) fun changed => ?_
          cases changed with
          | false => exact erases_pure _
          | true => exact erases_notifyNeighbor K H
  · unfold Graph.notifyState NodeLocks.Graph.notifyState
    cases State.fromMessage K message with
    | error e => exact erases_within _
    | ok state =>
      refine erases_bind (erases_insert K H state) fun accepted => ?_
      cases accepted with
      | false => exact erases_pure _
      | true => exact erases_within _
  · exact erases_pure _

def lockedConstruct (mEcdh : Ecdh) : ThreadM Id Pair Ecdh Chan Unit := do
  let n ← memory
  free (modifyGraph fun _ => emptyGraph (n.id K) mEcdh)
  let _ ← NodeLocks.Graph.insert K H ⟨n.id K, 0 - 1, K.ecdhPublicKey mEcdh, ∅⟩

theorem erases_construct (mEcdh : Ecdh) :
    Erases (Graph.construct K H mEcdh : CallM Id Pair Ecdh Chan Unit)
      (lockedConstruct K H mEcdh) :=
  erases_bind (erases_within _) fun _ => erases_bind (erases_within _) fun _ =>
    erases_bind (erases_insert K H _) fun _ => erases_pure ()

/-- A thread that enters without locks does to the node what the entry does. -/
theorem entry_effect (entry : Entry Id Ecdh Chan) (n : Node Id Pair Ecdh Chan)
    (calls : List Call) :
    forgotten (entry.run K H ⟨∅, ⟨n, calls⟩⟩) = under ∅ (entry.effect K H n) := by
  have hrouting : Mutex.routing ∉ (∅ : Finset Mutex) := Finset.notMem_empty _
  have hgraph : Mutex.graph ∉ (∅ : Finset Mutex) := Finset.notMem_empty _
  cases entry with
  | construct mEcdh =>
    refine (erases_construct K H mEcdh _).trans ?_
    exact follows_bind (follows_free ∅ get) (fun n => follows_bind (follows_free ∅ _)
      fun _ => follows_bind (NodeLocks.follows_insert hrouting hgraph _)
        fun _ => follows_pure ∅ ()) n
  | update =>
    exact (erases_within _ _).trans (NodeLocks.follows_update hrouting hgraph n)
  | insert state =>
    have herases : Erases (Entry.run K H (.insert state)) (do
        let _ ← NodeLocks.Graph.insert K H state : ThreadM Id Pair Ecdh Chan Unit) :=
      erases_bind (erases_insert K H state) fun _ => erases_pure ()
    refine (herases _).trans ?_
    exact follows_bind (NodeLocks.follows_insert hrouting hgraph state)
      (fun _ => follows_pure ∅ ()) n
  | notifyMessage message channel =>
    exact (erases_notifyMessage K H message channel _).trans
      (NodeLocks.follows_graphMessage hrouting hgraph message channel n)
  | notifyNeighbor =>
    exact (erases_notifyNeighbor K H _).trans (NodeLocks.follows_notifyNeighbor hrouting n)

end Entries

def Exclusive (m : Memory Id Pair Ecdh Chan) : Prop := ∀ call ∈ m.calls, call.exclusive = true

/-- What holds whatever the node does and whatever is called. -/
structure Stable (I : Thread Mutex (Memory Id Pair Ecdh Chan) → Prop) : Prop where
  within : ∀ t held n, t.held ⊆ held → I t → I ⟨held, ⟨n, t.memory.calls⟩⟩
  called : ∀ t helper, I t → I (final (called helper t))

def HoldsOn {α : Type} (p : ThreadM Id Pair Ecdh Chan α) : Prop :=
  ∀ held, Keeps (fun t => held ⊆ t.held) p

section Invariants
variable {α : Type} {I : Thread Mutex (Memory Id Pair Ecdh Chan) → Prop}

theorem holdsOn_free (m : NodeM Id Pair Ecdh Chan α) :
    HoldsOn (free m : ThreadM Id Pair Ecdh Chan α) := by
  intro held t ht
  show held ⊆ (final (under t.held (m t.memory))).held
  rw [final_under]
  exact ht

theorem holdsOn_locked {lock : Mutex} {p : ThreadM Id Pair Ecdh Chan α} (hp : HoldsOn p) :
    HoldsOn (locked lock p) := by
  intro held t ht
  rw [locked]
  split_ifs with hlock
  · exact ht
  · have hbody := hp (insert lock held) { t with held := insert lock t.held }
      (Finset.insert_subset_insert _ ht)
    have herase : ∀ held', insert lock held ⊆ held' → held ⊆ held'.erase lock := by
      intro held' hsub x hx
      refine Finset.mem_erase.mpr ⟨?_, hsub (Finset.mem_insert_of_mem hx)⟩
      rintro rfl
      exact hlock (ht hx)
    cases hrun : p { t with held := insert lock t.held } with
    | ok a u =>
      rw [hrun] at hbody
      exact herase u.held hbody
    | error e u =>
      rw [hrun] at hbody
      cases e with
      | thrown e => exact herase u.held hbody
      | blocked other => exact (Finset.subset_insert _ _).trans hbody

theorem holdsOn_neighbors :
    HoldsOn (NodeLocks.Routing.neighbors : ThreadM Id Pair Ecdh Chan (Finset Id)) :=
  holdsOn_locked fun held => keeps_bind (holdsOn_free _ held) fun _ => keeps_pure _

theorem keeps_within (hI : Stable I) {p : ThreadM Id Pair Ecdh Chan α} (hp : HoldsOn p) :
    Keeps I (within p) := by
  intro t ht
  have hheld := hp t.held ⟨t.held, t.memory.node⟩ (Finset.Subset.refl _)
  rw [within]
  cases hrun : p ⟨t.held, t.memory.node⟩ with
  | ok a u =>
    rw [hrun] at hheld
    exact hI.within t u.held u.memory hheld ht
  | error e u =>
    rw [hrun] at hheld
    exact hI.within t u.held u.memory hheld ht

theorem keeps_free (hI : Stable I) (m : NodeM Id Pair Ecdh Chan α) :
    Keeps I (within (free m)) := keeps_within hI (holdsOn_free m)

theorem keeps_called (hI : Stable I) (helper : Helper) :
    Keeps I (called helper : CallM Id Pair Ecdh Chan Unit) := fun t ht => hI.called t helper ht

end Invariants

section Calls
variable [LinearOrder Id] [DecidableEq Chan] {K : CryptoPP Id Pair Ecdh} {H : Host Id}
  {I : Thread Mutex (Memory Id Pair Ecdh Chan) → Prop} (hI : Stable I)

omit [DecidableEq Chan] in
theorem holdsOn_computeRoutingTable :
    HoldsOn (NodeLocks.Graph.computeRoutingTable K H : ThreadM Id Pair Ecdh Chan Unit) := by
  intro held
  refine keeps_bind (holdsOn_free _ held) fun _ => keeps_bind (holdsOn_free _ held) fun n => ?_
  cases n.graph.findVertice (n.id K) with
  | none => exact holdsOn_free _ held
  | some localVertice =>
    dsimp only
    cases searchLoop H (1 + n.graph.edgeCount) _ with
    | none => exact holdsOn_free _ held
    | some s =>
      exact keeps_bind (holdsOn_free _ held) fun _ => holdsOn_locked (holdsOn_free _) held

include hI

omit [LinearOrder Id] in
theorem keeps_broadcast (message : Message Id) (from_ : Option Chan) :
    Keeps I (within (NodeLocks.Routing.broadcast K H message from_)) :=
  keeps_within hI (holdsOn_locked (holdsOn_free _))

omit [DecidableEq Chan] in
theorem keeps_relink (id : Id) (neighbors : Finset Id) :
    Keeps I (Graph.relink K H id neighbors : CallM Id Pair Ecdh Chan Bool) := by
  refine keeps_bind (keeps_free hI _) fun n => ?_
  cases n.graph.findVertice id with
  | none => exact keeps_free hI _
  | some vertice =>
    dsimp only
    split_ifs
    · exact keeps_pure _
    · exact keeps_bind (keeps_free hI _) fun _ => keeps_bind (keeps_bind (keeps_called hI _)
        fun _ => keeps_within hI holdsOn_computeRoutingTable) fun _ => keeps_pure _

omit [DecidableEq Chan] in
theorem keeps_updateEdges (id : Id) (neighbors : Finset Id) :
    Keeps I (Graph.updateEdges K H id neighbors : CallM Id Pair Ecdh Chan Bool) :=
  keeps_bind (keeps_called hI _) fun _ => keeps_relink hI id neighbors

theorem keeps_broadcastStateWith {update : State Id → CallM Id Pair Ecdh Chan Bool}
    (hupdate : ∀ state, Keeps I (update state)) :
    Keeps I (Graph.broadcastStateWith K H update) := by
  refine keeps_bind (keeps_free hI _) fun n => keeps_bind (keeps_free hI _) fun _ =>
    keeps_bind (keeps_within hI holdsOn_neighbors) fun neighbors => ?_
  dsimp only
  cases State.toMessage K H.byteOrder _ n.ecdsaPair with
  | error e => exact keeps_free hI _
  | ok message =>
    exact keeps_bind (hupdate _) fun _ => keeps_bind (keeps_broadcast hI message none)
      fun _ => keeps_free hI _

theorem keeps_updateVertice (depth : ℕ) : ∀ state : State Id,
    Keeps I (Graph.updateVertice K H depth state : CallM Id Pair Ecdh Chan Bool) := by
  induction depth with
  | zero => exact fun _ => keeps_free hI _
  | succ depth ih =>
    intro state
    have hannounce := keeps_broadcastStateWith (K := K) (H := H) hI ih
    have hstored : ∀ vertice, Keeps I
        (Graph.updateVertice.updateStoredEdges K H vertice : CallM Id Pair Ecdh Chan Bool) := by
      intro vertice
      refine keeps_bind (keeps_free hI _) fun n => ?_
      cases (n.graph.heap vertice).state with
      | none => exact keeps_pure _
      | some state => exact keeps_bind (keeps_updateEdges hI _ _) fun _ => keeps_pure _
    refine keeps_bind (keeps_called hI _) fun _ => keeps_bind (keeps_free hI _) fun n => ?_
    cases n.graph.findVertice state.id with
    | none =>
      exact keeps_bind (keeps_free hI _) fun _ => keeps_bind hannounce fun _ => hstored _
    | some vertice =>
      dsimp only
      cases (n.graph.heap vertice).state with
      | none =>
        exact keeps_bind hannounce fun _ => keeps_bind (keeps_free hI _) fun _ => hstored _
      | some current =>
        dsimp only
        split_ifs
        · exact keeps_pure _
        · exact keeps_bind hannounce fun _ => keeps_bind (keeps_free hI _) fun _ => hstored _
        · exact keeps_bind (keeps_free hI _) fun _ => hstored _

end Calls

theorem stable_exclusive : Stable fun t : Thread Mutex (Memory Id Pair Ecdh Chan) =>
    Mutex.graph ∈ t.held ∧ Exclusive t.memory := by
  refine ⟨fun t held n hsub ht => ⟨hsub ht.1, ht.2⟩, fun t helper ht => ⟨ht.1, ?_⟩⟩
  intro call hcall
  rcases List.mem_append.mp hcall with hcall | hcall
  · exact ht.2 call hcall
  · obtain rfl := List.mem_singleton.mp hcall
    exact decide_eq_true ht.1

theorem stable_leaked : Stable fun t : Thread Mutex (Memory Id Pair Ecdh Chan) =>
    ¬ Exclusive t.memory := by
  refine ⟨fun t held n _ ht => ht, fun t helper ht hall => ht ?_⟩
  exact fun call hcall => hall call (List.mem_append_left _ hcall)

theorem exclusive_within {α : Type} (p : ThreadM Id Pair Ecdh Chan α) :
    Keeps (fun t => Exclusive t.memory) (within p) := by
  intro t ht
  rw [within]
  cases p ⟨t.held, t.memory.node⟩ <;> exact ht

section Entries
variable [LinearOrder Id] [DecidableEq Chan] (K : CryptoPP Id Pair Ecdh) (H : Host Id)

theorem exclusive_insert (state : State Id) :
    Keeps (fun t => Exclusive t.memory)
      (Graph.insert K H state : CallM Id Pair Ecdh Chan Bool) := by
  intro t ht
  rw [Graph.insert, locked]
  split_ifs with hlock
  · exact ht
  · have hbody := keeps_updateVertice (K := K) (H := H) stable_exclusive H.stack state
      { t with held := insert Mutex.graph t.held } ⟨Finset.mem_insert_self _ _, ht⟩
    cases hrun : Graph.updateVertice K H H.stack state
        { t with held := insert Mutex.graph t.held } with
    | ok a u =>
      rw [hrun] at hbody
      exact hbody.2
    | error e u =>
      rw [hrun] at hbody
      cases e <;> exact hbody.2

/-- The handler of Neighbor events updates the edges without the lock. -/
theorem notifyNeighbor_leaks (n : Node Id Pair Ecdh Chan) (calls : List Call) :
    ¬ Exclusive (final (Graph.notifyNeighbor K H ⟨∅, ⟨n, calls⟩⟩)).memory := by
  have hneighbors : (within NodeLocks.Routing.neighbors : CallM Id Pair Ecdh Chan _)
      ⟨∅, ⟨n, calls⟩⟩ = .ok n.routing.neighbors ⟨∅, ⟨n, calls⟩⟩ := by
    rw [within]
    dsimp only
    rw [NodeLocks.neighbors_run (Finset.notMem_empty _)]
    rfl
  have hnode : (within memory : CallM Id Pair Ecdh Chan _) ⟨∅, ⟨n, calls⟩⟩ =
      .ok n ⟨∅, ⟨n, calls⟩⟩ := rfl
  have hcalled : (called .updateEdges : CallM Id Pair Ecdh Chan Unit) ⟨∅, ⟨n, calls⟩⟩ =
      .ok () ⟨∅, ⟨n, calls ++ [⟨.updateEdges, false⟩]⟩⟩ := rfl
  have hleaked : ¬ Exclusive (⟨n, calls ++ [⟨.updateEdges, false⟩]⟩ :
      Memory Id Pair Ecdh Chan) := by
    intro hall
    have hcall := hall ⟨.updateEdges, false⟩
      (List.mem_append_right _ (List.mem_singleton_self _))
    cases hcall
  have hafter : Keeps (fun t => ¬ Exclusive t.memory)
      (Graph.relink K H (n.id K) n.routing.neighbors >>= fun changed =>
        if changed then Graph.broadcastState K H else pure () :
          CallM Id Pair Ecdh Chan Unit) := by
    refine keeps_bind (keeps_relink stable_leaked _ _) fun changed => ?_
    cases changed with
    | false => exact keeps_pure _
    | true =>
      exact keeps_broadcastStateWith stable_leaked (keeps_updateVertice stable_leaked H.stack)
  rw [Graph.notifyNeighbor, bind_ok hneighbors, bind_ok hnode, Graph.updateEdges, bind_assoc,
    bind_ok hcalled]
  exact hafter _ hleaked

/-- A Hello that makes a neighbour: it comes over a channel that is registered, from a node
that is none yet. -/
def MakesNeighbor (n : Node Id Pair Ecdh Chan) (message : Message Id) (channel : Option Chan) :
    Prop :=
  message.type = MessageType.Hello ∧ ∃ source c, message.source = some source ∧
    channel = some c ∧ source ∉ n.routing.mNeighbors ∧ c ∈ n.routing.mChannels

/-- The entry is, or leads to, a Neighbor event. -/
def Entry.EmitsNeighbor (n : Node Id Pair Ecdh Chan) : Entry Id Ecdh Chan → Prop
  | .construct _ => False
  | .update => False
  | .insert _ => False
  | .notifyMessage message channel => MakesNeighbor n message channel
  | .notifyNeighbor => True

omit [DecidableEq Chan] in
theorem hasNeighbor_run (n : Node Id Pair Ecdh Chan) (calls : List Call) (source : Id) :
    (within (NodeLocks.Routing.hasNeighbor source) : CallM Id Pair Ecdh Chan Bool)
      ⟨∅, ⟨n, calls⟩⟩ = .ok (n.routing.hasNeighbor source) ⟨∅, ⟨n, calls⟩⟩ := by
  rw [within]
  dsimp only
  rw [NodeLocks.Routing.hasNeighbor, read_run (Finset.notMem_empty _)]
  rfl

theorem addNeighbor_run (n : Node Id Pair Ecdh Chan) (calls : List Call) (source : Id)
    (channel : Chan) :
    Routing.addNeighbor K H source channel ⟨∅, ⟨n, calls⟩⟩ =
      (if (n.routing.addNeighbor source channel).2 then Graph.notifyNeighbor K H else pure ())
        ⟨∅, ⟨{ n with routing := (n.routing.addNeighbor source channel).1 }, calls⟩⟩ := by
  have hscope : (locked Mutex.routing (do
      let n ← memory
      free (set { n with routing := (n.routing.addNeighbor source channel).1 })
      return (n.routing.addNeighbor source channel).2) : ThreadM Id Pair Ecdh Chan Bool) ⟨∅, n⟩ =
      .ok (n.routing.addNeighbor source channel).2
        ⟨∅, { n with routing := (n.routing.addNeighbor source channel).1 }⟩ :=
    locked_ok (Finset.notMem_empty _) rfl
  rw [Routing.addNeighbor, bind_ok]
  rw [within]
  dsimp only
  rw [hscope]
  rfl

omit [LinearOrder Id] [DecidableEq Chan] in
theorem exclusive_nil (n : Node Id Pair Ecdh Chan) : Exclusive ⟨n, []⟩ := by
  intro call hcall
  cases hcall

theorem addNeighbor_exclusive_iff (n : Node Id Pair Ecdh Chan) (source : Id) (channel : Chan)
    (hnew : source ∉ n.routing.mNeighbors) :
    Exclusive (final (Routing.addNeighbor K H source channel ⟨∅, ⟨n, []⟩⟩)).memory ↔
      channel ∉ n.routing.mChannels := by
  rw [addNeighbor_run]
  by_cases hregistered : channel ∈ n.routing.mChannels
  · have hchanged : (n.routing.addNeighbor source channel).2 = true := by
      simp [LegioNode.Routing.addNeighbor, hnew, hregistered]
    rw [hchanged, if_pos rfl]
    exact iff_of_false (notifyNeighbor_leaks K H _ []) (not_not_intro hregistered)
  · have hsame : (n.routing.addNeighbor source channel).2 = false := by
      simp [LegioNode.Routing.addNeighbor, hregistered]
    rw [hsame, if_neg Bool.false_ne_true]
    exact iff_of_true (exclusive_nil _) hregistered

omit [LinearOrder Id] [DecidableEq Chan] in
theorem makesNeighbor_iff (n : Node Id Pair Ecdh Chan) {message : Message Id} {source : Id}
    (htype : message.type = MessageType.Hello) (hsource : message.source = some source)
    (channel : Chan) : MakesNeighbor n message (some channel) ↔
      source ∉ n.routing.mNeighbors ∧ channel ∈ n.routing.mChannels := by
  constructor
  · rintro ⟨-, source', c, hsome, hc, hmakes⟩
    obtain rfl := Option.some_inj.mp (hsource.symm.trans hsome)
    obtain rfl := Option.some_inj.mp hc
    exact hmakes
  · exact fun hmakes => ⟨htype, source, channel, hsource, rfl, hmakes⟩

theorem notifyHello_exclusive_iff (n : Node Id Pair Ecdh Chan) {message : Message Id}
    (htype : message.type = MessageType.Hello) (channel : Option Chan) :
    Exclusive (final (Graph.notifyHello K H message channel ⟨∅, ⟨n, []⟩⟩)).memory ↔
      ¬ MakesNeighbor n message channel := by
  cases hsource : message.source with
  | none =>
    simp only [Graph.notifyHello, hsource]
    refine iff_of_true (exclusive_nil n) ?_
    rintro ⟨-, source, c, hsome, -⟩
    rw [hsource] at hsome
    cases hsome
  | some source =>
    cases channel with
    | none =>
      simp only [Graph.notifyHello, hsource]
      refine iff_of_true (exclusive_nil n) ?_
      rintro ⟨-, source', c, -, hsome, -⟩
      cases hsome
    | some channel =>
      rw [makesNeighbor_iff n htype hsource]
      simp only [Graph.notifyHello, hsource, bind_ok (hasNeighbor_run n [] source)]
      by_cases hknown : source ∈ n.routing.mNeighbors
      · have htrue : n.routing.hasNeighbor source = true := by
          simpa [Routing.hasNeighbor] using hknown
        rw [htrue, if_pos rfl]
        exact iff_of_true (exclusive_nil n) fun hmakes => hmakes.1 hknown
      · have hfalse : n.routing.hasNeighbor source = false := by
          simpa [Routing.hasNeighbor] using hknown
        rw [hfalse, if_neg Bool.false_ne_true,
          addNeighbor_exclusive_iff K H n source channel hknown]
        exact not_congr (and_iff_right hknown).symm

theorem notifyState_exclusive (message : Message Id) (channel : Option Chan) :
    Keeps (fun t => Exclusive t.memory)
      (Graph.notifyState K H message channel : CallM Id Pair Ecdh Chan Unit) := by
  unfold Graph.notifyState
  cases State.fromMessage K message with
  | error e => exact exclusive_within _
  | ok state =>
    refine keeps_bind (exclusive_insert K H state) fun accepted => ?_
    cases accepted with
    | false => exact keeps_pure _
    | true => exact exclusive_within _

theorem notifyMessage_exclusive_iff (n : Node Id Pair Ecdh Chan) (message : Message Id)
    (channel : Option Chan) :
    Exclusive (final (Graph.notifyMessage K H message channel ⟨∅, ⟨n, []⟩⟩)).memory ↔
      ¬ MakesNeighbor n message channel := by
  rw [Graph.notifyMessage]
  split_ifs with hhello hstate
  · exact notifyHello_exclusive_iff K H n hhello channel
  · exact iff_of_true (notifyState_exclusive K H message channel ⟨∅, ⟨n, []⟩⟩ (exclusive_nil n))
      fun hmakes => hhello hmakes.1
  · exact iff_of_true (exclusive_nil n) fun hmakes => hhello hmakes.1

/-- In whatever state a thread enters the graph, all its calls of `updateVertice`,
`updateEdges` and `computeRoutingTable` are made under the lock just when the entry does not
lead to a Neighbor event. -/
theorem graph_calls_exclusive_iff (n : Node Id Pair Ecdh Chan) (entry : Entry Id Ecdh Chan) :
    (∀ call ∈ (final (entry.run K H ⟨∅, ⟨n, []⟩⟩)).memory.calls, call.exclusive = true) ↔
      ¬ entry.EmitsNeighbor n := by
  cases entry with
  | construct mEcdh =>
    have hkeeps : Keeps (fun t => Exclusive t.memory)
        (Graph.construct K H mEcdh : CallM Id Pair Ecdh Chan Unit) :=
      keeps_bind (exclusive_within _) fun _ => keeps_bind (exclusive_within _) fun _ =>
        keeps_bind (exclusive_insert K H _) fun _ => keeps_pure _
    exact iff_of_true (hkeeps ⟨∅, ⟨n, []⟩⟩ (exclusive_nil n)) id
  | update => exact iff_of_true (exclusive_within _ ⟨∅, ⟨n, []⟩⟩ (exclusive_nil n)) id
  | insert state =>
    have hkeeps : Keeps (fun t => Exclusive t.memory) (do
        let _ ← Graph.insert K H state : CallM Id Pair Ecdh Chan Unit) :=
      keeps_bind (exclusive_insert K H state) fun _ => keeps_pure _
    exact iff_of_true (hkeeps ⟨∅, ⟨n, []⟩⟩ (exclusive_nil n)) id
  | notifyMessage message channel =>
    exact notifyMessage_exclusive_iff K H n message channel
  | notifyNeighbor =>
    exact iff_of_false (notifyNeighbor_leaks K H n []) (not_not_intro trivial)

end Entries

namespace Sample

open LegioNode.Sample PublishedTable.Sample

def hello : Message (Fin 4) := ⟨MessageType.Hello, 0, some 2, none, [], []⟩

theorem hello_exclusive {n : Node (Fin 4) (Fin 4) (Fin 4) ℕ} {message : Message (Fin 4)}
    {channel : Option ℕ} (hmakes : MakesNeighbor n message channel) :
    ¬ ∀ call ∈ (final (Entry.run LegioCrypto.Sample.crypto host
      (.notifyMessage message channel) ⟨∅, ⟨n, []⟩⟩)).memory.calls, call.exclusive = true :=
  fun hcalls => (notifyMessage_exclusive_iff LegioCrypto.Sample.crypto host n message
    channel).mp hcalls hmakes

theorem connected :
    (2 : Fin 4) ∉ (NodeRuns.run LegioCrypto.Sample.crypto host (started 1)
        [.addChannel 0]).routing.mNeighbors ∧
      0 ∈ (NodeRuns.run LegioCrypto.Sample.crypto host (started 1)
        [.addChannel 0]).routing.mChannels :=
  ⟨by decide +kernel, by decide +kernel⟩

theorem hello_makes {n : Node (Fin 4) (Fin 4) (Fin 4) ℕ}
    (h : (2 : Fin 4) ∉ n.routing.mNeighbors ∧ 0 ∈ n.routing.mChannels) :
    MakesNeighbor n hello (some 0) :=
  ⟨rfl, 2, 0, rfl, rfl, h.1, h.2⟩

/-- The Hello of a first neighbour brings calls without the lock. -/
theorem hello_leaks :
    ¬ ∀ (n₀ : Node (Fin 4) (Fin 4) (Fin 4) ℕ) (events : List (NodeRuns.NodeEvent (Fin 4) ℕ))
      (entry : Entry (Fin 4) (Fin 4) ℕ),
      NodeRuns.Created LegioCrypto.Sample.crypto host n₀ →
        ∀ call ∈ (final (entry.run LegioCrypto.Sample.crypto host
          ⟨∅, ⟨NodeRuns.run LegioCrypto.Sample.crypto host n₀ events, []⟩⟩)).memory.calls,
          call.exclusive = true := fun hall =>
  hello_exclusive (hello_makes connected)
    (hall (started 1) [.addChannel 0] (.notifyMessage hello (some 0)) (created 1))

end Sample

end GraphLocking
