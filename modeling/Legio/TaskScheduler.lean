import Legio.OrderedMaps
import Mathlib.Data.Prod.Lex
import Mathlib.Logic.Function.Basic
import Mathlib.Tactic.Ring

set_option linter.style.header false

/-! The scheduler and the threads that use it. Tasks, and the code that started them, take any
steps: a running task schedules, cancels, runs other tasks and ends with or without an
exception. The operations hold the mutex, so the steps of threads interleave as wholes. -/
namespace TaskScheduler

open OrderedMaps

/-- A time and a number, ordered as a pair. -/
abbrev TaskIdentifier := ℤ ×ₗ ℕ

structure Task (F : Type) where
  time : ℤ
  number : ℕ
  func : F
  deriving DecidableEq, Repr

structure Scheduler (F : Type) where
  mTasks : OrderedMap TaskIdentifier (Task F)
  mNextTaskNumber : ℕ

def intMax : ℕ := 2 ^ 31 - 1

/-- The clock counts nanoseconds in 64 bits. -/
def IsTimePoint (time : ℤ) : Prop := -2 ^ 63 ≤ time ∧ time < 2 ^ 63

instance (time : ℤ) : Decidable (IsTimePoint time) := inferInstanceAs (Decidable (_ ∧ _))

namespace Scheduler

variable {F : Type}

def new : Scheduler F := ⟨.empty, 0⟩

/-- Nothing is defined when the increment of the number overflows. -/
def schedule (time : ℤ) (func : F) (s : Scheduler F) :
    Option (TaskIdentifier × Scheduler F) :=
  let number := s.mNextTaskNumber
  if number = intMax then none
  else
    let id : TaskIdentifier := toLex (time, number)
    some (id, ⟨s.mTasks.emplace id ⟨time, number, func⟩, number + 1⟩)

def cancel (id : TaskIdentifier) (s : Scheduler F) : Bool × Scheduler F :=
  let erased := s.mTasks.erase id
  (erased.1 != 0, { s with mTasks := erased.2 })

def dequeue (now : ℤ) (s : Scheduler F) : Option (TaskIdentifier × F) × Scheduler F :=
  match s.mTasks.begin? with
  | none => (none, s)
  | some (id, task) =>
    if task.time > now then (none, s)
    else (some (id, task.func), { s with mTasks := (s.mTasks.erase id).2 })

end Scheduler

structure Execution (F : Type) where
  id : TaskIdentifier
  func : F
  now : ℤ

structure Ledger (F : Type) where
  scheduler : Scheduler F
  scheduled : List (TaskIdentifier × F)
  executed : List (Execution F)
  cancelled : List TaskIdentifier

namespace Ledger

variable {F : Type}

def new : Ledger F := ⟨.new, [], [], []⟩

def schedule (time : ℤ) (func : F) (l : Ledger F) : Option (Ledger F) :=
  (l.scheduler.schedule time func).map fun stored =>
    { l with
      scheduler := stored.2
      scheduled := l.scheduled ++ [(stored.1, func)] }

def cancel (id : TaskIdentifier) (l : Ledger F) : Ledger F :=
  let erased := l.scheduler.cancel id
  { l with
    scheduler := erased.2
    cancelled := if erased.1 then l.cancelled ++ [id] else l.cancelled }

def take (now : ℤ) (l : Ledger F) : Option TaskIdentifier × Ledger F :=
  let taken := l.scheduler.dequeue now
  (taken.1.map Prod.fst,
    { l with
      scheduler := taken.2
      executed := l.executed ++ taken.1.toList.map fun task => ⟨task.1, task.2, now⟩ })

end Ledger

/-- The loop of a call of `run`, or a task that a call of `runOne` executes. -/
inductive Frame where
  | loop
  | task (id : TaskIdentifier)
  deriving DecidableEq

/-- `ι` names the threads; the calls of each have the innermost first. -/
structure World (ι F : Type) where
  ledger : Ledger F
  now : ℤ
  frames : ι → List Frame
  cerr : List String

inductive Action (ι F : Type) where
  | tick (now : ℤ)
  | schedule (thread : ι) (time : ℤ) (func : F)
  | delay (thread : ι) (delay : ℤ) (func : F)
  | enqueue (thread : ι) (func : F)
  | cancel (thread : ι) (id : TaskIdentifier)
  | runOne (thread : ι)
  | run (thread : ι)
  | iterate (thread : ι)
  | finish (thread : ι)
  | throw (thread : ι) (what : String)

variable {ι F : Type} [DecidableEq ι]

namespace World

def start (now : ℤ) : World ι F := ⟨.new, now, fun _ => [], []⟩

def setFrames (w : World ι F) (thread : ι) (stack : List Frame) : World ι F :=
  { w with frames := Function.update w.frames thread stack }

def schedule (w : World ι F) (time : ℤ) (func : F) : Option (World ι F) :=
  (w.ledger.schedule time func).map fun ledger => { w with ledger := ledger }

/-- One turn of `runOne`: with no task due the stack `idle` is left. -/
def take (w : World ι F) (thread : ι) (idle : List Frame) : World ι F :=
  let taken := w.ledger.take w.now
  let stack := match taken.1 with
    | none => idle
    | some id => .task id :: w.frames thread
  { w.setFrames thread stack with ledger := taken.2 }

end World

/-- Code runs in a thread unless its innermost call is a loop, about to call `runOne`. -/
def Enabled (w : World ι F) : Action ι F → Prop
  | .tick now => w.now ≤ now
  | .schedule thread _ _ => (w.frames thread).head? ≠ some .loop
  | .delay thread _ _ => (w.frames thread).head? ≠ some .loop
  | .enqueue thread _ => (w.frames thread).head? ≠ some .loop
  | .cancel thread _ => (w.frames thread).head? ≠ some .loop
  | .runOne thread => (w.frames thread).head? ≠ some .loop
  | .run thread => (w.frames thread).head? ≠ some .loop
  | .iterate thread => (w.frames thread).head? = some .loop
  | .finish thread => (w.frames thread).head?.any fun frame => frame ≠ .loop
  | .throw thread _ => (w.frames thread).head?.any fun frame => frame ≠ .loop

instance (w : World ι F) (a : Action ι F) : Decidable (Enabled w a) := by
  cases a <;> simp only [Enabled] <;> infer_instance

/-- A step, if the language defines what it does. -/
def step (w : World ι F) : Action ι F → Option (World ι F)
  | .tick now => some { w with now := now }
  | .schedule _ time func => w.schedule time func
  | .delay _ delay func =>
    if IsTimePoint (w.now + delay) then w.schedule (w.now + delay) func else none
  | .enqueue _ func => w.schedule w.now func
  | .cancel _ id => some { w with ledger := w.ledger.cancel id }
  | .runOne thread => some (w.take thread (w.frames thread))
  | .run thread => some (w.setFrames thread (.loop :: w.frames thread))
  | .iterate thread => some (w.take thread (w.frames thread).tail)
  | .finish thread => some (w.setFrames thread (w.frames thread).tail)
  | .throw thread what =>
    some { w.setFrames thread (w.frames thread).tail with
      cerr := w.cerr ++ ["Unhandled exception in task: " ++ what] }

inductive Steps (w : World ι F) : World ι F → Prop where
  | refl : Steps w w
  | tail {w₁ w₂ : World ι F} {a : Action ι F} :
      Steps w w₁ → Enabled w₁ a → step w₁ a = some w₂ → Steps w w₂

def Reachable (w : World ι F) : Prop := ∃ now, Steps (World.start now) w

def Pending (l : Ledger F) (id : TaskIdentifier) : Prop := l.scheduler.mTasks.Contains id

def executions (l : Ledger F) (id : TaskIdentifier) : ℕ :=
  (l.executed.map Execution.id).count id

def OneStatus (l : Ledger F) (id : TaskIdentifier) : Prop :=
  (Pending l id ∧ executions l id = 0 ∧ id ∉ l.cancelled) ∨
    (¬ Pending l id ∧ executions l id = 1 ∧ id ∉ l.cancelled) ∨
      (¬ Pending l id ∧ executions l id = 0 ∧ id ∈ l.cancelled)

def time (id : TaskIdentifier) : ℤ := (ofLex id).1
def number (id : TaskIdentifier) : ℕ := (ofLex id).2

structure Accounted (l : Ledger F) : Prop where
  bounded : l.scheduler.mNextTaskNumber ≤ intMax
  numbered : l.scheduled.map (fun task => number task.1) =
    List.range l.scheduler.mNextTaskNumber
  keyed : ∀ e ∈ l.scheduler.mTasks.entries, e.1 = toLex (e.2.time, e.2.number)
  pending : ∀ e ∈ l.scheduler.mTasks.entries, (e.1, e.2.func) ∈ l.scheduled
  executed : ∀ e ∈ l.executed, (e.id, e.func) ∈ l.scheduled
  cancelled : ∀ id ∈ l.cancelled, ∃ func, (id, func) ∈ l.scheduled
  status : ∀ task ∈ l.scheduled, OneStatus l task.1
  due : ∀ e ∈ l.executed, time e.id ≤ e.now
  earlier : ∀ e ∈ l.executed, ∀ id, Pending l id → time e.id = time id →
    number e.id < number id
  ordered : l.executed.Pairwise fun e e' =>
    time e.id = time e'.id → number e.id < number e'.id

section Operations

omit [DecidableEq ι]

variable {l l' : Ledger F} {id : TaskIdentifier}

theorem accounted_new : Accounted (Ledger.new : Ledger F) where
  bounded := Nat.zero_le _
  numbered := rfl
  keyed := by intro e he; cases he
  pending := by intro e he; cases he
  executed := by intro e he; cases he
  cancelled := by intro id hid; cases hid
  status := by intro task htask; cases htask
  due := by intro e he; cases he
  earlier := by intro e he; cases he
  ordered := List.Pairwise.nil

theorem schedule_spec {t : ℤ} {func : F} (h : l.schedule t func = some l') :
    l.scheduler.mNextTaskNumber ≠ intMax ∧
      l' = { l with
        scheduler := ⟨l.scheduler.mTasks.emplace (toLex (t, l.scheduler.mNextTaskNumber))
          ⟨t, l.scheduler.mNextTaskNumber, func⟩, l.scheduler.mNextTaskNumber + 1⟩
        scheduled := l.scheduled ++ [(toLex (t, l.scheduler.mNextTaskNumber), func)] } := by
  rw [Ledger.schedule, Scheduler.schedule] at h
  dsimp only at h
  split_ifs at h with hmax
  · cases h
  · exact ⟨hmax, (Option.some_inj.mp h).symm⟩

theorem cancel_spec (l : Ledger F) (id : TaskIdentifier) :
    (l.scheduler.cancel id).1 = true ↔ Pending l id := by
  rw [Scheduler.cancel]
  exact bne_iff_ne.trans (l.scheduler.mTasks.erase_count id)

theorem take_spec (l : Ledger F) (now : ℤ) :
    l.take now = (none, l) ∨
      ∃ id task, l.scheduler.mTasks.begin? = some (id, task) ∧ task.time ≤ now ∧
        l.take now = (some id,
          { l with
            scheduler := { l.scheduler with mTasks := (l.scheduler.mTasks.erase id).2 }
            executed := l.executed ++ [⟨id, task.func, now⟩] }) := by
  rw [Ledger.take, Scheduler.dequeue]
  cases hbegin : l.scheduler.mTasks.begin? with
  | none => exact .inl (by simp)
  | some e =>
    by_cases hdue : e.2.time > now
    · exact .inl (by simp [hdue])
    · exact .inr ⟨e.1, e.2, rfl, not_lt.mp hdue, by simp [hdue]⟩

theorem number_lt (h : Accounted l) {task : TaskIdentifier × F} (htask : task ∈ l.scheduled) :
    number task.1 < l.scheduler.mNextTaskNumber := by
  have hmem := List.mem_map_of_mem (f := fun task : TaskIdentifier × F => number task.1) htask
  rw [h.numbered] at hmem
  exact List.mem_range.mp hmem

theorem scheduled_of_pending (h : Accounted l) (hpending : Pending l id) :
    ∃ func, (id, func) ∈ l.scheduled := by
  obtain ⟨task, htask⟩ := hpending
  exact ⟨task.func, h.pending _ htask⟩

theorem scheduled_of_executed (h : Accounted l) (hexecuted : executions l id ≠ 0) :
    ∃ func, (id, func) ∈ l.scheduled := by
  obtain ⟨e, he, rfl⟩ := List.mem_map.mp
    (List.count_pos_iff.mp (Nat.pos_of_ne_zero hexecuted))
  exact ⟨e.func, h.executed e he⟩

theorem fresh (h : Accounted l) (t : ℤ) (func : F) :
    (toLex (t, l.scheduler.mNextTaskNumber), func) ∉ l.scheduled := fun hmem =>
  absurd (number_lt h hmem) (lt_irrefl _)

theorem executions_append (l : Ledger F) (scheduler : Scheduler F) (e : Execution F)
    (other : TaskIdentifier) :
    executions { l with scheduler := scheduler, executed := l.executed ++ [e] } other =
      executions l other + if e.id = other then 1 else 0 := by
  simp [executions, List.count_append, List.count_singleton]

theorem pending_status (h : Accounted l) (hpending : Pending l id) :
    executions l id = 0 ∧ id ∉ l.cancelled := by
  obtain ⟨func, hscheduled⟩ := scheduled_of_pending h hpending
  rcases h.status _ hscheduled with hstatus | hstatus | hstatus
  · exact hstatus.2
  · exact absurd hpending hstatus.1
  · exact absurd hpending hstatus.1

theorem oneStatus_congr (hpending : Pending l' id ↔ Pending l id)
    (hexecutions : executions l' id = executions l id)
    (hcancelled : id ∈ l'.cancelled ↔ id ∈ l.cancelled) (h : OneStatus l id) :
    OneStatus l' id := by
  rw [OneStatus, hpending, hexecutions, hcancelled]
  exact h

theorem fresh_pending (h : Accounted l) (t : ℤ) :
    ¬ Pending l (toLex (t, l.scheduler.mNextTaskNumber)) := by
  intro hpending
  obtain ⟨func, hscheduled⟩ := scheduled_of_pending h hpending
  exact fresh h t func hscheduled

theorem status_schedule {t : ℤ} {func : F} (h : Accounted l)
    (hschedule : l.schedule t func = some l') :
    ∀ task ∈ l'.scheduled, OneStatus l' task.1 := by
  obtain ⟨-, rfl⟩ := schedule_spec hschedule
  have hfresh := fresh h t
  have hentries := OrderedMap.mem_emplace
    (⟨t, l.scheduler.mNextTaskNumber, func⟩ : Task F) (fresh_pending h t)
  intro task htask
  rcases List.mem_append.mp htask with htask | htask
  · have hne : task.1 ≠ toLex (t, l.scheduler.mNextTaskNumber) := by
      intro heq
      exact hfresh task.2 (heq ▸ htask)
    have hsame : (∃ v, (task.1, v) ∈ (l.scheduler.mTasks.emplace
        (toLex (t, l.scheduler.mNextTaskNumber))
        (⟨t, l.scheduler.mNextTaskNumber, func⟩ : Task F)).entries) ↔ Pending l task.1 := by
      refine exists_congr fun v => (hentries (task.1, v)).trans ?_
      exact or_iff_right fun heq => hne (congrArg Prod.fst heq)
    exact oneStatus_congr hsame rfl Iff.rfl (h.status task htask)
  · obtain rfl := List.mem_singleton.mp htask
    refine .inl ⟨⟨_, (hentries _).mpr (.inl rfl)⟩, ?_, ?_⟩
    · by_contra hexecuted
      obtain ⟨func', hscheduled⟩ := scheduled_of_executed h hexecuted
      exact hfresh func' hscheduled
    · intro hcancelled
      obtain ⟨func', hscheduled⟩ := h.cancelled _ hcancelled
      exact hfresh func' hscheduled

theorem accounted_schedule {t : ℤ} {func : F} (h : Accounted l)
    (hschedule : l.schedule t func = some l') : Accounted l' := by
  have hstatus := status_schedule h hschedule
  obtain ⟨hmax, rfl⟩ := schedule_spec hschedule
  have hentries := OrderedMap.mem_emplace
    (⟨t, l.scheduler.mNextTaskNumber, func⟩ : Task F) (fresh_pending h t)
  have hbounded := h.bounded
  refine ⟨?_, ?_, ?_, ?_, ?_, ?_, hstatus, h.due, ?_, h.ordered⟩
  · show l.scheduler.mNextTaskNumber + 1 ≤ intMax
    omega
  · show (l.scheduled ++ [_]).map _ = List.range (l.scheduler.mNextTaskNumber + 1)
    rw [List.map_append, h.numbered, List.range_succ]
    rfl
  · intro e he
    rcases (hentries e).mp he with rfl | he
    · rfl
    · exact h.keyed e he
  · intro e he
    rcases (hentries e).mp he with rfl | he
    · exact List.mem_append_right _ (List.mem_singleton_self _)
    · exact List.mem_append_left _ (h.pending e he)
  · intro e he
    exact List.mem_append_left _ (h.executed e he)
  · intro id hid
    obtain ⟨func', hscheduled⟩ := h.cancelled id hid
    exact ⟨func', List.mem_append_left _ hscheduled⟩
  · rintro e he id ⟨v, hv⟩ htime
    rcases (hentries (id, v)).mp hv with heq | hv
    · obtain rfl : id = _ := congrArg Prod.fst heq
      exact number_lt h (h.executed e he)
    · exact h.earlier e he id ⟨v, hv⟩ htime

theorem pending_erase (s : Scheduler F) (id x : TaskIdentifier) :
    (s.mTasks.erase id).2.Contains x ↔ s.mTasks.Contains x ∧ x ≠ id := by
  refine ⟨?_, ?_⟩
  · rintro ⟨v, hv⟩
    obtain ⟨hmem, hne⟩ := (OrderedMap.mem_erase _ _ _).mp hv
    exact ⟨⟨v, hmem⟩, hne⟩
  · rintro ⟨⟨v, hv⟩, hne⟩
    exact ⟨v, (OrderedMap.mem_erase _ _ _).mpr ⟨hv, hne⟩⟩

theorem status_cancel (h : Accounted l) (id : TaskIdentifier) :
    ∀ task ∈ l.scheduled, OneStatus (l.cancel id) task.1 := by
  intro task htask
  have hpending := pending_erase l.scheduler id
  have hstatus := h.status task htask
  by_cases hcancel : Pending l id
  · have hlist : (l.cancel id).cancelled = l.cancelled ++ [id] :=
      if_pos ((cancel_spec l id).mpr hcancel)
    by_cases hid : task.1 = id
    · have hzero := (pending_status h (hid ▸ hcancel)).1
      refine .inr (.inr ⟨fun hleft => ((hpending _).mp hleft).2 hid, hzero, ?_⟩)
      rw [hlist, hid]
      exact List.mem_append_right _ (List.mem_singleton_self _)
    · have hmem : task.1 ∈ (l.cancel id).cancelled ↔ task.1 ∈ l.cancelled := by
        rw [hlist, List.mem_append, List.mem_singleton, or_iff_left hid]
      exact oneStatus_congr ((hpending _).trans (and_iff_left hid)) rfl hmem hstatus
  · have hlist : (l.cancel id).cancelled = l.cancelled :=
      if_neg fun hresult => hcancel ((cancel_spec l id).mp hresult)
    have hsame : Pending (l.cancel id) task.1 ↔ Pending l task.1 := by
      refine (hpending _).trans (and_iff_left_of_imp ?_)
      rintro hleft rfl
      exact hcancel hleft
    exact oneStatus_congr hsame rfl (by rw [hlist]) hstatus

theorem accounted_cancel (h : Accounted l) (id : TaskIdentifier) : Accounted (l.cancel id) := by
  have hentries : ∀ e ∈ (l.cancel id).scheduler.mTasks.entries,
      e ∈ l.scheduler.mTasks.entries := fun e he => ((OrderedMap.mem_erase _ _ _).mp he).1
  have hpending := pending_erase l.scheduler id
  refine ⟨h.bounded, h.numbered, fun e he => h.keyed e (hentries e he),
    fun e he => h.pending e (hentries e he), h.executed, ?_, status_cancel h id, h.due, ?_,
    h.ordered⟩
  · intro x hx
    simp only [Ledger.cancel] at hx
    split_ifs at hx with hcancel
    · rcases List.mem_append.mp hx with hx | hx
      · exact h.cancelled x hx
      · obtain rfl := List.mem_singleton.mp hx
        obtain ⟨func, hscheduled⟩ := scheduled_of_pending h ((cancel_spec l x).mp hcancel)
        exact ⟨func, hscheduled⟩
    · exact h.cancelled x hx
  · intro e he x hx
    exact h.earlier e he x ((hpending x).mp hx).1

theorem begin_min {task : Task F}
    (hbegin : l.scheduler.mTasks.begin? = some (id, task)) {x : TaskIdentifier}
    (hx : Pending l x) : id ≤ x := by
  obtain ⟨v, hv⟩ := hx
  exact OrderedMap.begin_le hbegin hv

theorem number_lt_of_le {x y : TaskIdentifier} (hle : x ≤ y) (hne : y ≠ x)
    (htime : time x = time y) : number x < number y := by
  have hlt : x < y := lt_of_le_of_ne hle (Ne.symm hne)
  rcases Prod.Lex.toLex_lt_toLex.mp hlt with htimes | ⟨-, hnumber⟩
  · exact absurd htime (ne_of_lt htimes)
  · exact hnumber

theorem accounted_take (h : Accounted l) (now : ℤ) : Accounted (l.take now).2 := by
  rcases take_spec l now with hnone | ⟨id, task, hbegin, hdue, htake⟩
  · rw [hnone]
    exact h
  · rw [htake]
    have hmem := OrderedMap.begin_mem hbegin
    have hin : Pending l id := ⟨task, hmem⟩
    have hkey := h.keyed _ hmem
    have hpending := pending_erase l.scheduler id
    obtain ⟨hzero, hnot⟩ := pending_status h hin
    refine ⟨h.bounded, h.numbered,
      fun e he => h.keyed e ((OrderedMap.mem_erase _ _ _).mp he).1,
      fun e he => h.pending e ((OrderedMap.mem_erase _ _ _).mp he).1, ?_, h.cancelled, ?_, ?_,
      ?_, ?_⟩
    · intro e he
      rcases List.mem_append.mp he with he | he
      · exact h.executed e he
      · obtain rfl := List.mem_singleton.mp he
        exact h.pending _ hmem
    · intro other hother
      have hcount := executions_append l
        { l.scheduler with mTasks := (l.scheduler.mTasks.erase id).2 } ⟨id, task.func, now⟩ other.1
      by_cases hid : other.1 = id
      · refine .inr (.inl ⟨fun hleft => ((hpending _).mp hleft).2 hid, ?_, ?_⟩)
        · rw [hcount, if_pos hid.symm, hid, hzero]
        · rw [hid]
          exact hnot
      · rw [if_neg (Ne.symm hid), Nat.add_zero] at hcount
        exact oneStatus_congr ((hpending other.1).trans (and_iff_left hid)) hcount Iff.rfl
          (h.status other hother)
    · intro e he
      rcases List.mem_append.mp he with he | he
      · exact h.due e he
      · obtain rfl := List.mem_singleton.mp he
        have htime : time id = task.time := congrArg time hkey
        show time id ≤ now
        rw [htime]
        exact hdue
    · intro e he x hx htime
      obtain ⟨hleft, hne⟩ := (hpending x).mp hx
      rcases List.mem_append.mp he with he | he
      · exact h.earlier e he x hleft htime
      · obtain rfl := List.mem_singleton.mp he
        exact number_lt_of_le (begin_min hbegin hleft) hne htime
    · refine List.pairwise_append.mpr ⟨h.ordered, List.pairwise_singleton _ _, ?_⟩
      intro e he e' he'
      obtain rfl := List.mem_singleton.mp he'
      exact h.earlier e he id hin

end Operations

/-- What a step does to the history: nothing, or one operation of the scheduler. -/
theorem step_cases {w w' : World ι F} {a : Action ι F} (h : step w a = some w') :
    w'.ledger = w.ledger ∨ (∃ t func, w.ledger.schedule t func = some w'.ledger) ∨
      (∃ id, w'.ledger = w.ledger.cancel id) ∨ w'.ledger = (w.ledger.take w.now).2 := by
  have hschedule : ∀ t func, w.schedule t func = some w' →
      ∃ t func, w.ledger.schedule t func = some w'.ledger := by
    intro t func hw
    obtain ⟨ledger, hledger, rfl⟩ := Option.map_eq_some_iff.mp hw
    exact ⟨t, func, hledger⟩
  cases a with
  | schedule thread t func => exact .inr (.inl (hschedule _ _ h))
  | delay thread delay func =>
    rw [step] at h
    split_ifs at h
    exact .inr (.inl (hschedule _ _ h))
  | enqueue thread func => exact .inr (.inl (hschedule _ _ h))
  | cancel thread id =>
    obtain rfl := Option.some_inj.mp h
    exact .inr (.inr (.inl ⟨id, rfl⟩))
  | runOne thread =>
    obtain rfl := Option.some_inj.mp h
    exact .inr (.inr (.inr rfl))
  | iterate thread =>
    obtain rfl := Option.some_inj.mp h
    exact .inr (.inr (.inr rfl))
  | tick now =>
    obtain rfl := Option.some_inj.mp h
    exact .inl rfl
  | run thread =>
    obtain rfl := Option.some_inj.mp h
    exact .inl rfl
  | finish thread =>
    obtain rfl := Option.some_inj.mp h
    exact .inl rfl
  | throw thread what =>
    obtain rfl := Option.some_inj.mp h
    exact .inl rfl

theorem accounted_step {w w' : World ι F} {a : Action ι F} (h : Accounted w.ledger)
    (hstep : step w a = some w') : Accounted w'.ledger := by
  rcases step_cases hstep with hsame | ⟨t, func, hschedule⟩ | ⟨id, hcancel⟩ | htake
  · rw [hsame]
    exact h
  · exact accounted_schedule h hschedule
  · rw [hcancel]
    exact accounted_cancel h id
  · rw [htake]
    exact accounted_take h w.now

theorem accounted_steps {w w' : World ι F} (hsteps : Steps w w') (h : Accounted w.ledger) :
    Accounted w'.ledger := by
  induction hsteps with
  | refl => exact h
  | tail _ _ hstep ih => exact accounted_step ih hstep

theorem accounted_reachable {w : World ι F} (h : Reachable w) : Accounted w.ledger := by
  obtain ⟨now, hsteps⟩ := h
  exact accounted_steps hsteps accounted_new

theorem cancelled_steps {w w' : World ι F} (hsteps : Steps w w') {id : TaskIdentifier}
    (h : id ∈ w.ledger.cancelled) : id ∈ w'.ledger.cancelled := by
  induction hsteps with
  | refl => exact h
  | tail _ _ hstep ih =>
    rcases step_cases hstep with hsame | ⟨t, func, hschedule⟩ | ⟨other, hcancel⟩ | htake
    · rw [hsame]
      exact ih
    · obtain ⟨-, hspec⟩ := schedule_spec hschedule
      rw [hspec]
      exact ih
    · rw [hcancel, Ledger.cancel]
      dsimp only
      split_ifs
      · exact List.mem_append_left _ ih
      · exact ih
    · rw [htake]
      exact ih

theorem cancelled_never_executes {l : Ledger F} (h : Accounted l) {id : TaskIdentifier}
    (hid : id ∈ l.cancelled) : executions l id = 0 := by
  obtain ⟨func, hscheduled⟩ := h.cancelled id hid
  rcases h.status _ hscheduled with hstatus | hstatus | hstatus
  · exact absurd hid hstatus.2.2
  · exact absurd hid hstatus.2.2
  · exact hstatus.2.1

/-- A step executes nothing, or takes the pending task with the smallest time and number,
whose time has come. -/
def TakesFirst (w w' : World ι F) : Prop :=
  w'.ledger.executed = w.ledger.executed ∨
    ∃ e, w'.ledger.executed = w.ledger.executed ++ [e] ∧ e.now = w.now ∧ time e.id ≤ w.now ∧
      (e.id, e.func) ∈ w.ledger.scheduled ∧ Pending w.ledger e.id ∧
        ∀ id, Pending w.ledger id → e.id ≤ id

theorem step_takesFirst {w w' : World ι F} {a : Action ι F} (h : Accounted w.ledger)
    (hstep : step w a = some w') : TakesFirst w w' := by
  rcases step_cases hstep with hsame | ⟨t, func, hschedule⟩ | ⟨id, hcancel⟩ | htake
  · exact .inl (by rw [hsame])
  · obtain ⟨-, hspec⟩ := schedule_spec hschedule
    exact .inl (by rw [hspec])
  · exact .inl (by rw [hcancel, Ledger.cancel])
  · rcases take_spec w.ledger w.now with hnone | ⟨id, task, hbegin, hdue, hsome⟩
    · exact .inl (by rw [htake, hnone])
    · have hmem := OrderedMap.begin_mem hbegin
      have htime : time id = task.time := congrArg time (h.keyed _ hmem)
      refine .inr ⟨⟨id, task.func, w.now⟩, by rw [htake, hsome], rfl, ?_, h.pending _ hmem,
        ⟨task, hmem⟩, fun x hx => begin_min hbegin hx⟩
      rw [htime]
      exact hdue

theorem length_scheduled {l : Ledger F} (h : Accounted l) :
    l.scheduled.length = l.scheduler.mNextTaskNumber := by
  have hlength := congrArg List.length h.numbered
  rwa [List.length_map, List.length_range] at hlength

/-- The time that a delay leads to is none of the clock's. -/
def Overflows (w : World ι F) (a : Action ι F) : Prop :=
  ∃ thread delay func, a = .delay thread delay func ∧ ¬ IsTimePoint (w.now + delay)

theorem step_defined {w : World ι F} (h : Accounted w.ledger)
    (hfew : w.ledger.scheduled.length + 1 < 2 ^ 31) (a : Action ι F) :
    (∃ w', step w a = some w') ∨ Overflows w a := by
  have hschedule : ∀ t func, ∃ w', w.schedule t func = some w' := by
    intro t func
    have hmax : w.ledger.scheduler.mNextTaskNumber ≠ intMax := by
      rw [← length_scheduled h, intMax]
      omega
    simp [World.schedule, Ledger.schedule, Scheduler.schedule, hmax]
  cases a with
  | schedule thread t func => exact .inl (hschedule t func)
  | delay thread delay func =>
    by_cases htime : IsTimePoint (w.now + delay)
    · rw [step, if_pos htime]
      exact .inl (hschedule _ func)
    · exact .inr ⟨thread, delay, func, rfl, htime⟩
  | enqueue thread func => exact .inl (hschedule _ func)
  | tick now => exact .inl ⟨_, rfl⟩
  | cancel thread id => exact .inl ⟨_, rfl⟩
  | runOne thread => exact .inl ⟨_, rfl⟩
  | run thread => exact .inl ⟨_, rfl⟩
  | iterate thread => exact .inl ⟨_, rfl⟩
  | finish thread => exact .inl ⟨_, rfl⟩
  | throw thread what => exact .inl ⟨_, rfl⟩

theorem scheduled_in_order {l : Ledger F} (h : Accounted l) :
    l.scheduled.Pairwise fun task task' => number task.1 < number task'.1 := by
  have hnumbers : (l.scheduled.map fun task => number task.1).Pairwise (· < ·) := by
    rw [h.numbered]
    exact List.pairwise_lt_range
  exact List.pairwise_map.mp hnumbers

/-- In every reachable state each scheduled task has one status, a cancel tells whether the
task was pending and keeps it from executing ever after, and tasks execute when due, the
first pending one at a time, those of one time in the order in which they were scheduled. -/
theorem scheduler_accounting {w : World ι F} (h : Reachable w) :
    (∀ task ∈ w.ledger.scheduled, OneStatus w.ledger task.1) ∧
    (w.ledger.scheduled.length + 1 < 2 ^ 31 →
      ∀ a, (∃ w', step w a = some w') ∨ Overflows w a) ∧
    (∀ id, (w.ledger.scheduler.cancel id).1 = true ↔ Pending w.ledger id) ∧
    (∀ thread id w₁ w₂, (w.ledger.scheduler.cancel id).1 = true →
      step w (.cancel thread id) = some w₁ → Steps w₁ w₂ → executions w₂.ledger id = 0) ∧
    (∀ e ∈ w.ledger.executed, time e.id ≤ e.now) ∧
    (∀ a w', step w a = some w' → TakesFirst w w') ∧
    w.ledger.scheduled.Pairwise (fun task task' => number task.1 < number task'.1) ∧
    w.ledger.executed.Pairwise
      (fun e e' => time e.id = time e'.id → number e.id < number e'.id) := by
  have haccounted := accounted_reachable h
  refine ⟨haccounted.status, step_defined haccounted, cancel_spec w.ledger, ?_,
    haccounted.due, fun a w' => step_takesFirst haccounted, scheduled_in_order haccounted,
    haccounted.ordered⟩
  intro thread id w₁ w₂ hresult hstep hsteps
  have hcancelled : id ∈ w₁.ledger.cancelled := by
    obtain rfl := Option.some_inj.mp hstep
    show id ∈ if (w.ledger.scheduler.cancel id).1 then w.ledger.cancelled ++ [id]
      else w.ledger.cancelled
    rw [if_pos hresult]
    exact List.mem_append_right _ (List.mem_singleton_self _)
  exact cancelled_never_executes (accounted_steps hsteps (accounted_step haccounted hstep))
    (cancelled_steps hsteps hcancelled)

namespace Sample

def actions : List (Action Unit String) :=
  [.enqueue () "first", .enqueue () "second", .run (), .iterate (), .cancel () (toLex (5, 1)),
    .throw () "failed", .iterate ()]

def play (w : World Unit String) : List (Action Unit String) → Option (World Unit String)
  | [] => some w
  | a :: rest => if Enabled w a then (step w a).bind fun w => play w rest else none

theorem steps_play {w w₁ w₂ : World Unit String} {rest : List (Action Unit String)}
    (hsteps : Steps w w₁) (hplay : play w₁ rest = some w₂) : Steps w w₂ := by
  induction rest generalizing w₁ with
  | nil =>
    obtain rfl := Option.some_inj.mp hplay
    exact hsteps
  | cons a rest ih =>
    rw [play] at hplay
    split_ifs at hplay with henabled
    obtain ⟨w', hstep, hrest⟩ := Option.bind_eq_some_iff.mp hplay
    exact ih (hsteps.tail henabled hstep) hrest

def played : World Unit String := (play (World.start 5) actions).get (by decide +kernel)

theorem reachable_played : Reachable played :=
  ⟨5, steps_play .refl (Option.some_get _).symm⟩

theorem accounting_played :
    played.ledger.executed.map Execution.id = [toLex (5, 0)] ∧
      played.ledger.cancelled = [toLex (5, 1)] ∧
      played.cerr = ["Unhandled exception in task: failed"] ∧
      ∀ task ∈ played.ledger.scheduled, OneStatus played.ledger task.1 :=
  ⟨by decide +kernel, by decide +kernel, by decide +kernel,
    (scheduler_accounting reachable_played).1⟩

end Sample

end TaskScheduler
