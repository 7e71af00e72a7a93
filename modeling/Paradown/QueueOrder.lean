import Paradown.Cancellation
import Paradown.Tickets

namespace Paradown
set_option autoImplicit true
open Tickets

/-- `pause_all`, `cancel_all` and `delete_all` clear the queue before they turn to the tasks;
`delete_all` calls `Task::delete` and empties the map in the end; `resume_all` serves the queue when
a task cannot be resumed. -/
inductive ManagerAct where
  | act (a : Act)
  | clearPendingQueue
  | spawnNextTask
  | deleteInAll (id : Nat)
  | clearTasks
  deriving DecidableEq, Repr

def World.manage (w : World) : ManagerAct → Option World
  | .act a => w.step a
  | .clearPendingQueue => some { w with queue := [] }
  | .spawnNextTask => some (w.spawn { owner := .call, task := 0, code := inManager [.popNext] })
  | .deleteInAll id =>
    if id < w.tasks.length then some (w.spawn { owner := .call, task := id, code := deleteCode })
    else none
  | .clearTasks => some { w with tasks := w.tasks.map fun t => { t with registered := false } }

/-- The manager, and a waiting line that is kept beside it; `handling` is the event that the event
loop handles. -/
structure Observed where
  world : World
  line : Line (Nat × PendingAction)
  handling : Option TaskEvent := none
  deriving DecidableEq, Repr

/-- A manager with a line for the queue that it has. -/
def World.observed (w : World) : Observed := { world := w, line := .ofList w.queue }

/-- The events whose handler removes an entry because its task is canceled or deleted. -/
def withdraws : Option TaskEvent → Bool
  | some .cancel | some .delete => true
  | _ => false

/-- What a section of call `index` means for the line. The call that gets a permit starts the entry
that it took from the queue, or else the one that waits for the same task and operation. -/
def Observed.sectionTurn (o : Observed) (index task : Nat) :
    ManagerSection → Option (Turn (Nat × PendingAction))
  | .acquire action =>
    if o.world.available = 0 then none
    else some (.start index fun e => e.1 == task && e.2.requested == action)
  | .enqueue action => some (.arrive index (task, action))
  | .popNext => some (.take index)
  | .removeFromQueue => some (.drop (·.1 == task) (withdraws o.handling))
  | _ => none

def Observed.turn (o : Observed) : ManagerAct → Option (Turn (Nat × PendingAction))
  | .act (.step index _) =>
    match o.world.next index with
    | some (t, .manager m, _) => o.sectionTurn index t.task m
    | _ => none
  | .clearPendingQueue => some .clear
  | _ => none

def Observed.handles (o : Observed) : ManagerAct → Option TaskEvent
  | .act .deliver => o.world.events.head?.map (·.1)
  | _ => o.handling

def Observed.step (o : Observed) (a : ManagerAct) : Option Observed :=
  (o.world.manage a).map fun world =>
    { world, line := (o.turn a).elim o.line o.line.turn, handling := o.handles a }

/-- No entry that was enqueued before the one that is started still waits. -/
def InOrder (o : Observed) (a : ManagerAct) : Prop :=
  ∀ u ∈ o.turn a, ∀ t ∈ o.line.starts u, o.line.IsFirst t

def KeepsOrder (o : Observed) (a : ManagerAct) : Prop := ∀ u ∈ o.turn a, o.line.Orderly u

instance : Decidable (InOrder o a) :=
  inferInstanceAs (Decidable (∀ u ∈ o.turn a, ∀ t ∈ o.line.starts u, o.line.IsFirst t))

instance : Decidable (KeepsOrder o a) :=
  inferInstanceAs (Decidable (∀ u ∈ o.turn a, o.line.Orderly u))

/-- The line shows the queue as it is, and is fair. -/
structure Observed.Faithful (o : Observed) : Prop where
  queue : o.world.queue = o.line.entries
  fair : o.line.Fair

theorem World.observed_faithful (w : World) : w.observed.Faithful :=
  ⟨(Line.entries_ofList _).symm, Line.Fair.ofList _⟩

theorem Observed.queue_section {o : Observed} {r : Thread} (hq : o.world.queue = o.line.entries)
    (hx : execManager c (o.world.context r rest) m = some x) :
    x.queue = ((o.sectionTurn i r.task m).elim o.line o.line.turn).entries := by
  cases m with
  | acquire action =>
    have hsame : x.queue = o.world.queue := by
      simp only [execManager] at hx
      split at hx <;> cases hx <;> rfl
    rw [hsame, hq, Observed.sectionTurn]
    split <;> rfl
  | enqueue action =>
    cases hx
    simp only [Observed.sectionTurn, Option.elim_some, Line.turn, Line.entries_arrive, ← hq]
    rfl
  | popNext =>
    have htail : x.queue = o.world.queue.tail := by
      simp only [execManager] at hx
      split at hx <;> cases hx
      · rename_i hw
        exact hw.trans (congrArg List.tail hw).symm
      · rename_i hw
        exact (congrArg List.tail hw).symm
    simp only [Observed.sectionTurn, Option.elim_some, Line.turn, Line.entries_take, ← hq, htail]
  | removeFromQueue =>
    cases hx
    simp only [Observed.sectionTurn, Option.elim_some, Line.turn, Line.entries_drop, ← hq]
    rfl
  | _ =>
    rw [(execManager_passes hx rfl (by simp)).2 (by simp)]
    exact hq

theorem Observed.queue_step {o o' : Observed} (hq : o.world.queue = o.line.entries)
    (hs : o.step a = some o') : o'.world.queue = o'.line.entries := by
  obtain ⟨w, hw, rfl⟩ := Option.map_eq_some_iff.1 hs
  cases a with
  | act a =>
    by_cases ha : ∃ i c, a = .step i c
    · obtain ⟨i, c, rfl⟩ := ha
      obtain ⟨r, s, rest, x, hi, hc, hx, rfl⟩ := World.stepThread_some hw
      simp only [Observed.turn, World.next_eq hi hc]
      cases s with
      | manager m => exact Observed.queue_section hq hx
      | task _ | worker _ =>
        obtain ⟨_, _, _, hquiet⟩ := exec_quiet (by simp) rfl hx
        exact hquiet.queue.trans hq
    · have hnone : o.turn (.act a) = none := by
        cases a with
        | step i c => exact absurd ⟨i, c, rfl⟩ ha
        | _ => rfl
      rw [hnone]
      exact (World.step_external hw fun i c he => ha ⟨i, c, he⟩).queue.trans hq
  | clearPendingQueue =>
    cases hw
    rfl
  | deleteInAll id =>
    simp only [World.manage] at hw
    split at hw <;> cases hw
    exact hq
  | spawnNextTask | clearTasks =>
    cases hw
    exact hq

theorem Observed.Faithful.step {o o' : Observed} (h : o.Faithful) (hk : KeepsOrder o a)
    (hs : o.step a = some o') : o'.Faithful := by
  refine ⟨Observed.queue_step h.queue hs, ?_⟩
  obtain ⟨w, _, rfl⟩ := Option.map_eq_some_iff.1 hs
  simp only
  cases hu : o.turn a with
  | none => exact h.fair
  | some u => exact h.fair.turn (hk u hu)

/-- In every run of the manager in which nothing goes back into the queue behind a later entry, what
leaves the queue for execution leaves it in the order in which it was enqueued. -/
theorem queue_order_kept (w : World) (as : List ManagerAct) (t : Observed)
    (hr : Transition.run Observed.step w.observed as = some t)
    (hk : Transition.Meets Observed.step KeepsOrder w.observed as) :
    Transition.Meets Observed.step InOrder w.observed as :=
  hk.imp (fun _ _ _ ho hk hs => Observed.Faithful.step ho hk hs)
    (fun _ _ _ ho hk _ u hu _ hstart => ho.fair.starts_first (hk u hu) hstart)
    w.observed_faithful hr

/-- A task takes the only permit, and two more wait behind it. -/
def twoWait : List Act := List.flatten
  [List.replicate 4 (.addTask .pending), [.call .startTask 0], proceed 0 1, [.call .startTask 1],
    proceed 1 2, [.call .startTask 2], proceed 2 2]

/-- The first task cannot be started and serves the queue with its permit. -/
def firstFails : List Act := List.flatten
  [proceed 0 3, [.step 0 (.fail (.other "database is locked"))], proceed 0 4]

theorem second_task_starts_next :
    Transition.Meets Observed.step InOrder (World.new 1).observed
      ((twoWait ++ firstFails).map .act) := by
  obtain ⟨t, hr⟩ : ∃ t, Transition.run Observed.step (World.new 1).observed
      ((twoWait ++ firstFails).map .act) = some t := Option.isSome_iff_exists.1 (by decide)
  exact queue_order_kept (World.new 1) _ t hr (by decide)

/-- Another task is canceled before it was ever started. The handler of its event serves the queue
without a permit. -/
def fourthCanceled : List Act := List.flatten
  [[.call .cancelTask 3], proceed 3 7, [.deliver], proceed 4 7]

theorem canceled_task_turns_queue :
    ∃ t, Transition.run Observed.step (World.new 1).observed
        ((twoWait ++ fourthCanceled ++ firstFails).map .act) = some t ∧
      ¬ Transition.Meets Observed.step InOrder (World.new 1).observed
        ((twoWait ++ fourthCanceled ++ firstFails).map .act) := by
  obtain ⟨t, hr⟩ : ∃ t, Transition.run Observed.step (World.new 1).observed
      ((twoWait ++ fourthCanceled ++ firstFails).map .act) = some t :=
    Option.isSome_iff_exists.1 (by decide)
  exact ⟨t, hr, by decide⟩

end Paradown
