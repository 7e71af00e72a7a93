import Paradown.Outcome

namespace Paradown
set_option autoImplicit true

variable {id : Nat}

/-- The events that tell that a task is over. -/
def TaskEvent.isEnd : TaskEvent → Bool
  | .pause => false
  | _ => true

def Section.tellsEnd : Section → Bool
  | .manager (.emit event) => event.isEnd
  | _ => false

/-- The sections between the end of a task and the event about it. -/
def Section.isSteady : Section → Bool
  | .task (.setStatus _) | .task .io | .task .sessionIo | .task .snapshotWorkers
  | .task (.stopEach _) | .task (.stopWorker _ _) | .task (.emitStop _ _) => true
  | _ => false

/-- The call is about to tell that its task is over, and only I/O can keep it from that. -/
def willTell : Code → Bool
  | [] => false
  | s :: rest => s.tellsEnd || (s.isSteady && willTell rest)

/-- A status that ends a task is followed by the event about it. -/
def Section.endsTold (rest : Code) : Section → Bool
  | .task (.setStatus status) => !status.isTerminal || willTell rest
  | _ => true

def endsAllTold : Code → Bool
  | [] => true
  | s :: rest => s.endsTold rest && endsAllTold rest

/-- The event, if any, that an action sends to all subscribers. -/
def World.told (w : World) : Act → Nat
  | .step i _ =>
    match w.next i with
    | some (_, .manager (.emit _), _) => 1
    | _ => 0
  | _ => 0

/-- The tasks in the map of the manager. -/
def World.taskIds (w : World) : List Nat :=
  (List.range w.tasks.length).filter fun id => (w.tasks[id]?).any (·.registered)

/-- Where `wait_for_all_tasks` stands: subscribed, before it lists the tasks, with the tasks it has
still to look at, asleep since it saw a task that is not over, or back. -/
inductive WaitPhase where
  | idle
  | subscribed
  | listing
  | looking (ids : List Nat)
  | asleep (id : Nat)
  | returned
  deriving DecidableEq

/-- The manager and a call of `wait_for_all_tasks`, with the number of events it has not received. -/
structure Awaited where
  world : World
  phase : WaitPhase := .idle
  unread : Nat := 0
  deriving DecidableEq

/-- The manager and its calls go on, an event is sent that only subscribers outside care about, or
`wait_for_all_tasks` is called or goes on: it looks, lists the tasks in whatever order the map has
them, or receives an event after a number of others that it was too slow for. -/
inductive WaitAct where
  | world (a : Act)
  | other
  | wait
  | look
  | list (ids : List Nat)
  | receive (count : Nat)
  deriving DecidableEq

namespace Awaited

/-- The next turn of the loop, or the next task in it. -/
def look (s : Awaited) : Option Awaited :=
  match s.phase with
  | .subscribed =>
    some { s with phase := if s.world.taskIds = [] then .returned else .listing }
  | .looking [] => some { s with phase := .returned }
  | .looking (id :: rest) =>
    match s.world.tasks[id]? with
    | some t => some { s with phase := if t.status.isTerminal then .looking rest else .asleep id }
    | none => none
  | _ => none

def step (s : Awaited) : WaitAct → Option Awaited
  | .world a =>
    (s.world.step a).map fun world => { s with world, unread := s.unread + s.world.told a }
  | .other => some { s with unread := s.unread + 1 }
  | .wait =>
    match s.phase with
    | .idle => some { s with phase := .subscribed, unread := 0 }
    | _ => none
  | .look => s.look
  | .list ids =>
    match s.phase with
    | .listing => if ids.Perm s.world.taskIds then some { s with phase := .looking ids } else none
    | _ => none
  | .receive count =>
    match s.phase with
    | .asleep _ =>
      if 0 < count ∧ count ≤ s.unread then
        some { s with phase := .subscribed, unread := s.unread - count }
      else none
    | _ => none

end Awaited

/-- What stands between the end of a task and the event about it can be written. -/
def World.EndsWritten (w : World) : Act → Prop
  | .step i c => ∀ e ∈ w.next i, e.2.1 = .task .io ∨ e.2.1 = .task .sessionIo →
      willTell e.2.2 = true → w.isOver e.1.task = true → c = .ok
  | _ => True

instance : Decidable (World.EndsWritten w a) :=
  match a with
  | .step _ _ => inferInstanceAs (Decidable (∀ _ ∈ _, _))
  | .addTask _ | .call _ _ | .deliver | .lag | .listen _ | .listenerLag _ | .engineEvent _ _
  | .join _ _ => inferInstanceAs (Decidable True)

theorem willTell_steady (hp : pre.all TaskSection.isStop = true) (h : willTell rest = true) :
    willTell (inTask pre ++ rest) = true := by
  induction pre with
  | nil => exact h
  | cons s pre ih =>
    rw [List.all_cons, Bool.and_eq_true] at hp
    have hs : Section.isSteady (.task s) = true := by
      cases s <;> first | rfl | cases hp.1
    rw [inTask, List.map_cons, List.cons_append, willTell, hs, Bool.true_and, ← inTask, ih hp.2,
      Bool.or_true]

theorem endsAllTold_append (hp : ∀ status, Section.task (.setStatus status) ∉ pre)
    (h : endsAllTold rest = true) : endsAllTold (pre ++ rest) = true := by
  induction pre with
  | nil => exact h
  | cons s pre ih =>
    have hs : s.endsTold (pre ++ rest) = true := by
      unfold Section.endsTold
      split
      · exact absurd List.mem_cons_self (hp _)
      · rfl
    rw [List.cons_append, endsAllTold, hs, Bool.true_and]
    exact ih fun status hm => hp status (List.mem_cons_of_mem s hm)

theorem FixedCode.endsAllTold (h : FixedCode code) : endsAllTold code = true := by
  cases h with
  | transition action => cases action <;> rfl
  | onErr frame => cases frame <;> rfl
  | ready discard => cases discard <;> rfl
  | finish discard outcome => rcases outcome with _ | ⟨⟨⟩⟩ <;> cases discard <;> rfl
  | checked check => cases check <;> rfl
  | finalize outcome => rcases outcome with _ | ⟨⟨⟩⟩ <;> rfl
  | _ => rfl

theorem endsAllTold_stopWorkers (err : Error) (h : endsAllTold rest = true) :
    endsAllTold (stopWorkersAndFailCode err ++ rest) = true := by
  simp [stopWorkersAndFailCode, inTask, inManager, endsAllTold, Section.endsTold, willTell,
    Section.isSteady, Section.tellsEnd, TaskEvent.isEnd, h]

theorem endsAllTold_invariant : CodeInvariant endsAllTold where
  tail _ _ h := by
    rw [Paradown.endsAllTold, Bool.and_eq_true] at h
    exact h.2
  aside pre _ hp h := by
    refine endsAllTold_append (fun status hm => ?_) h
    obtain ⟨s, hs, he⟩ := List.mem_map.1 hm
    cases he
    cases List.all_eq_true.1 hp _ hs
  fixed _ h := h.endsAllTold
  run _ h := by
    obtain ⟨run, rfl⟩ := h.eq_inWorker
    rw [← List.append_nil (inWorker run)]
    exact endsAllTold_append (by simp [inWorker]) rfl
  entry _ h := by
    cases h with
    | call call id => cases call <;> rfl
    | handler event id => cases event <;> rfl
    | listener event id worker => cases event <;> rfl
    | engine event id => cases event <;> rfl
    | joiner id runs =>
      simp only [joinerThread]
      induction runs.filterMap (·.result) with
      | nil => rfl
      | cons err errs ih => exact endsAllTold_stopWorkers err ih

theorem TaskEffect.willTell (h : TaskEffect t rest frame s status code frame')
    (hs : Section.isSteady (.task s) = true) (hr : Paradown.willTell rest = true) :
    Paradown.willTell code = true ∨ status = t.status ∧ (s = .io ∨ s = .sessionIo) := by
  cases h with
  | next | set => exact .inl hr
  | stop _ hp => exact .inl (willTell_steady hp hr)
  | fail hf =>
    right
    refine ⟨rfl, ?_⟩
    cases s <;> first
      | exact .inl rfl
      | exact .inr rfl
      | exact absurd hs Bool.false_ne_true
      | exact absurd hf Bool.false_ne_true
  | _ => first | cases hs | rename_i hc; rcases hc with rfl | rfl <;> cases hs

theorem Thread.settle_willTell {t : Thread} (h : willTell t.code = true) :
    willTell t.settle.code = true := by
  unfold Thread.settle
  split
  case isTrue he =>
    rw [List.isEmpty_iff.1 he] at h
    cases h
  case isFalse => exact h

/-- Some call is about to tell that the task is over. -/
def World.Owes (w : World) (id : Nat) : Prop :=
  ∃ (j : Nat) (r : Thread), w.threads[j]? = some r ∧ r.task = id ∧ willTell r.code = true

/-- The task is not over, or somebody will tell. -/
def World.EndDue (w : World) (id : Nat) : Prop :=
  ∃ t, w.tasks[id]? = some t ∧ (t.status.isTerminal = false ∨ w.Owes id)

theorem World.Owes.extends {w w' : World} (h : w.Owes id) (he : w.Extends w') : w'.Owes id := by
  obtain ⟨j, r, hj, hid, hr⟩ := h
  obtain ⟨new, hn⟩ := he.threads
  refine ⟨j, r, ?_, hid, hr⟩
  rw [hn, List.getElem?_append_left (List.getElem?_eq_some_iff.1 hj).1]
  exact hj

/-- The next section of a call that is about to tell that its task is over. -/
theorem exec_willTell {w : World} {r : Thread} (ht : w.tasks[r.task]? = some t)
    (hn : w.next i = some (r, s, rest)) (htold : ∀ event, s ≠ .manager (.emit event))
    (hr : willTell (s :: rest) = true) (hw : w.EndsWritten (.step i c))
    (hx : exec c (w.context r rest) s = some x) :
    willTell x.thread.code = true ∨
      ∃ t', x.task = some t' ∧ t'.status.isTerminal = false := by
  have hsteady : s.isSteady = true ∧ willTell rest = true := by
    rw [willTell, Bool.or_eq_true, Bool.and_eq_true] at hr
    refine hr.resolve_left fun hend => ?_
    unfold Section.tellsEnd at hend
    split at hend
    · exact htold _ rfl
    · cases hend
  obtain ⟨m, rfl⟩ : ∃ m, s = .task m := by
    cases s with
    | task m => exact ⟨m, rfl⟩
    | manager m => cases hsteady.1
    | worker m => cases hsteady.1
  simp only [exec, World.context, ht] at hx
  obtain ⟨t', hq, he⟩ := execTask_effect (t := t) rfl rfl hx
  rcases he.willTell hsteady.1 hsteady.2 with hcode | ⟨hstatus, hio⟩
  · exact .inl hcode
  · cases hover : t.status.isTerminal with
    | false => exact .inr ⟨t', hq.task, hstatus ▸ hover⟩
    | true =>
      have hok : c = .ok := by
        apply hw _ hn _ hsteady.2
        · rw [World.isOver, World.status, ht]
          exact hover
        · rcases hio with rfl | rfl
          · exact .inl rfl
          · exact .inr rfl
      left
      subst hok
      rcases hio with rfl | rfl
      · cases hx
        exact hsteady.2
      · simp [execTask] at hx
        rw [← hx]
        exact hsteady.2

theorem World.EndDue.step {w w' : World} (h : w.EndDue id)
    (hends : ∀ t ∈ w.threads, endsAllTold t.code = true) (hw : w.EndsWritten a)
    (htold : w.told a = 0) (hs : w.step a = some w') : w'.EndDue id := by
  obtain ⟨t, ht, hdue⟩ := h
  by_cases ha : ∃ i c, a = .step i c
  · obtain ⟨i, c, rfl⟩ := ha
    obtain ⟨r, s, rest, x, hi, hc, hx, rfl⟩ := World.stepThread_some hs
    have hnext := World.next_eq hi hc
    have hnone : ∀ event, s ≠ .manager (.emit event) := by
      rintro event rfl
      rw [World.told, hnext] at htold
      cases htold
    have hsome := exec_isSome (x := w.context r rest) rfl hx
    -- a call that tells of the end after this section
    have howes (hid : r.task = id) (hcode : willTell x.thread.code = true) :
        (w.commit i r.task x).Owes id := by
      refine ⟨i, x.thread.settle, World.commit_thread hi, ?_, Thread.settle_willTell hcode⟩
      rw [Thread.settle_task, ← hid]
      rcases exec_moves (x := w.context r rest) rfl hx with hmove | ⟨action, rfl, hmove, _⟩
      · exact hmove
      · rw [hmove] at hcode
        cases action <;> cases hcode
    by_cases hid : r.task = id
    · subst hid
      obtain ⟨t', ht', hstatus⟩ := exec_status (x := w.context r rest) ht rfl hx
      refine ⟨t', (World.commit_task hsome).trans ht', ?_⟩
      rcases hstatus with he | rfl | ⟨_, hst⟩ | ⟨rfl, hmay, _⟩
      · rcases hdue with hst | ⟨j, r', hj, hr', hcode⟩
        · exact .inl (he ▸ hst)
        · by_cases hji : j = i
          · subst hji
            cases hi.symm.trans hj
            rcases exec_willTell ht hnext hnone (hc ▸ hcode) hw hx with hcode | ⟨t'', h'', hst⟩
            · exact .inr (howes rfl hcode)
            · cases ht'.symm.trans h''
              exact .inl hst
          · exact .inr ⟨j, r', World.commit_thread_ne hji hj, hr', hcode⟩
      · have htold := hends r (List.mem_of_getElem? hi)
        rw [hc, endsAllTold, Bool.and_eq_true, Section.endsTold, Bool.or_eq_true,
          Bool.not_eq_true'] at htold
        refine htold.1.imp_right fun hcode => howes rfl ?_
        simp only [exec, World.context, ht, execTask] at hx
        cases hx
        exact hcode
      · exact .inl hst
      · simp only [exec, World.context, ht] at hx
        refine .inr (howes rfl ?_)
        rw [execTask_cancelGate hmay hx]
        rfl
    · refine ⟨t, (World.commit_task_ne (Ne.symm hid)).trans ht, hdue.imp_right ?_⟩
      rintro ⟨j, r', hj, hr', hcode⟩
      have hne : j ≠ i := by
        rintro rfl
        cases hi.symm.trans hj
        exact hid hr'
      exact ⟨j, r', World.commit_thread_ne hne hj, hr', hcode⟩
  · have ha : ∀ i c, a ≠ .step i c := fun i c he => ha ⟨i, c, he⟩
    have hext := World.step_external hs ha
    obtain ⟨t', ht', hv⟩ := hext.forth id t ht
    exact ⟨t', ht', hdue.imp (fun hst => hv.status ▸ hst) (fun ho => ho.extends hext)⟩

theorem not_willTell_of_sorted {t : Thread} (h : t.Sorted) (hw : t.owner = .worker) :
    willTell t.code = false := by
  obtain ⟨_, full, hfull, hsuffix⟩ := h.1 hw
  cases hc : t.code with
  | nil => rfl
  | cons s rest =>
    obtain ⟨m, rfl⟩ := suffix_worker hfull (hc ▸ hsuffix)
    rfl

theorem World.Quiescent.not_owes {w : World} (h : w.Quiescent) (hs : ∀ t ∈ w.threads, t.Sorted) :
    ¬ w.Owes id := by
  rintro ⟨j, r, hj, _, hcode⟩
  have hm := List.mem_of_getElem? hj
  by_cases hw : r.owner = .worker
  · rw [not_willTell_of_sorted (hs r hm) hw] at hcode
    cases hcode
  · rw [h.2 r hm hw] at hcode
    cases hcode

theorem World.mem_taskIds {w : World} :
    id ∈ w.taskIds ↔ ∃ t, w.tasks[id]? = some t ∧ t.registered = true := by
  rw [World.taskIds, List.mem_filter, List.mem_range, Option.any_eq_true]
  constructor
  · rintro ⟨_, t, ht, hr⟩
    exact ⟨t, ht, hr⟩
  · rintro ⟨t, ht, hr⟩
    exact ⟨(List.getElem?_eq_some_iff.1 ht).1, t, ht, hr⟩

theorem exec_registered {x y : Context} (hx : x.task = some t) (hn : x.spawned = [])
    (h : exec c x s = some y) :
    ∃ t', y.task = some t' ∧ (t'.registered = true → t.registered = true) := by
  cases s with
  | manager m =>
    cases m with
    | acquire | lookup | persistTask | persistHttpSession | popNext =>
      simp only [exec, execManager] at h
      split at h <;> cases h <;> exact ⟨t, hx, fun hr => hr⟩
    | enqueue | dropPermit | removeFromQueue | emit =>
      cases h
      exact ⟨t, hx, fun hr => hr⟩
    | storePermit | clearSlot | releasePermit =>
      simp only [exec, execManager, hx] at h
      cases h
      exact ⟨_, rfl, fun hr => hr⟩
    | releaseTaskPermit =>
      simp only [exec, execManager, hx] at h
      split at h <;> cases h
      · exact ⟨_, rfl, fun hr => hr⟩
      · exact ⟨t, hx, fun hr => hr⟩
    | removeTask =>
      simp only [exec, execManager, hx] at h
      cases h
      exact ⟨_, rfl, fun hr => absurd hr Bool.false_ne_true⟩
  | task m =>
    simp only [exec, hx] at h
    obtain ⟨t', hq, _⟩ := execTask_effect hx hn h
    exact ⟨t', hq.task, fun hr => hq.registered ▸ hr⟩
  | worker m =>
    simp only [exec, hx] at h
    split at h
    · cases h
    · obtain ⟨t', hq, _⟩ := execWorker_effect hx hn h
      exact ⟨t', hq.task, fun hr => hq.registered ▸ hr⟩

theorem World.taskIds_step {w w' : World} (hlen : w'.tasks.length = w.tasks.length)
    (hs : w.step a = some w') (hm : id ∈ w'.taskIds) : id ∈ w.taskIds := by
  obtain ⟨t', ht', hr⟩ := World.mem_taskIds.1 hm
  have hlt : id < w.tasks.length := hlen ▸ (List.getElem?_eq_some_iff.1 ht').1
  obtain ⟨t, ht⟩ : ∃ t, w.tasks[id]? = some t := ⟨_, List.getElem?_eq_getElem hlt⟩
  refine World.mem_taskIds.2 ⟨t, ht, ?_⟩
  by_cases ha : ∃ i c, a = .step i c
  · obtain ⟨i, c, rfl⟩ := ha
    obtain ⟨r, s, rest, x, hi, hc, hx, rfl⟩ := World.stepThread_some hs
    by_cases hid : r.task = id
    · subst hid
      obtain ⟨t₁, h₁, hkeep⟩ := exec_registered (x := w.context r rest) ht rfl hx
      have hsome := exec_isSome (x := w.context r rest) rfl hx
      rw [World.commit_task hsome, h₁] at ht'
      cases ht'
      exact hkeep hr
    · rw [World.commit_task_ne (Ne.symm hid), ht] at ht'
      cases ht'
      exact hr
  · obtain ⟨t₁, h₁, hv⟩ := (World.step_external hs fun i c he => ha ⟨i, c, he⟩).forth id t ht
    cases h₁.symm.trans ht'
    exact hv.registered ▸ hr

/-- A task is added, or one that was over is not over any more. -/
def World.revives (w w' : World) : Bool :=
  w'.tasks.length != w.tasks.length ||
    (List.range w.tasks.length).any fun id => w.isOver id && !w'.isOver id

namespace Awaited

/-- Whether no task has been added or revived since the tasks were listed last. -/
def noteCalm (calm : Bool) (s : Awaited) (a : WaitAct) (s' : Awaited) : Bool :=
  match a with
  | .list _ => true
  | .world _ => calm && !s.world.revives s'.world
  | .other | .wait | .look | .receive _ => calm

def calmAfter (s : Awaited) (acts : List WaitAct) : Bool :=
  Transition.history step noteCalm false s acts

def EndsWritten (s : Awaited) : WaitAct → Prop
  | .world a => s.world.EndsWritten a
  | _ => True

instance (s : Awaited) : (a : WaitAct) → Decidable (s.EndsWritten a)
  | .world a => inferInstanceAs (Decidable (s.world.EndsWritten a))
  | .other | .wait | .look | .list _ | .receive _ => isTrue trivial

/-- A call that is asleep will be woken when the task that it saw is over; and as long as nothing
has been revived, the tasks that it does not look at any more are over. -/
structure Watches (s : Awaited) (calm : Bool) : Prop where
  ends : ∀ t ∈ s.world.threads, endsAllTold t.code = true
  sorted : ∀ t ∈ s.world.threads, t.Sorted
  asleep : ∀ id, s.phase = .asleep id → s.unread = 0 → s.world.EndDue id
  looked : ∀ ids, s.phase = .looking ids → calm = true →
    ∀ id ∈ s.world.taskIds, id ∈ ids ∨ s.world.isOver id = true

theorem Watches.look {s s' : Awaited} (h : s.Watches calm) (hs : s.look = some s') :
    s'.Watches calm := by
  unfold Awaited.look at hs
  split at hs
  case h_1 =>
    cases hs
    split
    all_goals exact { h with asleep := nofun, looked := nofun }
  case h_2 =>
    cases hs
    exact { h with asleep := nofun, looked := nofun }
  case h_3 id rest hp =>
    split at hs
    case h_1 t ht =>
      cases hs
      cases hover : t.status.isTerminal with
      | false =>
        refine { h with asleep := ?_, looked := nofun }
        intro _ hp' _
        cases hp'
        exact ⟨t, ht, .inl hover⟩
      | true =>
        refine { h with asleep := nofun, looked := ?_ }
        intro ids hids hc j hm
        cases hids
        rcases h.looked _ hp hc j hm with hj | hj
        · rcases List.mem_cons.1 hj with rfl | hj
          · right
            rw [World.isOver, World.status, ht]
            exact hover
          · exact .inl hj
        · exact .inr hj
    case h_2 => cases hs
  case h_4 => cases hs

theorem Watches.list {s : Awaited} (h : s.Watches calm) (hids : ids.Perm s.world.taskIds) :
    Watches { s with phase := .looking ids } true where
  ends := h.ends
  sorted := h.sorted
  asleep := nofun
  looked ids' hp _ id hm := by
    cases hp
    exact .inl (hids.mem_iff.2 hm)

theorem Watches.world {s : Awaited} (h : s.Watches calm) (hw : s.world.EndsWritten a)
    (hs : s.world.step a = some w') :
    let s' : Awaited := { s with world := w', unread := s.unread + s.world.told a }
    s'.Watches (noteCalm calm s (.world a) s') where
  ends := endsAllTold_invariant.step h.ends hs
  sorted := World.sorted_step h.sorted hs
  asleep id hp hz := by
    obtain ⟨hunread, htold⟩ := Nat.add_eq_zero_iff.1 hz
    exact (h.asleep id hp hunread).step h.ends hw htold hs
  looked ids hp hc id hm := by
    rw [noteCalm, Bool.and_eq_true, Bool.not_eq_true', World.revives, Bool.or_eq_false_iff,
      bne_eq_false_iff_eq] at hc
    obtain ⟨hcalm, hlen, hkeep⟩ := hc
    have hold := World.taskIds_step hlen hs hm
    refine (h.looked ids hp hcalm id hold).imp_right fun hover => ?_
    obtain ⟨t, ht, _⟩ := World.mem_taskIds.1 hold
    have hmem : id ∈ List.range s.world.tasks.length :=
      List.mem_range.2 (List.getElem?_eq_some_iff.1 ht).1
    have hnot := List.any_eq_false.1 hkeep id hmem
    rw [hover, Bool.true_and, Bool.not_eq_true', Bool.not_eq_false] at hnot
    exact hnot

theorem Watches.step {s s' : Awaited} (h : s.Watches calm) (hw : s.EndsWritten a)
    (hs : s.step a = some s') : s'.Watches (noteCalm calm s a s') := by
  cases a with
  | world a =>
    obtain ⟨w', hw', rfl⟩ := Option.map_eq_some_iff.1 hs
    exact h.world hw hw'
  | other =>
    cases hs
    exact { h with asleep := fun _ _ hz => absurd hz (Nat.succ_ne_zero _) }
  | wait =>
    simp only [Awaited.step] at hs
    split at hs <;> cases hs
    exact { h with asleep := nofun, looked := nofun }
  | look => exact h.look hs
  | list ids =>
    simp only [Awaited.step] at hs
    split at hs
    · split at hs
      case isTrue hids =>
        cases hs
        exact h.list hids
      case isFalse => cases hs
    · cases hs
  | receive count =>
    simp only [Awaited.step] at hs
    split at hs
    · split at hs <;> cases hs
      exact { h with asleep := nofun, looked := nofun }
    · cases hs

end Awaited

/-- `wait_for_all_tasks` does not sleep through the end of the tasks, and does not come back before
it: asleep with nothing to receive and nothing in progress, it waits for a task that is not over; and
when it comes back and no task has been added or revived since it listed them, all of them are
over. -/
theorem wait_for_all_tasks_exact (permits : Nat) (acts : List WaitAct) (s : Awaited)
    (hw : Transition.Meets Awaited.step Awaited.EndsWritten ⟨World.new permits, .idle, 0⟩ acts)
    (hr : Transition.run Awaited.step ⟨World.new permits, .idle, 0⟩ acts = some s) :
    (∀ id, s.phase = .asleep id → s.unread = 0 → s.world.Quiescent →
      s.world.isOver id = false) ∧
    ∀ s', s.phase ≠ .returned → s.step .look = some s' → s'.phase = .returned →
      Awaited.calmAfter ⟨World.new permits, .idle, 0⟩ acts = true →
      ∀ id ∈ s.world.taskIds, s.world.isOver id = true := by
  have hinit : Awaited.Watches ⟨World.new permits, .idle, 0⟩ false := by
    have hnone : ∀ t : Thread, t ∉ (World.new permits).threads := fun t => List.not_mem_nil
    refine ⟨fun t ht => absurd ht (hnone t), fun t ht => absurd ht (hnone t), ?_, ?_⟩
    · intro id hp
      cases hp
    · intro ids hp
      cases hp
  have h : s.Watches (Awaited.calmAfter ⟨World.new permits, .idle, 0⟩ acts) :=
    hw.history (fun s calm a s' hs hc hstep => hs.step hc hstep) hinit hr
  constructor
  · intro id hp hz hq
    obtain ⟨t, ht, hover | howes⟩ := h.asleep id hp hz
    · rw [World.isOver, World.status, ht]
      exact hover
    · exact absurd howes (hq.not_owes h.sorted)
  · intro s' hp hs hret hcalm id hm
    simp only [Awaited.step, Awaited.look] at hs
    split at hs
    case h_1 =>
      cases hs
      split at hret
      case isTrue hnil => exact absurd (hnil ▸ hm) List.not_mem_nil
      case isFalse => cases hret
    case h_2 hphase => exact (h.looked [] hphase hcalm id hm).resolve_left List.not_mem_nil
    case h_3 =>
      split at hs
      case h_1 =>
        cases hs
        dsimp only at hret
        split at hret <;> cases hret
      case h_2 => cases hs
    case h_4 => cases hs

/-- A task is canceled while somebody waits for it. -/
def canceledWhileAwaited : List WaitAct :=
  [.world (.addTask .pending), .wait, .look, .list [0], .look, .world (.call .cancelTask 0)] ++
    (proceed 0 7).map .world ++ [.receive 1, .look, .list [0], .look]

theorem canceled_task_awaited :
    ∃ s, Transition.run Awaited.step ⟨World.new 1, .idle, 0⟩ canceledWhileAwaited = some s ∧
      s.world.taskIds = [0] ∧ ∀ id ∈ s.world.taskIds, s.world.isOver id = true := by
  obtain ⟨s, hrun, hp, hids⟩ : ∃ s, Transition.run Awaited.step ⟨World.new 1, .idle, 0⟩
      canceledWhileAwaited = some s ∧ s.phase = .looking [] ∧ s.world.taskIds = [0] :=
    Transition.run_any (by decide)
  have h := wait_for_all_tasks_exact 1 canceledWhileAwaited s (by decide) hrun
  refine ⟨s, hrun, hids, h.2 { s with phase := .returned } ?_ ?_ rfl (by decide)⟩
  · rw [hp]
    nofun
  · simp only [Awaited.step, Awaited.look, hp]

end Paradown
