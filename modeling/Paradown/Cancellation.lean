import Paradown.Queue
import Paradown.Runs

namespace Paradown
set_option autoImplicit true

/-- The entries of the task in the pending queue. -/
def World.entries (w : World) (id : Nat) : Nat := w.queue.countP (·.1 == id)

/-- What an event handler does before it removes an entry from the queue. -/
def Section.persists (s : Section) : Bool :=
  s == .manager .persistTask || s == .manager .persistHttpSession

/-- The call is an event handler that has still to remove an entry. -/
def removesEntry (code : Code) : Bool :=
  reaches Section.persists (· == .manager .removeFromQueue) code

/-- How often an entry of the task will still be removed. -/
def World.removals (w : World) (id : Nat) : Nat :=
  w.events.countP (·.2 == id) + w.threads.tally fun t => (t.task == id && removesEntry t.code).toNat

def Section.mayEnqueue : Section → Bool
  | .manager (.acquire _) | .manager (.enqueue _) => true
  | _ => false

/-- The call may still put its task into the queue. -/
def mayEnqueue (code : Code) : Bool := code.any Section.mayEnqueue

/-- The task of the queue entry that `spawn_next_task` goes on to start or resume. -/
def World.taken (w : World) : Act → Option Nat
  | .step i _ =>
    match w.next i with
    | some (_, .manager .popNext, _) => w.queue.head?.map (·.1)
    | _ => none
  | _ => none

/-- The step with which a `cancel` of the task returns `Ok`. -/
def World.ReturnsCancel (w : World) (id : Nat) : Act → Prop
  | .step i _ => ∃ e ∈ w.next i, e.1.owner = .call ∧ e.1.task = id ∧
      e.2.1 = .manager (.emit .cancel) ∧ e.2.2 = []
  | _ => False

instance {id : Nat} : Decidable (World.ReturnsCancel w id a) :=
  match a with
  | .step _ _ => inferInstanceAs (Decidable (∃ _ ∈ _, _))
  | .addTask _ | .call _ _ | .deliver | .lag | .listen _ | .listenerLag _ | .engineEvent _ _
  | .join _ _ => inferInstanceAs (Decidable False)

/-- The request to start or resume the task. -/
def Act.requests (id : Nat) (a : Act) : Bool := a == .call .startTask id || a == .call .resumeTask id

/-- The handler returns before it removes an entry. -/
def World.givesUp (w : World) (r : Thread) (c : Choice) : Section → Bool
  | .manager .persistTask => !((w.context r []).isRegistered && c == .ok)
  | .manager .persistHttpSession => c != .ok
  | _ => false

/-- The entries of a canceled task are removed in time: when `cancel` returns, they are no more than
the removals to come and no call can add another one; no removal is lost that is needed, and the
queue is not served with an entry whose removal is still to come. -/
def RemovedInTime (id : Nat) (w : World) : Act → Prop
  | .step i c =>
    (w.ReturnsCancel id (.step i c) → w.entries id ≤ w.removals id + 1 ∧
      ∀ t ∈ w.threads, t.task = id → mayEnqueue t.code = false) ∧
    (w.taken (.step i c) = some id → w.removals id = 0) ∧
    ∀ e ∈ w.next i, e.1.task = id → removesEntry e.1.code = true → w.givesUp e.1 c e.2.1 = true →
      w.entries id < w.removals id
  | .lag => ∀ e ∈ w.events.head?, e.2 = id → w.entries id < w.removals id
  | _ => True

instance {id : Nat} : Decidable (RemovedInTime id w a) :=
  match a with
  | .step _ _ => inferInstanceAs (Decidable (_ ∧ _ ∧ _))
  | .lag => inferInstanceAs (Decidable (∀ _ ∈ _, _))
  | .addTask _ | .call _ _ | .deliver | .listen _ | .listenerLag _ | .engineEvent _ _ | .join _ _ =>
    inferInstanceAs (Decidable True)

/-- Every entry of the task will be removed, and none will be added. -/
structure World.Withdrawn (id : Nat) (w : World) : Prop where
  entries : w.entries id ≤ w.removals id
  calls : ∀ t ∈ w.threads, t.task = id → mayEnqueue t.code = false

section
variable {id n : Nat}

theorem mayEnqueue_append : mayEnqueue (pre ++ rest) = (mayEnqueue pre || mayEnqueue rest) :=
  List.any_append

theorem mayEnqueue_inTask (pre : List TaskSection) : mayEnqueue (inTask pre) = false := by
  simp [mayEnqueue, inTask, Section.mayEnqueue]

theorem mayEnqueue_inWorker (run : List WorkerSection) : mayEnqueue (inWorker run) = false := by
  simp [mayEnqueue, inWorker, Section.mayEnqueue]

theorem TaskEffect.mayEnqueue (h : TaskEffect t rest frame s status code frame')
    (hr : mayEnqueue rest = false) : mayEnqueue code = false := by
  cases h with
  | next | set => exact hr
  | reset =>
    rw [resetTaskCode, mayEnqueue_append, mayEnqueue_inTask, hr]
    rfl
  | stop | check =>
    rw [mayEnqueue_append, mayEnqueue_inTask, hr]
    rfl
  | fail => cases frame <;> rfl
  | prepared h =>
    unfold preparedCode at h
    split at h <;> cases h
    · rename_i discard
      cases discard <;> rfl
    · rename_i discard outcome
      rcases outcome with _ | ⟨⟨⟩⟩ <;> cases discard <;> rfl
    · rfl
  | checked => rename_i check; cases check <;> rfl
  | finalize => rename_i outcome; rcases outcome with _ | ⟨⟨⟩⟩ <;> rfl
  | halt | deleteFailed | engineOver | engineRunning | resumeStart | resumeSession | resumeAgain
  | pause | cancel | recreate | reuse | persistFailed => rfl

theorem execManager_passes {x y : Context} (h : execManager c x m = some y)
    (hm : Section.mayEnqueue (.manager m) = false) (hp : m ≠ .popNext) :
    (y.thread.code = x.thread.code ∨ y.thread.code = []) ∧
      (m ≠ .removeFromQueue → y.queue = x.queue) := by
  cases m with
  | acquire _ | enqueue _ => cases hm
  | popNext => exact absurd rfl hp
  | dropPermit | emit _ =>
    cases h
    exact ⟨.inl rfl, fun _ => rfl⟩
  | removeFromQueue =>
    cases h
    exact ⟨.inl rfl, fun hne => absurd rfl hne⟩
  | lookup | persistTask | persistHttpSession =>
    simp only [execManager] at h
    split at h <;> cases h
    · exact ⟨.inl rfl, fun _ => rfl⟩
    · exact ⟨.inr rfl, fun _ => rfl⟩
  | storePermit | clearSlot | releasePermit | removeTask =>
    simp only [execManager] at h
    split at h <;> cases h
    exact ⟨.inl rfl, fun _ => rfl⟩
  | releaseTaskPermit =>
    simp only [execManager] at h
    split at h
    · cases h
      exact ⟨.inl rfl, fun _ => rfl⟩
    · split at h <;> cases h <;> exact ⟨.inl rfl, fun _ => rfl⟩

theorem exec_mayEnqueue {x y : Context} (hn : x.spawned = []) (h : exec c x s = some y)
    (hc : mayEnqueue (s :: x.thread.code) = false) (hp : s ≠ .manager .popNext) :
    mayEnqueue y.thread.code = false := by
  rw [mayEnqueue, List.any_cons, Bool.or_eq_false_iff] at hc
  cases s with
  | manager m =>
    obtain ⟨hcode | hcode, _⟩ := execManager_passes h hc.1 fun he => hp (he ▸ rfl)
    · rw [hcode]
      exact hc.2
    · rw [hcode]
      rfl
  | task m =>
    simp only [exec] at h
    split at h
    · cases h
    · rename_i t ht
      obtain ⟨t', _, he⟩ := execTask_effect ht hn h
      exact he.mayEnqueue hc.2
  | worker m =>
    simp only [exec] at h
    split at h
    · cases h
    · split at h
      · cases h
      · rcases execWorker_code h with hcode | ⟨hcode, _⟩
        · rw [hcode]
          exact hc.2
        · obtain ⟨run, hrun⟩ := hcode.eq_inWorker
          rw [hrun, mayEnqueue_inWorker]

theorem mayEnqueue_settle {t : Thread} (h : mayEnqueue t.code = false) :
    mayEnqueue t.settle.code = false := by
  unfold Thread.settle
  split
  · cases t.frame <;> rfl
  · exact h

theorem Thread.Spawned.mayEnqueue {t : Thread} (h : t.Spawned n) : mayEnqueue t.code = false := by
  obtain ⟨_, _, _, ⟨_, hc⟩ | ⟨_, hc⟩⟩ := h <;> rw [hc] <;> rfl

theorem mayEnqueue_joiner (id : Nat) (runs : List Thread) :
    mayEnqueue (joinerThread id runs).code = false := by
  refine List.any_eq_false.2 fun s hs => ?_
  obtain ⟨err, _, hm⟩ := List.mem_flatMap.1 hs
  have hno : mayEnqueue (stopWorkersAndFailCode err) = false := rfl
  exact List.any_eq_false.1 hno s hm

/-- Of the calls that begin, only a request to start or resume a task leads to the queue. -/
theorem World.step_requests {w w' : World} (h : w.step a = some w') (ha : ∀ i c, a ≠ .step i c) :
    ∀ t ∈ w'.threads, t ∈ w.threads ∨ mayEnqueue t.code = false ∨ a.requests t.task = true := by
  intro t ht
  rcases World.step_starts h ha with he | ⟨r, hr, he⟩
  · exact .inl (he ▸ ht)
  · rw [he] at ht
    rcases List.mem_append.1 ht with ht | ht
    · exact .inl ht
    · cases List.mem_singleton.1 ht
      right
      cases hr with
      | call call k =>
        cases call with
        | startTask | resumeTask => exact .inr (by simp [Act.requests, Call.toThread])
        | _ => exact .inl rfl
      | handler event k => exact .inl (by cases event <;> rfl)
      | listener event k worker => exact .inl (by cases event <;> rfl)
      | engine event k => exact .inl (by cases event <;> rfl)
      | joiner k batch => exact .inl (mayEnqueue_joiner _ _)

theorem removesEntry_settle (t : Thread) : removesEntry t.settle.code = removesEntry t.code :=
  reaches_settle (fun frame => by cases frame <;> rfl) t

theorem World.removals_commit {w : World} (id n : Nat) (hi : w.threads[i]? = some r)
    (he : x.events = w.events ++ added) :
    w.removals id + (x.thread.task == id && removesEntry x.thread.code).toNat +
      added.countP (·.2 == id) ≤
    (w.commit i n x).removals id + (r.task == id && removesEntry r.code).toNat := by
  have ht := World.tally_commit (n := n) (x := x)
    (f := fun t => (t.task == id && removesEntry t.code).toNat) hi
  simp only [Thread.settle_task, removesEntry_settle] at ht
  have hev : (w.commit i n x).events = w.events ++ added := he
  simp only [World.removals, hev, List.countP_append]
  omega

theorem World.removals_kept {w : World} (hi : w.threads[i]? = some r) (hc : r.code = s :: rest)
    (hx : exec c (w.context r rest) s = some x) (hs : s.persists = false)
    (hr : s ≠ .manager .removeFromQueue) :
    w.removals id ≤ (w.commit i r.task x).removals id := by
  obtain ⟨added, he⟩ := exec_events rfl hx
  have hb := World.removals_commit id r.task hi he
  have hno : removesEntry r.code = false := by
    rw [removesEntry, hc, reaches, hs, beq_false_of_ne hr]
    rfl
  rw [hno, Bool.and_false, Bool.toNat_false] at hb
  omega

theorem countP_removeFromQueue (queue : List (Nat × PendingAction)) :
    (removeFromQueue n queue).countP (·.1 == id) =
      queue.countP (·.1 == id) - (n == id).toNat := by
  induction queue with
  | nil => simp [removeFromQueue]
  | cons e queue ih =>
    have ih' : (queue.eraseP fun e => e.1 == n).countP (·.1 == id) =
        queue.countP (·.1 == id) - (n == id).toNat := ih
    rw [removeFromQueue, List.eraseP_cons]
    cases he : e.1 == n with
    | true => cases hn : n == id <;> simp [eq_of_beq he, hn]
    | false =>
      rw [cond_false, List.countP_cons, List.countP_cons, ih']
      cases hn : n == id with
      | true =>
        rw [← eq_of_beq hn, he]
        rfl
      | false => rfl

theorem countP_enqueueTaskAction (h : n ≠ id) (queue : List (Nat × PendingAction)) :
    (enqueueTaskAction n action queue).countP (·.1 == id) = queue.countP (·.1 == id) := by
  unfold enqueueTaskAction
  split
  · rfl
  · simp [h]

theorem World.taken_eq {w : World} (hi : w.threads[i]? = some r)
    (hc : r.code = .manager .popNext :: rest) :
    w.taken (.step i c) = w.queue.head?.map (·.1) := by
  simp only [World.taken, World.next_eq hi hc]

theorem World.Withdrawn.not_taken {w : World} (h : w.Withdrawn id) (hok : RemovedInTime id w a) :
    w.taken a ≠ some id := by
  intro ht
  cases a with
  | step i c =>
    have hzero := h.entries.trans_eq (hok.2.1 ht)
    simp only [World.taken] at ht
    split at ht
    · obtain ⟨e, hm, he⟩ := Option.map_eq_some_iff.1 ht
      have hpos : 0 < w.queue.countP (·.1 == id) :=
        List.countP_pos_iff.2 ⟨e, List.mem_of_mem_head? hm, by simpa using he⟩
      exact absurd (Nat.lt_of_lt_of_le hpos hzero) (Nat.lt_irrefl 0)
    · cases ht
  | _ => cases ht

theorem World.Withdrawn.persists {w : World} (h : w.Withdrawn id)
    (hok : RemovedInTime id w (.step i c)) (hi : w.threads[i]? = some r) (hc : r.code = s :: rest)
    (hs : s.persists = true)
    (hx : x.queue = w.queue ∧ x.events = w.events ∧ x.thread.task = r.task ∧
      (x.thread.code = rest ∨ w.givesUp r c s = true)) :
    (w.commit i r.task x).entries id ≤ (w.commit i r.task x).removals id := by
  obtain ⟨hq, he, ht, hcode⟩ := hx
  have hb := World.removals_commit id r.task hi (he.trans (List.append_nil _).symm)
  have hentries : (w.commit i r.task x).entries id = w.entries id := by
    rw [World.entries, World.entries, show (w.commit i r.task x).queue = w.queue from hq]
  rw [hentries]
  have hle := h.entries
  rcases hcode with hcode | hgives
  · have hne : s ≠ .manager .removeFromQueue := by
      rintro rfl
      cases hs
    have hsame : removesEntry r.code = removesEntry rest := by
      rw [removesEntry, hc, reaches, hs, beq_false_of_ne hne, Bool.false_or, Bool.true_and]
      rfl
    rw [ht, hcode, hsame] at hb
    omega
  · cases hrem : r.task == id && removesEntry r.code with
    | false =>
      rw [hrem, Bool.toNat_false] at hb
      omega
    | true =>
      rw [hrem, Bool.toNat_true] at hb
      rw [Bool.and_eq_true] at hrem
      have := hok.2.2 _ (World.next_eq hi hc) (eq_of_beq hrem.1) hrem.2 hgives
      omega

/-- No manager section leaves more entries than removals. -/
theorem World.Withdrawn.manager {w : World} (h : w.Withdrawn id) (hok : RemovedInTime id w (.step i c))
    (hi : w.threads[i]? = some r) (hc : r.code = .manager m :: rest)
    (hx : execManager c (w.context r rest) m = some x) :
    (w.commit i r.task x).entries id ≤ (w.commit i r.task x).removals id := by
  have hkept : ∀ {m}, r.code = .manager m :: rest → execManager c (w.context r rest) m = some x →
      Section.persists (.manager m) = false → m ≠ .removeFromQueue →
      w.entries id ≤ (w.commit i r.task x).removals id := fun hc hx hp hr =>
    h.entries.trans (World.removals_kept (s := .manager _) hi hc hx hp (by simpa using hr))
  cases m with
  | acquire action =>
    have hle := hkept hc hx rfl (by simp)
    simp only [execManager] at hx
    split at hx <;> cases hx <;> exact hle
  | enqueue action =>
    have hle := hkept hc hx rfl (by simp)
    have hne : r.task ≠ id := by
      intro he
      have hno := h.calls r (List.mem_of_getElem? hi) he
      rw [hc] at hno
      cases hno
    cases hx
    rw [World.entries] at hle ⊢
    rw [← countP_enqueueTaskAction hne] at hle
    exact hle
  | popNext =>
    have hle := hkept hc hx rfl (by simp)
    have htaken := h.not_taken hok
    rw [World.taken_eq hi hc] at htaken
    simp only [execManager] at hx
    split at hx
    · cases hx
      exact hle
    · rename_i k action queue hq
      cases hx
      have hq' : w.queue = (k, action) :: queue := hq
      rw [World.entries, hq', List.countP_cons] at hle
      exact Nat.le_trans (Nat.le_add_right _ _) hle
  | removeFromQueue =>
    have he : x.events = w.events ++ [] := by
      cases hx
      exact (List.append_nil _).symm
    have hb := World.removals_commit id r.task hi he
    have hremoves : removesEntry r.code = true := by
      rw [hc]
      rfl
    rw [hremoves, Bool.and_true] at hb
    have hle := h.entries
    cases hx
    have hentries : (w.commit i r.task { w.context r rest with
        queue := removeFromQueue r.task w.queue }).entries id = w.entries id - (r.task == id).toNat :=
      countP_removeFromQueue w.queue
    exact hentries ▸ by omega
  | persistTask =>
    refine h.persists hok hi hc rfl ?_
    simp only [execManager] at hx
    split at hx <;> cases hx
    · exact ⟨rfl, rfl, rfl, .inl rfl⟩
    · rename_i hno
      refine ⟨rfl, rfl, rfl, .inr ?_⟩
      rw [World.givesUp, Bool.not_eq_true']
      exact Bool.eq_false_iff.2 hno
  | persistHttpSession =>
    refine h.persists hok hi hc rfl ?_
    simp only [execManager] at hx
    split at hx <;> cases hx
    · exact ⟨rfl, rfl, rfl, .inl rfl⟩
    · rename_i hno
      exact ⟨rfl, rfl, rfl, .inr (by simpa [World.givesUp] using hno)⟩
  | lookup | storePermit | dropPermit | clearSlot | releasePermit | releaseTaskPermit | removeTask
  | emit _ =>
    have hle := hkept hc hx rfl (by simp)
    obtain ⟨_, hq⟩ := execManager_passes hx rfl (by simp)
    rw [World.entries] at hle ⊢
    rwa [show (w.commit i r.task x).queue = w.queue from hq (by simp)]

theorem World.Withdrawn.commit {w : World} (h : w.Withdrawn id)
    (hok : RemovedInTime id w (.step i c)) (hi : w.threads[i]? = some r) (hc : r.code = s :: rest)
    (hx : exec c (w.context r rest) s = some x) : (w.commit i r.task x).Withdrawn id where
  entries := by
    by_cases hm : ∃ m, s = .manager m
    · obtain ⟨m, rfl⟩ := hm
      exact h.manager hok hi hc hx
    · obtain ⟨_, _, _, hq⟩ := exec_quiet (fun m he => hm ⟨m, he⟩) rfl hx
      have hkept : w.removals id ≤ (w.commit i r.task x).removals id := by
        refine World.removals_kept hi hc hx ?_ fun he => hm ⟨_, he⟩
        cases s with
        | manager m => exact absurd ⟨m, rfl⟩ hm
        | task _ | worker _ => rfl
      rw [World.entries, show (w.commit i r.task x).queue = w.queue from hq.queue]
      exact h.entries.trans hkept
  calls := by
    intro t ht hid
    rcases World.mem_commit ht with ⟨j, _, hj⟩ | rfl | ht
    · exact h.calls t (List.mem_of_getElem? hj) hid
    · rw [Thread.settle_task] at hid
      refine mayEnqueue_settle ?_
      by_cases hp : s = .manager .popNext
      · -- Only the entry of another task can have been taken.
        subst hp
        have htaken := h.not_taken hok
        rw [World.taken_eq hi hc] at htaken
        simp only [exec, execManager] at hx
        split at hx
        · cases hx
          rfl
        · rename_i k action queue hq
          cases hx
          have hq' : w.queue = (k, action) :: queue := hq
          rw [hq'] at htaken
          exact absurd (congrArg some hid) htaken
      · rcases exec_moves rfl hx with htask | ⟨_, rfl, _⟩
        · have hr := h.calls r (List.mem_of_getElem? hi) (htask.symm.trans hid)
          exact exec_mayEnqueue rfl hx (hc ▸ hr) hp
        · exact absurd rfl hp
    · exact (exec_spawned rfl hx t ht).mayEnqueue

theorem World.Withdrawn.external {w w' : World} (h : w.Withdrawn id) (hok : RemovedInTime id w a)
    (hn : a.requests id = false) (hs : w.step a = some w') (ha : ∀ i c, a ≠ .step i c) :
    w'.Withdrawn id where
  entries := by
    have hx := World.step_external hs ha
    obtain ⟨new, hnew⟩ := hx.threads
    have hle := h.entries
    rw [World.entries, hx.queue]
    rw [World.entries] at hle
    rcases World.step_events hs ha with he | ⟨rfl, e, he, hth, _⟩ | ⟨rfl, event, k, he, hth, _⟩
    · refine hle.trans ?_
      simp only [World.removals, he, hnew, List.tally_append]
      omega
    · have hlag := hok e (by rw [he]; rfl)
      simp only [World.entries, World.removals, he, hth, List.countP_cons, beq_iff_eq] at hle hlag ⊢
      split at hle
      · rename_i hid
        have := hlag hid
        rw [if_pos hid] at this
        omega
      · exact hle
    · have hremoves : removesEntry (handlerThread event k).code = true := by cases event <;> rfl
      refine hle.trans_eq ?_
      simp only [World.removals, he, hth, List.countP_cons, List.tally_append, List.tally_cons,
        List.tally_nil, hremoves, Bool.and_true]
      cases hk : k == id with
      | true =>
        have : ((handlerThread event k).task == id) = true := hk
        simp [this]
        omega
      | false =>
        have : ((handlerThread event k).task == id) = false := hk
        simp [this]
  calls := by
    intro t ht hid
    rcases World.step_requests hs ha t ht with hm | hno | hreq
    · exact h.calls t hm hid
    · exact hno
    · rw [hid, hn] at hreq
      cases hreq

theorem World.Withdrawn.step {w w' : World} (h : w.Withdrawn id) (hok : RemovedInTime id w a)
    (hn : a.requests id = false) (hs : w.step a = some w') : w'.Withdrawn id := by
  by_cases ha : ∃ i c, a = .step i c
  · obtain ⟨i, c, rfl⟩ := ha
    obtain ⟨r, s, rest, x, hi, hc, hx, rfl⟩ := World.stepThread_some hs
    exact h.commit hok hi hc hx
  · exact h.external hok hn hs fun i c he => ha ⟨i, c, he⟩

theorem World.Withdrawn.never_taken {w : World} (h : w.Withdrawn id)
    (hn : ∀ b ∈ as, b.requests id = false)
    (hc : Transition.Meets World.step (RemovedInTime id) w as) :
    Transition.Meets World.step (fun v b => v.taken b ≠ some id) w as := by
  induction as generalizing w with
  | nil => trivial
  | cons a as ih =>
    refine ⟨h.not_taken hc.1, fun w' hs => ?_⟩
    have hstep := h.step hc.1 (hn a List.mem_cons_self) hs
    exact ih hstep (fun b hb => hn b (List.mem_cons_of_mem a hb)) (hc.2 w' hs)

theorem World.ReturnsCancel.withdrawn {w w' : World} (h : w.ReturnsCancel id a)
    (hok : RemovedInTime id w a) (hs : w.step a = some w') : w'.Withdrawn id := by
  cases a with
  | step i c =>
    obtain ⟨hle, hcalls⟩ := hok.1 h
    obtain ⟨⟨r, s, rest⟩, he, _, hid, hemit, _⟩ := h
    obtain ⟨hi, hcode⟩ := World.next_some he
    cases hemit
    obtain ⟨r', s', rest', x, hi', hcode', hx, rfl⟩ := World.stepThread_some hs
    cases hi.symm.trans hi'
    cases hcode.symm.trans hcode'
    have hstay := exec_mayEnqueue (x := w.context r rest) rfl hx
      (hcode ▸ hcalls r (List.mem_of_getElem? hi) hid) (by simp)
    have hev : x.events = w.events ++ [(.cancel, r.task)] := by
      cases hx
      rfl
    have hb := World.removals_commit id r.task hi hev
    have hno : removesEntry r.code = false := by
      rw [hcode]
      rfl
    have htask : r.task = id := hid
    have hone : [(TaskEvent.cancel, r.task)].countP (·.2 == id) = 1 := by simp [htask]
    rw [hno, Bool.and_false, Bool.toNat_false, hone] at hb
    refine ⟨?_, fun t ht hid' => ?_⟩
    · have hentries : (w.commit i r.task x).entries id = w.entries id := by
        cases hx
        rfl
      omega
    · rcases World.mem_commit ht with ⟨j, _, hj⟩ | rfl | ht
      · exact hcalls t (List.mem_of_getElem? hj) hid'
      · exact mayEnqueue_settle hstay
      · exact (exec_spawned rfl hx t ht).mayEnqueue
  | _ => exact h.elim

end

/-- Whenever `cancel` returns and the entries of the task are removed in time, the queue does not start
or resume it again before somebody asks for it. -/
theorem canceled_task_is_not_taken (w w' : World) (id : Nat) (a : Act) (as : List Act)
    (hcancel : w.ReturnsCancel id a) (hs : w.step a = some w')
    (hn : ∀ b ∈ as, b.requests id = false)
    (hc : Transition.Meets World.step (RemovedInTime id) w (a :: as)) :
    Transition.Meets World.step (fun v b => v.taken b ≠ some id) w' as :=
  (hcancel.withdrawn hc.1 hs).never_taken hn (hc.2 w' hs)

/-- With one permit, a task is started and another one has to wait in the queue. -/
def secondQueued : List Act :=
  List.flatten [[.addTask .pending, .addTask .pending, .call .startTask 0], proceed 0 5,
    [.step 0 (.ready false)], proceed 0 2, [.step 0 (.create 1)], proceed 0 2, [.step 0 (.create 1)],
    proceed 0 3, [.call .startTask 1], proceed 2 2]

/-- The task in the queue is canceled, up to the return. -/
def canceledInQueue : List Act :=
  List.flatten [secondQueued, [.call .cancelTask 1], proceed 3 6]

/-- The event of the cancellation is handled, then the first task is paused. -/
def cancelHandled : List Act :=
  List.flatten [[.deliver], proceed 4 5, [.call .pauseTask 0], proceed 5 10, [.deliver], proceed 6 5]

theorem handled_cancel_empties_queue :
    ∃ w w', Transition.run World.step (World.new 1) canceledInQueue = some w ∧
      w.entries 1 = 1 ∧ w.ReturnsCancel 1 (.step 3 .ok) ∧ w.step (.step 3 .ok) = some w' ∧
      Transition.Meets World.step (fun v b => v.taken b ≠ some 1) w' cancelHandled := by
  obtain ⟨w, hr, hone, hret, hc, w', hs, _⟩ :
      ∃ w, Transition.run World.step (World.new 1) canceledInQueue = some w ∧ w.entries 1 = 1 ∧
        w.ReturnsCancel 1 (.step 3 .ok) ∧
        Transition.Meets World.step (RemovedInTime 1) w (.step 3 .ok :: cancelHandled) ∧
        ∃ w' ∈ w.step (.step 3 .ok), (Transition.run World.step w' cancelHandled).isSome = true :=
    Transition.run_any (by decide)
  exact ⟨w, w', hr, hone, hret, hs,
    canceled_task_is_not_taken w w' 1 _ cancelHandled hret hs (by decide) hc⟩

/-- The first task is paused before the other one is canceled. -/
def canceledAfterPause : List Act :=
  List.flatten [secondQueued, [.call .pauseTask 0], proceed 3 10, [.call .cancelTask 1], proceed 4 6]

/-- The event of the pause is handled first, and finds the canceled task in the queue. -/
def pauseHandled : List Act := List.flatten [[.deliver], proceed 5 13]

theorem canceled_task_is_restarted :
    (∀ b ∈ pauseHandled, b.requests 1 = false) ∧
    ∃ w, Transition.run World.step (World.new 1) canceledAfterPause = some w ∧
      w.ReturnsCancel 1 (.step 4 .ok) ∧ ∃ w' ∈ w.step (.step 4 .ok),
        ¬ Transition.Meets World.step (fun v b => v.taken b ≠ some 1) w' pauseHandled ∧
        ∃ v ∈ Transition.run World.step w' pauseHandled,
          (v.tasks[1]?).map (·.status) = some .preparing :=
  ⟨by decide, Transition.run_any (by decide)⟩

end Paradown
