import Paradown.Shape

namespace Paradown
set_option autoImplicit true

/-- The permit stored in a task. -/
def slotOf : Option TaskState → Nat
  | some t => t.permit.toNat
  | none => 0

/-- All permits of the semaphore: free, held by calls and stored in tasks. -/
def World.permits (w : World) : Nat :=
  w.available + w.threads.tally (·.permit.toNat) + w.tasks.tally (·.permit.toNat)

theorem Shape.acquire (h : Shape (.manager (.acquire action) :: rest) frame permit) :
    permit = false := by
  generalize hc : Section.manager (.acquire action) :: rest = code at h
  cases h with
  | waiting => rfl
  | holding hb => simp [← hc, Section.inBody] at hb
  | storing => cases (List.cons.inj hc).1
  | failing => cases (List.cons.inj hc).1
  | free => rfl

theorem Shape.storePermit (h : Shape (.manager .storePermit :: rest) frame permit) :
    permit = true := by
  generalize hc : Section.manager .storePermit :: rest = code at h
  cases h with
  | waiting action =>
    obtain ⟨r, hr, _⟩ := transitionCode_eq action
    rw [hr] at hc
    cases (List.cons.inj hc).1
  | holding hb => rfl
  | storing => rfl
  | failing => rfl
  | free _ hf => simp [← hc, Section.isFree] at hf

theorem Shape.popNext (h : Shape (.manager .popNext :: rest) frame permit) : permit = false := by
  generalize hc : Section.manager .popNext :: rest = code at h
  cases h with
  | waiting => rfl
  | holding hb => simp [← hc, Section.inBody] at hb
  | storing => cases (List.cons.inj hc).1
  | failing => cases (List.cons.inj hc).1
  | free => rfl

theorem exec_permits_manager {x y : Context}
    (hs : Shape (.manager s :: x.thread.code) x.thread.frame x.thread.permit)
    (h : execManager c x s = some y) :
    y.available + y.thread.permit.toNat + slotOf y.task =
      x.available + x.thread.permit.toNat + slotOf x.task ∧ y.task.isSome = x.task.isSome := by
  cases s with
  | acquire action =>
    have hp := hs.acquire
    simp only [execManager] at h
    split at h <;> cases h
    · exact ⟨rfl, rfl⟩
    · refine ⟨?_, rfl⟩
      simp only [hp, Bool.toNat_true, Bool.toNat_false]
      omega
  | enqueue _ | removeFromQueue | emit _ =>
    cases h
    exact ⟨rfl, rfl⟩
  | lookup =>
    simp only [execManager] at h
    split at h <;> cases h
    · exact ⟨rfl, rfl⟩
    · exact ⟨rfl, rfl⟩
  | storePermit =>
    have hp := hs.storePermit
    simp only [execManager] at h
    split at h <;> cases h
    rename_i t ht
    refine ⟨?_, by simp [ht]⟩
    simp only [Context.clearSlot, slotOf, hp, ht, Bool.toNat_true, Bool.toNat_false]
    omega
  | dropPermit =>
    cases h
    exact ⟨rfl, rfl⟩
  | clearSlot | releasePermit =>
    simp only [execManager] at h
    split at h <;> cases h
    rename_i t ht
    simp only [Context.clearSlot, slotOf, ht, Bool.toNat_false]
    exact ⟨by omega, rfl⟩
  | releaseTaskPermit =>
    simp only [execManager] at h
    split at h
    · cases h
      exact ⟨rfl, rfl⟩
    · rename_i t ht
      split at h <;> cases h
      · simp only [Context.clearSlot, slotOf, ht, Bool.toNat_false]
        exact ⟨by omega, rfl⟩
      · exact ⟨rfl, rfl⟩
  | popNext | persistTask | persistHttpSession =>
    simp only [execManager] at h
    split at h <;> cases h
    · exact ⟨rfl, rfl⟩
    · exact ⟨rfl, rfl⟩
  | removeTask =>
    simp only [execManager] at h
    split at h <;> cases h
    rename_i t ht
    refine ⟨?_, by simp [Context.setTask, ht]⟩
    simp only [Context.setTask, slotOf, ht]

theorem exec_quiet {x y : Context} (hm : ∀ m, s ≠ .manager m) (hn : x.spawned = [])
    (h : exec c x s = some y) : ∃ t t', x.task = some t ∧ Quiet x y t t' := by
  cases s with
  | manager m => exact absurd rfl (hm m)
  | task s =>
    simp only [exec] at h
    split at h
    · cases h
    · rename_i t ht
      obtain ⟨t', hq, _⟩ := execTask_effect ht hn h
      exact ⟨t, t', ht, hq⟩
  | worker s =>
    simp only [exec] at h
    split at h
    · cases h
    · rename_i t ht
      split at h
      · cases h
      · obtain ⟨t', hq, _⟩ := execWorker_effect ht hn h
        exact ⟨t, t', ht, hq⟩

theorem exec_same {x y : Context} (hn : x.spawned = []) (h : exec c x s = some y) :
    y.thread.owner = x.thread.owner ∧ y.thread.worker = x.thread.worker ∧
      y.thread.sources = x.thread.sources := by
  by_cases hm : ∃ m, s = .manager m
  · obtain ⟨m, rfl⟩ := hm
    obtain ⟨h1, h2, h3, _⟩ := execManager_same h
    exact ⟨h1, h2, h3⟩
  · obtain ⟨t, t', _, hq⟩ := exec_quiet (fun m he => hm ⟨m, he⟩) hn h
    exact ⟨hq.owner, hq.worker, hq.sources⟩

theorem exec_spawned {x y : Context} (hn : x.spawned = []) (h : exec c x s = some y) :
    ∀ r ∈ y.spawned, r.Spawned x.thread.task := by
  by_cases hm : ∃ m, s = .manager m
  · obtain ⟨m, rfl⟩ := hm
    rw [(execManager_owner h).2, hn]
    exact noneSpawned _
  · obtain ⟨t, t', _, hq⟩ := exec_quiet (fun m he => hm ⟨m, he⟩) hn h
    exact hq.spawned

theorem exec_permits {x y : Context} (hs : Shape (s :: x.thread.code) x.thread.frame x.thread.permit)
    (hn : x.spawned = []) (h : exec c x s = some y) :
    y.available + y.thread.permit.toNat + slotOf y.task =
      x.available + x.thread.permit.toNat + slotOf x.task ∧ y.task.isSome = x.task.isSome ∧
      y.spawned.tally (·.permit.toNat) = 0 := by
  by_cases hm : ∃ m, s = .manager m
  · obtain ⟨m, rfl⟩ := hm
    obtain ⟨h1, h2⟩ := exec_permits_manager hs h
    refine ⟨h1, h2, ?_⟩
    rw [(exec_shaped_manager hs hn h).2]
    rfl
  · obtain ⟨t, t', ht, hq⟩ := exec_quiet (fun m he => hm ⟨m, he⟩) hn h
    refine ⟨?_, ?_, List.tally_eq_zero fun r hr => ?_⟩
    · simp only [hq.available, hq.held, hq.task, ht, slotOf, hq.permit]
    · simp [hq.task, ht]
    · simp [(hq.spawned r hr).2.1]

@[simp] theorem Thread.settle_permit (t : Thread) : t.settle.permit = t.permit := by
  unfold Thread.settle
  split <;> rfl

@[simp] theorem Thread.settle_task (t : Thread) : t.settle.task = t.task := by
  unfold Thread.settle
  split <;> rfl

@[simp] theorem Thread.settle_worker (t : Thread) : t.settle.worker = t.worker := by
  unfold Thread.settle
  split <;> rfl

@[simp] theorem Thread.settle_owner (t : Thread) : t.settle.owner = t.owner := by
  unfold Thread.settle
  split <;> rfl

@[simp] theorem Thread.settle_sources (t : Thread) : t.settle.sources = t.sources := by
  unfold Thread.settle
  split <;> rfl

/-- Every call is in shape and no permit is lost or invented. -/
structure World.Accounted (permits : Nat) (w : World) : Prop where
  shaped : ∀ t ∈ w.threads, t.Shaped
  total : w.permits = permits

theorem World.Accounted.spawn {w : World} (h : w.Accounted n) (hs : t.Shaped)
    (hp : t.permit = false) : (w.spawn t).Accounted n := by
  refine ⟨fun r hr => ?_, ?_⟩
  · rcases List.mem_append.1 hr with hr | hr
    · exact h.shaped r hr
    · cases List.mem_singleton.1 hr
      exact hs
  · rw [← h.total]
    simp [World.permits, World.spawn, hp]

theorem World.Accounted.setTask {w : World} (h : w.Accounted n) (ht : w.tasks[i]? = some t)
    (hp : t'.permit = t.permit) : (w.setTask i t').Accounted n := by
  refine ⟨h.shaped, ?_⟩
  rw [← h.total]
  have := List.tally_set (f := fun t : TaskState => t.permit.toNat) ht t'
  simp only [World.permits, World.setTask, hp] at this ⊢
  omega

theorem World.Accounted.commit {w : World} (h : w.Accounted n) (hi : w.threads[i]? = some t)
    (hc : t.code = s :: rest) (hx : exec c (w.context t rest) s = some x) :
    (w.commit i t.task x).Accounted n := by
  have hs : Shape (s :: rest) t.frame t.permit := by
    have := h.shaped t (List.mem_of_getElem? hi)
    rwa [Thread.Shaped, hc] at this
  obtain ⟨h1, h2, h3⟩ := exec_permits (x := w.context t rest) hs rfl hx
  obtain ⟨h4, h5⟩ := exec_shaped (x := w.context t rest) hs rfl hx
  refine ⟨fun r hr => ?_, ?_⟩
  · rcases List.mem_append.1 hr with hr | hr
    · rcases List.mem_or_eq_of_mem_set hr with hr | rfl
      · exact h.shaped r hr
      · exact h4
    · exact h5 r hr
  · rw [← h.total]
    have ht := List.tally_set (f := fun t : Thread => t.permit.toNat) hi x.thread.settle
    simp only [Thread.settle_permit] at ht
    simp only [World.context] at h1 h2
    cases hy : x.task with
    | none =>
      rw [hy] at h1 h2
      rw [Option.isSome_none, eq_comm, Option.isSome_eq_false_iff, Option.isNone_iff_eq_none] at h2
      rw [h2] at h1
      simp only [World.permits, World.commit, hy, List.tally_append, h3, slotOf] at h1 ⊢
      omega
    | some t' =>
      rw [hy, Option.isSome_some, eq_comm] at h2
      obtain ⟨t₀, ht₀⟩ := Option.isSome_iff_exists.1 h2
      rw [hy, ht₀] at h1
      have hk := List.tally_set (f := fun t : TaskState => t.permit.toNat) ht₀ t'
      simp only [World.permits, World.commit, hy, List.tally_append, h3, slotOf] at h1 ⊢
      omega

theorem handlerThread_shaped (event : TaskEvent) (id : Nat) : (handlerThread event id).Shaped := by
  cases event <;> exact .free (by simp [handlerThread]) rfl

theorem listenerThread_shaped (event : WorkerEvent) (id worker : Nat) :
    (listenerThread event id worker).Shaped := by
  cases event <;> exact .free (by simp [listenerThread]) rfl

theorem engineThread_shaped (event : EngineEvent) (id : Nat) : (engineThread event id).Shaped := by
  cases event <;> exact .free (by simp [engineThread]) rfl

theorem joinerThread_shaped (id : Nat) (runs : List Thread) : (joinerThread id runs).Shaped := by
  refine .free (by simp [joinerThread]) (List.all_eq_true.2 fun s hs => ?_)
  obtain ⟨err, _, hs⟩ := List.mem_flatMap.1 hs
  have : (stopWorkersAndFailCode err).all Section.isFree = true := rfl
  exact List.all_eq_true.1 this s hs

theorem Call.toThread_shaped (call : Call) (id : Nat) : (call.toThread id).Shaped := by
  cases call with
  | startTask => exact .waiting .start
  | resumeTask => exact .waiting .resume
  | _ => exact .free (by simp [toThread, frame]) rfl

/-- No step loses or invents a permit. -/
theorem World.Accounted.step {w w' : World} (h : w.Accounted n) (hs : w.step a = some w') :
    w'.Accounted n := by
  cases a with
  | addTask status =>
    simp only [World.step] at hs
    split at hs <;> cases hs
    refine ⟨h.shaped, ?_⟩
    rw [← h.total]
    simp [World.permits]
  | call call id =>
    simp only [World.step] at hs
    split at hs <;> cases hs
    exact h.spawn (call.toThread_shaped id) rfl
  | deliver =>
    simp only [World.step] at hs
    split at hs
    · cases hs
    · split at hs <;> cases hs
      rename_i event id events _ _
      have h' : World.Accounted n { w with events } := ⟨h.shaped, h.total⟩
      exact h'.spawn (handlerThread_shaped event id) rfl
  | lag =>
    simp only [World.step] at hs
    split at hs <;> cases hs
    exact ⟨h.shaped, h.total⟩
  | listen id =>
    simp only [World.step] at hs
    split at hs
    · cases hs
    · rename_i t ht
      split at hs
      · cases hs
      · split at hs <;> cases hs
        exact World.Accounted.spawn (h.setTask ht rfl) (listenerThread_shaped _ _ _) rfl
  | listenerLag id =>
    simp only [World.step] at hs
    split at hs
    · cases hs
    · rename_i t ht
      split at hs <;> cases hs
      exact h.setTask ht rfl
  | engineEvent id event =>
    simp only [World.step] at hs
    split at hs
    · cases hs
    · split at hs <;> cases hs
      exact h.spawn (engineThread_shaped event id) rfl
  | join id batch =>
    simp only [World.step] at hs
    split at hs
    · cases hs
    · rename_i t ht
      split at hs <;> cases hs
      exact World.Accounted.spawn (h.setTask ht rfl) (joinerThread_shaped _ _) rfl
  | step index c =>
    obtain ⟨_, _, _, _, hi, hc, hx, rfl⟩ := World.stepThread_some hs
    exact h.commit hi hc hx

theorem World.new_accounted (n : Nat) : (World.new n).Accounted n :=
  ⟨fun _ ht => absurd ht List.not_mem_nil, rfl⟩

end Paradown
