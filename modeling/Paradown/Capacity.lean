import Paradown.Permits

namespace Paradown
set_option autoImplicit true

variable {id : Nat}

/-- Call `index` works on task `id` and holds a permit. -/
def World.HoldsPermit (w : World) (index id : Nat) : Prop :=
  ∃ r, w.threads[index]? = some r ∧ r.task = id ∧ r.permit = true

/-- A permit stands for the task: its own, or that of a call on it. -/
def World.Covered (w : World) (id : Nat) : Prop :=
  (∃ t, w.tasks[id]? = some t ∧ t.permit = true) ∨ ∃ index, w.HoldsPermit index id

/-- The section makes its task `Preparing` or `Running`. -/
def Section.activates (t : TaskState) : Section → Bool
  | .task (.setStatus status) => status.isActive
  | .task .markEngineRunning => !t.status.isTerminal
  | .task .resumeGate => t.status == .paused && t.torrentSession
  | _ => false

/-- The section gives up the permit of its call: a failed operation, or an unknown task. -/
def Section.dropsHeld (t : TaskState) : Section → Bool
  | .manager .dropPermit => true
  | .manager .lookup => !t.registered
  | _ => false

/-- The section takes the permit out of the task. -/
def Section.clearsSlot (t : TaskState) : Section → Bool
  | .manager .clearSlot | .manager .releasePermit => true
  | .manager .releaseTaskPermit => t.registered
  | _ => false

/-- No section makes a task active that no permit stands for, and none takes away the only permit
of an active task. -/
def RespectsPermits (w : World) : Act → Prop
  | .step i _ => ∀ r s rest t, w.threads[i]? = some r → r.code = s :: rest →
      w.tasks[r.task]? = some t →
      (s.activates t = true → r.permit = true ∨ t.permit = true ∨
        ∃ j, j ≠ i ∧ w.HoldsPermit j r.task) ∧
      (t.status.isActive = true → s.dropsHeld t = true → r.permit = true →
        t.permit = true ∨ ∃ j, j ≠ i ∧ w.HoldsPermit j r.task) ∧
      (t.status.isActive = true → s.clearsSlot t = true → t.permit = true →
        ∃ j, w.HoldsPermit j r.task)
  | _ => True

def World.ActiveCovered (w : World) : Prop :=
  ∀ id t, w.tasks[id]? = some t → t.status.isActive = true → w.Covered id

theorem execManager_permits {x y : Context} (ht : x.task = some t)
    (hs : Shape (.manager s :: x.thread.code) x.thread.frame x.thread.permit)
    (h : execManager c x s = some y) :
    ∃ t', y.task = some t' ∧ t'.status = t.status ∧
      (t.permit = true → t'.permit = true ∨ Section.clearsSlot t (.manager s) = true) ∧
      (x.thread.permit = true → t'.permit = true ∨ Section.dropsHeld t (.manager s) = true ∨
        y.thread.permit = true ∧ y.thread.task = x.thread.task) := by
  have hreg : x.isRegistered = t.registered := by simp [Context.isRegistered, ht]
  cases s with
  | acquire action =>
    simp only [execManager] at h
    split at h <;> cases h
    · exact ⟨t, ht, rfl, .inl, fun hp => .inr (.inr ⟨hp, rfl⟩)⟩
    · exact ⟨t, ht, rfl, .inl, fun _ => .inr (.inr ⟨rfl, rfl⟩)⟩
  | enqueue _ | removeFromQueue | emit _ =>
    cases h
    exact ⟨t, ht, rfl, .inl, fun hp => .inr (.inr ⟨hp, rfl⟩)⟩
  | lookup =>
    simp only [execManager, hreg] at h
    split at h <;> cases h
    · exact ⟨t, ht, rfl, .inl, fun hp => .inr (.inr ⟨hp, rfl⟩)⟩
    · rename_i hr
      exact ⟨t, ht, rfl, .inl, fun _ => .inr (.inl (by simp [Section.dropsHeld, hr]))⟩
  | storePermit =>
    simp only [execManager, ht] at h
    cases h
    exact ⟨_, rfl, rfl, fun _ => .inl rfl, fun _ => .inl rfl⟩
  | dropPermit =>
    cases h
    exact ⟨t, ht, rfl, .inl, fun _ => .inr (.inl rfl)⟩
  | clearSlot | releasePermit =>
    simp only [execManager, ht] at h
    cases h
    exact ⟨_, rfl, rfl, fun _ => .inr rfl, fun hp => .inr (.inr ⟨hp, rfl⟩)⟩
  | releaseTaskPermit =>
    simp only [execManager, ht] at h
    split at h <;> cases h
    · rename_i hr
      exact ⟨_, rfl, rfl, fun _ => .inr hr, fun hp => .inr (.inr ⟨hp, rfl⟩)⟩
    · exact ⟨t, ht, rfl, .inl, fun hp => .inr (.inr ⟨hp, rfl⟩)⟩
  | popNext =>
    have hp := hs.popNext
    simp only [execManager] at h
    split at h <;> cases h
    · exact ⟨t, ht, rfl, .inl, fun hp' => by simp [hp] at hp'⟩
    · exact ⟨t, ht, rfl, .inl, fun hp' => by simp [hp] at hp'⟩
  | persistTask | persistHttpSession =>
    simp only [execManager] at h
    split at h <;> cases h
    · exact ⟨t, ht, rfl, .inl, fun hp => .inr (.inr ⟨hp, rfl⟩)⟩
    · exact ⟨t, ht, rfl, .inl, fun hp => .inr (.inr ⟨hp, rfl⟩)⟩
  | removeTask =>
    simp only [execManager, ht] at h
    cases h
    exact ⟨_, rfl, rfl, .inl, fun hp => .inr (.inr ⟨hp, rfl⟩)⟩

theorem TaskEffect.activates (h : TaskEffect t rest frame s status code frame')
    (ha : status.isActive = true) :
    t.status.isActive = true ∨ Section.activates t (.task s) = true := by
  cases h with
  | set => exact .inr ha
  | engineRunning h => exact .inr (by simp [Section.activates, h])
  | resumeSession h hs => exact .inr (by simp [Section.activates, h, hs])
  | resumeAgain | pause | cancel => cases ha
  | _ => exact .inl ha

theorem exec_activates {x y : Context} (hm : ∀ m, s ≠ .manager m) (hn : x.spawned = [])
    (h : exec c x s = some y) :
    ∃ t t', x.task = some t ∧ Quiet x y t t' ∧
      (t'.status.isActive = true → t.status.isActive = true ∨ s.activates t = true) := by
  cases s with
  | manager m => exact absurd rfl (hm m)
  | task s =>
    simp only [exec] at h
    split at h
    · cases h
    · rename_i t ht
      obtain ⟨t', hq, he⟩ := execTask_effect ht hn h
      exact ⟨t, t', ht, hq, he.activates⟩
  | worker s =>
    simp only [exec] at h
    split at h
    · cases h
    · rename_i t ht
      split at h
      · cases h
      · obtain ⟨t', hq, hst, _⟩ := execWorker_effect ht hn h
        exact ⟨t, t', ht, hq, fun ha => .inl (hst ▸ ha)⟩

theorem World.HoldsPermit.commit {w : World} (h : w.HoldsPermit j id) (hj : j ≠ i) :
    (w.commit i id' x).HoldsPermit j id := by
  obtain ⟨r, hr, h1, h2⟩ := h
  exact ⟨r, World.commit_thread_ne hj hr, h1, h2⟩

/-- Some call other than `index` holds a permit for the task. -/
def World.OtherHolds (w : World) (index id : Nat) : Prop :=
  ∃ j, j ≠ index ∧ w.HoldsPermit j id

theorem World.covered_iff {w : World} (hi : w.threads[i]? = some r)
    (ht : w.tasks[r.task]? = some t) :
    w.Covered r.task ↔ t.permit = true ∨ r.permit = true ∨ w.OtherHolds i r.task := by
  constructor
  · rintro (⟨t₁, h1, h2⟩ | ⟨j, hj⟩)
    · cases ht.symm.trans h1
      exact .inl h2
    · by_cases hji : j = i
      · subst j
        obtain ⟨r₁, h1, -, h3⟩ := hj
        cases hi.symm.trans h1
        exact .inr (.inl h3)
      · exact .inr (.inr ⟨j, hji, hj⟩)
  · rintro (h | h | ⟨j, _, hj⟩)
    · exact .inl ⟨t, ht, h⟩
    · exact .inr ⟨i, r, hi, rfl, h⟩
    · exact .inr ⟨j, hj⟩

theorem World.covered_commit {w : World} (hi : w.threads[i]? = some r)
    (ht : (w.commit i r.task x).tasks[r.task]? = some t')
    (h : t'.permit = true ∨ (x.thread.permit = true ∧ x.thread.task = r.task) ∨
      w.OtherHolds i r.task) :
    (w.commit i r.task x).Covered r.task := by
  rcases h with h | ⟨h1, h2⟩ | ⟨j, hj, hh⟩
  · exact .inl ⟨t', ht, h⟩
  · exact .inr ⟨i, _, World.commit_thread hi, by simpa using h2, by simpa using h1⟩
  · exact .inr ⟨j, hh.commit hj⟩

theorem Section.not_clears_and_drops (t : TaskState) (s : Section) :
    s.clearsSlot t = false ∨ s.dropsHeld t = false := by
  rcases s with s | s | s
  · cases s <;> simp [Section.clearsSlot, Section.dropsHeld]
  · exact .inl rfl
  · exact .inl rfl

theorem World.ActiveCovered.commit {w : World} (hw : w.ActiveCovered) (ha : w.Accounted n)
    (hi : w.threads[i]? = some r) (hc : r.code = s :: rest)
    (hx : exec c (w.context r rest) s = some x)
    (hr : RespectsPermits w (.step i c)) : (w.commit i r.task x).ActiveCovered := by
  have hshape : Shape (s :: rest) r.frame r.permit := by
    have := ha.shaped r (List.mem_of_getElem? hi)
    rwa [Thread.Shaped, hc] at this
  have hsome := (exec_permits (x := w.context r rest) hshape rfl hx).2.1
  intro id t' ht' hact
  by_cases hid : id = r.task
  · subst id
    refine World.covered_commit hi ht' ?_
    rw [World.commit_task hsome] at ht'
    by_cases hm : ∃ m, s = .manager m
    · obtain ⟨m, rfl⟩ := hm
      obtain ⟨t, ht⟩ : ∃ t, w.tasks[r.task]? = some t :=
        Option.isSome_iff_exists.1 (hsome.symm.trans (by rw [ht', Option.isSome_some]))
      obtain ⟨t₁, h1, h2, h3, h4⟩ := execManager_permits (x := w.context r rest) ht hshape hx
      cases h1.symm.trans ht'
      rw [h2] at hact
      obtain ⟨-, hdrop, hclear⟩ := hr r _ rest t hi hc ht
      have hcov := (World.covered_iff hi ht).1 (hw r.task t ht hact)
      have hex := Section.not_clears_and_drops t (.manager m)
      simp only [World.context] at h4
      have hclear' : Section.clearsSlot t (.manager m) = true → t.permit = true →
          r.permit = true ∨ w.OtherHolds i r.task := fun h1 h2 => by
        obtain ⟨j, hj⟩ := hclear hact h1 h2
        by_cases hji : j = i
        · subst j
          obtain ⟨r₁, hr₁, -, hp⟩ := hj
          cases hi.symm.trans hr₁
          exact .inl hp
        · exact .inr ⟨j, hji, hj⟩
      have hdrop' : Section.dropsHeld t (.manager m) = true → r.permit = true →
          t.permit = true ∨ w.OtherHolds i r.task := hdrop hact
      grind
    · obtain ⟨t, t₁, ht, hq, hst⟩ := exec_activates (fun m he => hm ⟨m, he⟩) rfl hx
      cases hq.task.symm.trans ht'
      have hcov : t.permit = true ∨ r.permit = true ∨ w.OtherHolds i r.task := by
        rcases hst hact with hst | hst
        · exact (World.covered_iff hi ht).1 (hw r.task t ht hst)
        · rcases (hr r s rest t hi hc ht).1 hst with h | h | h
          · exact .inr (.inl h)
          · exact .inl h
          · exact .inr (.inr h)
      rcases hcov with h | h | h
      · exact .inl (hq.permit.trans h)
      · exact .inr (.inl ⟨hq.held.trans h, hq.id⟩)
      · exact .inr (.inr h)
  · rw [World.commit_task_ne hid] at ht'
    rcases hw id t' ht' hact with ⟨t, h1, h2⟩ | ⟨j, hj⟩
    · exact .inl ⟨t, (World.commit_task_ne hid).trans h1, h2⟩
    · refine .inr ⟨j, hj.commit fun hji => ?_⟩
      subst j
      obtain ⟨r₁, hr₁, he, _⟩ := hj
      cases hi.symm.trans hr₁
      exact hid he.symm

theorem World.Covered.extends {w w' : World} (h : w.Covered id) (he : w.Extends w') :
    w'.Covered id := by
  rcases h with ⟨t, ht, hp⟩ | ⟨j, r, hr, h1, h2⟩
  · obtain ⟨t', ht', hv⟩ := he.forth id t ht
    exact .inl ⟨t', ht', hv.permit.trans hp⟩
  · obtain ⟨new, hn⟩ := he.threads
    have hlt : j < w.threads.length := (List.getElem?_eq_some_iff.1 hr).1
    exact .inr ⟨j, r, by rw [hn, List.getElem?_append_left hlt, hr], h1, h2⟩

theorem World.ActiveCovered.step {w w' : World} (hw : w.ActiveCovered) (ha : w.Accounted n)
    (hr : RespectsPermits w a) (hs : w.step a = some w') : w'.ActiveCovered := by
  by_cases hstep : ∃ i c, a = .step i c
  · obtain ⟨i, c, rfl⟩ := hstep
    obtain ⟨r, s, rest, x, hi, hc, hx, rfl⟩ := World.stepThread_some hs
    exact hw.commit ha hi hc hx hr
  · have he := World.step_external hs fun i c h => hstep ⟨i, c, h⟩
    intro id t' ht' hact
    rcases he.back id t' ht' with ⟨t, ht, hv⟩ | ⟨h1, _⟩
    · exact (hw id t ht (hv.status ▸ hact)).extends he
    · rw [h1] at hact
      cases hact

/-- The number of tasks that are `Preparing` or `Running`. -/
def World.activeTasks (w : World) : Nat := w.tasks.countP (·.status.isActive)

/-- Every covered task has a permit of its own. -/
theorem World.activeTasks_le {w : World} (hw : w.ActiveCovered) (ha : w.Accounted n) :
    w.activeTasks ≤ n := by
  have hsub : w.tasks.positions (·.status.isActive) ⊆
      w.tasks.positions (·.permit) ∪ ((w.threads.filter (·.permit)).map (·.task)).toFinset := by
    intro id hid
    obtain ⟨t, ht, hact⟩ := List.mem_positions.1 hid
    rcases hw id t ht hact with ⟨t₁, h1, h2⟩ | ⟨j, r, hr, h1, h2⟩
    · exact Finset.mem_union_left _ (List.mem_positions.2 ⟨t₁, h1, h2⟩)
    · refine Finset.mem_union_right _ (List.mem_toFinset.2 (List.mem_map.2 ⟨r, ?_, h1⟩))
      exact List.mem_filter.2 ⟨List.mem_of_getElem? hr, h2⟩
  have hcalls : ((w.threads.filter (·.permit)).map (·.task)).toFinset.card ≤
      w.threads.tally (·.permit.toNat) := by
    refine (List.toFinset_card_le _).trans ?_
    rw [List.length_map, ← List.countP_eq_length_filter, List.countP_eq_tally]
  have hle := (Finset.card_le_card hsub).trans (Finset.card_union_le _ _)
  rw [List.card_positions, List.card_positions, 
    List.countP_eq_tally (fun t : TaskState => t.permit)] at hle
  have ht := ha.total
  unfold World.permits at ht
  unfold World.activeTasks
  omega

/-- In every run of the manager whose sections respect the permits, at most as many tasks as there
are permits are active. -/
theorem activeTasks_le_permits (permits : Nat) (as : List Act) (w : World)
    (hr : Transition.run World.step (World.new permits) as = some w)
    (hc : Transition.Meets World.step RespectsPermits (World.new permits) as) :
    w.activeTasks ≤ permits := by
  have hinv := Transition.Meets.invariant (I := fun w => w.Accounted permits ∧ w.ActiveCovered)
    (fun w a w' h hc hs => ⟨h.1.step hs, h.2.step h.1 hc hs⟩) hc
    ⟨World.new_accounted permits, fun id t ht => by simp [World.new] at ht⟩ hr
  exact World.activeTasks_le hinv.2 hinv.1

theorem respectsPermits_of_inactive {w : World} (hi : w.threads[i]? = some r)
    (hc : r.code = s :: rest) (ht : w.tasks[r.task]? = some t) (hs : t.status.isActive = false)
    (hp : s.activates t = true → r.permit = true) : RespectsPermits w (.step i c) := by
  intro r₁ s₁ rest₁ t₁ h1 h2 h3
  cases hi.symm.trans h1
  cases hc.symm.trans h2
  cases ht.symm.trans h3
  simp only [hs, Bool.false_eq_true, false_implies, and_true]
  exact fun h => .inl (hp h)

/-- Two tasks are started for one permit; the first gets it. -/
def competingStarts : List Act :=
  [.addTask .pending, .addTask .pending, .call .startTask 0, .call .startTask 1, .step 0 .ok,
    .step 1 .ok, .step 0 .ok, .step 0 .ok, .step 0 .ok]

theorem first_start_is_within_capacity :
    ∃ w, Transition.run World.step (World.new 1) competingStarts = some w ∧
      w.tasks.map (·.status) = [.preparing, .pending] ∧ w.activeTasks ≤ 1 := by
  refine ⟨_, rfl, rfl, activeTasks_le_permits 1 competingStarts _ rfl ?_⟩
  refine .cons trivial rfl (.cons trivial rfl (.cons trivial rfl (.cons trivial rfl (.cons ?_ rfl
    (.cons ?_ rfl (.cons ?_ rfl (.cons ?_ rfl (.cons ?_ rfl trivial))))))))
  · exact respectsPermits_of_inactive rfl rfl rfl rfl (by simp [Section.activates])
  · exact respectsPermits_of_inactive rfl rfl rfl rfl (by simp [Section.activates])
  · exact respectsPermits_of_inactive rfl rfl rfl rfl (by simp [Section.activates])
  · exact respectsPermits_of_inactive rfl rfl rfl rfl (by simp [Section.activates])
  · exact respectsPermits_of_inactive rfl rfl rfl rfl (fun _ => rfl)

/-- The first task fails to prepare and gives its permit back, but stays `Preparing`; then the
second one starts with that permit. -/
def failedPreparation : List Act :=
  [.addTask .pending, .addTask .pending, .call .startTask 0, .step 0 .ok, .step 0 .ok, .step 0 .ok,
    .step 0 .ok, .step 0 .ok, .step 0 (.fail (.other "probe failed")), .step 0 .ok, .step 0 .ok,
    .step 0 .ok, .call .startTask 1, .step 1 .ok, .step 1 .ok, .step 1 .ok, .step 1 .ok]

theorem failed_preparation_exceeds_capacity :
    ∃ w, Transition.run World.step (World.new 1) failedPreparation = some w ∧
      w.tasks.map (·.status) = [.preparing, .preparing] ∧ ¬ w.activeTasks ≤ 1 :=
  ⟨_, rfl, rfl, by decide⟩

end Paradown
