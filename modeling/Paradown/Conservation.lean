import Paradown.Reach

namespace Paradown
set_option autoImplicit true

variable {id k n : Nat}

/-- The sections that a call passes on its way to a release, unless they fail. -/
def Section.passed : Section → Bool
  | .manager s =>
    match s with
    | .acquire _ | .lookup | .popNext => false
    | _ => true
  | .task s => !s.jumps && s != .createWorkers
  | .worker _ => false

/-- The sections that release the stored permit of their task, or announce it to the event loop. -/
def Section.releases : Section → Bool
  | .manager s =>
    match s with
    | .clearSlot | .releasePermit | .releaseTaskPermit => true
    | .emit event => event != .delete
    | _ => false
  | _ => false

def releasesSlot (code : Code) : Bool := reaches Section.passed Section.releases code

/-- The release of the permit of the task is announced: its event waits, or a call is about to do
it. -/
def PendingRelease (events : List (TaskEvent × Nat)) (threads : List Thread) (id : Nat) : Prop :=
  (∃ e ∈ events, e.1 ≠ .delete ∧ e.2 = id) ∨
    ∃ r ∈ threads, r.task = id ∧ releasesSlot r.code = true

instance : Decidable (PendingRelease events threads id) := inferInstanceAs (Decidable (_ ∨ _))

/-- A permit is stored only in a task of the manager that is active or about to release it. -/
def World.SlotsLive (w : World) : Prop :=
  ∀ id t, w.tasks[id]? = some t → t.permit = true →
    t.registered = true ∧ (t.status.isActive = true ∨ PendingRelease w.events w.threads id)

/-- The section fails, and nothing of the code after it is executed. -/
def Section.fails (frame : Frame) (t : TaskState) (c : Choice) : Section → Bool
  | .manager .persistTask => !t.registered || c != .ok
  | .manager .persistHttpSession => c != .ok
  | .task .io => frame == .plain && c != .ok
  | .task .sessionIo => frame == .plain && t.torrentSession && c != .ok
  | _ => false

/-- The permit of the task is stored nowhere else, its release is pending otherwise, or the task is
active and stays so. -/
def World.SectionKeepsRelease (w : World) (i : Nat) (c : Choice) (r : Thread) (rest : Code)
    (t : TaskState) (s : Section) : Prop :=
  (s = .manager .storePermit → t.registered = true ∧
    (t.status.isActive = true ∨ PendingRelease w.events (w.threads.eraseIdx i) r.task)) ∧
  (s = .manager .removeTask → t.permit = false) ∧
  (s = .task (.setStatus .deleted) → t.permit = true →
    PendingRelease w.events (w.threads.eraseIdx i) r.task) ∧
  (s.fails r.frame t c = true → releasesSlot rest = true → t.permit = true →
    t.status.isActive = true ∨ PendingRelease w.events (w.threads.eraseIdx i) r.task)

instance : Decidable (World.SectionKeepsRelease w i c r rest t s) :=
  inferInstanceAs (Decidable (_ ∧ _))

/-- A permit is stored only in a task that is still active or whose end is yet to be handled, and no
section or lost event drops the last release of an inactive task that holds one. -/
def KeepsReleases (w : World) : Act → Prop
  | .step i c => ∀ e ∈ w.next i, ∀ t ∈ w.tasks[e.1.task]?, w.SectionKeepsRelease i c e.1 e.2.2 t e.2.1
  | .lag => ∀ e ∈ w.events.head?, ∀ t ∈ w.tasks[e.2]?, t.permit = true →
      t.status.isActive = true ∨ PendingRelease w.events.tail w.threads e.2
  | _ => True

instance : Decidable (KeepsReleases w a) :=
  match a with
  | .step _ _ => inferInstanceAs (Decidable (∀ _ ∈ _, _))
  | .lag => inferInstanceAs (Decidable (∀ _ ∈ _, _))
  | .addTask _ | .call _ _ | .deliver | .listen _ | .listenerLag _ | .engineEvent _ _ | .join _ _ =>
    inferInstanceAs (Decidable True)

/-- A section that ends the activity of its task is followed by a release, except in a deletion, which
releases before. -/
def Section.endsWell (rest : Code) : Section → Bool
  | .task (.setStatus status) => status.isActive || status == .deleted || releasesSlot rest
  | _ => true

def endsReleased : Code → Bool
  | [] => true
  | s :: rest => s.endsWell rest && endsReleased rest

theorem endsReleased_append (hp : endsReleased pre = true) (h : endsReleased rest = true) :
    endsReleased (pre ++ rest) = true := by
  induction pre with
  | nil => exact h
  | cons s pre ih =>
    rw [endsReleased, Bool.and_eq_true] at hp
    rw [List.cons_append, endsReleased, ih hp.2, Bool.and_true]
    have hs := hp.1
    unfold Section.endsWell at hs ⊢
    split
    · simp only [Bool.or_eq_true] at hs ⊢
      exact hs.imp_right reaches_append_right
    · rfl

theorem endsReleased_of_notMem (h : ∀ status, Section.task (.setStatus status) ∉ code) :
    endsReleased code = true := by
  induction code with
  | nil => rfl
  | cons s rest ih =>
    rw [endsReleased, ih fun status hm => h status (List.mem_cons_of_mem s hm), Bool.and_true]
    unfold Section.endsWell
    split
    · exact absurd List.mem_cons_self (h _)
    · rfl

theorem FixedCode.endsReleased (h : FixedCode code) : endsReleased code = true := by
  cases h with
  | transition action => cases action <;> rfl
  | onErr frame => cases frame <;> rfl
  | ready discard => cases discard <;> rfl
  | finish discard outcome => rcases outcome with _ | ⟨⟨⟩⟩ <;> cases discard <;> rfl
  | checked check => cases check <;> rfl
  | finalize outcome => rcases outcome with _ | ⟨⟨⟩⟩ <;> rfl
  | _ => rfl

theorem endsReleased_invariant : CodeInvariant endsReleased where
  tail _ _ h := by
    rw [endsReleased, Bool.and_eq_true] at h
    exact h.2
  aside pre _ hp h := by
    refine endsReleased_append (endsReleased_of_notMem fun status hm => ?_) h
    obtain ⟨s, hs, he⟩ := List.mem_map.1 hm
    cases he
    cases List.all_eq_true.1 hp _ hs
  fixed _ h := h.endsReleased
  run _ h := by
    obtain ⟨run, rfl⟩ := h.eq_inWorker
    exact endsReleased_of_notMem (by simp [inWorker])
  entry _ h := by
    cases h with
    | call call id => cases call <;> rfl
    | handler event id => cases event <;> rfl
    | listener event id worker => cases event <;> rfl
    | engine event id => cases event <;> rfl
    | joiner id runs =>
      simp only [joinerThread]
      induction runs.filterMap (·.result) with
      | nil => rfl
      | cons err errs ih => exact endsReleased_append rfl ih

theorem TaskEffect.keeps_release (h : TaskEffect t rest frame s status code frame')
    (hr : releasesSlot (.task s :: rest) = true) :
    releasesSlot code = true ∨
      frame = .plain ∧ (s = .io ∨ s = .sessionIo) ∧ releasesSlot rest = true ∧ code = [] := by
  simp only [releasesSlot, reaches, Section.releases, Bool.false_or, Bool.and_eq_true,
    Section.passed, Bool.not_eq_true', bne_iff_ne] at hr
  obtain ⟨⟨hj, hn⟩, hr⟩ := hr
  rcases h.code_cases hj with ⟨rfl, _⟩ | ⟨pre, _, hp, rfl, _⟩ | ⟨hm, rfl, _⟩ | ⟨rfl, err, rfl, _⟩
  · exact .inl hr
  · refine .inl (reaches_stop hp (fun m hm => ?_) hr)
    cases m <;> first | rfl | cases hm
  · cases frame with
    | plain =>
      refine .inr ⟨rfl, ?_, hr, rfl⟩
      cases s <;> simp_all [TaskSection.mayFail, TaskSection.jumps]
    | transition | finalize => exact .inl rfl
  · exact .inl rfl

theorem TaskEffect.ends (h : TaskEffect t rest frame s status code frame')
    (he : endsReleased (.task s :: rest) = true) (ha : t.status.isActive = true) :
    status.isActive = true ∨ releasesSlot code = true ∨ s = .setStatus .deleted := by
  cases h with
  | set =>
    simp only [endsReleased, Section.endsWell, Bool.and_eq_true, Bool.or_eq_true,
      beq_iff_eq] at he
    rcases he.1 with (h | rfl) | h
    · exact .inl h
    · exact .inr (.inr rfl)
    · exact .inr (.inl h)
  | engineRunning | resumeSession => exact .inl rfl
  | resumeAgain hp =>
    rw [hp] at ha
    cases ha
  | pause | cancel => exact .inr (.inl rfl)
  | _ => exact .inl ha

theorem PendingRelease.mono (h : PendingRelease events threads id) (he : events ⊆ events')
    (ht : threads ⊆ threads') : PendingRelease events' threads' id :=
  h.imp (fun ⟨e, hm, h⟩ => ⟨e, he hm, h⟩) fun ⟨r, hm, h⟩ => ⟨r, ht hm, h⟩

theorem PendingRelease.split (h : PendingRelease events threads id) (hi : threads[i]? = some r) :
    PendingRelease events (threads.eraseIdx i) id ∨ r.task = id ∧ releasesSlot r.code = true := by
  rcases h with h | ⟨r₁, hm, h⟩
  · exact .inl (.inl h)
  · obtain ⟨j, hj⟩ := List.mem_iff_getElem?.1 hm
    by_cases hji : j = i
    · subst j
      cases hi.symm.trans hj
      exact .inr h
    · exact .inl (.inr ⟨r₁, List.mem_eraseIdx_iff_getElem?.2 ⟨j, hji, hj⟩, h⟩)

theorem World.pendingRelease_commit {w : World} (hi : w.threads[i]? = some r)
    (hx : exec c (w.context r rest) s = some x)
    (h : PendingRelease w.events (w.threads.eraseIdx i) k ∨
      x.thread.task = k ∧ releasesSlot x.thread.code = true) :
    PendingRelease (w.commit i n x).events (w.commit i n x).threads k := by
  rcases h with h | ⟨h1, h2⟩
  · obtain ⟨added, he⟩ := exec_events rfl hx
    refine h.mono (fun e hm => ?_) fun r₁ hm => ?_
    · simp only [World.commit, he]
      exact List.mem_append_left _ hm
    · obtain ⟨j, hj, hr⟩ := List.mem_eraseIdx_iff_getElem?.1 hm
      exact List.mem_of_getElem? (World.commit_thread_ne hj hr)
  · refine .inr ⟨x.thread.settle, List.mem_of_getElem? (World.commit_thread hi), by simpa using h1, ?_⟩
    rw [releasesSlot, reaches_settle]
    · exact h2
    · intro frame
      cases frame <;> rfl

/-- A manager section keeps every stored permit accounted for. -/
theorem World.SlotsLive.manager {w : World} (hw : w.SlotsLive) (hi : w.threads[i]? = some r)
    (hc : r.code = .manager m :: rest) (hx : execManager c (w.context r rest) m = some x)
    (hok : KeepsReleases w (.step i c)) (ht : w.tasks[r.task]? = some t) (ht' : x.task = some t')
    (hp : t'.permit = true) :
    t'.registered = true ∧ (t'.status.isActive = true ∨
      PendingRelease (w.commit i n x).events (w.commit i n x).threads r.task) := by
  obtain ⟨hstore, hremove, -, hfails⟩ := hok _ (World.next_eq hi hc) t ht
  have hlive := hw r.task t ht
  have hcommit := World.pendingRelease_commit (k := r.task) (n := n) hi
    (show exec c (w.context r rest) (.manager m) = some x from hx)
  have hreg : (w.context r rest).isRegistered = t.registered := by
    simp only [Context.isRegistered, World.context, ht]
  have hkeep : t' = t → (releasesSlot r.code = true →
      x.thread.task = r.task ∧ releasesSlot x.thread.code = true) →
      t'.registered = true ∧ (t'.status.isActive = true ∨
        PendingRelease (w.commit i n x).events (w.commit i n x).threads r.task) := by
    rintro rfl h
    refine (hlive hp).imp_right (Or.imp_right fun hpend => hcommit ?_)
    exact (hpend.split hi).imp_right fun hr => h hr.2
  have hrest : Section.releases (.manager m) = false → releasesSlot r.code = true →
      Section.passed (.manager m) = true ∧ releasesSlot rest = true := by
    intro hg hr
    rw [hc] at hr
    simpa [releasesSlot, reaches, hg] using hr
  have hdrop : t' = t → Section.releases (.manager m) = false →
      Section.fails r.frame t c (.manager m) = true →
      t'.registered = true ∧ (t'.status.isActive = true ∨
        PendingRelease (w.commit i n x).events (w.commit i n x).threads r.task) := by
    rintro rfl hg hf
    refine (hlive hp).imp_right fun h => h.elim .inl fun hpend => ?_
    rcases hpend.split hi with h | h
    · exact .inr (hcommit (.inl h))
    · exact (hfails hf (hrest hg h.2).2 hp).imp_right fun h => hcommit (.inl h)
  cases m with
  | acquire _ | lookup =>
    simp only [execManager] at hx
    split at hx <;> cases hx
    · exact hkeep (Option.some.inj (ht'.symm.trans ht)) fun hr => absurd (hrest rfl hr).1 Bool.false_ne_true
    · exact hkeep (Option.some.inj (ht'.symm.trans ht)) fun hr => absurd (hrest rfl hr).1 Bool.false_ne_true
  | popNext =>
    simp only [execManager] at hx
    split at hx <;> cases hx
    · exact hkeep (Option.some.inj (ht'.symm.trans ht)) fun hr => absurd (hrest rfl hr).1 Bool.false_ne_true
    · exact hkeep (Option.some.inj (ht'.symm.trans ht)) fun hr => absurd (hrest rfl hr).1 Bool.false_ne_true
  | enqueue _ | removeFromQueue | dropPermit =>
    cases hx
    exact hkeep (Option.some.inj (ht'.symm.trans ht)) fun hr => ⟨rfl, (hrest rfl hr).2⟩
  | emit event =>
    cases hx
    by_cases he : event = .delete
    · subst event
      exact hkeep (Option.some.inj (ht'.symm.trans ht)) fun hr => ⟨rfl, (hrest rfl hr).2⟩
    · cases Option.some.inj (ht'.symm.trans ht)
      refine ⟨(hlive hp).1, .inr (.inl ⟨(event, r.task), ?_, he, rfl⟩)⟩
      simp [World.commit, World.context]
  | storePermit =>
    simp only [execManager, World.context, ht] at hx
    cases hx
    cases ht'
    exact (hstore rfl).imp_right (Or.imp_right fun h => hcommit (.inl h))
  | clearSlot | releasePermit =>
    simp only [execManager, World.context, ht] at hx
    cases hx
    cases ht'
    cases hp
  | releaseTaskPermit =>
    simp only [execManager, World.context, ht] at hx
    split at hx <;> cases hx
    · cases ht'
      cases hp
    · rename_i hno
      cases ht'
      exact absurd (hlive hp).1 hno
  | persistTask =>
    simp only [execManager, hreg] at hx
    split at hx <;> cases hx
    · exact hkeep (Option.some.inj (ht'.symm.trans ht)) fun hr => ⟨rfl, (hrest rfl hr).2⟩
    · rename_i hno
      refine hdrop (Option.some.inj (ht'.symm.trans ht)) rfl ?_
      cases hr : t.registered <;> simp_all [Section.fails]
  | persistHttpSession =>
    simp only [execManager] at hx
    split at hx <;> cases hx
    · exact hkeep (Option.some.inj (ht'.symm.trans ht)) fun hr => ⟨rfl, (hrest rfl hr).2⟩
    · rename_i hno
      exact hdrop (Option.some.inj (ht'.symm.trans ht)) rfl (by simpa [Section.fails] using hno)
  | removeTask =>
    simp only [execManager, World.context, ht] at hx
    cases hx
    cases ht'
    rw [hremove rfl] at hp
    cases hp

theorem execTask_io {x y : Context} (hs : s = .io ∨ s = .sessionIo)
    (h : execTask c x t s = some y) (hf : Section.fails .plain t c (.task s) = false) :
    y.thread.code = x.thread.code := by
  rcases hs with rfl | rfl <;> simp only [execTask] at h <;> split at h <;> cases h <;>
    simp_all [Section.fails]

theorem World.SlotsLive.task {w : World} (hw : w.SlotsLive) (hi : w.threads[i]? = some r)
    (hc : r.code = .task s :: rest) (he : endsReleased r.code = true)
    (ht : w.tasks[r.task]? = some t) (hx : execTask c (w.context r rest) t s = some x)
    (hok : KeepsReleases w (.step i c)) (ht' : x.task = some t') (hp : t'.permit = true) :
    t'.registered = true ∧ (t'.status.isActive = true ∨
      PendingRelease (w.commit i n x).events (w.commit i n x).threads r.task) := by
  obtain ⟨-, -, hdelete, hfails⟩ := hok _ (World.next_eq hi hc) t ht
  have hexec : exec c (w.context r rest) (.task s) = some x := by
    simp only [exec, show (w.context r rest).task = some t from ht]
    exact hx
  have hcommit := World.pendingRelease_commit (k := r.task) (n := n) hi hexec
  obtain ⟨t₁, hq, heff⟩ := execTask_effect (x := w.context r rest) ht rfl hx
  cases hq.task.symm.trans ht'
  rw [hq.permit] at hp
  obtain ⟨hreg, hlive⟩ := hw r.task t ht hp
  refine ⟨hq.registered.trans hreg, ?_⟩
  by_cases hdel : s = .setStatus .deleted
  · subst s
    exact .inr (hcommit (.inl (hdelete rfl hp)))
  · have hactive : t.status.isActive = true → t'.status.isActive = true ∨
        PendingRelease (w.commit i n x).events (w.commit i n x).threads r.task := by
      intro hact
      rcases heff.ends (hc ▸ he) hact with h | h | h
      · exact .inl h
      · exact .inr (hcommit (.inr ⟨hq.id, h⟩))
      · exact absurd h hdel
    rcases hlive with hact | hpend
    · exact hactive hact
    · rcases hpend.split hi with h | ⟨-, hr⟩
      · exact .inr (hcommit (.inl h))
      · rw [hc] at hr
        rcases heff.keeps_release hr with h | ⟨hf, hio, hrest, hnil⟩
        · exact .inr (hcommit (.inr ⟨hq.id, h⟩))
        · have hf : r.frame = .plain := hf
          cases hfail : Section.fails .plain t c (.task s) with
          | false =>
            rw [execTask_io hio hx hfail] at hnil
            have hnil : rest = [] := hnil
            rw [show (w.context r rest).thread.code = rest from rfl, hnil] at hrest
            cases hrest
          | true =>
            rcases hfails (hf ▸ hfail) hrest hp with h | h
            · exact hactive h
            · exact .inr (hcommit (.inl h))

theorem World.SlotsLive.commit {w : World} (hw : w.SlotsLive) (ha : w.Accounted n)
    (he : ∀ t ∈ w.threads, endsReleased t.code = true) (hi : w.threads[i]? = some r)
    (hc : r.code = s :: rest) (hx : exec c (w.context r rest) s = some x)
    (hok : KeepsReleases w (.step i c)) : (w.commit i r.task x).SlotsLive := by
  have hmem := List.mem_of_getElem? hi
  have hs : Shape (s :: rest) r.frame r.permit := by
    have := ha.shaped r hmem
    rwa [Thread.Shaped, hc] at this
  have hsome := (exec_permits (x := w.context r rest) hs rfl hx).2.1
  intro id t' ht' hp
  by_cases hid : id = r.task
  · subst id
    rw [World.commit_task hsome] at ht'
    obtain ⟨t, ht⟩ : ∃ t, w.tasks[r.task]? = some t :=
      Option.isSome_iff_exists.1 (hsome.symm.trans (by rw [ht', Option.isSome_some]))
    cases s with
    | manager m => exact hw.manager hi hc hx hok ht ht' hp
    | task m =>
      simp only [exec, show (w.context r rest).task = some t from ht] at hx
      exact hw.task hi hc (he r hmem) ht hx hok ht' hp
    | worker m =>
      have hpend := World.pendingRelease_commit (k := r.task) (n := r.task) hi hx
      simp only [exec, show (w.context r rest).task = some t from ht] at hx
      split at hx
      · cases hx
      · obtain ⟨t₁, hq, hst, -⟩ := execWorker_effect ht rfl hx
        cases hq.task.symm.trans ht'
        rw [hq.registered, hst]
        refine (hw r.task t ht (hq.permit ▸ hp)).imp_right (Or.imp_right fun h => hpend (.inl ?_))
        rcases h.split hi with h | ⟨-, h⟩
        · exact h
        · rw [hc] at h
          cases h
  · rw [World.commit_task_ne hid] at ht'
    refine (hw id t' ht' hp).imp_right (Or.imp_right fun hpend => ?_)
    rcases hpend.split hi with h | ⟨h, _⟩
    · exact World.pendingRelease_commit hi hx (.inl h)
    · exact absurd h.symm hid

theorem handlerCode_releases (h : event ≠ .delete) : releasesSlot (handlerCode event) = true := by
  cases event <;> first | rfl | exact absurd rfl h

theorem World.SlotsLive.external {w w' : World} (hw : w.SlotsLive) (hs : w.step a = some w')
    (ha : ∀ i c, a ≠ .step i c) (hok : KeepsReleases w a) : w'.SlotsLive := by
  have hx := World.step_external hs ha
  intro id t' ht' hp
  rcases hx.back id t' ht' with ⟨t, ht, hv⟩ | ⟨-, h⟩
  · rw [hv.permit] at hp
    rw [hv.registered, hv.status]
    have hlive := hw id t ht hp
    refine ⟨hlive.1, ?_⟩
    obtain ⟨more, hm⟩ := hx.threads
    rcases World.step_events hs ha with he | ⟨rfl, e, he, hth, _⟩ | ⟨rfl, event, n, he, hth, _⟩
    · refine hlive.2.imp_right fun h => h.mono (by simp [he]) ?_
      rw [hm]
      exact List.subset_append_left _ _
    · by_cases hid : e.2 = id
      · have := hok e (by simp [he]) t (hid ▸ ht) hp
        rwa [he, List.tail_cons, hid, ← hth] at this
      · refine hlive.2.imp_right (Or.imp (fun ⟨e₁, hm₁, h₁⟩ => ⟨e₁, ?_, h₁⟩) fun h => hth ▸ h)
        rw [he] at hm₁
        rcases List.mem_cons.1 hm₁ with rfl | hm₁
        · exact absurd h₁.2 hid
        · exact hm₁
    · refine hlive.2.imp_right fun h => ?_
      rcases h with ⟨e₁, hm₁, h₁⟩ | ⟨r, hr, h₁⟩
      · rw [he] at hm₁
        rcases List.mem_cons.1 hm₁ with rfl | hm₁
        · refine .inr ⟨handlerThread event n, by simp [hth], h₁.2, handlerCode_releases h₁.1⟩
        · exact .inl ⟨e₁, hm₁, h₁⟩
      · exact .inr ⟨r, by simp [hth, hr], h₁⟩
  · rw [h] at hp
    cases hp

/-- A call that is over has returned. -/
def Thread.Returned (t : Thread) : Prop := t.code = [] → t.frame = .plain

theorem Thread.settle_returned (t : Thread) : t.settle.Returned := by
  unfold Thread.settle Thread.Returned
  split
  · exact fun _ => rfl
  · rename_i hc
    exact fun h => absurd (by simp [h]) hc

theorem Thread.Entry.returned {t : Thread} (h : t.Entry) : t.Returned := by
  cases h with
  | call call id =>
    cases call with
    | startTask | resumeTask => exact fun h => nomatch h
    | _ => exact fun _ => rfl
  | _ => exact fun _ => rfl

theorem Shape.permit_of_run (h : Shape (inWorker run) .plain permit) : permit = false := by
  generalize hc : inWorker run = code at h
  generalize hf : Frame.plain = frame at h
  cases h with
  | waiting | holding => cases hf
  | storing | failing => cases run <;> cases hc
  | free => rfl

/-- What holds in every state of a run that keeps the releases. -/
structure World.Conserving (permits : Nat) (w : World) : Prop where
  accounted : w.Accounted permits
  runs : w.RunsShaped
  returned : ∀ t ∈ w.threads, t.Returned
  ends : ∀ t ∈ w.threads, endsReleased t.code = true
  slots : w.SlotsLive

theorem World.Conserving.step {w w' : World} (h : w.Conserving n) (hok : KeepsReleases w a)
    (hs : w.step a = some w') : w'.Conserving n where
  accounted := h.accounted.step hs
  runs := h.runs.step hs
  returned := World.threads_step (fun _ ht => ht.returned)
    (fun _ _ _ _ _ _ _ _ hx => ⟨Thread.settle_returned _, fun r hr _ =>
      (exec_spawned rfl hx r hr).2.2.1⟩) h.returned hs
  ends := endsReleased_invariant.step h.ends hs
  slots := by
    by_cases ha : ∃ i c, a = .step i c
    · obtain ⟨i, c, rfl⟩ := ha
      obtain ⟨r, s, rest, x, hi, hc, hx, rfl⟩ := World.stepThread_some hs
      exact h.slots.commit h.accounted h.ends hi hc hx hok
    · exact h.slots.external hs (fun i c he => ha ⟨i, c, he⟩) hok

theorem World.Conserving.idle {w : World} (h : w.Conserving n) (hq : w.Quiescent) :
    ∀ t ∈ w.threads, ∃ run, t.code = inWorker run ∧ t.frame = .plain := by
  intro t ht
  by_cases ho : t.owner = .worker
  · obtain ⟨hf, run, hc⟩ := h.runs t ht ho
    exact ⟨run, hc, hf⟩
  · have hc := hq.2 t ht ho
    exact ⟨[], hc, h.returned t ht hc⟩

/-- In every run of the manager that keeps the releases, all permits are back when nothing is in
progress and no task is active. -/
theorem quiescent_permits_available (permits : Nat) (as : List Act) (w : World)
    (hr : Transition.run World.step (World.new permits) as = some w)
    (hc : Transition.Meets World.step KeepsReleases (World.new permits) as)
    (hq : w.Quiescent) (hidle : ∀ t ∈ w.tasks, t.registered = true → t.status.isActive = false) :
    w.available = permits := by
  have hinv := Transition.Meets.invariant (I := fun w => w.Conserving permits)
    (fun _ _ _ h hc hs => h.step hc hs) hc
    ⟨World.new_accounted permits, by simp [World.RunsShaped, World.new], by simp [World.new],
      by simp [World.new], by simp [World.SlotsLive, World.new]⟩ hr
  have hpend : ∀ id, ¬ PendingRelease w.events w.threads id := by
    rintro id (⟨e, he, _⟩ | ⟨t, ht, _, hrel⟩)
    · rw [hq.1] at he
      cases he
    · obtain ⟨run, hrun, _⟩ := hinv.idle hq t ht
      rw [hrun] at hrel
      cases run <;> cases hrel
  have hthreads : w.threads.tally (·.permit.toNat) = 0 := by
    refine List.tally_eq_zero fun t ht => ?_
    obtain ⟨run, hrun, hf⟩ := hinv.idle hq t ht
    have hs := hinv.accounted.shaped t ht
    rw [Thread.Shaped, hrun, hf] at hs
    rw [hs.permit_of_run, Bool.toNat_false]
  have htasks : w.tasks.tally (·.permit.toNat) = 0 := by
    refine List.tally_eq_zero fun t ht => ?_
    obtain ⟨id, hid⟩ := List.mem_iff_getElem?.1 ht
    cases hp : t.permit with
    | false => rfl
    | true =>
      obtain ⟨hreg, hact | h⟩ := hinv.slots id t hid hp
      · rw [hidle t ht hreg] at hact
        cases hact
      · exact absurd h (hpend id)
  have htotal := hinv.accounted.total
  rw [World.permits, hthreads, htasks] at htotal
  exact htotal

/-- A torrent task is started and paused, and its event is handled. -/
def pausedAndReleased : List Act :=
  List.flatten [[.addTask .pending, .call .startTask 0], proceed 0 5, [.step 0 .engine], proceed 0 6,
    [.call .pauseTask 0], proceed 1 7, [.deliver], proceed 2 5]

theorem paused_task_gives_permit_back :
    ∃ w, Transition.run World.step (World.new 1) pausedAndReleased = some w ∧
      w.tasks.map (·.status) = [.paused] ∧ w.available = 1 := by
  obtain ⟨w, hr, hst, hq, hidle⟩ :
      ∃ w, Transition.run World.step (World.new 1) pausedAndReleased = some w ∧
        w.tasks.map (·.status) = [.paused] ∧ w.Quiescent ∧
        ∀ t ∈ w.tasks, t.registered = true → t.status.isActive = false :=
    Transition.run_any (by decide)
  exact ⟨w, hr, hst, quiescent_permits_available 1 pausedAndReleased w hr (by decide) hq hidle⟩

/-- The preparation itself finishes the task; its event is handled before the permit is stored. -/
def finishedWhilePreparing : List Act :=
  List.flatten [[.addTask .pending, .call .startTask 0], proceed 0 5,
    [.step 0 (.finish false (.ok ()))], proceed 0 5, [.deliver], proceed 1 5, proceed 0 1]

theorem finished_task_keeps_permit :
    ∃ w, Transition.run World.step (World.new 1) finishedWhilePreparing = some w ∧ w.Quiescent ∧
      (∀ t ∈ w.tasks, t.registered = true → t.status.isActive = false) ∧ ¬ w.available = 1 :=
  Transition.run_any (by decide)

end Paradown
