import Paradown.Effects

namespace Paradown
set_option autoImplicit true

/-- The sections that the operation of a `start_task` or `resume_task` consists of. -/
def Section.inBody : Section → Bool
  | .manager .lookup => true
  | .manager (.emit event) => event != .delete
  | .task s =>
    match s with
    | .prepareForStart | .setStatus _ | .io | .prepareDownload | .setTorrentSession
    | .clearManifestState | .markEngineRunning | .listenToEngine | .resumeGate | .clearTaskWorkers
    | .ensureWorkers | .createWorkers | .installWorkers | .spawnWorkers => true
    | _ => false
  | _ => false

/-- The sections of a call that has nothing to do with a permit of its own. -/
def Section.isFree : Section → Bool
  | .manager (.acquire _) | .manager .storePermit | .manager .dropPermit => false
  | _ => true

/-- Where a call stands with its permit: about to acquire it, holding it during the operation, about
to store or to drop it, or without one. -/
inductive Shape : Code → Frame → Bool → Prop where
  | waiting (action : PendingAction) : Shape (transitionCode action) .transition false
  | holding (h : code.all Section.inBody = true) : Shape code .transition true
  | storing : Shape (inManager [.storePermit]) .plain true
  | failing : Shape (Frame.onErr .transition) .plain true
  | free (hf : frame ≠ .transition) (h : code.all Section.isFree = true) : Shape code frame false

def Thread.Shaped (t : Thread) : Prop := Shape t.code t.frame t.permit

theorem Thread.settle_of_code {t : Thread} (h : t.code ≠ []) : t.settle = t := by
  simp [Thread.settle, h]

theorem Thread.settle_holding {t : Thread} (hc : t.code.all Section.inBody = true)
    (hf : t.frame = .transition) (hp : t.permit = true) : t.settle.Shaped := by
  unfold Thread.settle Thread.Shaped
  split
  · simp only [hf, hp]
    exact .storing
  · rw [hf, hp]
    exact .holding hc

theorem Thread.settle_free {t : Thread} (hc : t.code.all Section.isFree = true)
    (hf : t.frame ≠ .transition) (hp : t.permit = false) : t.settle.Shaped := by
  unfold Thread.settle Thread.Shaped
  split
  · cases hfr : t.frame with
    | transition => exact absurd hfr hf
    | plain => simpa [hp, Frame.onOk] using Shape.free (by simp) rfl
    | finalize => simpa [hp, Frame.onOk] using Shape.free (by simp) rfl
  · rw [hp]
    exact .free hf hc

theorem transitionCode_eq (action : PendingAction) :
    ∃ rest, transitionCode action = .manager (.acquire action) :: rest ∧
      rest.all Section.inBody = true := by
  cases action <;> exact ⟨_, rfl, rfl⟩

theorem transitionCode_ne_nil (action : PendingAction) : transitionCode action ≠ [] := by
  obtain ⟨rest, h, _⟩ := transitionCode_eq action
  simp [h]

theorem preparedCode_inBody (h : preparedCode c = some code) :
    code.all Section.inBody = true := by
  unfold preparedCode at h
  split at h
  · rename_i discard
    cases h
    cases discard <;> rfl
  · rename_i discard outcome
    cases h
    rcases outcome with _ | ⟨⟨⟩⟩ <;> cases discard <;> rfl
  · cases h
    rfl
  · cases h

theorem TaskEffect.inBody (h : TaskEffect t rest .transition s status' code frame)
    (hs : Section.inBody (.task s) = true) (hr : rest.all Section.inBody = true) :
    code.all Section.inBody = true ∧ frame = .transition ∨
      code = Frame.onErr .transition ∧ frame = .plain := by
  cases h with
  | next | set => exact .inl ⟨hr, rfl⟩
  | reset =>
    refine .inl ⟨?_, rfl⟩
    rw [List.all_append, hr]
    rfl
  | fail => exact .inr ⟨rfl, rfl⟩
  | halt h => rcases h with rfl | rfl <;> cases hs
  | stop h => cases s <;> simp_all [TaskSection.isStop, Section.inBody]
  | prepared h => exact .inl ⟨preparedCode_inBody h, rfl⟩
  | engineOver | engineRunning | resumeStart | resumeSession | resumeAgain | recreate | reuse =>
    exact .inl ⟨rfl, rfl⟩
  | check | deleteFailed | pause | cancel | persistFailed | checked | finalize => cases hs

theorem TaskEffect.isFree (h : TaskEffect t rest frame s status' code frame')
    (hf : frame ≠ .transition) (hr : rest.all Section.isFree = true) :
    code.all Section.isFree = true ∧ frame' ≠ .transition := by
  have hbody : ∀ code : Code, code.all Section.inBody = true → code.all Section.isFree = true := by
    intro code hc
    refine List.all_eq_true.2 fun s hs => ?_
    have := List.all_eq_true.1 hc s hs
    unfold Section.inBody at this
    unfold Section.isFree
    split at this <;> simp_all
  cases h with
  | next | set => exact ⟨hr, hf⟩
  | reset =>
    refine ⟨?_, hf⟩
    rw [List.all_append, hr]
    rfl
  | fail => cases frame <;> first | exact ⟨rfl, by simp⟩ | exact absurd rfl hf
  | halt h => exact ⟨rfl, by simp⟩
  | stop h hp =>
    refine ⟨?_, hf⟩
    rw [List.all_append, hr, Bool.and_true]
    simp [inTask, Section.isFree]
  | check =>
    refine ⟨?_, hf⟩
    rw [List.all_append, hr]
    rfl
  | prepared h => exact ⟨hbody _ (preparedCode_inBody h), hf⟩
  | engineOver | engineRunning | resumeStart | resumeSession | resumeAgain | recreate | reuse
  | pause | cancel | persistFailed => exact ⟨rfl, hf⟩
  | checked =>
    rename_i check
    cases check <;> exact ⟨rfl, hf⟩
  | deleteFailed => exact ⟨rfl, by simp⟩
  | finalize =>
    rename_i outcome
    refine ⟨?_, by simp⟩
    rcases outcome with _ | ⟨⟨⟩⟩ <;> rfl

theorem Thread.Spawned.shaped {t : Thread} (h : t.Spawned n) : t.Shaped := by
  obtain ⟨_, hp, hf, ⟨_, hc⟩ | ⟨_, hc⟩⟩ := h
  · unfold Thread.Shaped
    rw [hp, hf, hc]
    exact .free (by simp) rfl
  · unfold Thread.Shaped
    rw [hp, hf, hc]
    exact .free (by simp) rfl

theorem exec_shaped_manager {x y : Context}
    (hs : Shape (.manager s :: x.thread.code) x.thread.frame x.thread.permit)
    (hn : x.spawned = []) (h : execManager c x s = some y) :
    y.thread.settle.Shaped ∧ y.spawned = [] := by
  generalize hcode : Section.manager s :: x.thread.code = code at hs
  generalize hframe : x.thread.frame = frame at hs
  generalize hpermit : x.thread.permit = permit at hs
  cases hs with
  | waiting action =>
    obtain ⟨rest, hrest, hbody⟩ := transitionCode_eq action
    rw [hrest] at hcode
    obtain ⟨hs, hr⟩ := List.cons.inj hcode
    cases hs
    simp only [execManager] at h
    split at h <;> cases h
    · exact ⟨Thread.settle_free rfl (by simp) hpermit, hn⟩
    · exact ⟨Thread.settle_holding (hr ▸ hbody) hframe rfl, hn⟩
  | holding hbody =>
    rw [← hcode, List.all_cons, Bool.and_eq_true] at hbody
    cases s with
    | lookup =>
      simp only [execManager] at h
      split at h <;> cases h
      · exact ⟨Thread.settle_holding hbody.2 hframe hpermit, hn⟩
      · exact ⟨Thread.settle_free rfl (by simp [Context.halt]) rfl, hn⟩
    | emit event =>
      cases h
      exact ⟨Thread.settle_holding hbody.2 hframe hpermit, hn⟩
    | _ => cases hbody.1
  | storing =>
    obtain ⟨hs, hr⟩ := List.cons.inj hcode
    cases hs
    simp only [execManager] at h
    split at h <;> cases h
    exact ⟨Thread.settle_free (by simp [hr]) (by simp [hframe]) rfl, hn⟩
  | failing =>
    obtain ⟨hs, hr⟩ := List.cons.inj hcode
    cases hs
    cases h
    exact ⟨Thread.settle_free (by simp [Context.dropPermit, hr, Section.isFree])
      (by simp [Context.dropPermit, hframe]) rfl, hn⟩
  | free hf hfree =>
    rw [← hcode, List.all_cons, Bool.and_eq_true] at hfree
    have hf' : x.thread.frame ≠ .transition := hframe ▸ hf
    cases s with
    | acquire _ | storePermit | dropPermit => cases hfree.1
    | enqueue _ | removeFromQueue | emit _ =>
      cases h
      exact ⟨Thread.settle_free hfree.2 hf' hpermit, hn⟩
    | lookup =>
      simp only [execManager] at h
      split at h <;> cases h
      · exact ⟨Thread.settle_free hfree.2 hf' hpermit, hn⟩
      · exact ⟨Thread.settle_free rfl (by simp [Context.halt]) rfl, hn⟩
    | clearSlot | releasePermit | removeTask =>
      simp only [execManager] at h
      split at h <;> cases h
      exact ⟨Thread.settle_free hfree.2 hf' hpermit, hn⟩
    | releaseTaskPermit =>
      simp only [execManager] at h
      split at h
      · cases h
        exact ⟨Thread.settle_free hfree.2 hf' hpermit, hn⟩
      · split at h <;> cases h
        · exact ⟨Thread.settle_free hfree.2 hf' hpermit, hn⟩
        · exact ⟨Thread.settle_free hfree.2 hf' hpermit, hn⟩
    | popNext =>
      simp only [execManager] at h
      split at h <;> cases h
      · exact ⟨Thread.settle_free rfl (by simp [Context.halt]) hpermit, hn⟩
      · rename_i id action queue _
        refine ⟨?_, hn⟩
        unfold Thread.Shaped
        rw [Thread.settle_of_code (transitionCode_ne_nil action.requested), hpermit]
        exact .waiting action.requested
    | persistTask | persistHttpSession =>
      simp only [execManager] at h
      split at h <;> cases h
      · exact ⟨Thread.settle_free hfree.2 hf' hpermit, hn⟩
      · exact ⟨Thread.settle_free rfl (by simp [Context.halt]) hpermit, hn⟩

/-- Executing a section keeps every call in shape. -/
theorem exec_shaped {x y : Context} (hs : Shape (s :: x.thread.code) x.thread.frame x.thread.permit)
    (hn : x.spawned = []) (h : exec c x s = some y) :
    y.thread.settle.Shaped ∧ ∀ r ∈ y.spawned, r.Shaped := by
  cases s with
  | manager s =>
    obtain ⟨h1, h2⟩ := exec_shaped_manager hs hn h
    exact ⟨h1, by simp [h2]⟩
  | task s =>
    simp only [exec] at h
    split at h
    · cases h
    · rename_i t ht
      obtain ⟨t', hq, he⟩ := execTask_effect ht hn h
      refine ⟨?_, fun r hr => (hq.spawned r hr).shaped⟩
      generalize hcode : Section.task s :: x.thread.code = code at hs
      generalize hframe : x.thread.frame = frame at hs he
      generalize hpermit : x.thread.permit = permit at hs
      cases hs with
      | waiting action =>
        obtain ⟨rest, hrest, _⟩ := transitionCode_eq action
        rw [hrest] at hcode
        cases (List.cons.inj hcode).1
      | holding hbody =>
        rw [← hcode, List.all_cons, Bool.and_eq_true] at hbody
        rcases he.inBody hbody.1 hbody.2 with ⟨h1, h2⟩ | ⟨h1, h2⟩
        · exact Thread.settle_holding h1 h2 (hq.held.trans hpermit)
        · rw [Thread.settle_of_code (by simp [h1, Frame.onErr, inManager])]
          unfold Thread.Shaped
          rw [h1, h2, hq.held, hpermit]
          exact .failing
      | storing | failing => cases (List.cons.inj hcode).1
      | free hf hfree =>
        rw [← hcode, List.all_cons, Bool.and_eq_true] at hfree
        obtain ⟨h1, h2⟩ := he.isFree hf hfree.2
        exact Thread.settle_free h1 h2 (hq.held.trans hpermit)
  | worker s =>
    simp only [exec] at h
    split at h
    · cases h
    · rename_i t ht
      split at h
      · cases h
      · obtain ⟨t', hq, -, hc, hf⟩ := execWorker_effect ht hn h
        refine ⟨?_, fun r hr => (hq.spawned r hr).shaped⟩
        generalize hcode : Section.worker s :: x.thread.code = code at hs
        generalize hframe : x.thread.frame = frame at hs hf
        generalize hpermit : x.thread.permit = permit at hs
        cases hs with
        | waiting action =>
          obtain ⟨rest, hrest, _⟩ := transitionCode_eq action
          rw [hrest] at hcode
          cases (List.cons.inj hcode).1
        | holding hbody =>
          rw [← hcode, List.all_cons, Bool.and_eq_true] at hbody
          cases hbody.1
        | storing | failing => cases (List.cons.inj hcode).1
        | free hf' hfree =>
          rw [← hcode, List.all_cons, Bool.and_eq_true] at hfree
          refine Thread.settle_free ?_ ?_ (hq.held.trans hpermit)
          · rcases hc with hc | ⟨run, hc⟩
            · rw [hc]
              exact hfree.2
            · simp [hc, inWorker, Section.isFree]
          · rcases hf with hf | hf
            · rw [hf]
              exact hf'
            · simp [hf]

/-- The run of a worker consists of worker sections only. -/
def Thread.RunShaped (t : Thread) : Prop :=
  t.owner = .worker → t.frame = .plain ∧ ∃ run, t.code = inWorker run

theorem Thread.Spawned.runShaped {t : Thread} (h : t.Spawned n) : t.RunShaped := by
  obtain ⟨_, _, hf, ⟨_, hc⟩ | ⟨ho, _⟩⟩ := h
  · exact fun _ => ⟨hf, _, hc⟩
  · exact fun h => absurd (ho.symm.trans h) (by simp)

theorem Thread.RunShaped.settle {t : Thread} (h : t.RunShaped) : t.settle.RunShaped := by
  unfold Thread.settle
  split
  · intro ho
    exact ⟨rfl, [], by simp [(h ho).1, Frame.onOk, inWorker]⟩
  · exact h

theorem execManager_same {x y : Context} (h : execManager c x s = some y) :
    y.thread.owner = x.thread.owner ∧ y.thread.worker = x.thread.worker ∧
      y.thread.sources = x.thread.sources ∧ y.spawned = x.spawned := by
  cases s with
  | enqueue _ | dropPermit | removeFromQueue | emit _ =>
    cases h
    exact ⟨rfl, rfl, rfl, rfl⟩
  | releaseTaskPermit =>
    simp only [execManager] at h
    split at h
    · cases h
      exact ⟨rfl, rfl, rfl, rfl⟩
    · split at h <;> cases h <;> exact ⟨rfl, rfl, rfl, rfl⟩
  | _ =>
    simp only [execManager] at h
    split at h <;> cases h <;> exact ⟨rfl, rfl, rfl, rfl⟩

theorem execManager_owner {x y : Context} (h : execManager c x s = some y) :
    y.thread.owner = x.thread.owner ∧ y.spawned = x.spawned :=
  ⟨(execManager_same h).1, (execManager_same h).2.2.2⟩

theorem exec_runShaped {x y : Context}
    (hs : x.thread.owner = .worker → x.thread.frame = .plain ∧
      ∃ run, s :: x.thread.code = inWorker run)
    (hn : x.spawned = []) (h : exec c x s = some y) :
    y.thread.settle.RunShaped ∧ ∀ r ∈ y.spawned, r.RunShaped := by
  have hcons : ∀ run, s :: x.thread.code = inWorker run →
      ∃ m rest, s = .worker m ∧ x.thread.code = inWorker rest := by
    intro run hr
    cases run with
    | nil => cases hr
    | cons m rest =>
      obtain ⟨h1, h2⟩ := List.cons.inj hr
      exact ⟨m, rest, h1, h2⟩
  cases s with
  | manager m =>
    obtain ⟨ho, hsp⟩ := execManager_owner h
    refine ⟨Thread.RunShaped.settle fun hw => ?_, by simp [hsp, hn]⟩
    obtain ⟨run, hr⟩ := (hs (ho.symm.trans hw)).2
    obtain ⟨_, _, hc, _⟩ := hcons run hr
    cases hc
  | task m =>
    simp only [exec] at h
    split at h
    · cases h
    · rename_i t ht
      obtain ⟨t', hq, _⟩ := execTask_effect ht hn h
      refine ⟨Thread.RunShaped.settle fun hw => ?_, fun r hr => (hq.spawned r hr).runShaped⟩
      obtain ⟨run, hr⟩ := (hs (hq.owner.symm.trans hw)).2
      obtain ⟨_, _, hc, _⟩ := hcons run hr
      cases hc
  | worker m =>
    simp only [exec] at h
    split at h
    · cases h
    · rename_i t ht
      split at h
      · cases h
      · obtain ⟨t', hq, -, hc, hf⟩ := execWorker_effect ht hn h
        refine ⟨Thread.RunShaped.settle fun hw => ?_, fun r hr => (hq.spawned r hr).runShaped⟩
        obtain ⟨hplain, run, hr⟩ := hs (hq.owner.symm.trans hw)
        obtain ⟨_, rest, _, hrest⟩ := hcons run hr
        refine ⟨?_, ?_⟩
        · rcases hf with hf | hf
          · exact hf.trans hplain
          · exact hf
        · rcases hc with hc | hc
          · exact ⟨rest, hc.trans hrest⟩
          · exact hc

/-- Every worker run in progress consists of worker sections. -/
def World.RunsShaped (w : World) : Prop := ∀ t ∈ w.threads, t.RunShaped

theorem Thread.Entry.owner_ne {t : Thread} (h : t.Entry) : t.owner ≠ .worker := by
  cases h <;> simp [Call.toThread, handlerThread, listenerThread, engineThread, joinerThread]

theorem World.RunsShaped.step {w w' : World} (h : w.RunsShaped) (hs : w.step a = some w') :
    w'.RunsShaped :=
  World.threads_step (fun _ ht ho => absurd ho ht.owner_ne)
    (fun w t _ rest _ _ ht hc hx => exec_runShaped (x := w.context t rest)
      (fun ho => ⟨(ht ho).1, by simpa [World.context, hc] using (ht ho).2⟩) rfl hx) h hs

end Paradown
