import Paradown.Reach

namespace Paradown
set_option autoImplicit true

variable {id n : Nat}

/-- The sections that a call passes on its way to the queue. -/
def Section.onward : Section → Bool
  | .manager s =>
    match s with
    | .clearSlot | .removeFromQueue | .persistTask | .persistHttpSession => true
    | _ => false
  | .task s => !s.jumps && !s.mayFail && s != .ioOrFail
  | .worker _ => false

/-- The sections that serve the queue, or take the free permit themselves. -/
def Section.drains : Section → Bool
  | .manager (.acquire _) | .manager .popNext => true
  | .manager (.emit event) => event == .delete
  | _ => false

/-- The sections that release the permit of the task and serve the queue with it. -/
def Section.announces : Section → Bool
  | .manager .releaseTaskPermit => true
  | .manager (.emit event) => event != .delete
  | _ => false

def drainsQueue (code : Code) : Bool := reaches Section.onward Section.drains code

def announcesEnd (code : Code) : Bool := reaches Section.onward Section.announces code

/-- The terminal events of the task whose handling is still to come. -/
def World.terminals (w : World) (id : Nat) : Nat :=
  w.events.countP (fun e => e.1 != .delete && e.2 == id) +
    w.threads.tally fun t => (t.task == id && announcesEnd t.code).toNat

/-- A terminal event serves the queue with the permit that it releases. Those that find no permit
stored in the task serve it with one that is free already. -/
def World.spare (w : World) (id : Nat) : Nat :=
  match w.tasks[id]? with
  | some t => w.terminals id - t.permit.toNat
  | none => 0

/-- How often the queue will still be served with a permit that is free now. -/
def World.drains (w : World) : Nat :=
  w.threads.tally (fun t => (drainsQueue t.code).toNat) + w.events.countP (·.1 == .delete) +
    (List.range w.tasks.length).tally w.spare

/-- Every queued action that could run will be served. -/
def World.Served (w : World) : Prop := w.queue = [] ∨ w.available ≤ w.drains

/-- After a release the queue is served. -/
def releaseServes : Code → Bool
  | [] => true
  | s :: rest =>
    (s != .manager .releaseTaskPermit || drainsQueue rest) && releaseServes rest

theorem releaseServes_append (h : releaseServes rest = true) :
    releaseServes (inTask pre ++ rest) = true := by
  induction pre with
  | nil => exact h
  | cons s pre ih =>
    rw [inTask, List.map_cons, List.cons_append]
    simpa [releaseServes, inTask] using ih

theorem releaseServes_of_notMem (h : Section.manager .releaseTaskPermit ∉ code) :
    releaseServes code = true := by
  induction code with
  | nil => rfl
  | cons s rest ih =>
    rw [List.mem_cons, not_or] at h
    simp [releaseServes, ih h.2, bne_iff_ne, Ne.symm h.1]

theorem FixedCode.releaseServes (h : FixedCode code) : releaseServes code = true := by
  cases h with
  | transition action => cases action <;> rfl
  | onErr frame => cases frame <;> rfl
  | ready discard => cases discard <;> rfl
  | finish discard outcome => rcases outcome with _ | ⟨⟨⟩⟩ <;> cases discard <;> rfl
  | checked check => cases check <;> rfl
  | finalize outcome => rcases outcome with _ | ⟨⟨⟩⟩ <;> rfl
  | _ => rfl

theorem drainsQueue_or_announcesEnd (code : Code) :
    drainsQueue code = false ∨ announcesEnd code = false := by
  unfold drainsQueue announcesEnd
  induction code with
  | nil => exact .inl rfl
  | cons s rest ih =>
    rcases s with s | s | s
    · cases s <;> simp [reaches, Section.onward, Section.drains, Section.announces] at ih ⊢ <;>
        first | exact ih | exact ne_or_eq _ _
    · simp only [reaches, Section.drains, Section.announces, Bool.false_or]
      rcases ih with ih | ih <;> simp [ih]
    · exact .inl rfl

theorem World.tally_commit {w : World} {f : Thread → Nat} (hi : w.threads[i]? = some r) :
    (w.commit i n x).threads.tally f + f r =
      w.threads.tally f + f x.thread.settle + x.spawned.tally f := by
  have := List.tally_set (f := f) hi x.thread.settle
  simp only [World.commit, List.tally_append]
  omega

/-- The balance of a section: what the queue can count on before and after it. -/
structure World.Balance (w w' : World) (r y : Thread) (added : List (TaskEvent × Nat)) : Prop where
  drains : w.drains + (drainsQueue y.code).toNat + added.countP (·.1 == .delete) + w'.spare r.task ≤
    w'.drains + (drainsQueue r.code).toNat + w.spare r.task
  terminals : w.terminals r.task + (y.task == r.task && announcesEnd y.code).toNat +
    added.countP (·.1 != .delete) ≤ w'.terminals r.task + (announcesEnd r.code).toNat
  counted : (announcesEnd r.code).toNat ≤ w.terminals r.task

theorem Frame.onOk_reaches (frame : Frame) :
    drainsQueue frame.onOk = false ∧ announcesEnd frame.onOk = false := by
  cases frame <;> exact ⟨rfl, rfl⟩

theorem World.terminals_commit {w : World} (hi : w.threads[i]? = some r)
    (he : x.events = w.events ++ added) (j : Nat) :
    w.terminals j + (x.thread.task == j && announcesEnd x.thread.code).toNat +
      added.countP (fun e => e.1 != .delete && e.2 == j) ≤
    (w.commit i r.task x).terminals j + (r.task == j && announcesEnd r.code).toNat := by
  have ha : announcesEnd x.thread.settle.code = announcesEnd x.thread.code :=
    reaches_settle (fun f : Frame => f.onOk_reaches.2) x.thread
  have ht := World.tally_commit (n := r.task) (x := x)
    (f := fun t => (t.task == j && announcesEnd t.code).toNat) hi
  simp only [Thread.settle_task, ha] at ht
  have hev : (w.commit i r.task x).events = w.events ++ added := he
  simp only [World.terminals, hev, List.countP_append]
  omega

theorem World.length_commit (w : World) (i n : Nat) (x : Context) :
    (w.commit i n x).tasks.length = w.tasks.length := by
  unfold World.commit
  cases x.task <;> simp

theorem World.commit_balance {w : World} (added : List (TaskEvent × Nat)) (hi : w.threads[i]? = some r)
    (hs : x.task.isSome = (w.tasks[r.task]?).isSome) (he : x.events = w.events ++ added)
    (hn : ∀ e ∈ added, e.2 = r.task) :
    w.Balance (w.commit i r.task x) r x.thread added := by
  have hterm := World.terminals_commit hi he
  refine ⟨?_, ?_, ?_⟩
  · have hd : drainsQueue x.thread.settle.code = drainsQueue x.thread.code :=
      reaches_settle (fun f : Frame => f.onOk_reaches.1) x.thread
    have ht := World.tally_commit (n := r.task) (x := x)
      (f := fun t => (drainsQueue t.code).toNat) hi
    simp only [hd] at ht
    have hev : (w.commit i r.task x).events = w.events ++ added := he
    have hspare : ∀ j, j ≠ r.task → w.spare j ≤ (w.commit i r.task x).spare j := by
      intro j hj
      have := hterm j
      rw [beq_false_of_ne (Ne.symm hj), Bool.false_and, Bool.toNat_false] at this
      simp only [World.spare, World.commit_task_ne hj]
      split <;> omega
    have hout : r.task ∉ List.range w.tasks.length →
        (w.commit i r.task x).spare r.task ≤ w.spare r.task := by
      intro ho
      have hnone : w.tasks[r.task]? = none := by simpa using ho
      rw [hnone] at hs
      have : (w.commit i r.task x).tasks[r.task]? = none := by
        rw [World.commit_task (by rw [hs, hnone])]
        simpa using hs
      simp [World.spare, this]
    have hsum := List.tally_exchange List.nodup_range hspare hout
    simp only [World.drains, World.length_commit, hev, List.countP_append]
    omega
  · have := hterm r.task
    have hc : added.countP (fun e => e.1 != .delete && e.2 == r.task) =
        added.countP (·.1 != .delete) :=
      List.countP_congr fun e he => by simp [hn e he]
    simpa [hc] using this
  · have := List.le_tally (f := fun t : Thread => (t.task == r.task && announcesEnd t.code).toNat)
      (List.mem_of_getElem? hi)
    simp only [beq_self_eq_true, Bool.true_and] at this
    exact this.trans (Nat.le_add_left _ _)

theorem TaskEffect.reaches_onward (h : TaskEffect t rest frame s status code frame')
    (hg : goal (.task s) = false) (hr : reaches Section.onward goal (.task s :: rest) = true) :
    reaches Section.onward goal code = true := by
  simp only [reaches, hg, Bool.false_or, Bool.and_eq_true, Section.onward, Bool.not_eq_true',
    bne_iff_ne] at hr
  obtain ⟨⟨⟨hj, hf⟩, hi⟩, hr⟩ := hr
  rcases h.code_cases hj with ⟨rfl, _⟩ | ⟨pre, _, hp, rfl, _⟩ | ⟨hm, _⟩ | ⟨rfl, _⟩
  · exact hr
  · refine reaches_stop hp (fun m hm => ?_) hr
    cases m <;> first | rfl | cases hm
  · rw [hf] at hm
    cases hm
  · exact absurd rfl hi

theorem exec_promises {x y : Context} (hm : ∀ m, s ≠ .manager m) (hn : x.spawned = [])
    (h : exec c x s = some y) :
    (drainsQueue (s :: x.thread.code) = true → drainsQueue y.thread.code = true) ∧
      (announcesEnd (s :: x.thread.code) = true → announcesEnd y.thread.code = true) := by
  cases s with
  | manager m => exact absurd rfl (hm m)
  | task s =>
    simp only [exec] at h
    split at h
    · cases h
    · rename_i t ht
      obtain ⟨t', _, he⟩ := execTask_effect ht hn h
      exact ⟨he.reaches_onward rfl, he.reaches_onward rfl⟩
  | worker s =>
    simp only [drainsQueue, announcesEnd, reaches, Section.onward, Section.drains, Section.announces]
    simp

/-- A section that leaves the stored permit and the events alone changes what the queue can count on
only by what its own call promises. -/
theorem World.spare_commit {w : World} (hs : slotOf x.task = slotOf w.tasks[n]?)
    (ht : x.task.isSome = (w.tasks[n]?).isSome) :
    w.spare n ≤ (w.commit i n x).spare n + (w.terminals n - (w.commit i n x).terminals n) := by
  simp only [World.spare, World.commit_task ht]
  cases hx : x.task with
  | none =>
    rw [hx, Option.isSome_none, eq_comm, Option.isSome_eq_false_iff, Option.isNone_iff_eq_none] at ht
    simp [ht]
  | some t' =>
    obtain ⟨t, hw⟩ := Option.isSome_iff_exists.1 (ht.symm.trans (by rw [hx, Option.isSome_some]))
    rw [hx, hw] at hs
    simp only [slotOf] at hs
    simp only [hw]
    omega

theorem World.drains_commit_kept {w : World} (hi : w.threads[i]? = some r)
    (hs : slotOf x.task = slotOf w.tasks[r.task]?)
    (ht : x.task.isSome = (w.tasks[r.task]?).isSome) (he : x.events = w.events)
    (ha : announcesEnd r.code = true → announcesEnd x.thread.code = true ∧ x.thread.task = r.task) :
    w.drains + (drainsQueue x.thread.code).toNat ≤
      (w.commit i r.task x).drains + (drainsQueue r.code).toNat := by
  have hb := World.commit_balance [] hi ht (by simpa using he) (by simp)
  have h1 := hb.drains
  have h2 := hb.terminals
  have h3 : (announcesEnd r.code).toNat ≤
      (x.thread.task == r.task && announcesEnd x.thread.code).toNat :=
    Bool.toNat_le_toNat fun h => by simp [ha h]
  have h4 := World.spare_commit (i := i) hs ht
  simp only [List.countP_nil, Nat.add_zero] at h1 h2
  omega

theorem World.drains_commit_lost {w : World} (hi : w.threads[i]? = some r)
    (hs : slotOf x.task = slotOf w.tasks[r.task]?)
    (ht : x.task.isSome = (w.tasks[r.task]?).isSome) (he : x.events = w.events)
    (hl : ¬ (drainsQueue r.code = true ∨ announcesEnd r.code = true ∧ 0 < w.spare r.task)) :
    w.drains ≤ (w.commit i r.task x).drains := by
  have hb := World.commit_balance [] hi ht (by simpa using he) (by simp)
  have h1 := hb.drains
  have h2 := hb.terminals
  have h4 := World.spare_commit (i := i) hs ht
  simp only [List.countP_nil, Nat.add_zero] at h1 h2
  rw [not_or, Bool.not_eq_true] at hl
  rw [hl.1, Bool.toNat_false] at h1
  cases ha : announcesEnd r.code with
  | false =>
    rw [ha, Bool.toNat_false] at h2
    omega
  | true =>
    have : ¬ 0 < w.spare r.task := fun h => hl.2 ⟨ha, h⟩
    omega

theorem World.drains_commit_loses_one {w : World} (hi : w.threads[i]? = some r)
    (hs : slotOf x.task = slotOf w.tasks[r.task]?)
    (ht : x.task.isSome = (w.tasks[r.task]?).isSome) (he : x.events = w.events) :
    w.drains ≤ (w.commit i r.task x).drains + 1 := by
  have hb := World.commit_balance [] hi ht (by simpa using he) (by simp)
  have h1 := hb.drains
  have h2 := hb.terminals
  have h4 := World.spare_commit (i := i) hs ht
  simp only [List.countP_nil, Nat.add_zero] at h1 h2
  rcases drainsQueue_or_announcesEnd r.code with h | h
  · have := Bool.toNat_le (announcesEnd r.code)
    rw [h, Bool.toNat_false] at h1
    omega
  · have := Bool.toNat_le (drainsQueue r.code)
    rw [h, Bool.toNat_false] at h2
    omega

def ManagerSection.isEnqueue : ManagerSection → Bool
  | .enqueue _ => true
  | _ => false

/-- The section can leave a permit free with nothing to follow that serves the queue with it: the
early returns (an unknown task, an error while persisting), a permit that is dropped where another
one takes its place or where no event of the task is to come, and one that is stored after the
event of its task is on its way. -/
def World.Strands (w : World) (r : Thread) (rest : Code) (c : Choice) : ManagerSection → Prop
  | .lookup => (w.context r rest).isRegistered = false ∧ r.permit = true
  | .storePermit => slotOf w.tasks[r.task]? = 1 ∨ 0 < w.terminals r.task
  | .clearSlot => slotOf w.tasks[r.task]? = 1 ∧ w.terminals r.task = 0
  | .releasePermit => slotOf w.tasks[r.task]? = 1 ∧ w.terminals r.task = 0 ∧
      drainsQueue rest = false ∧ announcesEnd rest = false
  | .persistTask => ((w.context r rest).isRegistered = false ∨ c ≠ .ok) ∧
      (drainsQueue rest = true ∨ announcesEnd rest = true ∧ 0 < w.spare r.task)
  | .persistHttpSession => c ≠ .ok ∧
      (drainsQueue rest = true ∨ announcesEnd rest = true ∧ 0 < w.spare r.task)
  | _ => False

instance : Decidable (World.Strands w r rest c m) :=
  match m with
  | .lookup | .clearSlot | .releasePermit | .persistTask | .persistHttpSession =>
    inferInstanceAs (Decidable (_ ∧ _))
  | .storePermit => inferInstanceAs (Decidable (_ ∨ _))
  | .acquire _ | .enqueue _ | .dropPermit | .releaseTaskPermit | .popNext | .removeFromQueue
  | .removeTask | .emit _ => inferInstanceAs (Decidable False)

/-- An action is queued only while every free permit has somebody to serve the queue with it, and
one of them is left to spare whenever a section strands a permit. -/
def World.SectionServes (w : World) (c : Choice) (r : Thread) (rest : Code) : Section → Prop
  | .manager m => (m.isEnqueue = true → w.available ≤ w.drains) ∧
      (w.Strands r rest c m → w.queue = [] ∨ w.available < w.drains)
  | _ => True

instance : Decidable (World.SectionServes w c r rest s) :=
  match s with
  | .manager _ => inferInstanceAs (Decidable (_ ∧ _))
  | .task _ | .worker _ => inferInstanceAs (Decidable True)

/-- Every section serves the queue, and an event is lost only where a service can be spared. -/
def ServesQueue (w : World) : Act → Prop
  | .step i c => ∀ e ∈ w.next i, w.SectionServes c e.1 e.2.2 e.2.1
  | .lag => ∀ e ∈ w.events.head?, e.1 = .delete ∨ 0 < w.spare e.2 →
      w.queue = [] ∨ w.available < w.drains
  | _ => True

instance : Decidable (ServesQueue w a) :=
  match a with
  | .step _ _ => inferInstanceAs (Decidable (∀ _ ∈ _, _))
  | .lag => inferInstanceAs (Decidable (∀ _ ∈ _, _))
  | .addTask _ | .call _ _ | .deliver | .listen _ | .listenerLag _ | .engineEvent _ _ | .join _ _ =>
    inferInstanceAs (Decidable True)

theorem Shape.dropPermit (h : Shape (.manager .dropPermit :: rest) frame permit) :
    rest = inManager [.clearSlot, .popNext] := by
  generalize hc : Section.manager .dropPermit :: rest = code at h
  cases h with
  | waiting action =>
    obtain ⟨r, hr, _⟩ := transitionCode_eq action
    rw [hr] at hc
    cases (List.cons.inj hc).1
  | holding hb => simp [← hc, Section.inBody] at hb
  | storing => cases (List.cons.inj hc).1
  | failing => exact (List.cons.inj hc).2
  | free _ hf => simp [← hc, Section.isFree] at hf

theorem drainsQueue_transitionCode (action : PendingAction) :
    drainsQueue (transitionCode action) = true := by
  cases action <;> rfl

theorem drains_nothing (h : s.drains = false) (ho : s.onward = false) :
    drainsQueue (s :: rest) = false := by
  simp [drainsQueue, reaches, h, ho]

theorem announces_nothing (h : s.announces = false) (ho : s.onward = false) :
    announcesEnd (s :: rest) = false := by
  simp [announcesEnd, reaches, h, ho]

theorem drains_onward (h : s.drains = false) (ho : s.onward = true) :
    drainsQueue (s :: rest) = drainsQueue rest := by
  simp [drainsQueue, reaches, h, ho]

theorem announces_onward (h : s.announces = false) (ho : s.onward = true) :
    announcesEnd (s :: rest) = announcesEnd rest := by
  simp [announcesEnd, reaches, h, ho]

theorem World.spare_of_task {w : World} (h : w.tasks[n]? = some t) :
    w.spare n = w.terminals n - t.permit.toNat := by
  simp only [World.spare, h]

theorem World.spare_commit_of_task {w : World} (h : w.tasks[n]? = some t) (hx : x.task = some t') :
    (w.commit i n x).spare n = (w.commit i n x).terminals n - t'.permit.toNat := by
  refine World.spare_of_task ?_
  rw [World.commit_task (by simp [h, hx]), hx]

theorem World.commit_slot {w : World} (hi : w.threads[i]? = some r) (hc : r.code = .manager m :: rest)
    (hm : m = .storePermit ∨ m = .clearSlot ∨ m = .releasePermit)
    (hx : execManager c (w.context r rest) m = some x) :
    ∃ t, w.tasks[r.task]? = some t ∧ x.available = w.available + t.permit.toNat ∧
      x.queue = w.queue ∧ x.thread.code = rest ∧
      w.drains + (drainsQueue rest).toNat +
          ((w.commit i r.task x).terminals r.task - (m == .storePermit).toNat) ≤
        (w.commit i r.task x).drains + (drainsQueue r.code).toNat +
          (w.terminals r.task - t.permit.toNat) ∧
      w.terminals r.task + (announcesEnd rest).toNat ≤
        (w.commit i r.task x).terminals r.task + (announcesEnd r.code).toNat ∧
      (announcesEnd r.code).toNat ≤ w.terminals r.task := by
  obtain ⟨t, ht, t', hx', hp, hav, hq, he, hcode, hid⟩ : ∃ t, w.tasks[r.task]? = some t ∧
      ∃ t', x.task = some t' ∧ t'.permit = (m == .storePermit) ∧
        x.available = w.available + t.permit.toNat ∧ x.queue = w.queue ∧ x.events = w.events ∧
        x.thread.code = rest ∧ x.thread.task = r.task := by
    rcases hm with rfl | rfl | rfl <;> simp only [execManager] at hx <;> split at hx <;> cases hx <;>
      exact ⟨_, ‹_›, _, rfl, rfl, rfl, rfl, rfl, rfl, rfl⟩
  have hb := World.commit_balance [] hi (x := x) (by simp [hx', ht]) (by simpa using he)
    (by simp)
  have h1 := hb.drains
  have h2 := hb.terminals
  simp only [World.spare_of_task ht, World.spare_commit_of_task ht hx', hp, hcode, hid,
    beq_self_eq_true, Bool.true_and, List.countP_nil, Nat.add_zero] at h1 h2
  exact ⟨t, ht, hav, hq, hcode, h1, h2, hb.counted⟩

theorem execManager_releaseTaskPermit {x y : Context}
    (h : execManager c x .releaseTaskPermit = some y) :
    y.queue = x.queue ∧ y.events = x.events ∧ y.thread = x.thread ∧
      (y.available = x.available ∧ y.task = x.task ∨
        ∃ t, x.task = some t ∧ y.available = x.available + t.permit.toNat ∧
          y.task = some { t with permit := false }) := by
  simp only [execManager] at h
  split at h
  · cases h
    exact ⟨rfl, rfl, rfl, .inl ⟨rfl, rfl⟩⟩
  · rename_i t ht
    split at h <;> cases h
    · exact ⟨rfl, rfl, rfl, .inr ⟨t, ht, rfl, rfl⟩⟩
    · exact ⟨rfl, rfl, rfl, .inl ⟨rfl, rfl⟩⟩

theorem World.served_commit {w : World} :
    (w.commit i n x).Served ↔ x.queue = [] ∨ x.available ≤ (w.commit i n x).drains := Iff.rfl

theorem World.Served.giveUp {w : World} (hw : w.Served) (hi : w.threads[i]? = some r)
    (hav : x.available = w.available) (hq : x.queue = w.queue) (he : x.events = w.events)
    (ht : x.task = w.tasks[r.task]?)
    (hl : drainsQueue r.code = true ∨ announcesEnd r.code = true ∧ 0 < w.spare r.task →
      w.queue = [] ∨ w.available < w.drains) : x.queue = [] ∨ x.available ≤ (w.commit i r.task x).drains := by
  rw [hq, hav]
  by_cases hlost : drainsQueue r.code = true ∨ announcesEnd r.code = true ∧ 0 < w.spare r.task
  · have := World.drains_commit_loses_one hi (by rw [ht]) (by rw [ht]) he
    exact (hl hlost).imp_right fun hlt => by omega
  · have := World.drains_commit_lost hi (by rw [ht]) (by rw [ht]) he hlost
    exact hw.imp_right fun hle => by omega

section
variable {w : World} {i : Nat} {r : Thread} {x : Context} {rest : Code} {c : Choice}

theorem World.Served.acquire (hw : w.Served) (hi : w.threads[i]? = some r)
    (hc : r.code = .manager (.acquire action) :: rest)
    (hx : execManager c (w.context r rest) (.acquire action) = some x)
    (hsome : x.task.isSome = (w.tasks[r.task]?).isSome) : (w.commit i r.task x).Served := by
  have hserved : w.queue = [] ∨ w.available ≤ w.drains := hw
  rw [World.served_commit]
  have hd : drainsQueue r.code = true := by rw [hc]; rfl
  have ha : announcesEnd r.code = false := by rw [hc]; exact announces_nothing rfl rfl
  simp only [execManager] at hx
  split at hx <;> cases hx
  · rename_i h0
    exact .inr (by rw [h0]; exact Nat.zero_le _)
  · rename_i h0
    refine hserved.imp_right fun hle => ?_
    have := World.drains_commit_kept hi rfl hsome rfl (by simp [ha])
    rw [hd, Bool.toNat_true] at this
    simp only [World.context] at h0 this ⊢
    omega

theorem World.Served.enqueue (hw : w.Served) (hi : w.threads[i]? = some r)
    (hc : r.code = .manager (.enqueue action) :: rest)
    (hx : execManager c (w.context r rest) (.enqueue action) = some x)
    (hsome : x.task.isSome = (w.tasks[r.task]?).isSome)
    (hok : w.SectionServes c r rest (.manager (.enqueue action))) : (w.commit i r.task x).Served := by
  have hserved : w.queue = [] ∨ w.available ≤ w.drains := hw
  have henq := hok.1
  rw [World.served_commit]
  have hd : drainsQueue r.code = false := by rw [hc]; exact drains_nothing rfl rfl
  have ha : announcesEnd r.code = false := by rw [hc]; exact announces_nothing rfl rfl
  cases hx
  have := World.drains_commit_kept hi rfl hsome rfl (by simp [ha])
  rw [hd, Bool.toNat_false] at this
  have := henq rfl
  exact .inr (by simp only [World.context] at *; omega)

theorem World.Served.lookup (hw : w.Served) (hi : w.threads[i]? = some r)
    (hc : r.code = .manager .lookup :: rest)
    (hx : execManager c (w.context r rest) .lookup = some x)
    (hsome : x.task.isSome = (w.tasks[r.task]?).isSome)
    (hok : w.SectionServes c r rest (.manager .lookup)) : (w.commit i r.task x).Served := by
  have hserved : w.queue = [] ∨ w.available ≤ w.drains := hw
  have hstrand := hok.2
  rw [World.served_commit]
  have hd : drainsQueue r.code = false := by rw [hc]; exact drains_nothing rfl rfl
  have ha : announcesEnd r.code = false := by rw [hc]; exact announces_nothing rfl rfl
  simp only [execManager] at hx
  split at hx <;> cases hx
  · have := World.drains_commit_kept hi rfl hsome rfl (by simp [ha])
    rw [hd, Bool.toNat_false] at this
    exact hserved.imp_right fun hle => by simp only [World.context] at *; omega
  · rename_i hreg
    have := World.drains_commit_kept hi rfl hsome rfl (by simp [ha])
    rw [hd, Bool.toNat_false] at this
    cases hp : r.permit with
    | false =>
      refine hserved.imp_right fun hle => ?_
      simp only [Context.halt, Context.dropPermit, World.context, hp, Bool.toNat_false] at *
      omega
    | true =>
      refine (hstrand ⟨by simpa using hreg, hp⟩).imp_right fun hlt => ?_
      simp only [Context.halt, Context.dropPermit, World.context, hp, Bool.toNat_true] at *
      omega

theorem World.Served.storePermit (hw : w.Served) (hi : w.threads[i]? = some r)
    (hc : r.code = .manager .storePermit :: rest)
    (hx : execManager c (w.context r rest) .storePermit = some x)
    (hok : w.SectionServes c r rest (.manager .storePermit)) : (w.commit i r.task x).Served := by
  have hserved : w.queue = [] ∨ w.available ≤ w.drains := hw
  have hstrand := hok.2
  rw [World.served_commit]
  have hd : drainsQueue r.code = false := by rw [hc]; exact drains_nothing rfl rfl
  have ha : announcesEnd r.code = false := by rw [hc]; exact announces_nothing rfl rfl
  obtain ⟨t, ht, hav, hq, hcode, h1, h2, h3⟩ := World.commit_slot hi hc (.inl rfl) hx
  rw [hq, hav]
  simp only [World.Strands, slotOf, ht] at hstrand
  simp only [hd, ha, Bool.toNat_false, beq_self_eq_true, Bool.toNat_true] at h1 h2
  cases hp : t.permit with
  | true =>
    rw [hp, Bool.toNat_true] at h1 hstrand
    refine (hstrand (.inl rfl)).imp_right fun hlt => ?_
    rw [Bool.toNat_true]
    omega
  | false =>
    rw [hp, Bool.toNat_false] at h1 hstrand
    rw [Bool.toNat_false]
    by_cases hpos : 0 < w.terminals r.task
    · exact (hstrand (.inr hpos)).imp_right fun hlt => by omega
    · exact hserved.imp_right fun hle => by omega

theorem World.Served.dropPermit (hw : w.Served) (hi : w.threads[i]? = some r)
    (hc : r.code = .manager .dropPermit :: rest)
    (hx : execManager c (w.context r rest) .dropPermit = some x)
    (hsome : x.task.isSome = (w.tasks[r.task]?).isSome)
    (hs : Shape (.manager .dropPermit :: rest) r.frame r.permit) : (w.commit i r.task x).Served := by
  have hserved : w.queue = [] ∨ w.available ≤ w.drains := hw
  rw [World.served_commit]
  have hd : drainsQueue r.code = false := by rw [hc]; exact drains_nothing rfl rfl
  have ha : announcesEnd r.code = false := by rw [hc]; exact announces_nothing rfl rfl
  have hrest := hs.dropPermit
  cases hx
  have hkept := World.drains_commit_kept hi rfl hsome rfl (by simp [ha])
  have hd' : drainsQueue rest = true := by rw [hrest]; rfl
  have := Bool.toNat_le r.permit
  refine hserved.imp_right fun hle => ?_
  simp only [Context.dropPermit, World.context, hd, hd', Bool.toNat_true, Bool.toNat_false] at hkept ⊢
  omega

theorem World.Served.clearSlot (hw : w.Served) (hi : w.threads[i]? = some r)
    (hc : r.code = .manager .clearSlot :: rest)
    (hx : execManager c (w.context r rest) .clearSlot = some x)
    (hok : w.SectionServes c r rest (.manager .clearSlot)) : (w.commit i r.task x).Served := by
  have hserved : w.queue = [] ∨ w.available ≤ w.drains := hw
  have hstrand := hok.2
  rw [World.served_commit]
  have hd : drainsQueue r.code = drainsQueue rest := by rw [hc]; exact drains_onward rfl rfl
  have ha : announcesEnd r.code = announcesEnd rest := by rw [hc]; exact announces_onward rfl rfl
  obtain ⟨t, ht, hav, hq, hcode, h1, h2, h3⟩ := World.commit_slot hi hc (.inr (.inl rfl)) hx
  rw [hq, hav]
  simp only [World.Strands, slotOf, ht] at hstrand
  simp only [hd, ha, show (ManagerSection.clearSlot == .storePermit) = false from rfl,
    Bool.toNat_false] at h1 h2
  cases hp : t.permit with
  | true =>
    rw [hp, Bool.toNat_true] at h1 hstrand
    rw [Bool.toNat_true]
    by_cases hpos : w.terminals r.task = 0
    · exact (hstrand ⟨rfl, hpos⟩).imp_right fun hlt => by omega
    · exact hserved.imp_right fun hle => by omega
  | false =>
    rw [hp, Bool.toNat_false] at h1
    rw [Bool.toNat_false]
    exact hserved.imp_right fun hle => by omega

theorem World.Served.releasePermit (hw : w.Served) (hi : w.threads[i]? = some r)
    (hc : r.code = .manager .releasePermit :: rest)
    (hx : execManager c (w.context r rest) .releasePermit = some x)
    (hok : w.SectionServes c r rest (.manager .releasePermit)) : (w.commit i r.task x).Served := by
  have hserved : w.queue = [] ∨ w.available ≤ w.drains := hw
  have hstrand := hok.2
  rw [World.served_commit]
  have hd : drainsQueue r.code = false := by rw [hc]; exact drains_nothing rfl rfl
  have ha : announcesEnd r.code = false := by rw [hc]; exact announces_nothing rfl rfl
  obtain ⟨t, ht, hav, hq, hcode, h1, h2, h3⟩ := World.commit_slot hi hc (.inr (.inr rfl)) hx
  rw [hq, hav]
  simp only [World.Strands, slotOf, ht] at hstrand
  simp only [hd, ha, show (ManagerSection.releasePermit == .storePermit) = false from rfl,
    Bool.toNat_false] at h1 h2
  cases hp : t.permit with
  | true =>
    rw [hp, Bool.toNat_true] at h1 hstrand
    rw [Bool.toNat_true]
    by_cases hpos : w.terminals r.task = 0 ∧ drainsQueue rest = false ∧ announcesEnd rest = false
    · exact (hstrand ⟨rfl, hpos⟩).imp_right fun hlt => by omega
    · refine hserved.imp_right fun hle => ?_
      cases hdr : drainsQueue rest <;> cases har : announcesEnd rest <;>
        simp only [hdr, har, Bool.toNat_true, Bool.toNat_false, and_true] at h1 h2 hpos <;>
        omega
  | false =>
    rw [hp, Bool.toNat_false] at h1
    rw [Bool.toNat_false]
    exact hserved.imp_right fun hle => by omega

theorem World.Served.releaseTaskPermit (hw : w.Served) (hi : w.threads[i]? = some r)
    (hc : r.code = .manager .releaseTaskPermit :: rest)
    (hx : execManager c (w.context r rest) .releaseTaskPermit = some x)
    (hsome : x.task.isSome = (w.tasks[r.task]?).isSome)
    (hr : releaseServes r.code = true) : (w.commit i r.task x).Served := by
  have hserved : w.queue = [] ∨ w.available ≤ w.drains := hw
  rw [World.served_commit]
  have hd : drainsQueue r.code = false := by rw [hc]; exact drains_nothing rfl rfl
  have ha : announcesEnd r.code = true := by rw [hc]; rfl
  have hd' : drainsQueue rest = true := by
    rw [hc, releaseServes, Bool.and_eq_true] at hr
    simpa using hr.1
  obtain ⟨hq, he, hthread, hcase⟩ := execManager_releaseTaskPermit hx
  have hb := World.commit_balance [] hi hsome (by simp [he, World.context]) (by simp)
  have h1 := hb.drains
  have h2 := hb.terminals
  have h3 := hb.counted
  simp only [hd, ha, hthread, World.context, hd', Bool.toNat_true, Bool.toNat_false, List.countP_nil,
    Nat.add_zero] at h1 h2 h3
  rw [hq]
  refine hserved.imp_right fun hle => ?_
  rcases hcase with ⟨hav, ht⟩ | ⟨t, ht, hav, hx'⟩
  · have hsp := World.spare_commit (w := w) (i := i) (n := r.task) (by rw [ht]; rfl) hsome
    rw [hav]
    simp only [World.context]
    omega
  · have hsp := World.spare_of_task ht
    have hsp' := World.spare_commit_of_task (i := i) ht hx'
    have := Bool.toNat_le t.permit
    rw [hav]
    simp only [World.context, Bool.toNat_false] at hsp' ⊢
    omega

theorem World.Served.popNext (hw : w.Served) (hi : w.threads[i]? = some r)
    (hc : r.code = .manager .popNext :: rest)
    (hx : execManager c (w.context r rest) .popNext = some x)
    (hsome : x.task.isSome = (w.tasks[r.task]?).isSome) : (w.commit i r.task x).Served := by
  have hserved : w.queue = [] ∨ w.available ≤ w.drains := hw
  rw [World.served_commit]
  have hd : drainsQueue r.code = true := by rw [hc]; rfl
  have ha : announcesEnd r.code = false := by rw [hc]; exact announces_nothing rfl rfl
  simp only [execManager] at hx
  split at hx <;> cases hx
  · rename_i hq
    exact .inl hq
  · rename_i id action queue hq
    have hkept := World.drains_commit_kept hi rfl hsome rfl (by simp [ha])
    rw [drainsQueue_transitionCode, hd] at hkept
    have hne : w.queue ≠ [] := by
      intro hnil
      simp [World.context, hnil] at hq
    have := hserved.resolve_left hne
    exact .inr (by simp only [World.context] at *; omega)

theorem World.Served.removeFromQueue (hw : w.Served) (hi : w.threads[i]? = some r)
    (hc : r.code = .manager .removeFromQueue :: rest)
    (hx : execManager c (w.context r rest) .removeFromQueue = some x)
    (hsome : x.task.isSome = (w.tasks[r.task]?).isSome) : (w.commit i r.task x).Served := by
  have hserved : w.queue = [] ∨ w.available ≤ w.drains := hw
  rw [World.served_commit]
  have hd : drainsQueue r.code = drainsQueue rest := by rw [hc]; exact drains_onward rfl rfl
  have ha : announcesEnd r.code = announcesEnd rest := by rw [hc]; exact announces_onward rfl rfl
  cases hx
  have hkept := World.drains_commit_kept hi rfl hsome rfl fun h => ⟨ha ▸ h, rfl⟩
  refine hserved.imp (fun hq => ?_) fun hle => ?_
  · simp [World.context, removeFromQueue, hq]
  · simp only [World.context, hd] at hkept ⊢
    omega

theorem World.Served.passes (hw : w.Served) (hi : w.threads[i]? = some r)
    (hav : x.available = w.available) (hq : x.queue = w.queue) (he : x.events = w.events)
    (ht : x.task = w.tasks[r.task]?) (hid : x.thread.task = r.task)
    (hd : drainsQueue x.thread.code = drainsQueue r.code)
    (ha : announcesEnd x.thread.code = announcesEnd r.code) : (w.commit i r.task x).Served := by
  have hkept := World.drains_commit_kept hi (by rw [ht]) (by rw [ht]) he fun h => ⟨ha ▸ h, hid⟩
  have hserved : w.queue = [] ∨ w.available ≤ w.drains := hw
  rw [World.served_commit, hq, hav]
  rw [hd] at hkept
  exact hserved.imp_right fun hle => by omega

/-- A section on the way to the queue that may end the call, where that can be spared. -/
theorem World.Served.mayGiveUp (hw : w.Served) (hi : w.threads[i]? = some r)
    (hc : r.code = .manager m :: rest) (hm : Section.drains (.manager m) = false)
    (hn : Section.announces (.manager m) = false) (ho : Section.onward (.manager m) = true)
    (hx : x = w.context r rest ∨ x = (w.context r rest).halt ∧
      (drainsQueue rest = true ∨ announcesEnd rest = true ∧ 0 < w.spare r.task →
        w.queue = [] ∨ w.available < w.drains)) : (w.commit i r.task x).Served := by
  have hd : drainsQueue r.code = drainsQueue rest := by rw [hc]; exact drains_onward hm ho
  have ha : announcesEnd r.code = announcesEnd rest := by rw [hc]; exact announces_onward hn ho
  rcases hx with rfl | ⟨rfl, hlost⟩
  · exact hw.passes hi rfl rfl rfl rfl rfl hd.symm ha.symm
  · rw [World.served_commit]
    exact World.Served.giveUp hw hi rfl rfl rfl rfl fun hl => hlost (by rwa [hd, ha] at hl)

theorem World.Served.removeTask (hw : w.Served) (hi : w.threads[i]? = some r)
    (hc : r.code = .manager .removeTask :: rest)
    (hx : execManager c (w.context r rest) .removeTask = some x)
    (hsome : x.task.isSome = (w.tasks[r.task]?).isSome) : (w.commit i r.task x).Served := by
  have hserved : w.queue = [] ∨ w.available ≤ w.drains := hw
  rw [World.served_commit]
  have hd : drainsQueue r.code = false := by rw [hc]; exact drains_nothing rfl rfl
  have ha : announcesEnd r.code = false := by rw [hc]; exact announces_nothing rfl rfl
  simp only [execManager] at hx
  split at hx <;> cases hx
  rename_i t ht
  have hkept := World.drains_commit_kept hi (by rw [show w.tasks[r.task]? = some t from ht]; rfl)
    hsome rfl (by simp [ha])
  refine hserved.imp_right fun hle => ?_
  simp only [Context.setTask, World.context, hd, Bool.toNat_false] at hkept ⊢
  omega

theorem World.Served.emit (hw : w.Served) (hi : w.threads[i]? = some r)
    (hc : r.code = .manager (.emit event) :: rest)
    (hx : execManager c (w.context r rest) (.emit event) = some x)
    (hsome : x.task.isSome = (w.tasks[r.task]?).isSome) : (w.commit i r.task x).Served := by
  have hserved : w.queue = [] ∨ w.available ≤ w.drains := hw
  rw [World.served_commit]
  cases hx
  have hb := World.commit_balance [(event, r.task)] hi hsome rfl (by simp)
  have h1 := hb.drains
  have h2 := hb.terminals
  have h4 := World.spare_commit (w := w) (i := i) (n := r.task) rfl hsome
  refine hserved.imp_right fun hle => ?_
  cases hev : event == .delete with
  | true =>
    have hd : drainsQueue r.code = true := by
      rw [hc]
      simp [drainsQueue, reaches, Section.drains, hev]
    have ha : announcesEnd r.code = false := by
      rw [hc]
      exact announces_nothing (by simp [Section.announces, bne, hev]) rfl
    simp only [hd, ha, hev, bne, List.countP_cons, List.countP_nil, World.context, Bool.toNat_true,
      Bool.toNat_false, if_true, Bool.not_true, Bool.false_eq_true, if_false] at h1 h2 h4 ⊢
    omega
  | false =>
    have hd : drainsQueue r.code = false := by
      rw [hc]
      exact drains_nothing (by simp [Section.drains, hev]) rfl
    have ha : announcesEnd r.code = true := by
      rw [hc]
      simp [announcesEnd, reaches, Section.announces, bne, hev]
    simp only [hd, ha, hev, bne, List.countP_cons, List.countP_nil, World.context, Bool.toNat_true,
      Bool.toNat_false, if_true, Bool.not_false, Bool.false_eq_true, if_false] at h1 h2 h4 ⊢
    omega

/-- A manager section that serves the queue keeps it served. -/
theorem World.Served.manager (hw : w.Served) (hi : w.threads[i]? = some r)
    (hc : r.code = .manager m :: rest) (hs : Shape (.manager m :: rest) r.frame r.permit)
    (hr : releaseServes r.code = true) (hx : execManager c (w.context r rest) m = some x)
    (hok : ServesQueue w (.step i c)) : (w.commit i r.task x).Served := by
  have hsome : x.task.isSome = (w.tasks[r.task]?).isSome :=
    (exec_permits_manager (x := w.context r rest) hs hx).2
  have hserves := hok _ (World.next_eq hi hc)
  cases m with
  | acquire action => exact hw.acquire hi hc hx hsome
  | enqueue action => exact hw.enqueue hi hc hx hsome hserves
  | lookup => exact hw.lookup hi hc hx hsome hserves
  | storePermit => exact hw.storePermit hi hc hx hserves
  | dropPermit => exact hw.dropPermit hi hc hx hsome hs
  | clearSlot => exact hw.clearSlot hi hc hx hserves
  | releasePermit => exact hw.releasePermit hi hc hx hserves
  | releaseTaskPermit => exact hw.releaseTaskPermit hi hc hx hsome hr
  | popNext => exact hw.popNext hi hc hx hsome
  | removeFromQueue => exact hw.removeFromQueue hi hc hx hsome
  | persistTask =>
    apply hw.mayGiveUp hi hc rfl rfl rfl
    simp only [execManager] at hx
    split at hx
    case isTrue =>
      cases hx
      exact .inl rfl
    case isFalse hno =>
      cases hx
      refine .inr ⟨rfl, fun hl => hserves.2 ⟨?_, hl⟩⟩
      simpa [Bool.and_eq_true, Classical.or_iff_not_imp_left] using hno
  | persistHttpSession =>
    apply hw.mayGiveUp hi hc rfl rfl rfl
    simp only [execManager] at hx
    split at hx
    case isTrue =>
      cases hx
      exact .inl rfl
    case isFalse hno =>
      cases hx
      exact .inr ⟨rfl, fun hl => hserves.2 ⟨by simpa using hno, hl⟩⟩
  | removeTask => exact hw.removeTask hi hc hx hsome
  | emit event => exact hw.emit hi hc hx hsome

end

theorem World.Served.commit {w : World} (hw : w.Served) (ha : w.Accounted n)
    (hr : ∀ t ∈ w.threads, releaseServes t.code = true) (hi : w.threads[i]? = some r)
    (hc : r.code = s :: rest) (hx : exec c (w.context r rest) s = some x)
    (hok : ServesQueue w (.step i c)) : (w.commit i r.task x).Served := by
  by_cases hm : ∃ m, s = .manager m
  · obtain ⟨m, rfl⟩ := hm
    have hs : Shape (.manager m :: rest) r.frame r.permit := by
      have := ha.shaped r (List.mem_of_getElem? hi)
      rwa [Thread.Shaped, hc] at this
    exact hw.manager hi hc hs (hr r (List.mem_of_getElem? hi)) hx hok
  · have hm' : ∀ m, s ≠ .manager m := fun m he => hm ⟨m, he⟩
    obtain ⟨t, t', ht, hq⟩ := exec_quiet hm' rfl hx
    obtain ⟨hd, ha⟩ := exec_promises hm' rfl hx
    have ht : w.tasks[r.task]? = some t := ht
    have hkept := World.drains_commit_kept hi (x := x) (by rw [hq.task, ht, slotOf, slotOf, hq.permit])
      (by simp [hq.task, ht]) hq.events (fun h => ⟨ha (by rwa [hc] at h), hq.id⟩)
    have := Bool.toNat_le_toNat hd
    rw [World.served_commit, hq.queue, hq.available]
    refine hw.imp_right fun hle => ?_
    simp only [hc, World.context] at hkept this ⊢
    omega

theorem World.drains_extends {w w' : World} (h : w.Extends w')
    (hd : w.threads.tally (fun t => (drainsQueue t.code).toNat) + w.events.countP (·.1 == .delete) ≤
      w'.threads.tally (fun t => (drainsQueue t.code).toNat) + w'.events.countP (·.1 == .delete))
    (ht : ∀ j, w.terminals j ≤ w'.terminals j) : w.drains ≤ w'.drains := by
  have hspare : ∀ j, w.spare j ≤ w'.spare j := by
    intro j
    cases hj : w.tasks[j]? with
    | none => simp [World.spare, hj]
    | some t =>
      obtain ⟨t', ht', hv⟩ := h.forth j t hj
      rw [World.spare_of_task hj, World.spare_of_task ht', hv.permit]
      have := ht j
      omega
  have hlen : w.tasks.length ≤ w'.tasks.length := by
    rcases Nat.lt_or_ge w'.tasks.length w.tasks.length with hlt | hge
    · obtain ⟨t', ht', _⟩ := h.forth w'.tasks.length _ (List.getElem?_eq_getElem hlt)
      simp at ht'
    · exact hge
  have hsum : (List.range w.tasks.length).tally w.spare ≤ (List.range w'.tasks.length).tally w'.spare := by
    refine (List.tally_le_tally fun j _ => hspare j).trans ?_
    rw [show w'.tasks.length = w.tasks.length + (w'.tasks.length - w.tasks.length) by omega,
      List.range_add, List.tally_append]
    exact Nat.le_add_right _ _
  simp only [World.drains]
  omega

/-- A lost event takes at most one service from the queue. -/
theorem World.drains_lag {w w' : World} (he : w.events = (event, id) :: w'.events)
    (hth : w'.threads = w.threads) (hta : w'.tasks = w.tasks) :
    w.drains ≤ w'.drains + 1 ∧
      (¬ (event = .delete ∨ 0 < w.spare id) → w.drains ≤ w'.drains) := by
  have hterm : ∀ j, w.terminals j =
      w'.terminals j + (event != .delete && id == j).toNat := by
    intro j
    simp only [World.terminals, he, hth, List.countP_cons]
    cases event != .delete && id == j
    · simp
    · simp only [if_true, Bool.toNat_true]
      omega
  have hdel : w.events.countP (·.1 == .delete) =
      w'.events.countP (·.1 == .delete) + (event == .delete).toNat := by
    rw [he, List.countP_cons]
    cases event == .delete <;> simp
  have hspare : ∀ j, j ≠ id → w.spare j ≤ w'.spare j := by
    intro j hj
    have := hterm j
    rw [beq_false_of_ne (Ne.symm hj), Bool.and_false, Bool.toNat_false] at this
    simp only [World.spare, hta]
    split <;> omega
  have hid : w'.spare id ≤ w.spare id ∧
      w.spare id ≤ w'.spare id + (event != .delete).toNat := by
    have := hterm id
    rw [beq_self_eq_true, Bool.and_true] at this
    simp only [World.spare, hta]
    split <;> omega
  have hsum := List.tally_exchange (l := List.range w.tasks.length) List.nodup_range hspare
    fun _ => hid.1
  simp only [World.drains, hth, hta, hdel]
  cases hev : event == .delete with
  | true =>
    rw [bne, hev] at hid
    simp only [Bool.not_true, Bool.toNat_false, Bool.toNat_true] at hid ⊢
    exact ⟨by omega, fun h => absurd (.inl (by simpa using hev)) h⟩
  | false =>
    rw [bne, hev] at hid
    simp only [Bool.not_false, Bool.toNat_false, Bool.toNat_true] at hid ⊢
    refine ⟨by omega, fun h => ?_⟩
    have : ¬ 0 < w.spare id := fun hp => h (.inr hp)
    omega

theorem World.drains_deliver {w w' : World} (hx : w.Extends w')
    (he : w.events = (event, id) :: w'.events)
    (hth : w'.threads = w.threads ++ [handlerThread event id]) : w.drains ≤ w'.drains := by
  refine World.drains_extends hx ?_ fun j => ?_
  · rw [he, hth, List.countP_cons, List.tally_append]
    cases event <;> simp [handlerThread, handlerCode, drainsQueue, reaches, Section.drains,
      Section.onward, inManager]
    omega
  · simp only [World.terminals, he, hth, List.countP_cons, List.tally_append]
    cases event <;> cases hj : id == j <;> simp [hj, handlerThread, handlerCode, announcesEnd,
      reaches, Section.announces, Section.onward, inManager] <;> omega

theorem Thread.Entry.releaseServes {t : Thread} (h : t.Entry) : releaseServes t.code = true := by
  cases h with
  | call call id => cases call <;> rfl
  | handler event id => cases event <;> rfl
  | listener event id worker => cases event <;> rfl
  | engine event id => cases event <;> rfl
  | joiner id runs =>
    refine releaseServes_of_notMem fun hm => ?_
    obtain ⟨err, _, hm⟩ := List.mem_flatMap.1 hm
    simp [stopWorkersAndFailCode, inTask, inManager] at hm

theorem releaseServes_invariant : CodeInvariant releaseServes where
  tail _ _ h := by
    rw [releaseServes, Bool.and_eq_true] at h
    exact h.2
  aside _ _ _ h := releaseServes_append h
  fixed _ h := h.releaseServes
  run _ h := by
    obtain ⟨run, rfl⟩ := h.eq_inWorker
    exact releaseServes_of_notMem (by simp [inWorker])
  entry _ h := h.releaseServes

/-- What holds in every state of a run that serves the queue. -/
structure World.Serving (permits : Nat) (w : World) : Prop where
  accounted : w.Accounted permits
  runs : w.RunsShaped
  releases : ∀ t ∈ w.threads, releaseServes t.code = true
  served : w.Served

theorem World.Serving.step {w w' : World} (h : w.Serving n) (hok : ServesQueue w a)
    (hs : w.step a = some w') : w'.Serving n where
  accounted := h.accounted.step hs
  runs := h.runs.step hs
  releases := releaseServes_invariant.step h.releases hs
  served := by
    by_cases ha : ∃ i c, a = .step i c
    · obtain ⟨i, c, rfl⟩ := ha
      obtain ⟨r, s, rest, x, hi, hc, hx, rfl⟩ := World.stepThread_some hs
      exact h.served.commit h.accounted h.releases hi hc hx hok
    · have ha' : ∀ i c, a ≠ .step i c := fun i c he => ha ⟨i, c, he⟩
      have hx := World.step_external hs ha'
      unfold World.Served
      rw [hx.queue, hx.available]
      rcases World.step_events hs ha' with he | ⟨rfl, e, he, hth, hta⟩ | ⟨rfl, event, id, he, hth, hta⟩
      · obtain ⟨more, hm⟩ := hx.threads
        have hd : w.drains ≤ w'.drains := by
          refine World.drains_extends hx ?_ fun j => ?_
          · rw [he, hm, List.tally_append]
            omega
          · simp only [World.terminals, he, hm, List.tally_append]
            omega
        exact h.served.imp_right fun hle => hle.trans hd
      · obtain ⟨h1, h2⟩ := World.drains_lag he hth hta
        by_cases hl : e.1 = .delete ∨ 0 < w.spare e.2
        · exact (hok e (by simp [he]) hl).imp_right fun hlt => by omega
        · exact h.served.imp_right fun hle => hle.trans (h2 hl)
      · exact h.served.imp_right fun hle => hle.trans (World.drains_deliver hx he hth)

theorem World.drains_eq_zero {w : World} (hq : w.Quiescent) (hr : w.RunsShaped) : w.drains = 0 := by
  have hcode : ∀ t ∈ w.threads, drainsQueue t.code = false ∧ announcesEnd t.code = false := by
    intro t ht
    by_cases ho : t.owner = .worker
    · obtain ⟨_, run, hc⟩ := hr t ht ho
      rw [hc]
      cases run <;> exact ⟨rfl, rfl⟩
    · rw [hq.2 t ht ho]
      exact ⟨rfl, rfl⟩
  have hterm : ∀ j, w.terminals j = 0 := by
    intro j
    simp only [World.terminals, hq.1, List.countP_nil, Nat.zero_add]
    exact List.tally_eq_zero fun t ht => by simp [(hcode t ht).2]
  have h1 : w.threads.tally (fun t => (drainsQueue t.code).toNat) = 0 :=
    List.tally_eq_zero fun t ht => by simp [(hcode t ht).1]
  have h2 : (List.range w.tasks.length).tally w.spare = 0 :=
    List.tally_eq_zero fun j _ => by
      simp only [World.spare, hterm]
      split <;> omega
  simp only [World.drains, h1, h2, hq.1, List.countP_nil]

/-- In every run of the manager that serves the queue, a queued action waits only while no permit is
free. -/
theorem quiescent_queue_waits (permits : Nat) (as : List Act) (w : World)
    (hr : Transition.run World.step (World.new permits) as = some w)
    (hc : Transition.Meets World.step ServesQueue (World.new permits) as)
    (hq : w.Quiescent) (hne : w.queue ≠ []) : w.available = 0 := by
  have hinv := Transition.Meets.invariant (I := fun w => w.Serving permits)
    (fun _ _ _ h hc hs => h.step hc hs) hc
    ⟨World.new_accounted permits, by simp [World.RunsShaped, World.new], by simp [World.new],
      .inl rfl⟩ hr
  have hle := hinv.served.resolve_left hne
  rw [World.drains_eq_zero hq hinv.runs] at hle
  exact Nat.le_zero.1 hle

/-- A torrent task runs on the only permit; a second task is queued behind it. -/
def secondWaits : List Act :=
  List.flatten [[.addTask .pending, .addTask .pending, .call .startTask 0], proceed 0 5,
    [.step 0 .engine], proceed 0 6, [.call .startTask 1], proceed 1 2]

theorem second_start_waits :
    ∃ w, Transition.run World.step (World.new 1) secondWaits = some w ∧
      w.queue = [(1, .start)] ∧ w.available = 0 := by
  obtain ⟨w, hr, hq, hw⟩ : ∃ w, Transition.run World.step (World.new 1) secondWaits = some w ∧
      w.Quiescent ∧ w.queue = [(1, .start)] := Transition.run_any (by decide)
  exact ⟨w, hr, hw, quiescent_queue_waits 1 secondWaits w hr (by decide) hq (by simp [hw])⟩

/-- The second start finds no permit. Before it is queued, the first task is paused, and the handler
of that event releases the permit and finds the queue empty. -/
def lostWakeUp : List Act :=
  List.flatten [[.addTask .pending, .addTask .pending, .call .startTask 0], proceed 0 5,
    [.step 0 .engine], proceed 0 6, [.call .startTask 1], proceed 1 1, [.call .pauseTask 0],
    proceed 2 7, [.deliver], proceed 3 5, proceed 1 1]

theorem lost_wake_up_strands_queue :
    ∃ w, Transition.run World.step (World.new 1) lostWakeUp = some w ∧ w.Quiescent ∧
      w.queue ≠ [] ∧ ¬ w.available = 0 :=
  Transition.run_any (by decide)

end Paradown
