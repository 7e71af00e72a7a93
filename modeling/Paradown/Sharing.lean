import Paradown.Ranged
import Paradown.Lanes

namespace Paradown
set_option autoImplicit true

/-- The run with its own view of the files replaced by the ones on disk. -/
def Transfer.on (t : Transfer) (fs : FileSystem) : Transfer := { t with fs }

/-- The first and the last byte of the lane. -/
def Transfer.range (t : Transfer) : Nat × Nat := (t.worker.start, t.worker.endByte)

/-- The payload and the resource have the same byte, or none, at a place. -/
def FileMap.AgreesAt (store : FileMap) (resource : List UInt8) (fs : FileSystem) (byte : Nat) :
    Prop :=
  (store.payload fs)[byte]? = resource[byte]?

theorem Transfer.servesRange_on {t : Transfer} {fs : FileSystem} :
    (t.on fs).ServesRange resource a ↔ t.ServesRange resource a := by
  cases a <;> exact Iff.rfl

theorem FileMap.writeAt_indep {store : FileMap} (fs₀ : FileSystem)
    (h : store.writeAt fs offset data = .ok fs') : ∃ fs₀', store.writeAt fs₀ offset data = .ok fs₀' := by
  simp only [FileMap.writeAt, bind, Except.bind, pure, Except.pure] at h ⊢
  split at h
  · cases h
  · exact ⟨_, rfl⟩

theorem FileMap.writeAt_error_indep {store : FileMap} (fs₀ : FileSystem)
    (h : store.writeAt fs offset data = .error err) : store.writeAt fs₀ offset data = .error err := by
  simp only [FileMap.writeAt, bind, Except.bind, pure, Except.pure] at h ⊢
  split at h
  · cases h
    rfl
  · cases h

namespace Transfer

variable {t : Transfer} {fs : FileSystem}

theorem on_ite (c : Prop) [Decidable c] (x y : Transfer) :
    (if c then x else y).on fs = if c then x.on fs else y.on fs :=
  apply_ite (·.on fs) c x y

theorem begin_on : (t.on fs).begin = t.begin.on fs := by
  unfold begin
  rw [show (t.on fs).worker = t.worker from rfl]
  cases t.worker.status with
  | canceled | deleted | completed => rfl
  | pending | preparing | running | paused | failed err =>
    dsimp only
    rw [on_ite]
    rfl

theorem turn_on : (t.on fs).turn supports = (t.turn supports).on fs := by
  unfold turn
  rw [on_ite, on_ite, on_ite]
  rfl

theorem complete_on : (t.on fs).complete = t.complete.on fs := by
  unfold complete
  rw [on_ite, show (t.on fs).worker = t.worker from rfl,
    show (t.on fs).downloaded = t.downloaded from rfl]
  cases t.worker.validateDownloadedLength t.downloaded <;> rfl

theorem respond_on {storeError : Option Error} :
    (t.on fs).respond r storeError useRange rangeStart =
      (t.respond r storeError useRange rangeStart).on fs := by
  unfold respond
  rw [show (t.on fs).worker = t.worker from rfl]
  cases refusal t.worker r useRange rangeStart with
  | none => cases storeError <;> rfl
  | some refused =>
    obtain ⟨err, again⟩ := refused
    cases again <;> rfl

theorem retryOrFail_on : (t.on fs).retryOrFail env err fallback =
    (t.retryOrFail env err fallback).on fs := by
  unfold retryOrFail
  cases err with
  | resumeInvalidated id message => rfl
  | _ =>
    dsimp only
    rw [on_ite]
    rfl

/-- What a turn of the streaming loop does, a write included, does not depend on what the files
hold. -/
theorem streamStep_on (fs₀ : FileSystem) : ∃ fs₀', (t.on fs₀).streamStep env s =
    ((t.on fs).streamStep env s).on fs₀' := by
  unfold streamStep
  rw [show (t.on fs₀).worker = t.worker from rfl, show (t.on fs).worker = t.worker from rfl]
  split
  · exact ⟨fs₀, rfl⟩
  · by_cases hstop : t.worker.shouldStopGracefully = true
    · rw [if_pos hstop, if_pos hstop]
      exact ⟨fs₀, rfl⟩
    · rw [if_neg hstop, if_neg hstop]
      by_cases hpaused : t.worker.paused = true
      · rw [if_pos hpaused, if_pos hpaused]
        exact ⟨fs₀, rfl⟩
      · rw [if_neg hpaused, if_neg hpaused]
        split
        · cases hw : env.store.writeAt (t.on fs).fs s.writeOffset _ with
          | error err =>
            refine ⟨fs₀, ?_⟩
            rw [FileMap.writeAt_error_indep (t.on fs₀).fs hw]
            rfl
          | ok fs' =>
            obtain ⟨fs₀', hw'⟩ := FileMap.writeAt_indep (t.on fs₀).fs hw
            refine ⟨fs₀', ?_⟩
            rw [hw']
            rfl
        · exact ⟨fs₀, rfl⟩
        · exact ⟨fs₀, rfl⟩
        · exact ⟨fs₀, rfl⟩

/-- What a run does next does not depend on what the files hold. -/
theorem step_on (fs₀ : FileSystem) (h : (t.on fs).step env a = some t') :
    ∃ fs₀', (t.on fs₀).step env a = some (t'.on fs₀') := by
  cases step_performs h with
  | pause hp | resume hp | cancel hp | delete hp =>
    refine ⟨fs₀, ?_⟩
    have hp' : ∀ result, (t.on fs₀).phase ≠ .finished result := hp
    simp only [step, outside]
    rfl
  | begin hp =>
    have hp' : (t.on fs₀).phase = .starting := hp
    refine ⟨fs₀, ?_⟩
    simp only [step, proceed, hp', begin_on]
    rfl
  | stream hp hs =>
    have hp' : (t.on fs₀).phase = .streaming := hp
    have hs' : (t.on fs₀).stream = some _ := hs
    simp only [step, proceed, hp', hs', Option.some.injEq]
    exact streamStep_on fs₀
  | complete hp =>
    have hp' : (t.on fs₀).phase = .streamed := hp
    refine ⟨fs₀, ?_⟩
    simp only [step, proceed, hp', complete_on]
    rfl
  | finishSuccess hp =>
    have hp' : (t.on fs₀).phase = .succeeding := hp
    refine ⟨fs₀, ?_⟩
    simp only [step, proceed, hp']
    rfl
  | turn hp supports =>
    have hp' : (t.on fs₀).phase = .attempt := hp
    refine ⟨fs₀, ?_⟩
    simp only [step, hp', turn_on]
    rfl
  | buildFails hp err =>
    have hp' : (t.on fs₀).phase = .requesting _ _ := hp
    exact ⟨fs₀, by simp only [step, hp']; rfl⟩
  | sendFails hp message =>
    have hp' : (t.on fs₀).phase = .requesting _ _ := hp
    exact ⟨fs₀, by simp only [step, hp']; rfl⟩
  | respond hp r =>
    have hp' : (t.on fs₀).phase = .requesting _ _ := hp
    refine ⟨fs₀, ?_⟩
    simp only [step, hp', respond_on]
    rfl
  | storeFails hp r err =>
    have hp' : (t.on fs₀).phase = .requesting _ _ := hp
    refine ⟨fs₀, ?_⟩
    simp only [step, hp', respond_on]
    rfl
  | writeFails hp hs hl hn hr hw err =>
    have hp' : (t.on fs₀).phase = .streaming := hp
    have hs' : (t.on fs₀).stream = some _ := hs
    have hn' : ¬ ((t.on fs₀).worker.shouldStopGracefully || (t.on fs₀).worker.paused) = true := hn
    obtain ⟨fs₀', hw'⟩ := FileMap.writeAt_indep fs₀ hw
    refine ⟨fs₀', ?_⟩
    simp only [step, writeFails, hp', hs', hs, hl, hr, if_neg hn',
      show env.store.writeAt (t.on fs₀).fs _ _ = .ok fs₀' from hw']
    rfl
  | retry hp fallback =>
    have hp' : (t.on fs₀).phase = .retrying _ := hp
    refine ⟨fs₀, ?_⟩
    simp only [step, hp', retryOrFail_on]
    rfl

end Transfer

/-- A step of a run that serves the resource only makes the payload agree with it at more places. -/
theorem Transfer.step_agrees {t t' : Transfer} {fs fs₀ : FileSystem} (hm : env.store.Flat)
    (ha : Allocated fs env.store.segments) (hr : (t.on fs₀).Ranged env.store resource)
    (hstep : (t.on fs).step env a = some t') :
    Allocated t'.fs env.store.segments ∧ ∀ byte, env.store.AgreesAt resource fs byte →
      env.store.AgreesAt resource t'.fs byte := by
  have hwrite {s : BodyStream} {data part : List UInt8} {rest : List (List UInt8)}
      {next : FileSystem} (hp : t.phase = .streaming) (hs : t.stream = some s)
      (hl : s.slices = data :: rest) (hpart : part <+: data)
      (hw : env.store.writeAt fs s.writeOffset part = .ok next) :
      Allocated next env.store.segments ∧ ∀ byte, env.store.AgreesAt resource fs byte →
        env.store.AgreesAt resource next byte := by
    obtain ⟨hoff, hdata, _⟩ := hr.slice hp hs hl
    have hpre := hpart.trans hdata
    have hlen := hpre.length_le
    have horder := hr.holds.lane.order
    have hlast := hr.holds.lane.last
    have hcount := hr.holds.count
    simp only [window, List.length_take, Worker.laneLength] at hlen hcount
    rw [hoff] at hw
    obtain ⟨fs', hok, ha', hpay⟩ := hm.writeAt ha (show (t.on fs₀).worker.start +
      (t.on fs₀).worker.downloadedSize + part.length ≤ env.store.totalSize by omega)
    cases hok.symm.trans hw
    refine ⟨ha', fun byte h => ?_⟩
    have hpl := hm.payload_length ha
    rw [FileMap.AgreesAt, hpay]
    exact splice_agrees (by omega) (window_of_isPrefix hpre) h
  cases step_move hstep with
  | slice hp hs hl hw => exact hwrite hp hs hl (List.prefix_refl _) hw
  | torn hp hs hl hres hw => exact hwrite hp hs hl (List.take_prefix _ _) hw
  | _ => exact ⟨ha, fun _ h => h⟩

theorem Transfer.Ranged.agrees {t : Transfer} {fs fs' : FileSystem}
    (h : (t.on fs).Ranged store resource) (ha : Allocated fs' store.segments)
    (hg : ∀ byte, store.AgreesAt resource fs byte → store.AgreesAt resource fs' byte) :
    (t.on fs').Ranged store resource :=
  ⟨⟨ha, h.holds.lane, h.holds.count, window_eq_iff.2 fun byte hlow hhigh =>
    hg byte (window_eq_iff.1 h.holds.bytes byte hlow hhigh)⟩, h.phase, h.completed⟩

theorem Transfer.Ranged.step_on {t t' : Transfer} {fs fs₀ : FileSystem} (hm : env.store.Flat)
    (hr : (t.on fs₀).Ranged env.store resource) (hc : t.ServesRange resource a)
    (hstep : (t.on fs).step env a = some t') :
    ∃ fs₀', (t'.on fs₀').Ranged env.store resource := by
  obtain ⟨fs₀', hghost⟩ := Transfer.step_on fs₀ hstep
  exact ⟨fs₀', hr.step hm (Transfer.servesRange_on.2 hc) (Transfer.step_move hghost)⟩

theorem Transfer.HoldsPart.agrees {t : Transfer} {fs : FileSystem}
    (h : (t.on fs).HoldsPart store resource) (hlow : t.worker.start ≤ byte)
    (hhigh : byte < t.worker.start + t.worker.downloadedSize) : store.AgreesAt resource fs byte :=
  window_eq_iff.1 h.bytes byte hlow hhigh

end Paradown
