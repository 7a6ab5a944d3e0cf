import Acva.Dialogue.TtsBridge.SentenceRuns
import Acva.Orchestrator.TtsStack
import Acva.Playback.Conveyance

/-! # A turn on its way to the device

The bridge makes one run of chunks of each sentence and offers it to the queue; the callback
takes chunks out of the queue and copies them into its buffers. In between a chunk can be lost:
a full queue rejects it, an interruption clears it, the callback skips it as stale. Whatever is
not lost keeps its order, and a turn that has lost nothing and was not cancelled is heard as its
sentences were synthesized.
-/

namespace Acva.Orchestrator

open Acva.Audio Acva.Dialogue Acva.Playback Acva.Runs Acva.Stretches

variable {ρ : Type}

/-! ## What is written down -/

structure SpokenLedger where
  /-- Here with the chunks that a full queue rejected among the enqueued ones. -/
  speech : SpeechLedger := {}
  dequeued : List AudioChunk := []
  lost : List AudioChunk := []
deriving DecidableEq, Repr

namespace TtsStack

/-- The bridge and its queue, among the others. -/
def host (s : TtsStack ρ) : BridgeHost ρ := ⟨s.bridge, s.output.queue⟩

/-- For the bridge, the output is somebody who leaves the queue `q` behind. -/
def hostAction (q : PlaybackQueue) : TtsAction → BridgeAction
  | .event e => .event e
  | .handler => .handler
  | .io => .io
  | .submit e => .submit e
  | .unsubscribe => .unsubscribe
  | .stop => .stop
  | .output _ => .playback q

/-- The chunk that the I/O thread offers to the queue. A poll that fails offers nothing. -/
def offeredBy (s : TtsStack ρ) : TtsAction → List AudioChunk
  | .io =>
      match s.bridge.io with
      | .enqueuing job _ samples => [audioChunk job samples]
      | .enqueuingEnd job _ tail => if s.output.queue.full = true then [] else [endChunk job tail]
      | _ => []
  | _ => []

def dequeuedBy (s : TtsStack ρ) : TtsAction → List AudioChunk
  | .output .audio =>
      match s.output.engine.pc with
      | .pop _ _ active => (s.output.queue.dequeueActive active).1.toList
      | _ => []
  | _ => []

/-- The chunks that are rejected, skipped, invalidated or cleared. -/
def lostBy (s : TtsStack ρ) : TtsAction → List AudioChunk
  | .io =>
      match s.bridge.io with
      | .enqueuing job _ samples =>
          if s.output.queue.full = true then [audioChunk job samples] else []
      | _ => []
  | .handler =>
      match s.bridge.handler with
      | .cancelling _ [] => s.output.queue.chunks
      | _ => []
  | .output .audio =>
      match s.output.engine.pc with
      | .pop _ _ active => s.output.queue.chunks.takeWhile fun c => c.turn ≠ active
      | _ => []
  | .output (.invalidateBefore next) => s.output.queue.chunks.filter fun c => c.turn < next
  | .output .clear => s.output.queue.chunks
  | _ => []

def noteSpoken (soxr : Soxr ρ) (l : SpokenLedger) (s : TtsStack ρ) (a : TtsAction) :
    SpokenLedger :=
  match s.step soxr a with
  | none => l
  | some s' =>
      let a' := hostAction s'.output.queue a
      { speech :=
          { handled := l.speech.handled ++ sentenceOf a'
            spoken := l.speech.spoken ++
              (endedBy s.bridge s'.bridge).map fun job => ⟨job, l.speech.callbacks⟩
            callbacks := if s.bridge.io.job = none then [] else l.speech.callbacks ++ callbackOf a'
            enqueued := l.speech.enqueued ++ s.offeredBy a }
        dequeued := l.dequeued ++ s.dequeuedBy a
        lost := l.lost ++ s.lostBy a }

end TtsStack

/-! ## The steps -/

namespace TtsStack

/-- What the ledger says of the chunks and what the engine holds agree. -/
structure SpokenInv (soxr : Soxr ρ) (deviceRate : Nat) (w : TtsStack ρ × SpokenLedger) : Prop where
  rate : w.1.bridge.deviceRate = deviceRate
  speech : SpeechAccounts soxr deviceRate w.1.bridge w.2.speech
  conveys : Conveys w.1.output.queue w.2.speech.enqueued w.2.dequeued w.2.lost
  voices : Voices w.1.output.engine w.2.dequeued

variable {soxr : Soxr ρ} {deviceRate : Nat} {s s' : TtsStack ρ} {l : SpokenLedger}

/-- Whether or not the queue has room, what the I/O thread offers carries the run on. -/
theorem offeredBy_speech {b' : TtsBridge ρ} {q' : PlaybackQueue}
    (h : TtsIoStep soxr s.output.queue s.bridge b' q') :
    SpeechStep soxr deviceRate s.bridge b' [] (s.offeredBy .io) := by
  -- away from the two offers the queue does not matter, and it may as well be unlimited
  have hquiet : ∀ {b' : TtsBridge ρ}, s.offeredBy .io = [] →
      TtsIoStep soxr ({} : PlaybackQueue) s.bridge b' {} →
        SpeechStep soxr deviceRate s.bridge b' [] (s.offeredBy .io) := by
    intro b' hnone h
    obtain ⟨added, hadded, hspeech⟩ := h.speech deviceRate rfl
    rw [hnone, show ([] : List AudioChunk) = added from hadded]
    exact hspeech
  cases h with
  | enqueue job synth samples hpc =>
      have hoffer : s.offeredBy .io = [audioChunk job samples] := by simp [offeredBy, hpc]
      rw [hoffer]
      refine .speaks job rfl (by rw [hpc]; rfl) rfl (fun chunk hchunk => ?_) ?_
      · rw [List.mem_singleton.mp hchunk]
        exact ⟨rfl, rfl⟩
      · intro _ callbacks said h
        rw [hpc] at h
        rw [List.append_nil]
        exact h
  | enqueueEnd job gotError tail hpc hroom =>
      have hoffer : s.offeredBy .io = [endChunk job tail] := by simp [offeredBy, hpc, hroom]
      rw [hoffer]
      refine .speaks job rfl (by rw [hpc]; rfl) rfl (fun chunk hchunk => ?_) ?_
      · rw [List.mem_singleton.mp hchunk]
        exact ⟨rfl, rfl⟩
      · intro _ callbacks said h
        rw [hpc] at h
        rw [List.append_nil]
        exact h
  | full job gotError tail hpc hfull =>
      have hoffer : s.offeredBy .io = [] := by simp [offeredBy, hpc, hfull]
      rw [hoffer]
      refine .moves rfl (by rw [hpc]; rfl) rfl fun _ callbacks said h => ?_
      rw [hpc] at h
      exact h
  | take job rest hpc hpending =>
      exact hquiet (by simp [offeredBy, hpc]) (.take job rest hpc hpending)
  | exit hpc hpending hstop =>
      exact hquiet (by simp [offeredBy, hpc]) (.exit hpc hpending hstop)
  | skip job hpc hcancelled => exact hquiet (by simp [offeredBy, hpc]) (.skip job hpc hcancelled)
  | begin job hpc hlive => exact hquiet (by simp [offeredBy, hpc]) (.begin job hpc hlive)
  | submit job hpc => exact hquiet (by simp [offeredBy, hpc]) (.submit job hpc)
  | abandon job synth hpc hcancelled =>
      exact hquiet (by simp [offeredBy, hpc]) (.abandon job synth hpc hcancelled)
  | finish job synth hpc hlive =>
      exact hquiet (by simp [offeredBy, hpc]) (.finish job synth hpc hlive)
  | giveUp job gotError tail hpc hcancelled =>
      exact hquiet (by simp [offeredBy, hpc]) (.giveUp job gotError tail hpc hcancelled)
  | again job gotError tail hpc hlive =>
      exact hquiet (by simp [offeredBy, hpc]) (.again job gotError tail hpc hlive)
  | closeCancelled job gotError hpc hcancelled =>
      exact hquiet (by simp [offeredBy, hpc]) (.closeCancelled job gotError hpc hcancelled)
  | closeErrored job hpc hlive =>
      exact hquiet (by simp [offeredBy, hpc]) (.closeErrored job hpc hlive)
  | close job hpc hlive => exact hquiet (by simp [offeredBy, hpc]) (.close job hpc hlive)
  | release hpc => exact hquiet (by simp [offeredBy, hpc]) (.release hpc)

/-- What the I/O thread offers is in the queue or lost. -/
theorem offeredBy_conveys {b' : TtsBridge ρ} {q' : PlaybackQueue}
    {offered dequeued lost : List AudioChunk} (hc : Conveys s.output.queue offered dequeued lost)
    (h : TtsIoStep soxr s.output.queue s.bridge b' q') :
    Conveys q' (offered ++ s.offeredBy .io) dequeued (lost ++ s.lostBy .io) := by
  have hquiet : s.offeredBy .io = [] → s.lostBy .io = [] →
      Conveys s.output.queue (offered ++ s.offeredBy .io) dequeued (lost ++ s.lostBy .io) := by
    intro hoffer hlost
    rw [hoffer, hlost, List.append_nil, List.append_nil]
    exact hc
  cases h with
  | enqueue job synth samples hpc =>
      have hoffer : s.offeredBy .io = [audioChunk job samples] := by simp [offeredBy, hpc]
      rw [hoffer]
      by_cases hfull : s.output.queue.full = true
      · have hlost : s.lostBy .io = [audioChunk job samples] := by simp [lostBy, hpc, hfull]
        rw [hlost]
        exact hc.reject (by simp [PlaybackQueue.enqueue, hfull])
      · have hlost : s.lostBy .io = [] := by simp [lostBy, hpc, hfull]
        rw [hlost, List.append_nil]
        exact hc.offer (by simp [PlaybackQueue.enqueue, hfull, PlaybackQueue.append])
  | enqueueEnd job gotError tail hpc hroom =>
      have hoffer : s.offeredBy .io = [endChunk job tail] := by simp [offeredBy, hpc, hroom]
      have hlost : s.lostBy .io = [] := by simp [lostBy, hpc]
      rw [hoffer, hlost, List.append_nil]
      exact hc.offer rfl
  | full job gotError tail hpc hfull =>
      exact hquiet (by simp [offeredBy, hpc, hfull]) (by simp [lostBy, hpc])
  | _ => exact hquiet (by simp [offeredBy, *]) (by simp [lostBy, *])

/-- A step of the callback: a chunk that leaves the queue is in its hand or lost. -/
theorem audio_spoken {o' : AudioOutput} {offered dequeued lost : List AudioChunk}
    (hc : Conveys s.output.queue offered dequeued lost) (hv : Voices s.output.engine dequeued)
    (h : s.output.audio = some o') :
    Conveys o'.queue offered (dequeued ++ s.dequeuedBy (.output .audio))
        (lost ++ s.lostBy (.output .audio)) ∧
      Voices o'.engine (dequeued ++ s.dequeuedBy (.output .audio)) := by
  have hquiet : s.dequeuedBy (.output .audio) = [] → s.lostBy (.output .audio) = [] →
      ∀ {e' : PlaybackEngine}, Voices e' dequeued →
      Conveys s.output.queue offered (dequeued ++ s.dequeuedBy (.output .audio))
          (lost ++ s.lostBy (.output .audio)) ∧
        Voices e' (dequeued ++ s.dequeuedBy (.output .audio)) := by
    intro hdequeued hlost e' hv'
    rw [hdequeued, hlost, List.append_nil, List.append_nil]
    exact ⟨hc, hv'⟩
  obtain ⟨engine, queue, hcase, rfl⟩ := AudioOutput.audio_eq_some h
  have hused := hv.used
  cases hcase with
  | finish frames out hpc _ =>
      refine hquiet (by simp [dequeuedBy, hpc]) (by simp [lostBy, hpc]) ?_
      exact hv.moves .idle trivial rfl rfl rfl rfl rfl
  | retire frames out hpc _ hend =>
      exact hquiet (by simp [dequeuedBy, hpc]) (by simp [lostBy, hpc]) (hv.retire hend frames out)
  | copy frames out hpc _ _ =>
      exact hquiet (by simp [dequeuedBy, hpc]) (by simp [lostBy, hpc]) (hv.copy frames out)
  | pass frames out turn hpc _ =>
      simp only [hpc] at hused
      refine hquiet (by simp [dequeuedBy, hpc]) (by simp [lostBy, hpc]) ?_
      rw [PlaybackEngine.prime_eq]
      exact hv.moves (.pop frames out turn) hused rfl rfl rfl rfl rfl
  | hold frames out turn hpc _ =>
      refine hquiet (by simp [dequeuedBy, hpc]) (by simp [lostBy, hpc]) ?_
      exact hv.moves .idle trivial rfl rfl rfl rfl rfl
  | underrun frames out turn _ hpc hpop =>
      have hsplit := takeWhile_of_dequeueActive hpop
      have hdequeued : s.dequeuedBy (.output .audio) = [] := by simp [dequeuedBy, hpc, hpop]
      have hlost : s.lostBy (.output .audio) =
          s.output.queue.chunks.takeWhile fun c => c.turn ≠ turn := by simp [lostBy, hpc]
      rw [hdequeued, hlost]
      refine ⟨hc.dequeue hsplit, ?_⟩
      rw [List.append_nil]
      exact hv.moves .idle trivial rfl rfl rfl rfl rfl
  | take frames out turn chunk _ hpc hpop =>
      have hsplit := takeWhile_of_dequeueActive hpop
      have hdequeued : s.dequeuedBy (.output .audio) = [chunk] := by simp [dequeuedBy, hpc, hpop]
      have hlost : s.lostBy (.output .audio) =
          s.output.queue.chunks.takeWhile fun c => c.turn ≠ turn := by simp [lostBy, hpc]
      rw [hdequeued, hlost]
      exact ⟨hc.dequeue hsplit, hv.take hpc chunk⟩

theorem host_step {a : TtsAction} (h : s.step soxr a = some s') :
    s.host.step soxr (hostAction s'.output.queue a) = some s'.host := by
  cases a with
  | event e =>
      obtain ⟨b', hb', rfl⟩ := Option.map_eq_some_iff.mp h
      exact Option.map_eq_some_iff.mpr ⟨b', hb', rfl⟩
  | handler =>
      obtain ⟨⟨b', q'⟩, hb', rfl⟩ := Option.map_eq_some_iff.mp h
      exact Option.map_eq_some_iff.mpr ⟨(b', q'), hb', rfl⟩
  | io =>
      obtain ⟨⟨b', q'⟩, hb', rfl⟩ := Option.map_eq_some_iff.mp h
      exact Option.map_eq_some_iff.mpr ⟨(b', q'), hb', rfl⟩
  | submit e =>
      obtain ⟨b', hb', rfl⟩ := Option.map_eq_some_iff.mp h
      exact Option.map_eq_some_iff.mpr ⟨b', hb', rfl⟩
  | unsubscribe =>
      obtain ⟨b', hb', rfl⟩ := Option.map_eq_some_iff.mp h
      exact Option.map_eq_some_iff.mpr ⟨b', hb', rfl⟩
  | stop =>
      obtain ⟨b', hb', rfl⟩ := Option.map_eq_some_iff.mp h
      exact Option.map_eq_some_iff.mpr ⟨b', hb', rfl⟩
  | output a =>
      obtain ⟨-, o', -, rfl⟩ := step_output_eq_some h
      rfl

theorem speech_step {a : TtsAction} (hrate : s.bridge.deviceRate = deviceRate)
    (ha : SpeechAccounts soxr deviceRate s.bridge l.speech) (h : s.step soxr a = some s') :
    SpeechAccounts soxr deviceRate s'.bridge (noteSpoken soxr l s a).speech := by
  have hhost := host_step h
  have hothers : hostAction s'.output.queue a ≠ .io →
      (∀ e, hostAction s'.output.queue a ≠ .submit e) →
      callbackOf (hostAction s'.output.queue a) = [] → s.offeredBy a = [] →
      SpeechAccounts soxr deviceRate s'.bridge (noteSpoken soxr l s a).speech := by
    intro hio hsubmit hheard hoffer
    obtain ⟨hsame, hentry⟩ := BridgeHost.step_others hhost hio hsubmit
    have hended : endedBy s.bridge s'.bridge = [] := by
      unfold endedBy
      split
      next hnone =>
        rw [show s.bridge.io = s'.bridge.io from hsame.io.symm, hnone]
        rfl
      next => rfl
    simp only [noteSpoken, h, hended, hheard, hoffer, List.map_nil, List.append_nil]
    exact ha.event hsame hentry (BridgeHost.step_frame hhost).2
  cases a with
  | io =>
      simp only [noteSpoken, h, hostAction, sentenceOf, callbackOf, List.append_nil]
      obtain ⟨⟨b', q'⟩, hb', rfl⟩ := Option.map_eq_some_iff.mp h
      have hio := TtsBridge.ioStep_eq_some hb'
      have hspeaks := ha.speaks (offeredBy_speech hio) hio.frame.1
      rw [List.append_nil] at hspeaks
      exact hspeaks
  | submit e =>
      simp only [noteSpoken, h, hostAction, sentenceOf, callbackOf, offeredBy, List.append_nil]
      obtain ⟨b', hb', rfl⟩ := Option.map_eq_some_iff.mp h
      have hspeech := TtsBridge.onSubmit_speech hb'
      rw [hrate] at hspeech
      have hspeaks := ha.speaks hspeech (TtsBridge.onSubmit_hand (q := s.output.queue) hb').2.1
      rw [List.append_nil] at hspeaks
      exact hspeaks
  | _ => exact hothers (by simp [hostAction]) (by simp [hostAction]) rfl rfl

theorem chunks_step {a : TtsAction}
    (hc : Conveys s.output.queue l.speech.enqueued l.dequeued l.lost)
    (hv : Voices s.output.engine l.dequeued) (h : s.step soxr a = some s') :
    Conveys s'.output.queue (noteSpoken soxr l s a).speech.enqueued
        (noteSpoken soxr l s a).dequeued (noteSpoken soxr l s a).lost ∧
      Voices s'.output.engine (noteSpoken soxr l s a).dequeued := by
  simp only [noteSpoken, h]
  have hapart : s.offeredBy a = [] → s.dequeuedBy a = [] → s.lostBy a = [] →
      ∀ {q' : PlaybackQueue} {e' : PlaybackEngine}, q'.chunks = s.output.queue.chunks →
      Voices e' l.dequeued →
      Conveys q' (l.speech.enqueued ++ s.offeredBy a) (l.dequeued ++ s.dequeuedBy a)
          (l.lost ++ s.lostBy a) ∧ Voices e' (l.dequeued ++ s.dequeuedBy a) := by
    intro hoffer hdequeued hlost q' e' hchunks hv'
    rw [hoffer, hdequeued, hlost, List.append_nil, List.append_nil, List.append_nil]
    exact ⟨hc.keep hchunks, hv'⟩
  cases a with
  | event e =>
      obtain ⟨b', -, rfl⟩ := Option.map_eq_some_iff.mp h
      exact hapart rfl rfl rfl rfl hv
  | handler =>
      obtain ⟨⟨b', q'⟩, hb', rfl⟩ := Option.map_eq_some_iff.mp h
      obtain ⟨turn, tok, rest, hpc, -, rfl⟩ | ⟨turn, hpc, -, rfl⟩ :=
        TtsBridge.handlerStep_eq_some hb'
      · exact hapart rfl rfl (by simp [lostBy, hpc]) rfl hv
      · have hlost : s.lostBy .handler = s.output.queue.chunks := by simp [lostBy, hpc]
        simp only [hlost, offeredBy, dequeuedBy, List.append_nil]
        exact ⟨hc.clear rfl, hv⟩
  | io =>
      obtain ⟨⟨b', q'⟩, hb', rfl⟩ := Option.map_eq_some_iff.mp h
      simp only [dequeuedBy, List.append_nil]
      exact ⟨offeredBy_conveys hc (TtsBridge.ioStep_eq_some hb'), hv⟩
  | submit e =>
      obtain ⟨b', -, rfl⟩ := Option.map_eq_some_iff.mp h
      exact hapart rfl rfl rfl rfl hv
  | unsubscribe =>
      obtain ⟨b', -, rfl⟩ := Option.map_eq_some_iff.mp h
      exact hapart rfl rfl rfl rfl hv
  | stop =>
      obtain ⟨b', -, rfl⟩ := Option.map_eq_some_iff.mp h
      exact hapart rfl rfl rfl rfl hv
  | output a =>
      obtain ⟨hown, o', ho, rfl⟩ := step_output_eq_some h
      cases a with
      | enqueue chunk => exact absurd rfl (hown chunk)
      | audio =>
          simp only [offeredBy, List.append_nil]
          exact audio_spoken hc hv ho
      | render frames =>
          simp only [AudioOutput.step] at ho
          split at ho
          · cases ho
            exact hapart rfl rfl rfl rfl (hv.moves (.loop frames []) trivial rfl rfl rfl rfl rfl)
          · cases ho
      | invalidateBefore next =>
          cases ho
          simp only [offeredBy, dequeuedBy, List.append_nil]
          exact ⟨hc.discard (fun c => c.turn < next) rfl, hv⟩
      | clear =>
          cases ho
          simp only [offeredBy, dequeuedBy, List.append_nil]
          exact ⟨hc.clear rfl, hv⟩
      | setActive turn =>
          cases ho
          exact hapart rfl rfl rfl rfl hv
      | relay =>
          cases ho
          exact hapart rfl rfl rfl rfl (hv.moves _ hv.used rfl rfl rfl rfl rfl)

theorem SpokenInv.step {w w' : TtsStack ρ × SpokenLedger} {a : TtsAction}
    (hi : SpokenInv soxr deviceRate w)
    (h : watch (TtsStack.step soxr) (noteSpoken soxr) w a = some w') :
    SpokenInv soxr deviceRate w' := by
  obtain ⟨hstep, hnote⟩ := watch_eq_some.mp h
  obtain ⟨hconveys, hvoices⟩ := chunks_step hi.conveys hi.voices hstep
  have hrate := (BridgeHost.step_frame (host_step hstep)).1
  refine ⟨hrate.trans hi.rate, ?_, ?_, ?_⟩ <;> rw [hnote]
  · exact speech_step hi.rate hi.speech hstep
  · exact hconveys
  · exact hvoices

theorem initial_spokenInv (deviceRate maxQueueChunks prefillTargetSamples : Nat) :
    SpokenInv soxr deviceRate (initial deviceRate maxQueueChunks prefillTargetSamples, {}) where
  rate := rfl
  speech := ⟨List.Sublist.refl _, [], stretched_nil, .nothing rfl⟩
  conveys := ⟨List.Sublist.refl _, List.Perm.refl _⟩
  voices := ⟨rfl, rfl, trivial⟩

end TtsStack

/-! ## A turn -/

/-- The jobs of a turn that are through. -/
def spokenOf (t : TurnId) (spoken : List SpokenJob) : List SpokenJob :=
  spoken.filter fun j => j.job.sentence.turn = t

/-- The runs of a turn's sentences, one behind the other. -/
def turnRuns (soxr : Soxr ρ) (deviceRate : Nat) (t : TurnId) (spoken : List SpokenJob) :
    List AudioChunk :=
  (spokenOf t spoken).flatMap fun j => sentenceRun soxr deviceRate j.job j.callbacks

def finishOf (j : SpokenJob) : PlaybackFinished where
  turn := j.job.sentence.turn
  seq := j.job.sentence.seq

theorem ofTurn_flatten {soxr : Soxr ρ} {deviceRate : Nat} {pool : TokenPool} {t : TurnId}
    {spoken : List SpokenJob} {runs : List (List AudioChunk)}
    (h : List.Forall₂ (RunOf soxr deviceRate pool) spoken runs)
    (hlive : ∀ j ∈ spokenOf t spoken, pool.isCancelled j.job.cancel = false) :
    ofTurn t runs.flatten = turnRuns soxr deviceRate t spoken := by
  induction h with
  | nil => rfl
  | @cons j chunks spoken runs hrun _ ih =>
      rw [List.flatten_cons, ofTurn, List.filter_append]
      by_cases hturn : j.job.sentence.turn = t
      · have hspoken : spokenOf t (j :: spoken) = j :: spokenOf t spoken :=
          List.filter_cons_of_pos (by simpa using hturn)
        rw [hspoken] at hlive
        have hown : chunks.filter (fun c => c.turn = t) = chunks :=
          List.filter_eq_self.mpr fun c hc => by simpa using (hrun.ofJob c hc).1.trans hturn
        rw [hown, turnRuns, hspoken, List.flatMap_cons, ← hrun.whole (hlive j List.mem_cons_self)]
        exact congrArg (chunks ++ ·) (ih fun j' hj' => hlive j' (List.mem_cons_of_mem _ hj'))
      · have hspoken : spokenOf t (j :: spoken) = spokenOf t spoken :=
          List.filter_cons_of_neg (by simpa using hturn)
        rw [hspoken] at hlive
        have hother : chunks.filter (fun c => c.turn = t) = [] :=
          List.filter_eq_nil_iff.mpr fun c hc => by
            simpa using fun hc' => hturn ((hrun.ofJob c hc).1.symm.trans hc')
        rw [hother, turnRuns, hspoken]
        exact ih hlive

theorem endsOf_turnRuns (soxr : Soxr ρ) (deviceRate : Nat) (t : TurnId) (spoken : List SpokenJob) :
    endsOf (turnRuns soxr deviceRate t spoken) = (spokenOf t spoken).map finishOf := by
  unfold turnRuns
  induction spokenOf t spoken with
  | nil => rfl
  | cons j js ih =>
      have hone : endsOf (sentenceRun soxr deviceRate j.job j.callbacks) = [finishOf j] := by
        have hnone : endsOf ((speechOf soxr deviceRate j.callbacks).outputs.map
            (audioChunk j.job)) = [] := by
          simp [endsOf, audioChunk, List.filter_eq_nil_iff]
        rw [sentenceRun, endsOf_append, hnone]
        rfl
      rw [List.flatMap_cons, endsOf_append, hone, ih]
      rfl

namespace TtsStack

variable {soxr : Soxr ρ} {deviceRate : Nat} {s : TtsStack ρ} {l : SpokenLedger}

/-- The samples of a turn that went into the buffers. -/
def writtenOf (t : TurnId) (s : TtsStack ρ) : List Sample :=
  (s.output.engine.written.filter fun w => w.turn = t).map (·.sample)

/-- What the engine still holds of a turn. -/
def heldOf (t : TurnId) (s : TtsStack ρ) : List Sample :=
  if s.output.engine.current.turn = t then s.output.engine.leftover else []

def postedOf (t : TurnId) (s : TtsStack ρ) : List PlaybackFinished :=
  s.output.engine.posted.filter fun p => p.turn = t

/-- The end that the chunk in the engine's hand will post. -/
def markOf (t : TurnId) (s : TtsStack ρ) : List PlaybackFinished :=
  s.output.engine.currentMark.filter fun p => p.turn = t

/-- What went into the buffers, what the engine holds and what waits is the audio of the turn's
sentences, each of them whole, and of the one in hand as far as it is: `now`. And so with their
ends. -/
structure SpeaksTurn (soxr : Soxr ρ) (deviceRate : Nat) (t : TurnId) (s : TtsStack ρ)
    (l : SpokenLedger) (now : List AudioChunk) : Prop where
  sound : s.writtenOf t ++ s.heldOf t ++ soundOf (s.output.queue.ofTurn t) =
    soundOf (turnRuns soxr deviceRate t l.speech.spoken ++ ofTurn t now)
  ends : s.postedOf t ++ s.markOf t ++ endsOf (s.output.queue.ofTurn t) =
    (spokenOf t l.speech.spoken).map finishOf ++ endsOf (ofTurn t now)

/-- What the device gets of any turn is made of whole chunks in the order of the sentences. -/
structure SpeaksInOrder (s : TtsStack ρ) (l : SpokenLedger) : Prop where
  arrival : ((l.speech.spoken.map SpokenJob.job ++ s.bridge.io.job.toList ++
    s.bridge.pending).map Job.sentence).Sublist l.speech.handled
  order : (l.dequeued ++ s.output.queue.chunks).Sublist l.speech.enqueued
  whole : s.output.engine.written.map (fun w => (w.turn, w.sample)) ++
    s.output.engine.leftover.map (fun x => (s.output.engine.current.turn, x)) = voiced l.dequeued

theorem SpokenInv.speaksTurn (hi : SpokenInv soxr deviceRate (s, l)) {now : List AudioChunk}
    (hruns : Stretched (RunOf soxr deviceRate s.bridge.pool) l.speech.spoken now
      l.speech.enqueued) {t : TurnId} (ht : t ≠ kNoTurn) (hkept : ∀ c ∈ l.lost, c.turn ≠ t)
    (hlive : ∀ j ∈ spokenOf t l.speech.spoken, s.bridge.pool.isCancelled j.job.cancel = false) :
    SpeaksTurn soxr deviceRate t s l now := by
  obtain ⟨runs, hforall, henqueued⟩ := hruns
  have hoffered : ofTurn t l.speech.enqueued =
      turnRuns soxr deviceRate t l.speech.spoken ++ ofTurn t now := by
    rw [henqueued, ofTurn, List.filter_append, ← ofTurn, ← ofTurn, ofTurn_flatten hforall hlive]
  have hall := hi.conveys.ofTurn_eq hkept
  have hends : s.postedOf t ++ s.markOf t = endsOf (ofTurn t l.dequeued) := by
    rw [postedOf, markOf, ← List.filter_append, hi.voices.posts, endsOf_ofTurn ht]
  constructor
  · rw [← hoffered, hall, soundOf_append, ← hi.voices.soundOf_turn t]
    rfl
  · rw [← endsOf_turnRuns soxr deviceRate t, ← endsOf_append, ← hoffered, hall, endsOf_append,
      hends]

/-- In every run, whatever the capacity, the device is given chunks in the order of their
sentences and finishes each before the next. A turn that was not cancelled and has lost no chunk
is heard as its sentences were synthesized, and each of them is posted as finished once. -/
theorem run_speaksTurns {maxQueueChunks prefillTargetSamples : Nat} {acts : List TtsAction}
    (hrun : run (watch (step soxr) (noteSpoken soxr))
      (initial deviceRate maxQueueChunks prefillTargetSamples, {}) acts = some (s, l)) :
    SpeaksInOrder s l ∧
      ∃ now, (∀ chunk ∈ now, ∃ job, s.bridge.io.job = some job ∧ OfJob job chunk) ∧
        ∀ t, t ≠ kNoTurn → (∀ c ∈ l.lost, c.turn ≠ t) →
          (∀ j ∈ spokenOf t l.speech.spoken, s.bridge.pool.isCancelled j.job.cancel = false) →
          SpeaksTurn soxr deviceRate t s l now := by
  have hinv : SpokenInv soxr deviceRate (s, l) :=
    run_preserves (SpokenInv soxr deviceRate) (fun _ _ _ hi hs => hi.step hs) hrun
      (initial_spokenInv deviceRate maxQueueChunks prefillTargetSamples)
  obtain ⟨harrival, now, hruns, hnow⟩ := hinv.speech
  exact ⟨⟨harrival, hinv.conveys.order, hinv.voices.sound⟩, now, hnow.ofJob,
    fun t ht hkept hlive => hinv.speaksTurn hruns ht hkept hlive⟩

/-- The first turn is played. The second is interrupted with its audio still in the queue. -/
def secondInterrupted : List TtsAction :=
  [.event (.llmStarted { turn := 1 }), .event (.llmSentence { turn := 1 }), .io, .io, .io,
    .submit (.onFormat 48000), .submit (.onAudio [1, 2]), .io, .submit .returns, .io, .io, .io,
    .io, .output (.setActive 1), .output (.render 3), .output .audio, .output .audio,
    .output .audio, .output .audio, .output .audio, .output .audio, .output .audio, .output .audio,
    .output .audio, .output .audio, .event (.llmStarted { turn := 2 }),
    .event (.llmSentence { turn := 2 }), .io, .io, .io, .submit (.onFormat 48000),
    .submit (.onAudio [5]), .io, .event (.userInterrupted { turn := 2 }), .handler, .handler,
    .handler]

theorem run_speaksTurns_secondInterrupted : ∃ (s : TtsStack Unit) (l : SpokenLedger),
    run (watch (step Soxr.passThrough) (noteSpoken Soxr.passThrough)) (initial 48000 2 0, {})
        secondInterrupted = some (s, l) ∧
      s.writtenOf 1 = [1, 2] ∧ l.lost.length = 1 ∧ SpeaksInOrder s l ∧
        ∃ now, SpeaksTurn Soxr.passThrough 48000 1 s l now := by
  obtain ⟨⟨s, l⟩, hrun, hwritten, hlength, hlost, hlive⟩ : ∃ w,
      run (watch (step Soxr.passThrough) (noteSpoken Soxr.passThrough)) (initial 48000 2 0, {})
          secondInterrupted = some w ∧
        w.1.writtenOf 1 = [1, 2] ∧ w.2.lost.length = 1 ∧ (∀ c ∈ w.2.lost, c.turn ≠ 1) ∧
          ∀ j ∈ spokenOf 1 w.2.speech.spoken, w.1.bridge.pool.isCancelled j.job.cancel = false := by
    refine ⟨(run (watch (step Soxr.passThrough) (noteSpoken Soxr.passThrough))
      (initial 48000 2 0, {}) secondInterrupted).get (by decide +kernel), ?_, by decide +kernel,
      by decide +kernel, by decide +kernel, by decide +kernel⟩
    exact (Option.some_get _).symm
  obtain ⟨horder, now, -, hturn⟩ := run_speaksTurns hrun
  exact ⟨s, l, hrun, hwritten, hlength, horder, now, hturn 1 (by decide) hlost hlive⟩

end TtsStack

end Acva.Orchestrator
