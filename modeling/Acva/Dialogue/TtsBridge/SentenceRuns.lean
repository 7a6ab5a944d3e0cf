import Acva.Core.Stretches
import Acva.Dialogue.TtsBridge.Accounting
import Mathlib.Data.List.Induction

/-! # The run of a sentence

While it has a job in hand the I/O thread enqueues the audio that the submit function calls
back with, then one end of the sentence. Nobody else enqueues, so what the queue is given is
one run of chunks for each job, in the order of the jobs. The queue has no limit here.
-/

namespace Acva.Dialogue

open Acva.Audio Acva.Playback Acva.Runs Acva.Stretches

variable {ρ : Type}

/-! ## What the queue is owed -/

/-- A request as its callbacks tell it: the locals, and what came out of each `on_audio`. -/
structure Speech (ρ : Type) where
  synth : Synth ρ := {}
  outputs : List (List Sample) := []
deriving DecidableEq, Repr

/-- Audio after an error is not heard, and nothing is made of an empty output. -/
def Speech.hear (soxr : Soxr ρ) (deviceRate : Nat) (sp : Speech ρ) : SubmitEvent → Speech ρ
  | .onFormat rate => { sp with synth := sp.synth.onFormat soxr deviceRate rate }
  | .onAudio samples =>
      if sp.synth.gotError = true then sp
      else
        let (out, synth) := sp.synth.resample soxr samples
        { synth := synth, outputs := sp.outputs ++ if out = [] then [] else [out] }
  | .onError => { sp with synth := { sp.synth with gotError := true } }
  | .onFinished => sp
  | .returns => sp

def speechOf (soxr : Soxr ρ) (deviceRate : Nat) (callbacks : List SubmitEvent) : Speech ρ :=
  callbacks.foldl (Speech.hear soxr deviceRate) {}

/-- The audio in its order, then one end with what the resampler has left. -/
def sentenceRun (soxr : Soxr ρ) (deviceRate : Nat) (job : Job) (callbacks : List SubmitEvent) :
    List AudioChunk :=
  (speechOf soxr deviceRate callbacks).outputs.map (audioChunk job) ++
    [endChunk job ((speechOf soxr deviceRate callbacks).synth.tail soxr)]

def OfJob (job : Job) (chunk : AudioChunk) : Prop :=
  chunk.turn = job.sentence.turn ∧ chunk.seq = job.sentence.seq

/-- One chunk ends the sentence, and it is the last. -/
def WellTerminated (chunks : List AudioChunk) : Prop :=
  ∃ audio last, chunks = audio ++ [last] ∧ last.endOfSentence = true ∧
    ∀ chunk ∈ audio, chunk.endOfSentence = false

theorem sentenceRun_wellTerminated (soxr : Soxr ρ) (deviceRate : Nat) (job : Job)
    (callbacks : List SubmitEvent) : WellTerminated (sentenceRun soxr deviceRate job callbacks) := by
  refine ⟨_, _, rfl, rfl, fun chunk hchunk => ?_⟩
  obtain ⟨out, -, rfl⟩ := List.mem_map.mp hchunk
  rfl

theorem speechOf_concat (soxr : Soxr ρ) (deviceRate : Nat) (callbacks : List SubmitEvent)
    (e : SubmitEvent) : speechOf soxr deviceRate (callbacks ++ [e]) =
      (speechOf soxr deviceRate callbacks).hear soxr deviceRate e := by
  rw [speechOf, List.foldl_concat]
  rfl

/-- Off the device's rate the audio of a sentence is one stream through a resampler that is created
for the two rates. -/
theorem speechOf_resampled (soxr : Soxr ρ) {deviceRate : Nat} {rate : Int} (hrate : 0 < rate)
    (hother : rate.toNat ≠ deviceRate) (blocks : List (List Sample)) :
    let heard := speechOf soxr deviceRate (.onFormat rate :: blocks.map .onAudio)
    heard.outputs.flatten = (soxr.stream rate.toNat deviceRate blocks).1 ∧
      heard.synth =
        { resampler := some (soxr.stream rate.toNat deviceRate blocks).2, gotFormat := true } := by
  induction blocks using List.reverseRecOn with
  | nil =>
      have hpositive : ¬rate ≤ 0 := Int.not_le.mpr hrate
      simp only [speechOf, List.map_nil, List.foldl_cons, List.foldl_nil, Speech.hear,
        Synth.onFormat, if_neg hpositive, if_neg hother]
      exact ⟨rfl, rfl⟩
  | append_singleton blocks samples ih =>
      obtain ⟨houtputs, hsynth⟩ := ih
      rw [List.map_append, List.map_singleton, ← List.cons_append, soxr.stream_concat]
      simp only [speechOf_concat, Speech.hear, hsynth, Bool.false_eq_true, ↓reduceIte,
        Synth.resample, and_true]
      rw [List.flatten_append, houtputs]
      split <;> simp_all

/-- The samples of the run are that stream, and what the flush leaves over of it. -/
theorem sentenceRun_resampled (soxr : Soxr ρ) {deviceRate : Nat} {rate : Int} (hrate : 0 < rate)
    (hother : rate.toNat ≠ deviceRate) (job : Job) (blocks : List (List Sample)) :
    ((sentenceRun soxr deviceRate job (.onFormat rate :: blocks.map .onAudio)).map
        AudioChunk.samples).flatten =
      (soxr.stream rate.toNat deviceRate blocks).1 ++
        (soxr.flush (soxr.stream rate.toNat deviceRate blocks).2).getD [] := by
  obtain ⟨houtputs, hsynth⟩ := speechOf_resampled soxr hrate hother blocks
  rw [sentenceRun, hsynth, List.map_append, List.flatten_append, List.map_map]
  have haudio : AudioChunk.samples ∘ audioChunk job = id := rfl
  rw [haudio, List.map_id, houtputs, List.map_singleton, List.flatten_singleton]
  rfl

/-! ## The job in hand -/

/-- What has been enqueued of the job in hand is its run up to where the thread stands. -/
def TtsIoPc.Speaks (soxr : Soxr ρ) (deviceRate : Nat) (callbacks : List SubmitEvent)
    (said : List AudioChunk) : TtsIoPc ρ → Prop
  | .taken _ => callbacks = [] ∧ said = []
  | .starting _ => callbacks = [] ∧ said = []
  | .submitting job synth =>
      (speechOf soxr deviceRate callbacks).synth = synth ∧
        said = (speechOf soxr deviceRate callbacks).outputs.map (audioChunk job)
  | .enqueuing job synth samples =>
      (speechOf soxr deviceRate callbacks).synth = synth ∧
        said ++ [audioChunk job samples] =
          (speechOf soxr deviceRate callbacks).outputs.map (audioChunk job)
  | .submitted job synth =>
      (speechOf soxr deviceRate callbacks).synth = synth ∧
        said = (speechOf soxr deviceRate callbacks).outputs.map (audioChunk job)
  | .enqueuingEnd job _ tail =>
      said ++ [endChunk job tail] = sentenceRun soxr deviceRate job callbacks
  | .waiting job _ tail => said ++ [endChunk job tail] = sentenceRun soxr deviceRate job callbacks
  | .closing job _ => said = sentenceRun soxr deviceRate job callbacks
  | .returned => True
  | .idle => True
  | .exited => True

/-- What a step of the I/O thread makes of the job in hand, with what it hears and enqueues.
While the token is not cancelled the run goes on as it should. -/
inductive SpeechStep (soxr : Soxr ρ) (deviceRate : Nat) (b b' : TtsBridge ρ)
    (heard : List SubmitEvent) (added : List AudioChunk) : Prop
  | takes (job : Job) (hpending : b.pending = job :: b'.pending) (hnone : b.io.job = none)
      (hpc : b'.io = .taken job) (hadded : added = [])
  | speaks (job : Job) (hpending : b'.pending = b.pending) (hjob : b.io.job = some job)
      (hjob' : b'.io.job = some job) (hadded : ∀ chunk ∈ added, OfJob job chunk)
      (hspeaks : b.pool.isCancelled job.cancel = false → ∀ callbacks said,
        b.io.Speaks soxr deviceRate callbacks said →
          b'.io.Speaks soxr deviceRate (callbacks ++ heard) (said ++ added))
  | ends (job : Job) (hpending : b'.pending = b.pending) (hjob : b.io.job = some job)
      (hnone : b'.io.job = none) (hadded : added = [])
      (hwhole : b.pool.isCancelled job.cancel = false → ∀ callbacks said,
        b.io.Speaks soxr deviceRate callbacks said →
          said = sentenceRun soxr deviceRate job callbacks)
  | rests (hpending : b'.pending = b.pending) (hnone : b.io.job = none)
      (hnone' : b'.io.job = none) (hadded : added = [])

/-- Nothing is heard or enqueued. -/
theorem SpeechStep.moves {soxr : Soxr ρ} {deviceRate : Nat} {b b' : TtsBridge ρ} {job : Job}
    (hpending : b'.pending = b.pending) (hjob : b.io.job = some job) (hjob' : b'.io.job = some job)
    (hspeaks : b.pool.isCancelled job.cancel = false → ∀ callbacks said,
      b.io.Speaks soxr deviceRate callbacks said → b'.io.Speaks soxr deviceRate callbacks said) :
    SpeechStep soxr deviceRate b b' [] [] := by
  refine .speaks job hpending hjob hjob' (fun chunk hchunk => absurd hchunk List.not_mem_nil) ?_
  intro hlive callbacks said h
  rw [List.append_nil, List.append_nil]
  exact hspeaks hlive callbacks said h

theorem full_of_unlimited {q : PlaybackQueue} (hcap : q.cap = 0) : q.full = false := by
  simp [PlaybackQueue.full, hcap]

/-- The I/O thread only appends, and what it appends carries the run on. -/
theorem TtsIoStep.speech {soxr : Soxr ρ} (deviceRate : Nat) {q q' : PlaybackQueue}
    {b b' : TtsBridge ρ} (h : TtsIoStep soxr q b b' q') (hcap : q.cap = 0) :
    ∃ added, q'.chunks = q.chunks ++ added ∧ SpeechStep soxr deviceRate b b' [] added := by
  have hnothing : q.chunks = q.chunks ++ [] := (List.append_nil _).symm
  have hjob : ∀ {pc : TtsIoPc ρ} {job}, b.io = pc → pc.job = some job → b.io.job = some job :=
    fun hpc h => hpc ▸ h
  have hdead : ∀ {tok : TokenRef} {P : Prop}, b.pool.isCancelled tok = true →
      b.pool.isCancelled tok = false → P := fun h h' => absurd (h.symm.trans h') (by decide)
  cases h with
  | take job rest hpc hpending =>
      exact ⟨[], hnothing, .takes job hpending (by rw [hpc]; rfl) rfl rfl⟩
  | exit hpc hpending hstop => exact ⟨[], hnothing, .rests rfl (by rw [hpc]; rfl) rfl rfl⟩
  | skip job hpc hcancelled =>
      exact ⟨[], hnothing, .ends job rfl (hjob hpc rfl) rfl rfl fun hlive => hdead hcancelled hlive⟩
  | begin job hpc hlive =>
      refine ⟨[], hnothing, .moves rfl (hjob hpc rfl) rfl fun _ callbacks said h => ?_⟩
      rw [hpc] at h
      exact h
  | submit job hpc =>
      refine ⟨[], hnothing, .moves rfl (hjob hpc rfl) rfl fun _ callbacks said h => ?_⟩
      rw [hpc] at h
      obtain ⟨rfl, rfl⟩ := h
      exact ⟨rfl, rfl⟩
  | enqueue job synth samples hpc =>
      have hroom := full_of_unlimited hcap
      refine ⟨[audioChunk job samples], ?_, .speaks job rfl (hjob hpc rfl) rfl ?_ ?_⟩
      · simp [PlaybackQueue.enqueue, hroom, PlaybackQueue.append]
      · intro chunk hchunk
        rw [List.mem_singleton.mp hchunk]
        exact ⟨rfl, rfl⟩
      · intro _ callbacks said h
        rw [hpc] at h
        rw [List.append_nil]
        exact h
  | abandon job synth hpc hcancelled =>
      exact ⟨[], hnothing, .moves rfl (hjob hpc rfl) rfl fun hlive => hdead hcancelled hlive⟩
  | finish job synth hpc hlive =>
      refine ⟨[], hnothing, .moves rfl (hjob hpc rfl) rfl fun _ callbacks said h => ?_⟩
      rw [hpc] at h
      obtain ⟨rfl, rfl⟩ := h
      exact rfl
  | enqueueEnd job gotError tail hpc hroom =>
      refine ⟨[endChunk job tail], rfl, .speaks job rfl (hjob hpc rfl) rfl ?_ ?_⟩
      · intro chunk hchunk
        rw [List.mem_singleton.mp hchunk]
        exact ⟨rfl, rfl⟩
      · intro _ callbacks said h
        rw [hpc] at h
        rw [List.append_nil]
        exact h
  | full job gotError tail hpc hfull =>
      -- the only way to a second poll
      rw [full_of_unlimited hcap] at hfull
      cases hfull
  | giveUp job gotError tail hpc hcancelled =>
      exact ⟨[], hnothing, .moves rfl (hjob hpc rfl) rfl fun hlive => hdead hcancelled hlive⟩
  | again job gotError tail hpc hlive =>
      refine ⟨[], hnothing, .moves rfl (hjob hpc rfl) rfl fun _ callbacks said h => ?_⟩
      rw [hpc] at h
      exact h
  | closeCancelled job gotError hpc hcancelled =>
      exact ⟨[], hnothing, .ends job rfl (hjob hpc rfl) rfl rfl fun hlive => hdead hcancelled hlive⟩
  | closeErrored job hpc hlive =>
      refine ⟨[], hnothing, .ends job rfl (hjob hpc rfl) rfl rfl fun _ callbacks said h => ?_⟩
      rw [hpc] at h
      exact h
  | close job hpc hlive =>
      refine ⟨[], hnothing, .ends job rfl (hjob hpc rfl) rfl rfl fun _ callbacks said h => ?_⟩
      rw [hpc] at h
      exact h
  | release hpc => exact ⟨[], hnothing, .rests rfl (by rw [hpc]; rfl) rfl rfl⟩

theorem TtsIoPc.Speaks.ofSpeech {soxr : Soxr ρ} {deviceRate : Nat} {callbacks : List SubmitEvent}
    {synth : Synth ρ} {outputs : List (List Sample)}
    (h : speechOf soxr deviceRate callbacks = ⟨synth, outputs⟩) (job : Job) :
    (submitting job synth).Speaks soxr deviceRate callbacks (outputs.map (audioChunk job)) ∧
      (submitted job synth).Speaks soxr deviceRate callbacks (outputs.map (audioChunk job)) := by
  have hspeaks : (speechOf soxr deviceRate callbacks).synth = synth ∧
      outputs.map (audioChunk job) =
        (speechOf soxr deviceRate callbacks).outputs.map (audioChunk job) := by
    rw [h]
    exact ⟨rfl, rfl⟩
  exact ⟨hspeaks, hspeaks⟩

/-- A callback is heard by the run as it is by the thread. -/
theorem TtsBridge.onSubmit_speech {soxr : Soxr ρ} {e : SubmitEvent} {b b' : TtsBridge ρ}
    (h : b.onSubmit soxr e = some b') : SpeechStep soxr b.deviceRate b b' [e] [] := by
  have hears : ∀ {job : Job} {synth : Synth ρ} {pc : TtsIoPc ρ}, b.io = .submitting job synth →
      pc.job = some job →
      (b.pool.isCancelled job.cancel = false → ∀ callbacks outputs,
        speechOf soxr b.deviceRate callbacks = Speech.hear soxr b.deviceRate ⟨synth, outputs⟩ e →
          pc.Speaks soxr b.deviceRate callbacks (outputs.map (audioChunk job))) →
      SpeechStep soxr b.deviceRate b { b with io := pc } [e] [] := by
    intro job synth pc hpc hjob hspeaks
    have hjobBefore : b.io.job = some job := by rw [hpc]; rfl
    refine .speaks job rfl hjobBefore hjob (fun _ hchunk => absurd hchunk List.not_mem_nil) ?_
    intro hlive callbacks said h
    rw [hpc] at h
    obtain ⟨rfl, rfl⟩ := h
    rw [List.append_nil]
    exact hspeaks hlive _ _ (speechOf_concat soxr b.deviceRate callbacks e)
  cases onSubmit_eq_some h with
  | formats rate job synth hpc =>
      exact hears hpc rfl fun _ _ _ hspeech => (TtsIoPc.Speaks.ofSpeech hspeech job).1
  | ignores samples job synth hpc hskip =>
      refine hears hpc (by rw [hpc]; rfl) fun hlive callbacks outputs hspeech => ?_
      have herror : synth.gotError = true := by simpa [hlive] using hskip
      rw [Speech.hear, if_pos herror] at hspeech
      rw [hpc]
      exact (TtsIoPc.Speaks.ofSpeech hspeech job).1
  | holds samples job synth synth' hpc hheard hout =>
      refine hears hpc rfl fun _ callbacks outputs hspeech => ?_
      have hspeech : speechOf soxr b.deviceRate callbacks = ⟨synth', outputs⟩ := by
        simpa [Speech.hear, hheard, hout] using hspeech
      exact (TtsIoPc.Speaks.ofSpeech hspeech job).1
  | speaks samples job synth synth' out hpc hheard hlive hout hsome =>
      refine hears hpc rfl fun _ callbacks outputs hspeech => ?_
      have hspeech : speechOf soxr b.deviceRate callbacks = ⟨synth', outputs ++ [out]⟩ := by
        simpa [Speech.hear, hheard, hout, hsome] using hspeech
      show _ ∧ _
      rw [hspeech, List.map_append]
      exact ⟨rfl, rfl⟩
  | finishes job synth hpc =>
      refine hears hpc (by rw [hpc]; rfl) fun _ _ _ hspeech => ?_
      rw [hpc]
      exact (TtsIoPc.Speaks.ofSpeech hspeech job).1
  | fails job synth hpc =>
      exact hears hpc rfl fun _ _ _ hspeech => (TtsIoPc.Speaks.ofSpeech hspeech job).1
  | returns job synth hpc =>
      exact hears hpc rfl fun _ _ _ hspeech => (TtsIoPc.Speaks.ofSpeech hspeech job).2

/-! ## The ledger -/

/-- A job that is through, with what the submit function called back for it. -/
structure SpokenJob where
  job : Job
  callbacks : List SubmitEvent
deriving DecidableEq, Repr

structure SpeechLedger where
  handled : List LlmSentence := []
  spoken : List SpokenJob := []
  /-- For the job in hand; between two jobs, for the last one. -/
  callbacks : List SubmitEvent := []
  enqueued : List AudioChunk := []
deriving DecidableEq, Repr

def callbackOf : BridgeAction → List SubmitEvent
  | .submit e => [e]
  | _ => []

/-- The I/O thread alone enqueues. -/
def enqueuedBy (q q' : PlaybackQueue) : BridgeAction → List AudioChunk
  | .io => q'.chunks.drop q.chunks.length
  | _ => []

/-- The job in hand is through. -/
def endedBy (b b' : TtsBridge ρ) : List Job := if b'.io.job = none then b.io.job.toList else []

def noteSpeech (soxr : Soxr ρ) (l : SpeechLedger) (s : BridgeHost ρ) (a : BridgeAction) :
    SpeechLedger :=
  match s.step soxr a with
  | none => l
  | some s' =>
      { handled := l.handled ++ sentenceOf a
        spoken := l.spoken ++ (endedBy s.bridge s'.bridge).map fun job => ⟨job, l.callbacks⟩
        -- a job is taken with nothing heard yet
        callbacks := if s.bridge.io.job = none then [] else l.callbacks ++ callbackOf a
        enqueued := l.enqueued ++ enqueuedBy s.queue s'.queue a }

/-! ## What one step enters -/

/-- The chunks of a job that is through. They are its own, and its whole run with its one end
unless its token is cancelled. -/
structure RunOf (soxr : Soxr ρ) (deviceRate : Nat) (pool : TokenPool) (spoken : SpokenJob)
    (chunks : List AudioChunk) : Prop where
  ofJob : ∀ chunk ∈ chunks, OfJob spoken.job chunk
  whole : pool.isCancelled spoken.job.cancel = false →
    chunks = sentenceRun soxr deviceRate spoken.job spoken.callbacks
  terminated : pool.isCancelled spoken.job.cancel = false → WellTerminated chunks

/-- The chunks of the job in hand. -/
structure RunsOn (soxr : Soxr ρ) (deviceRate : Nat) (b : TtsBridge ρ)
    (callbacks : List SubmitEvent) (now : List AudioChunk) : Prop where
  ofJob : ∀ chunk ∈ now, ∃ job, b.io.job = some job ∧ OfJob job chunk
  speaks : ∀ job, b.io.job = some job → b.pool.isCancelled job.cancel = false →
    b.io.Speaks soxr deviceRate callbacks now

theorem RunsOn.eq_nil {soxr : Soxr ρ} {deviceRate : Nat} {b : TtsBridge ρ}
    {callbacks : List SubmitEvent} {now : List AudioChunk}
    (h : RunsOn soxr deviceRate b callbacks now) (hnone : b.io.job = none) : now = [] := by
  refine List.eq_nil_iff_forall_not_mem.mpr fun chunk hchunk => ?_
  obtain ⟨job, hjob, -⟩ := h.ofJob chunk hchunk
  rw [hnone] at hjob
  cases hjob

theorem RunsOn.nothing {soxr : Soxr ρ} {deviceRate : Nat} {b : TtsBridge ρ}
    {callbacks : List SubmitEvent} (hnone : b.io.job = none) :
    RunsOn soxr deviceRate b callbacks [] := by
  refine ⟨fun _ hchunk => absurd hchunk List.not_mem_nil, fun job hjob => ?_⟩
  rw [hnone] at hjob
  cases hjob

/-- The accounts of the chunks agree with the ledger. -/
structure SpeechAccounts (soxr : Soxr ρ) (deviceRate : Nat) (b : TtsBridge ρ) (l : SpeechLedger) :
    Prop where
  /-- Jobs are spoken in the order their sentences arrive. -/
  arrival : ((l.spoken.map SpokenJob.job ++ b.io.job.toList ++ b.pending).map
    Job.sentence).Sublist l.handled
  runs : ∃ now, Stretched (RunOf soxr deviceRate b.pool) l.spoken now l.enqueued ∧
    RunsOn soxr deviceRate b l.callbacks now

section

variable {soxr : Soxr ρ} {deviceRate : Nat} {b b' : TtsBridge ρ} {heard : List SubmitEvent}
  {added : List AudioChunk}

/-- A job is pending, in hand or through. -/
theorem SpeechStep.jobs (h : SpeechStep soxr deviceRate b b' heard added) :
    endedBy b b' ++ b'.io.job.toList ++ b'.pending = b.io.job.toList ++ b.pending := by
  cases h with
  | takes job hpending hnone hpc hadded =>
      have hjob' : b'.io.job = some job := by rw [hpc]; rfl
      rw [endedBy, hjob', hnone, hpending]
      rfl
  | speaks job hpending hjob hjob' hadded hspeaks =>
      rw [endedBy, hjob', hjob, hpending]
      rfl
  | ends job hpending hjob hnone hadded hwhole =>
      rw [endedBy, hnone, hjob, hpending]
      rfl
  | rests hpending hnone hnone' hadded =>
      rw [endedBy, hnone', hnone, hpending]
      rfl

theorem SpeechStep.runs {spoken : List SpokenJob} {callbacks : List SubmitEvent}
    {now enqueued : List AudioChunk} (h : SpeechStep soxr deviceRate b b' heard added)
    (hpool : b'.pool = b.pool)
    (hruns : Stretched (RunOf soxr deviceRate b.pool) spoken now enqueued)
    (hnow : RunsOn soxr deviceRate b callbacks now) :
    ∃ now', Stretched (RunOf soxr deviceRate b'.pool)
        (spoken ++ (endedBy b b').map fun job => ⟨job, callbacks⟩) now' (enqueued ++ added) ∧
      RunsOn soxr deviceRate b' (if b.io.job = none then [] else callbacks ++ heard) now' := by
  rw [hpool]
  cases h with
  | takes job hpending hnone hpc hadded =>
      have hjob' : b'.io.job = some job := by rw [hpc]; rfl
      have hended : endedBy b b' = [] := by rw [endedBy, hjob']; rfl
      rw [hended, hadded, List.map_nil, List.append_nil, List.append_nil, if_pos hnone]
      rw [hnow.eq_nil hnone] at hruns
      refine ⟨[], hruns, fun _ hchunk => absurd hchunk List.not_mem_nil, fun _ _ _ => ?_⟩
      rw [hpc]
      exact ⟨rfl, rfl⟩
  | speaks job hpending hjob hjob' hadded hspeaks =>
      have hended : endedBy b b' = [] := by rw [endedBy, hjob']; rfl
      have hsome : b.io.job ≠ none := by rw [hjob]; exact Option.some_ne_none job
      rw [hended, List.map_nil, List.append_nil, if_neg hsome]
      refine ⟨now ++ added, hruns.append added, fun chunk hchunk => ?_, fun job' hsame hlive => ?_⟩
      · rcases List.mem_append.mp hchunk with hold | hnew
        · obtain ⟨job', hsame, hof⟩ := hnow.ofJob chunk hold
          exact ⟨job', hjob'.trans (hjob.symm.trans hsame), hof⟩
        · exact ⟨job, hjob', hadded chunk hnew⟩
      · obtain rfl : job = job' := Option.some.inj (hjob'.symm.trans hsame)
        rw [hpool] at hlive
        exact hspeaks hlive callbacks now (hnow.speaks job hjob hlive)
  | ends job hpending hjob hnone hadded hwhole =>
      have hended : endedBy b b' = [job] := by rw [endedBy, hnone, hjob]; rfl
      rw [hended, hadded, List.append_nil]
      have hrun : b.pool.isCancelled job.cancel = false →
          now = sentenceRun soxr deviceRate job callbacks :=
        fun hlive => hwhole hlive callbacks now (hnow.speaks job hjob hlive)
      refine ⟨[], hruns.close ⟨fun chunk hchunk => ?_, hrun, fun hlive => ?_⟩, .nothing hnone⟩
      · obtain ⟨job', hsame, hof⟩ := hnow.ofJob chunk hchunk
        obtain rfl : job = job' := Option.some.inj (hjob.symm.trans hsame)
        exact hof
      · rw [hrun hlive]
        exact sentenceRun_wellTerminated soxr deviceRate job callbacks
  | rests hpending hnone hnone' hadded =>
      have hended : endedBy b b' = [] := by rw [endedBy, hnone', hnone]; rfl
      rw [hended, hadded, List.map_nil, List.append_nil, List.append_nil]
      rw [hnow.eq_nil hnone] at hruns
      exact ⟨[], hruns, .nothing hnone'⟩

theorem SpeechAccounts.speaks {l : SpeechLedger} (ha : SpeechAccounts soxr deviceRate b l)
    (h : SpeechStep soxr deviceRate b b' heard added) (hpool : b'.pool = b.pool) :
    SpeechAccounts soxr deviceRate b' { l with
      spoken := l.spoken ++ (endedBy b b').map fun job => ⟨job, l.callbacks⟩
      callbacks := if b.io.job = none then [] else l.callbacks ++ heard
      enqueued := l.enqueued ++ added } := by
  obtain ⟨harrival, now, hruns, hnow⟩ := ha
  refine ⟨?_, h.runs hpool hruns hnow⟩
  have hended : ((endedBy b b').map fun job => (⟨job, l.callbacks⟩ : SpokenJob)).map SpokenJob.job =
      endedBy b b' := by
    rw [List.map_map]
    exact List.map_id _
  have hjobs : (l.spoken ++ (endedBy b b').map fun job => (⟨job, l.callbacks⟩ : SpokenJob)).map
      SpokenJob.job ++ b'.io.job.toList ++ b'.pending =
        l.spoken.map SpokenJob.job ++ b.io.job.toList ++ b.pending := by
    rw [List.map_append, hended, List.append_assoc, List.append_assoc,
      ← List.append_assoc (endedBy b b'), h.jobs, ← List.append_assoc]
  rw [← hjobs] at harrival
  exact harrival

/-- The others hear and enqueue nothing. -/
theorem SpeechAccounts.event {l : SpeechLedger} {es : List LlmSentence}
    (ha : SpeechAccounts soxr deviceRate b l) (hsame : SameWork b b') (h : EventEntry b b' es)
    (hpool : ∀ tok, b.pool.isCancelled tok = true → b'.pool.isCancelled tok = true) :
    SpeechAccounts soxr deviceRate b' { l with
      handled := l.handled ++ es
      callbacks := if b.io.job = none then [] else l.callbacks } := by
  obtain ⟨harrival, now, hruns, hnow⟩ := ha
  have hlive : ∀ tok, b'.pool.isCancelled tok = false → b.pool.isCancelled tok = false := by
    intro tok htok
    by_contra hcancelled
    rw [hpool tok (by simpa using hcancelled)] at htok
    cases htok
  refine ⟨?_, now, ?_, ?_, fun job hjob hjobLive => ?_⟩
  · rw [hsame.io]
    exact h.arrival harrival
  · exact hruns.imp fun spoken chunks hrun => ⟨hrun.ofJob, fun h => hrun.whole (hlive _ h),
      fun h => hrun.terminated (hlive _ h)⟩
  · rw [hsame.io]
    exact hnow.ofJob
  · rw [hsame.io] at hjob ⊢
    have hsome : b.io.job ≠ none := by rw [hjob]; exact Option.some_ne_none job
    rw [if_neg hsome]
    exact hnow.speaks job hjob (hlive _ hjobLive)

end

/-! ## Runs -/

theorem TtsIoStep.deviceRate {soxr : Soxr ρ} {q q' : PlaybackQueue} {b b' : TtsBridge ρ}
    (h : TtsIoStep soxr q b b' q') : b'.deviceRate = b.deviceRate := by
  cases h <;> rfl

namespace TtsBridge

variable {b b' : TtsBridge ρ}

theorem onSubmit_deviceRate {soxr : Soxr ρ} {e : SubmitEvent} (h : b.onSubmit soxr e = some b') :
    b'.deviceRate = b.deviceRate := by
  cases onSubmit_eq_some h <;> rfl

theorem onEvent_deviceRate {e : Event} (h : b.onEvent e = some b') :
    b'.deviceRate = b.deviceRate := by
  have hsentence : ∀ e, (b.onLlmSentence e).deviceRate = b.deviceRate := by
    intro e
    unfold onLlmSentence tokenFor
    cases b.tokens e.turn <;> (dsimp only; split <;> rfl)
  have hinterrupted : ∀ e, (b.onUserInterrupted e).deviceRate = b.deviceRate := by
    intro e
    unfold onUserInterrupted tokenToCancel
    cases b.tokens e.turn <;> rfl
  unfold onEvent at h
  split at h
  next =>
    cases e with
    | llmSentence e =>
        cases h
        exact hsentence e
    | userInterrupted e =>
        cases h
        exact hinterrupted e
    | _ =>
        cases h
        rfl
  next => cases h

end TtsBridge

namespace BridgeHost

variable {soxr : Soxr ρ} {deviceRate : Nat} {s s' : BridgeHost ρ} {l : SpeechLedger}

/-- The device stays, and what is cancelled stays cancelled. -/
theorem step_frame {a : BridgeAction} (h : s.step soxr a = some s') :
    s'.bridge.deviceRate = s.bridge.deviceRate ∧
      ∀ tok, s.bridge.pool.isCancelled tok = true → s'.bridge.pool.isCancelled tok = true := by
  cases a with
  | event e =>
      obtain ⟨b', hb', rfl⟩ := Option.map_eq_some_iff.mp h
      exact ⟨TtsBridge.onEvent_deviceRate hb', (TtsBridge.onEvent_step hb').2.2.pool⟩
  | handler =>
      obtain ⟨⟨b', q'⟩, hb', rfl⟩ := Option.map_eq_some_iff.mp h
      obtain ⟨turn, tok, rest, -, rfl, -⟩ | ⟨turn, -, rfl, -⟩ :=
        TtsBridge.handlerStep_eq_some hb'
      · exact ⟨rfl, fun _ htok => TokenPool.isCancelled_cancel.mpr (.inr htok)⟩
      · exact ⟨rfl, fun _ htok => htok⟩
  | io =>
      obtain ⟨⟨b', q'⟩, hb', rfl⟩ := Option.map_eq_some_iff.mp h
      have hio := TtsBridge.ioStep_eq_some hb'
      exact ⟨hio.deviceRate, fun _ htok => hio.frame.1 ▸ htok⟩
  | submit e =>
      obtain ⟨b', hb', rfl⟩ := Option.map_eq_some_iff.mp h
      refine ⟨TtsBridge.onSubmit_deviceRate hb', fun _ htok => ?_⟩
      rw [← (TtsBridge.onSubmit_hand (q := s.queue) hb').2.1] at htok
      exact htok
  | unsubscribe =>
      obtain ⟨b', hb', rfl⟩ := Option.map_eq_some_iff.mp h
      obtain ⟨-, rfl⟩ := TtsBridge.unsubscribe_eq_some hb'
      exact ⟨rfl, fun _ htok => htok⟩
  | stop =>
      obtain ⟨b', hb', rfl⟩ := Option.map_eq_some_iff.mp h
      refine ⟨?_, (TtsBridge.stop_leavesIo hb').1.pool⟩
      obtain ⟨-, rfl⟩ := TtsBridge.stop_eq_some hb'
      rfl
  | cancel tok =>
      cases h
      exact ⟨rfl, fun _ htok => TokenPool.isCancelled_cancel.mpr (.inr htok)⟩
  | playback q =>
      cases h
      exact ⟨rfl, fun _ htok => htok⟩

/-- The invariant of a run. -/
structure SpeechInv (soxr : Soxr ρ) (deviceRate : Nat) (w : BridgeHost ρ × SpeechLedger) : Prop where
  rate : w.1.bridge.deviceRate = deviceRate
  accounts : SpeechAccounts soxr deviceRate w.1.bridge w.2

theorem SpeechAccounts.step {a : BridgeAction} (ha : SpeechAccounts soxr deviceRate s.bridge l)
    (hrate : s.bridge.deviceRate = deviceRate) (hcap : s.queue.cap = 0)
    (h : s.step soxr a = some s') :
    SpeechAccounts soxr deviceRate s'.bridge (noteSpeech soxr l s a) := by
  have hothers : a ≠ .io → (∀ e, a ≠ .submit e) → callbackOf a = [] →
      enqueuedBy s.queue s'.queue a = [] →
      SpeechAccounts soxr deviceRate s'.bridge (noteSpeech soxr l s a) := by
    intro hio hsubmit hheard hadded
    obtain ⟨hsame, hentry⟩ := step_others h hio hsubmit
    have hended : endedBy s.bridge s'.bridge = [] := by
      unfold endedBy
      split
      next hnone =>
        rw [hsame.io] at hnone
        rw [hnone]
        rfl
      next => rfl
    simp only [noteSpeech, h, hended, hheard, hadded, List.map_nil, List.append_nil]
    exact ha.event hsame hentry (step_frame h).2
  cases a with
  | io =>
      simp only [noteSpeech, h, sentenceOf, callbackOf, List.append_nil]
      obtain ⟨⟨b', q'⟩, hb', rfl⟩ := Option.map_eq_some_iff.mp h
      have hio := TtsBridge.ioStep_eq_some hb'
      obtain ⟨added, hqueue, hspeech⟩ := hio.speech deviceRate hcap
      have hadded : enqueuedBy s.queue q' .io = added := by
        rw [enqueuedBy, hqueue, List.drop_left]
      rw [hadded]
      simpa only [List.append_nil] using ha.speaks hspeech hio.frame.1
  | submit e =>
      simp only [noteSpeech, h, sentenceOf, callbackOf, List.append_nil]
      obtain ⟨b', hb', rfl⟩ := Option.map_eq_some_iff.mp h
      have hspeech := TtsBridge.onSubmit_speech hb'
      rw [hrate] at hspeech
      exact ha.speaks hspeech (TtsBridge.onSubmit_hand (q := s.queue) hb').2.1
  | _ => exact hothers nofun nofun rfl rfl

theorem SpeechInv.step {w w' : BridgeHost ρ × SpeechLedger} {a : BridgeAction}
    (hi : SpeechInv soxr deviceRate w) (hcap : w.1.queue.cap = 0)
    (h : watch (step soxr) (noteSpeech soxr) w a = some w') : SpeechInv soxr deviceRate w' := by
  obtain ⟨hstep, hnote⟩ := watch_eq_some.mp h
  refine ⟨(step_frame hstep).1.trans hi.rate, ?_⟩
  rw [hnote]
  exact SpeechAccounts.step hi.accounts hi.rate hcap hstep

/-- A step of the I/O thread with a job in hand, with its entry in the ledger. -/
theorem watch_io {b b' : TtsBridge ρ} {q q' : PlaybackQueue} {job : Job} {added : List AudioChunk}
    (h : b.ioStep soxr q = some (b', q')) (hjob : b.io.job = some job)
    (hqueue : q'.chunks = q.chunks ++ added) :
    watch (step soxr) (noteSpeech soxr) (⟨b, q⟩, l) .io = some (⟨b', q'⟩, { l with
      spoken := l.spoken ++ if b'.io.job = none then [⟨job, l.callbacks⟩] else []
      enqueued := l.enqueued ++ added }) := by
  have hstep : step soxr ⟨b, q⟩ .io = some ⟨b', q'⟩ := by rw [step, h]; rfl
  have hadded : enqueuedBy q q' .io = added := by rw [enqueuedBy, hqueue, List.drop_left]
  refine watch_eq_some.mpr ⟨hstep, ?_⟩
  simp only [noteSpeech, hstep, hadded, endedBy, hjob, sentenceOf, callbackOf,
    List.append_nil]
  split <;> rfl

/-- In an unlimited queue the end of a sentence needs no second poll. -/
theorem run_ends {job : Job} {synth : Synth ρ} (hpc : s.bridge.io = .submitted job synth)
    (hlive : s.bridge.pool.isCancelled job.cancel = false) (hcap : s.queue.cap = 0) :
    ∃ w, run (watch (step soxr) (noteSpeech soxr)) (s, l) [.io, .io, .io] = some w ∧
      w.2.spoken = l.spoken ++ [⟨job, l.callbacks⟩] ∧
      w.2.enqueued = l.enqueued ++ [endChunk job (synth.tail soxr)] := by
  obtain ⟨b, q⟩ := s
  dsimp only at hpc hlive hcap
  have hroom : q.full = false := full_of_unlimited hcap
  obtain ⟨b₁, hb₁, hpc₁, hpool₁⟩ : ∃ b₁, b.ioStep soxr q = some (b₁, q) ∧
      b₁.io = .enqueuingEnd job synth.gotError (synth.tail soxr) ∧ b₁.pool = b.pool := by
    simp [TtsBridge.ioStep, hpc, hlive]
  obtain ⟨b₂, hb₂, hpc₂, hpool₂⟩ : ∃ b₂,
      b₁.ioStep soxr q = some (b₂, q.append (endChunk job (synth.tail soxr))) ∧
        b₂.io = .closing job synth.gotError ∧ b₂.pool = b₁.pool := by
    simp [TtsBridge.ioStep, hpc₁, PlaybackQueue.enqueuePoll, hroom]
  obtain ⟨b₃, hb₃, hpc₃⟩ : ∃ b₃,
      b₂.ioStep soxr (q.append (endChunk job (synth.tail soxr))) =
          some (b₃, q.append (endChunk job (synth.tail soxr))) ∧ b₃.io = .returned := by
    rw [← hpool₁, ← hpool₂] at hlive
    cases herror : synth.gotError <;> simp [TtsBridge.ioStep, hpc₂, hlive, herror]
  refine ⟨_, run_cons_eq_some.mpr ⟨_, watch_io hb₁ (by rw [hpc]; rfl) (List.append_nil _).symm,
    run_cons_eq_some.mpr ⟨_, watch_io hb₂ (by rw [hpc₁]; rfl) rfl, run_cons_eq_some.mpr
      ⟨_, watch_io hb₃ (by rw [hpc₂]; rfl) (List.append_nil _).symm, rfl⟩⟩⟩, ?_, ?_⟩
  · simp [hpc₁, hpc₂, hpc₃, TtsIoPc.job]
  · simp

/-- Whatever the submit function calls back and whenever tokens are cancelled, what an
unlimited queue is given is one run of chunks for each job, in the order in which the sentences
arrive. A run has the turn and the number of its sentence, and while its token is not cancelled
it is the audio in its order and then its one end. -/
theorem run_sentenceRuns {queue : PlaybackQueue} {acts : List BridgeAction}
    (hrun : run (watch (step soxr) (noteSpeech soxr)) (⟨{ deviceRate := deviceRate }, queue⟩, {})
      acts = some (s, l))
    (hunlimited : Always (watch (step soxr) (noteSpeech soxr)) (fun w _ => w.1.queue.cap = 0)
      (⟨{ deviceRate := deviceRate }, queue⟩, {}) acts) :
    ((l.spoken.map SpokenJob.job ++ s.bridge.io.job.toList ++ s.bridge.pending).map
        Job.sentence).Sublist l.handled ∧
      (∃ now, Stretched (RunOf soxr deviceRate s.bridge.pool) l.spoken now l.enqueued ∧
        ∀ chunk ∈ now, ∃ job, s.bridge.io.job = some job ∧ OfJob job chunk) ∧
      ∀ job synth, s.bridge.io = .submitted job synth →
        s.bridge.pool.isCancelled job.cancel = false → s.queue.cap = 0 →
          ∃ w, run (watch (step soxr) (noteSpeech soxr)) (s, l) [.io, .io, .io] = some w ∧
            w.2.spoken = l.spoken ++ [⟨job, l.callbacks⟩] ∧
            w.2.enqueued = l.enqueued ++ [endChunk job (synth.tail soxr)] := by
  have hinitial : SpeechInv soxr deviceRate (⟨{ deviceRate := deviceRate }, queue⟩, {}) :=
    ⟨rfl, List.Sublist.refl _, [], stretched_nil, .nothing rfl⟩
  have hinv : SpeechInv soxr deviceRate (s, l) :=
    run_invariant (fun _ _ _ hi hok hs => hi.step hok hs) hrun hunlimited hinitial
  obtain ⟨harrival, now, hruns, hnow⟩ := hinv.accounts
  exact ⟨harrival, ⟨now, hruns, hnow.ofJob⟩, fun job synth hpc hlive hcap =>
    run_ends hpc hlive hcap⟩

/-- Synthesis fails after some audio at half the device's rate, then before any. -/
def failingSentences : List BridgeAction :=
  [.event (.llmStarted { turn := 1 }), .event (.llmSentence { turn := 1 }),
    .event (.llmSentence { turn := 1, seq := 1 }), .io, .io, .io, .submit (.onFormat 24000),
    .submit (.onAudio [1, 2]), .io, .submit .onError, .submit (.onAudio [3]), .submit .returns, .io,
    .io, .io, .io, .io, .io, .io, .submit .onError, .submit .returns, .io, .io, .io, .io]

theorem run_sentenceRuns_failingSentences : ∃ (s : BridgeHost (List Sample)) (l : SpeechLedger),
    run (watch (step Soxr.twice) (noteSpeech Soxr.twice))
        (⟨{ deviceRate := 48000 }, {}⟩, {}) failingSentences = some (s, l) ∧
      l.spoken.length = 2 ∧ l.enqueued.map (·.samples) = [[1, 1], [2, 2], []] ∧
      l.enqueued.map (·.endOfSentence) = [false, true, true] ∧
      ∃ now, Stretched (RunOf Soxr.twice 48000 s.bridge.pool) l.spoken now l.enqueued := by
  obtain ⟨⟨s, l⟩, hrun, hspoken, hsamples, hends⟩ : ∃ w,
      run (watch (step Soxr.twice) (noteSpeech Soxr.twice))
          (⟨{ deviceRate := 48000 }, {}⟩, {}) failingSentences = some w ∧
        w.2.spoken.length = 2 ∧ w.2.enqueued.map (·.samples) = [[1, 1], [2, 2], []] ∧
        w.2.enqueued.map (·.endOfSentence) = [false, true, true] := by
    refine ⟨(run (watch (step Soxr.twice) (noteSpeech Soxr.twice))
      (⟨{ deviceRate := 48000 }, {}⟩, {}) failingSentences).get (by decide +kernel), ?_,
      by decide +kernel, by decide +kernel, by decide +kernel⟩
    exact (Option.some_get _).symm
  obtain ⟨now, hruns, -⟩ := (run_sentenceRuns hrun (by decide +kernel)).2.1
  exact ⟨s, l, hrun, hspoken, hsamples, hends, now, hruns⟩

end BridgeHost

end Acva.Dialogue
