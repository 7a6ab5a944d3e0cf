import Acva.Audio.LiveSink
import Acva.Orchestrator.SttStack

/-! # The audio between clear and commit

The pre-padding of an utterance and the chunk that matured it are given to the
live sink before `SpeechStarted` is published, so `begin_utterance` comes too late
for them whatever the order of the threads: what is pushed between the clear and
the commit is never all of the utterance.
-/

namespace Acva.Orchestrator

open Acva.Audio Acva.Bus Acva.Playback Acva.Runs Acva.Stt

/-- A call of the live sink. -/
structure LiveCall where
  number : Nat
  utterance : UtteranceNo
  samples : List Sample
deriving DecidableEq, Repr

/-- What got into the resampler since the clear of an utterance and up to its commit. -/
structure Window where
  utterance : UtteranceNo
  owner : UtteranceId
  pushed : List LiveCall := []
  committed : Bool := false
deriving DecidableEq, Repr

/-- All calls of the live sink, the utterance that the worker begins, and the windows. -/
structure Streaming where
  live : List LiveCall := []
  beginning : UtteranceNo := 0
  windows : List Window := []
deriving DecidableEq, Repr

/-- The samples of the calls in order, each with the number of the call that brought it. -/
def taggedSamples (calls : List LiveCall) : List (Nat × Sample) :=
  calls.flatMap fun call => call.samples.map fun x => (call.number, x)

namespace Window

/-- The server is given the utterance: the samples that the sink got for it, in order, and
no sample of another call. -/
def Faithful (live : List LiveCall) (w : Window) : Prop :=
  taggedSamples w.pushed = taggedSamples (live.filter fun call => call.utterance = w.utterance)

/-- The sink got audio of the utterance before all that was pushed since the clear. -/
def Missed (live : List LiveCall) (w : Window) : Prop :=
  ∃ call ∈ live, call.utterance = w.utterance ∧ call.samples ≠ [] ∧
    ∀ pushed ∈ w.pushed, call.number < pushed.number

instance (live : List LiveCall) (w : Window) : Decidable (w.Faithful live) := by
  unfold Faithful
  infer_instance

def take (call : LiveCall) (w : Window) : Window :=
  if w.committed = true then w else { w with pushed := w.pushed ++ [call] }

def close (owner : UtteranceId) (w : Window) : Window :=
  if w.owner = owner then { w with committed := true } else w

theorem Missed.mono {live live' : List LiveCall} {w : Window} (h : live ⊆ live')
    (hw : w.Missed live) : w.Missed live' := by
  obtain ⟨call, hcall, hmissed⟩ := hw
  exact ⟨call, h hcall, hmissed⟩

theorem Missed.close {live : List LiveCall} {owner : UtteranceId} {w : Window}
    (hw : w.Missed live) : (w.close owner).Missed live := by
  unfold Window.close
  split
  · exact hw
  · exact hw

/-- A call that comes after all the others does not make up for the missed one. -/
theorem Missed.take {live : List LiveCall} {next : LiveCall} {w : Window}
    (hnext : ∀ call ∈ live, call.number < next.number) (hw : w.Missed live) :
    (w.take next).Missed live := by
  unfold Window.take
  split
  · exact hw
  · obtain ⟨call, hcall, hutterance, hsamples, hmissed⟩ := hw
    refine ⟨call, hcall, hutterance, hsamples, fun pushed hpushed => ?_⟩
    rcases List.mem_append.mp hpushed with hold | hnew
    · exact hmissed pushed hold
    · rw [List.mem_singleton.mp hnew]
      exact hnext call hcall

/-- The first sample of the missed call is nowhere among the pushed ones. -/
theorem Missed.not_faithful {live : List LiveCall} {w : Window} (hw : w.Missed live) :
    ¬ w.Faithful live := by
  intro hfaithful
  obtain ⟨call, hcall, hutterance, hsamples, hmissed⟩ := hw
  obtain ⟨x, hx⟩ := List.exists_mem_of_ne_nil call.samples hsamples
  have hown : call ∈ live.filter fun call => call.utterance = w.utterance :=
    List.mem_filter.mpr ⟨hcall, by simpa using hutterance⟩
  have htagged : (call.number, x) ∈ taggedSamples w.pushed := by
    rw [hfaithful]
    exact List.mem_flatMap.mpr ⟨call, hown, List.mem_map_of_mem hx⟩
  obtain ⟨pushed, hpushed, hmem⟩ := List.mem_flatMap.mp htagged
  obtain ⟨_, _, heq⟩ := List.mem_map.mp hmem
  have hnumber : pushed.number = call.number := congrArg Prod.fst heq
  exact Nat.ne_of_gt (hmissed pushed hpushed) hnumber

end Window

namespace SttStack

variable {ρ σ : Type}

def noteLive (m : Streaming) (s : SttStack ρ σ) : Streaming :=
  match s.todo with
  | (number, .live samples) :: _ =>
      let call : LiveCall := { number := m.live.length, utterance := number, samples := samples }
      { m with
        live := m.live ++ [call]
        windows :=
          if (s.session.client.listening s.session.pool).isSome = true then
            m.windows.map (Window.take call)
          else m.windows }
  | _ => m

def noteSent (m : Streaming) (after : List AfterLock) : Streaming :=
  match after with
  | .send (.clear owner) :: _ =>
      { m with windows := m.windows ++ [{ utterance := m.beginning, owner := owner }] }
  | .send (.commit owner) :: _ => { m with windows := m.windows.map (Window.close owner) }
  | _ => m

def noteStreaming (m : Streaming) (s : SttStack ρ σ) : SttAction → Streaming
  | .output => noteLive m s
  | .startedWorker => { m with beginning := s.started.items.head?.getD m.beginning }
  | .session (.caller thread) => noteSent m (s.session.callers thread)
  | _ => m

/-! ## Audio goes before its announcement -/

/-- The live sink has been given audio of the utterance. -/
def Heard (live : List LiveCall) (number : UtteranceNo) : Prop :=
  ∃ call ∈ live, call.utterance = number ∧ call.samples ≠ []

/-- No utterance is published before the sink got audio of it. -/
def Announced : (UtteranceNo → Prop) → List (UtteranceNo × PipelineOutput) → Prop
  | _, [] => True
  | heard, (number, .live samples) :: outs =>
      Announced (fun k => (k = number ∧ samples ≠ []) ∨ heard k) outs
  | heard, (number, .publish (.speechStarted _)) :: outs => heard number ∧ Announced heard outs
  | heard, _ :: outs => Announced heard outs

theorem Announced.mono {heard heard' : UtteranceNo → Prop}
    {outs : List (UtteranceNo × PipelineOutput)} (hmono : ∀ k, heard k → heard' k)
    (h : Announced heard outs) : Announced heard' outs := by
  induction outs generalizing heard heard' with
  | nil => trivial
  | cons out outs ih =>
      obtain ⟨number, out⟩ := out
      cases out with
      | live samples => exact ih (fun k hk => hk.imp_right (hmono k)) h
      | publish e =>
          cases e with
          | speechStarted e => exact ⟨hmono number h.1, ih hmono h.2⟩
          | _ => exact ih hmono h
      | apmBlock block => exact ih hmono h
      | utteranceReady slice => exact ih hmono h

theorem Announced.append {heard : UtteranceNo → Prop}
    {outs outs' : List (UtteranceNo × PipelineOutput)} (h : Announced heard outs)
    (h' : Announced heard outs') : Announced heard (outs ++ outs') := by
  induction outs generalizing heard with
  | nil => exact h'
  | cons out outs ih =>
      obtain ⟨number, out⟩ := out
      cases out with
      | live samples => exact ih h (h'.mono fun k hk => .inr hk)
      | publish e =>
          cases e with
          | speechStarted e => exact ⟨h.1, ih h.2 h'⟩
          | _ => exact ih h h'
      | apmBlock block => exact ih h h'
      | utteranceReady slice => exact ih h h'

/-- Nothing of an utterance's start is published. -/
theorem announced_of_quiet {heard : UtteranceNo → Prop} {number : UtteranceNo}
    {outs : List PipelineOutput} (h : ∀ e, .publish (.speechStarted e) ∉ outs) :
    Announced heard (outs.map fun out => (number, out)) := by
  induction outs generalizing heard with
  | nil => trivial
  | cons out outs ih =>
      have htail : ∀ e, .publish (.speechStarted e) ∉ outs :=
        fun e he => h e (List.mem_cons_of_mem out he)
      cases out with
      | live samples => exact ih htail
      | publish e =>
          cases e with
          | speechStarted e => exact absurd List.mem_cons_self (h e)
          | _ => exact ih htail
      | apmBlock block => exact ih htail
      | utteranceReady slice => exact ih htail

theorem not_speechStarted_of_offer (slice : Option AudioSlice) (p : AudioPipeline ρ)
    (e : SpeechStarted) : .publish (.speechStarted e) ∉ (p.offerSlice slice).2 := by
  unfold AudioPipeline.offerSlice
  split
  · simp
  · split <;> simp

theorem onOutcome_announced (heard : UtteranceNo → Prop) (number : UtteranceNo)
    (outcome : FrameOutcome) {chunk : List Sample} (hchunk : chunk ≠ []) (t : TimePoint)
    {p : AudioPipeline ρ} (hsink : p.liveSink = true) :
    (p.onOutcome outcome chunk t).1.liveSink = true ∧
      Announced heard ((p.onOutcome outcome chunk t).2.map fun out => (number, out)) := by
  cases outcome with
  | none => exact ⟨hsink, trivial⟩
  | falseStart => exact ⟨hsink, trivial⟩
  | speechStarted =>
      refine ⟨hsink, ?_⟩
      simp only [AudioPipeline.onOutcome, AudioPipeline.startUtterance,
        AudioPipeline.onsetReplay, hsink, if_true]
      split
      · exact ⟨.inl ⟨rfl, hchunk⟩, trivial⟩
      · exact ⟨.inl ⟨rfl, hchunk⟩, trivial⟩
  | speechEnded =>
      refine ⟨(AudioPipeline.offerSlice_offered _ _).liveSink.trans hsink, ?_⟩
      refine announced_of_quiet fun e he => ?_
      rcases List.mem_cons.mp he with hended | hready
      · cases hended
      · exact not_speechStarted_of_offer _ _ e hready

theorem processFrame_announced {ext : FrontEnd ρ} {frame : AudioFrame} {p p' : AudioPipeline ρ}
    {outs : List PipelineOutput} (heard : UtteranceNo → Prop) (number : UtteranceNo)
    (hsink : p.liveSink = true) (h : p.processFrame ext frame = some (p', outs)) :
    p'.liveSink = true ∧ Announced heard (outs.map fun out => (number, out)) := by
  unfold AudioPipeline.processFrame at h
  cases hprepare : p.prepare ext frame with
  | none => simp [hprepare] at h
  | some prepared =>
      obtain ⟨chunk, q, apm⟩ := prepared
      obtain ⟨-, -, -, hq, blocks, rfl⟩ := AudioPipeline.prepare_eq_some hprepare
      have hsink' : q.liveSink = true := hq.trans hsink
      have hblocks : Announced heard
          ((blocks.map PipelineOutput.apmBlock).map fun out => (number, out)) :=
        announced_of_quiet fun e he => by simp at he
      simp only [hprepare] at h
      by_cases hchunk : chunk = []
      · rw [if_pos hchunk] at h
        cases h
        exact ⟨hsink', hblocks⟩
      · rw [if_neg hchunk] at h
        have heardChunk := AudioPipeline.hear_heard ext chunk frame.capturedAt q
        cases h
        have hout := onOutcome_announced heard number (q.hear ext chunk frame.capturedAt).2
          hchunk frame.capturedAt (heardChunk.liveSink.trans hsink')
        refine ⟨hout.1, ?_⟩
        rw [List.map_append]
        refine hblocks.append ?_
        show Announced heard (List.map _ (_ ++ _))
        rw [List.map_append]
        refine Announced.append (announced_of_quiet fun e he => ?_) hout.2
        split at he <;> simp at he

/-! ## One step -/

structure StreamInv (s : SttStack ρ σ) (m : Streaming) : Prop where
  sink : s.pipeline.liveSink = true
  numbers : ∀ call ∈ m.live, call.number < m.live.length
  todo : Announced (Heard m.live) s.todo
  queued : ∀ number ∈ s.started.items, Heard m.live number
  beginning : ∀ thread owner, .send (.clear owner) ∈ s.session.callers thread →
    Heard m.live m.beginning
  windows : ∀ w ∈ m.windows, w.Missed m.live

/-- Only the begin of an utterance makes a thread clear the server's buffer. -/
theorem enter_clears {s s' : RealtimeSession σ} {thread : Nat}
    {r : RealtimeSttClient σ × List AfterLock} (h : s.enter thread r = some s')
    (hr : ∀ owner, .send (.clear owner) ∉ r.2) {t : Nat} {owner : UtteranceId}
    (hclear : .send (.clear owner) ∈ s'.callers t) : .send (.clear owner) ∈ s.callers t := by
  unfold RealtimeSession.enter at h
  split at h
  · cases h
    by_cases ht : t = thread
    · subst ht
      simp only [Function.update_self] at hclear
      exact absurd hclear (hr owner)
    · simpa only [Function.update_of_ne ht] using hclear
  · cases h

theorem pushAudio_clears (soxr : Soxr σ) (pool : Dialogue.TokenPool) (samples : List Sample)
    (c : RealtimeSttClient σ) (owner : UtteranceId) :
    .send (.clear owner) ∉ (c.pushAudio soxr pool samples).2 := by
  simp only [RealtimeSttClient.pushAudio]
  split
  · simp
  · split <;> simp

theorem endUtterance_clears (soxr : Soxr σ) (c : RealtimeSttClient σ) (owner : UtteranceId) :
    .send (.clear owner) ∉ (c.endUtterance soxr).2 := by
  simp only [RealtimeSttClient.endUtterance]
  split
  · simp
  · split
    · simp
    · split
      · simp
      · split <;> simp

theorem Heard.mono {live live' : List LiveCall} (h : live ⊆ live') {number : UtteranceNo}
    (hn : Heard live number) : Heard live' number := by
  obtain ⟨call, hcall, hheard⟩ := hn
  exact ⟨call, h hcall, hheard⟩

/-- Nothing was called or sent, and the rest of the frame is as well announced as before. -/
theorem StreamInv.keep {s s' : SttStack ρ σ} {m : Streaming} (hi : StreamInv s m)
    (hsink : s'.pipeline.liveSink = true) (htodo : Announced (Heard m.live) s'.todo)
    (hqueued : ∀ number ∈ s'.started.items, Heard m.live number)
    (hclears : ∀ thread owner, .send (.clear owner) ∈ s'.session.callers thread →
      .send (.clear owner) ∈ s.session.callers thread) : StreamInv s' m :=
  ⟨hsink, hi.numbers, htodo, hqueued, fun t o hc => hi.beginning t o (hclears t o hc), hi.windows⟩

theorem StreamInv.live {soxr : Soxr σ} {s : SttStack ρ σ} {m : Streaming}
    {session : RealtimeSession σ} {number : UtteranceNo} {samples : List Sample}
    {rest : List (UtteranceNo × PipelineOutput)} (hi : StreamInv s m)
    (htodo : s.todo = (number, .live samples) :: rest)
    (h : s.session.step soxr (.pushAudio pipelineThread samples) = some session) :
    StreamInv { s with session := session, todo := rest } (noteLive m s) := by
  have hlive : (noteLive m s).live = m.live ++ [⟨m.live.length, number, samples⟩] := by
    simp only [noteLive, htodo]
  have hgrows : m.live ⊆ (noteLive m s).live := by
    rw [hlive]
    exact List.subset_append_left _ _
  have hannounced := hi.todo
  rw [htodo] at hannounced
  constructor
  · exact hi.sink
  · intro call hcall
    rw [hlive] at hcall ⊢
    rw [List.length_append, List.length_singleton]
    rcases List.mem_append.mp hcall with hold | hnew
    · exact Nat.lt_succ_of_lt (hi.numbers call hold)
    · rw [List.mem_singleton.mp hnew]
      exact Nat.lt_succ_self _
  · refine hannounced.mono fun k hk => ?_
    rcases hk with ⟨rfl, hsamples⟩ | hold
    · have hnew : (⟨m.live.length, k, samples⟩ : LiveCall) ∈ (noteLive m s).live := by
        rw [hlive]
        exact List.mem_append_right _ (List.mem_singleton.mpr rfl)
      exact ⟨_, hnew, rfl, hsamples⟩
    · exact hold.mono hgrows
  · exact fun k hk => (hi.queued k hk).mono hgrows
  · intro t owner hclear
    have hbeginning : (noteLive m s).beginning = m.beginning := by
      simp only [noteLive, htodo]
    rw [hbeginning]
    exact (hi.beginning t owner (enter_clears h
      (pushAudio_clears soxr s.session.pool samples s.session.client) hclear)).mono hgrows
  · -- the new call comes after the one that every window has missed
    intro w hw
    refine Window.Missed.mono hgrows ?_
    simp only [noteLive, htodo] at hw
    split at hw
    · obtain ⟨w, hold, rfl⟩ := List.mem_map.mp hw
      exact (hi.windows w hold).take hi.numbers
    · exact hi.windows w hw

theorem StreamInv.output {soxr : Soxr σ} {s s' : SttStack ρ σ} {m : Streaming}
    (hi : StreamInv s m) (h : s.onOutput soxr = some s') : StreamInv s' (noteLive m s) := by
  have hannounced := hi.todo
  unfold onOutput at h
  split at h
  · cases h
  · cases htodo : s.todo with
    | nil =>
        rw [htodo] at h
        cases h
    | cons out rest =>
        obtain ⟨number, out⟩ := out
        rw [htodo] at h hannounced
        cases out with
        | live samples =>
            obtain ⟨session, hsession, rfl⟩ := Option.map_eq_some_iff.mp h
            exact hi.live htodo hsession
        | publish e =>
            simp only [noteLive, htodo]
            cases e with
            | speechStarted e =>
                obtain ⟨r, hpush, rfl⟩ := Option.map_eq_some_iff.mp h
                refine hi.keep hi.sink hannounced.2 (fun k hk => ?_) (fun _ _ hc => hc)
                rcases BoundedQueue.mem_of_mem_push hpush hk with hold | rfl
                · exact hi.queued k hold
                · exact hannounced.1
            | speechEnded e =>
                obtain ⟨r, hpush, rfl⟩ := Option.map_eq_some_iff.mp h
                exact hi.keep hi.sink hannounced hi.queued (fun _ _ hc => hc)
            | _ =>
                cases h
                exact hi.keep hi.sink hannounced hi.queued (fun _ _ hc => hc)
        | apmBlock block =>
            simp only [noteLive, htodo]
            cases h
            exact hi.keep hi.sink hannounced hi.queued (fun _ _ hc => hc)
        | utteranceReady slice =>
            simp only [noteLive, htodo]
            cases h
            exact hi.keep hi.sink hannounced hi.queued (fun _ _ hc => hc)

theorem StreamInv.startedWorker {soxr : Soxr σ} {s s' : SttStack ρ σ} {m : Streaming}
    (hi : StreamInv s m) (h : s.onStarted soxr = some s') :
    StreamInv s' { m with beginning := s.started.items.head?.getD m.beginning } := by
  unfold onStarted at h
  split at h
  next number queue hpop =>
    obtain ⟨session, hsession, rfl⟩ := Option.map_eq_some_iff.mp h
    obtain ⟨x, hx, hitems, hqueue⟩ | ⟨hnone, -⟩ := BoundedQueue.pop_eq_some hpop
    · have hhead : s.started.items.head?.getD m.beginning = x := by
        rw [hitems]
        rfl
      have hheard : Heard m.live x := hi.queued x (by rw [hitems]; exact List.mem_cons_self)
      rw [hhead]
      refine ⟨hi.sink, hi.numbers, hi.todo, fun k hk => ?_, fun _ _ _ => hheard, hi.windows⟩
      exact hi.queued k (by rw [hitems]; exact List.mem_cons_of_mem x hk)
    · cases hnone
  next => cases h

theorem StreamInv.endedWorker {soxr : Soxr σ} {s s' : SttStack ρ σ} {m : Streaming}
    (hi : StreamInv s m) (h : s.onEnded soxr = some s') : StreamInv s' m := by
  unfold onEnded at h
  split at h
  · obtain ⟨session, hsession, rfl⟩ := Option.map_eq_some_iff.mp h
    exact hi.keep hi.sink hi.todo hi.queued fun t owner hclear =>
      enter_clears hsession (endUtterance_clears soxr s.session.client) hclear
  · cases h

theorem StreamInv.sent {soxr : Soxr σ} {s : SttStack ρ σ} {m : Streaming} {thread : Nat}
    {session : RealtimeSession σ} (hi : StreamInv s m)
    (h : s.session.step soxr (.caller thread) = some session) :
    StreamInv { s with session := session } (noteSent m (s.session.callers thread)) := by
  simp only [RealtimeSession.step] at h
  split at h
  next x rest hthread =>
    have hclears : ∀ t owner, .send (.clear owner) ∈ session.callers t →
        .send (.clear owner) ∈ s.session.callers t := by
      intro t owner hclear
      have hcallers : session.callers = Function.update s.session.callers thread rest := by
        cases h
        cases x with
        | send m => rfl
        | call c => rfl
      rw [hcallers] at hclear
      by_cases ht : t = thread
      · subst ht
        rw [Function.update_self] at hclear
        rw [hthread]
        exact List.mem_cons_of_mem x hclear
      · rwa [Function.update_of_ne ht] at hclear
    have hkept : StreamInv { s with session := session } m :=
      hi.keep hi.sink hi.todo hi.queued hclears
    rw [hthread]
    cases x with
    | call c => exact hkept
    | send message =>
        cases message with
        | append samples => exact hkept
        | clear owner =>
            have hheard := hi.beginning thread owner (by rw [hthread]; exact List.mem_cons_self)
            refine { hkept with windows := fun w hw => ?_ }
            rcases List.mem_append.mp hw with hold | hnew
            · exact hi.windows w hold
            · obtain ⟨call, hcall, hutterance, hsamples⟩ := hheard
              rw [List.mem_singleton.mp hnew]
              exact ⟨call, hcall, hutterance, hsamples, fun _ hp => by cases hp⟩
        | commit owner =>
            refine { hkept with windows := fun w hw => ?_ }
            obtain ⟨w, hold, rfl⟩ := List.mem_map.mp hw
            exact (hi.windows w hold).close
  next => cases h

theorem StreamInv.step {ext : FrontEnd ρ} {soxr : Soxr σ} {s s' : SttStack ρ σ} {m : Streaming}
    {a : SttAction} (hi : StreamInv s m) (h : s.step ext soxr a = some s') :
    StreamInv s' (noteStreaming m s a) := by
  cases a with
  | pipeline a =>
      cases a with
      | frame frame =>
          simp only [SttStack.step, onFrame] at h
          split at h
          · obtain ⟨⟨pipeline, outs⟩, hframe, rfl⟩ := Option.map_eq_some_iff.mp h
            obtain ⟨hsink, hannounced⟩ := processFrame_announced (Heard m.live)
              (if startsUtterance outs = true then s.utterances + 1 else s.utterances) hi.sink
              hframe
            exact hi.keep hsink hannounced hi.queued (fun _ _ hc => hc)
          · cases h
      | setTestProbability probability =>
          cases h
          exact hi.keep hi.sink hi.todo hi.queued (fun _ _ hc => hc)
      | release ref =>
          cases h
          exact hi.keep hi.sink hi.todo hi.queued (fun _ _ hc => hc)
  | output => exact hi.output h
  | startedWorker => exact hi.startedWorker h
  | endedWorker => exact hi.endedWorker h
  | session a =>
      cases a with
      | beginUtterance _ _ _ _ => cases h
      | pushAudio _ _ => cases h
      | endUtterance _ => cases h
      | makeToken => cases h
      | cancelToken _ => cases h
      | caller thread =>
          obtain ⟨session, hsession, rfl⟩ := Option.map_eq_some_iff.mp h
          exact hi.sent hsession
      | report e =>
          obtain ⟨session, hsession, rfl⟩ := Option.map_eq_some_iff.mp h
          refine hi.keep hi.sink hi.todo hi.queued fun t owner hclear => ?_
          simp only [RealtimeSession.step] at hsession
          split at hsession
          · obtain ⟨server, -, rfl⟩ := Option.map_eq_some_iff.mp hsession
            exact hclear
          · cases hsession
      | dispatcher =>
          obtain ⟨session, hsession, rfl⟩ := Option.map_eq_some_iff.mp h
          refine hi.keep hi.sink hi.todo hi.queued fun t owner hclear => ?_
          simp only [RealtimeSession.step] at hsession
          split at hsession
          next x rest hrest =>
            cases hsession
            cases x with
            | send m => exact hclear
            | call c => exact hclear
          next => cases hsession
      | connectionLost =>
          cases h
          exact hi.keep hi.sink hi.todo hi.queued (fun _ _ hc => hc)
      | stop =>
          cases h
          exact hi.keep hi.sink hi.todo hi.queued (fun _ _ hc => hc)

/-! ## Runs -/

theorem initial_streamInv (cfg : PipelineConfig) (aecActive : Bool) (frontEnd : ρ)
    (capacity : Nat) (policy : OverflowPolicy) (language : Bytes) :
    StreamInv (initial (σ := σ) cfg aecActive frontEnd capacity policy language) {} where
  sink := rfl
  numbers := fun _ h => by cases h
  todo := trivial
  queued := fun _ h => by cases h
  beginning := fun _ _ h => by cases h
  windows := fun _ h => by cases h

/-- No window ever holds its utterance. -/
theorem run_not_faithful {ext : FrontEnd ρ} {soxr : Soxr σ} {cfg : PipelineConfig}
    {aecActive : Bool} {frontEnd : ρ} {capacity : Nat} {policy : OverflowPolicy}
    {language : Bytes} {s : SttStack ρ σ} {m : Streaming} {acts : List SttAction}
    (hrun : run (watch (step ext soxr) noteStreaming)
      (initial cfg aecActive frontEnd capacity policy language, {}) acts = some (s, m)) :
    ∀ w ∈ m.windows, ¬ w.Faithful m.live := by
  have hi : StreamInv s m :=
    run_preserves (fun w => StreamInv w.1 w.2)
      (fun w a w' hw hs => by
        obtain ⟨hstep, hnote⟩ := watch_eq_some.mp hs
        rw [hnote]
        exact hw.step hstep)
      hrun (initial_streamInv cfg aecActive frontEnd capacity policy language)
  exact fun w hw => (hi.windows w hw).not_faithful

/-- Capture, the workers and the client at their best: nothing waits, and each thread has
finished before the next one moves. -/
def promptUtterance : List SttAction :=
  [.pipeline (.setTestProbability 1), .pipeline (.frame ⟨[1, 2], 0⟩),
    .pipeline (.frame ⟨[3, 4], 2⟩), .output, .output, .output, .startedWorker,
    .session (.caller startedThread), .pipeline (.frame ⟨[5], 3⟩), .output,
    .session (.caller pipelineThread), .pipeline (.setTestProbability 0),
    .pipeline (.frame ⟨[6, 7], 5⟩), .output, .session (.caller pipelineThread),
    .pipeline (.frame ⟨[8, 9], 7⟩), .output, .session (.caller pipelineThread), .output,
    .endedWorker, .session (.caller endedThread)]

/-- One sample takes a millisecond. -/
def slowStack : SttStack Unit Unit :=
  initial AudioPipeline.slowRate false () 256 .dropOldest []

/-- The calls of the sink for the utterance, the first two before its begin. -/
def promptCalls : List LiveCall :=
  [⟨0, 1, [2, 3, 4]⟩, ⟨1, 1, [3, 4]⟩, ⟨2, 1, [5]⟩, ⟨3, 1, [6, 7]⟩, ⟨4, 1, [8, 9]⟩]

def promptWindow : Window where
  utterance := 1
  owner := 0
  pushed := promptCalls.drop 2
  committed := true

theorem promptUtterance_run :
    ∃ s, run (watch (step AudioPipeline.passThrough Soxr.passThrough) noteStreaming)
      (slowStack, {}) promptUtterance =
        some (s, { live := promptCalls, beginning := 1, windows := [promptWindow] }) := by
  have hnoted : (run (watch (step AudioPipeline.passThrough Soxr.passThrough) noteStreaming)
      (slowStack, {}) promptUtterance).map Prod.snd =
        some { live := promptCalls, beginning := 1, windows := [promptWindow] } := by
    decide +kernel
  obtain ⟨⟨s, m⟩, hrun, rfl⟩ := Option.map_eq_some_iff.mp hnoted
  exact ⟨s, hrun⟩

theorem run_not_faithful_promptUtterance : ¬ promptWindow.Faithful promptCalls := by
  obtain ⟨s, hrun⟩ := promptUtterance_run
  exact run_not_faithful hrun promptWindow List.mem_cons_self

/-- The server is not given the pre-padding and the chunk of the onset. -/
theorem promptUtterance_loses_onset :
    ∃ s m, run (watch (step AudioPipeline.passThrough Soxr.passThrough) noteStreaming)
      (slowStack, {}) promptUtterance = some (s, m) ∧ m.windows = [promptWindow] ∧
        promptWindow.pushed.flatMap (·.samples) = [5, 6, 7, 8, 9] ∧
        ¬ ∀ w ∈ m.windows, w.Faithful m.live := by
  obtain ⟨s, hrun⟩ := promptUtterance_run
  refine ⟨s, _, hrun, rfl, by decide, fun hall => ?_⟩
  exact absurd (hall _ List.mem_cons_self) (by decide)

end SttStack

end Acva.Orchestrator
