import Acva.Stt.RealtimeSession
import Acva.Stt.RealtimeWire

/-! # The audio of a realtime session

What the server makes of the texts it gets. The messages do not say which utterance they are
of, so the calls must not overlap: then each commit takes exactly the audio that was pushed
for its utterance, at the rate of the server.
-/

namespace Acva.Stt

open Acva.Audio Acva.Dialogue Acva.Json Acva.Playback Acva.Runs

/-! ## The server's buffer -/

/-- The session as it was updated, the audio that is not committed, and the audio of each
commit. -/
structure Heard where
  model : Bytes := []
  language : Option Bytes := none
  createResponse : Bool := true
  buffer : List Sample := []
  committed : List (List Sample) := []
deriving DecidableEq, Repr

namespace Heard

def apply (h : Heard) : BufferEvent → Heard
  | .update model language createResponse =>
      { h with
        model := model
        language := language
        createResponse := createResponse }
  | .clear => { h with buffer := [] }
  | .append samples => { h with buffer := h.buffer ++ samples }
  | .commit => { h with
      buffer := []
      committed := h.committed ++ [h.buffer] }

/-- A text that cannot be read ends the session. -/
def receive (h : Heard) (text : Bytes) : Option Heard := (readBufferEvent text).map h.apply

def receiveAll : List Bytes → Heard → Option Heard
  | [], h => some h
  | text :: texts, h => (h.receive text).bind (receiveAll texts)

def applyAll (ms : List ClientMessage) (h : Heard) : Heard :=
  ms.foldl (fun h m => h.apply m.bufferEvent) h

theorem applyAll_append (ms ms' : List ClientMessage) (h : Heard) :
    applyAll (ms ++ ms') h = applyAll ms' (applyAll ms h) := List.foldl_append

/-- The messages of the calls leave the session as it was set up. -/
theorem applyAll_session (h : Heard) (ms : List ClientMessage) :
    (h.applyAll ms).model = h.model ∧ (h.applyAll ms).language = h.language ∧
      (h.applyAll ms).createResponse = h.createResponse := by
  induction ms generalizing h with
  | nil => exact ⟨rfl, rfl, rfl⟩
  | cons m ms ih =>
      have hm := ih (h.apply m.bufferEvent)
      cases m with
      | clear owner => exact hm
      | append samples => exact hm
      | commit owner => exact hm

end Heard

/-! ## A stream through the resampler -/

section
variable {ρ : Type} (soxr : Soxr ρ)

/-- What has come out behind the blocks, and the resampler there. -/
def streamed (blocks : List (List Sample)) : List Sample × ρ :=
  soxr.stream RealtimeSttClient.kInputSampleRate RealtimeSttClient.kSpeachesPcmRate blocks

/-- All of the blocks as one stream, up to its end. -/
def converted (blocks : List (List Sample)) : Option (List Sample) :=
  (soxr.flush (streamed soxr blocks).2).map ((streamed soxr blocks).1 ++ ·)

theorem streamed_snoc (blocks : List (List Sample)) (samples : List Sample) :
    streamed soxr (blocks ++ [samples]) =
      ((streamed soxr blocks).1 ++ (soxr.resample samples (streamed soxr blocks).2).1,
        (soxr.resample samples (streamed soxr blocks).2).2) :=
  soxr.stream_concat _ _ blocks samples

/-! ## The blocks of an utterance -/

/-- The blocks that were taken for the latest utterance, and those of each utterance that was
ended. -/
structure Spoken where
  blocks : List (List Sample) := []
  ended : List (List (List Sample)) := []
deriving DecidableEq, Repr

def Spoken.note (w : Spoken) (s : RealtimeSession ρ) : SessionAction → Spoken
  | .beginUtterance _ _ _ _ => if s.client.state = .ready then { w with blocks := [] } else w
  | .pushAudio _ samples =>
      if (s.client.listening s.pool).isSome = true then
        { w with blocks := w.blocks ++ [samples] }
      else w
  | .endUtterance _ =>
      if s.client.active = true ∧ (s.client.resampler.bind soxr.flush).isSome = true then
        { w with ended := w.ended ++ [w.blocks] }
      else w
  | _ => w

end

/-- A call is entered when no other is under way. -/
def Alone {ρ : Type} (s : RealtimeSession ρ) : SessionAction → Prop
  | .beginUtterance _ _ _ _ | .pushAudio _ _ | .endUtterance _ => ∀ thread, s.callers thread = []
  | _ => True

/-- The texts of a session: the update, then a text for each message. -/
def RealtimeSession.texts {ρ : Type} (gen : Nat → Nat → UInt64) (modelId language : Bytes)
    (s : RealtimeSession ρ) : List Bytes :=
  buildSessionUpdateJson (randomEventId (gen 0)) modelId language ::
    (s.sent.zipIdx 1).map fun p => p.1.wire (randomEventId (gen p.2))

/-! ## Reading the texts -/

theorem receiveAll_wire (gen : Nat → Nat → UInt64) (ms : List ClientMessage) (k : Nat)
    (h : Heard) :
    Heard.receiveAll ((ms.zipIdx k).map fun p => p.1.wire (randomEventId (gen p.2))) h =
      some (h.applyAll ms) := by
  induction ms generalizing k h with
  | nil => rfl
  | cons m ms ih =>
      rw [List.zipIdx_cons, List.map_cons, Heard.receiveAll, Heard.receive, readBufferEvent_wire]
      exact ih (k + 1) (h.apply m.bufferEvent)

/-! ## What is left of a call -/

/-- The messages that are still to be sent. -/
def sendsIn (after : List AfterLock) : List ClientMessage :=
  after.filterMap fun
    | .send m => some m
    | .call _ => none

@[simp] theorem sendsIn_nil : sendsIn [] = [] := rfl

@[simp] theorem sendsIn_send (m : ClientMessage) (after : List AfterLock) :
    sendsIn (.send m :: after) = m :: sendsIn after := rfl

@[simp] theorem sendsIn_call (c : Callback) (after : List AfterLock) :
    sendsIn (.call c :: after) = sendsIn after := rfl

theorem sendsIn_ite (p : Prop) [Decidable p] (c : Callback) :
    sendsIn (if p then [.call c] else []) = [] := by
  by_cases hp : p
  · simp [hp]
  · simp [hp]

namespace RealtimeSttClient

variable {ρ : Type}

/-- No resampler that was not there, and the same channel. -/
structure KeepsStream (c c' : RealtimeSttClient ρ) : Prop where
  channel : c'.channel = c.channel
  resampler : ∀ r, c'.resampler = some r → c.resampler = some r

theorem KeepsStream.of_eq {c c' : RealtimeSttClient ρ} (hchannel : c'.channel = c.channel)
    (hresampler : c'.resampler = c.resampler) : KeepsStream c c' :=
  ⟨hchannel, fun _ h => hresampler ▸ h⟩

theorem KeepsStream.clear (c : RealtimeSttClient ρ) : KeepsStream c c.clearActive :=
  ⟨rfl, fun _ h => by cases h⟩

/-- A report sends nothing and starts no stream. -/
theorem dispatch_keepsStream (pool : TokenPool) (e : ServerEvent) (c : RealtimeSttClient ρ) :
    KeepsStream c (c.dispatch pool e).1 ∧ sendsIn (c.dispatch pool e).2 = [] := by
  have hsame : KeepsStream c c := .of_eq rfl rfl
  cases e with
  | delta itemId delta =>
      simp only [dispatch, onPartial]
      split
      · exact ⟨hsame, rfl⟩
      · split
        · exact ⟨hsame, rfl⟩
        · split
          · exact ⟨hsame, rfl⟩
          · exact ⟨.of_eq rfl rfl, sendsIn_ite _ _⟩
  | completed itemId transcript language =>
      simp only [dispatch, onFinal]
      split
      · exact ⟨hsame, rfl⟩
      · split
        · exact ⟨hsame, rfl⟩
        · split
          · exact ⟨.clear c, rfl⟩
          · exact ⟨.clear c, sendsIn_ite _ _⟩
  | committed itemId =>
      simp only [dispatch, onCommitted]
      split
      · exact ⟨hsame, rfl⟩
      · split
        · exact ⟨.of_eq rfl rfl, rfl⟩
        · exact ⟨hsame, rfl⟩
  | sessionUpdated =>
      simp only [dispatch, onSessionUpdated]
      split
      · exact ⟨.of_eq rfl rfl, rfl⟩
      · exact ⟨hsame, rfl⟩
  | error message =>
      simp only [dispatch, onServerError]
      split
      · exact ⟨.clear c, sendsIn_ite _ _⟩
      · exact ⟨hsame, rfl⟩

theorem stop_keepsStream (c : RealtimeSttClient ρ) : KeepsStream c c.stop := by
  unfold stop
  split
  · exact .of_eq rfl rfl
  · exact ⟨rfl, fun _ h => by cases h⟩

theorem connectionLost_keepsStream (c : RealtimeSttClient ρ) : KeepsStream c c.connectionLost := by
  unfold connectionLost
  split
  · exact .of_eq rfl rfl
  · exact .of_eq rfl rfl

theorem resampler_of_listening {pool : TokenPool} {c : RealtimeSttClient ρ} {r : ρ}
    (h : c.listening pool = some r) : c.resampler = some r := by
  unfold listening at h
  split at h
  · cases h
  · exact h

end RealtimeSttClient

/-! ## The invariant -/

section
variable {ρ : Type} (soxr : Soxr ρ)

/-- What the server will have: the buffer is what came out for the utterance that has the
resampler, and each commit took the whole stream of its utterance. -/
structure HeardAs (w : Spoken) (c : RealtimeSttClient ρ) (h : Heard) : Prop where
  committed : h.committed.map some = w.ended.map (converted soxr)
  buffer : ∀ r, c.resampler = some r → streamed soxr w.blocks = (h.buffer, r)

theorem HeardAs.keeps {w : Spoken} {c c' : RealtimeSttClient ρ} {h : Heard}
    (hh : HeardAs soxr w c h) (hc : c.KeepsStream c') : HeardAs soxr w c' h :=
  ⟨hh.committed, fun r hr => hh.buffer r (hc.resampler r hr)⟩

/-! ## The calls -/

variable {soxr}

theorem beginUtterance_heardAs {w : Spoken} {c : RealtimeSttClient ρ} {h : Heard}
    (hh : HeardAs soxr w c h) (hchannel : c.channel = true) (turn : TurnId)
    (cancel : Option TokenRef) (cb : UtteranceCallbacks) :
    let r := c.beginUtterance soxr turn cancel cb
    r.1.channel = c.channel ∧
      HeardAs soxr (if c.state = .ready then { w with blocks := [] } else w) r.1
        (h.applyAll (sendsIn r.2)) := by
  simp only [RealtimeSttClient.beginUtterance]
  by_cases hready : c.state = .ready
  · simp only [ne_eq, hready, not_true_eq_false, ↓reduceIte, hchannel]
    refine ⟨hchannel, hh.committed, fun r hr => ?_⟩
    cases hr
    rfl
  · simp only [ne_eq, hready, not_false_eq_true, ↓reduceIte, sendsIn_ite]
    exact ⟨trivial, hh⟩

theorem pushAudio_heardAs {w : Spoken} {c : RealtimeSttClient ρ} {h : Heard}
    (hh : HeardAs soxr w c h) (hchannel : c.channel = true) (pool : TokenPool)
    (samples : List Sample) :
    let r := c.pushAudio soxr pool samples
    r.1.channel = c.channel ∧
      HeardAs soxr
        (if (c.listening pool).isSome = true then { w with blocks := w.blocks ++ [samples] } else w)
        r.1 (h.applyAll (sendsIn r.2)) := by
  simp only [RealtimeSttClient.pushAudio]
  cases hlisten : c.listening pool with
  | none => exact ⟨rfl, hh⟩
  | some r =>
      have hbuffer := hh.buffer r (RealtimeSttClient.resampler_of_listening hlisten)
      have hstream := streamed_snoc soxr w.blocks samples
      rw [hbuffer] at hstream
      by_cases hout : (soxr.resample samples r).1 = []
      · simp only [hout, true_or, ↓reduceIte, Option.isSome_some]
        refine ⟨trivial, hh.committed, fun r' hr' => ?_⟩
        cases hr'
        rw [hstream]
        simp only [hout, List.append_nil]
        rfl
      · simp only [hout, hchannel, Bool.true_eq_false, or_self, ↓reduceIte, Option.isSome_some]
        refine ⟨trivial, hh.committed, fun r' hr' => ?_⟩
        cases hr'
        exact hstream

theorem endUtterance_heardAs {w : Spoken} {c : RealtimeSttClient ρ} {h : Heard}
    (hh : HeardAs soxr w c h) (hchannel : c.channel = true) :
    let r := c.endUtterance soxr
    r.1.channel = c.channel ∧
      HeardAs soxr
        (if c.active = true ∧ (c.resampler.bind soxr.flush).isSome = true then
          { w with ended := w.ended ++ [w.blocks] }
        else w)
        r.1 (h.applyAll (sendsIn r.2)) := by
  simp only [RealtimeSttClient.endUtterance]
  by_cases hactive : c.active = true
  · cases hflush : c.resampler.bind soxr.flush with
    | none =>
        simp only [hactive, Bool.true_eq_false, ↓reduceIte, Option.isSome_none]
        exact ⟨trivial, hh⟩
    | some tail =>
        obtain ⟨r, hr, htail⟩ := Option.bind_eq_some_iff.mp hflush
        have hconverted : converted soxr w.blocks = some (h.buffer ++ tail) := by
          rw [converted, hh.buffer r hr, htail]
          rfl
        simp only [hactive, Bool.true_eq_false, ↓reduceIte, Option.isSome_some, and_self, hchannel]
        refine ⟨trivial, ?_, fun r' hr' => by cases hr'⟩
        by_cases hnone : tail = []
        · have hlast : h.committed.map some ++ [some h.buffer] =
              (w.ended ++ [w.blocks]).map (converted soxr) := by
            rw [List.map_append, hh.committed, List.map_singleton, hconverted, hnone,
              List.append_nil]
          simpa [hnone, Heard.applyAll, Heard.apply, ClientMessage.bufferEvent] using hlast
        · have hlast : h.committed.map some ++ [some (h.buffer ++ tail)] =
              (w.ended ++ [w.blocks]).map (converted soxr) := by
            rw [List.map_append, hh.committed, List.map_singleton, hconverted]
          simpa [hnone, Heard.applyAll, Heard.apply, ClientMessage.bufferEvent] using hlast
  · simp only [Bool.not_eq_true] at hactive
    simp only [hactive, Bool.false_eq_true, false_and, ↓reduceIte]
    exact ⟨trivial, hh⟩

/-- At most one thread is in a call. -/
structure StreamInv (soxr : Soxr ρ) (h₀ : Heard) (s : RealtimeSession ρ) (w : Spoken) : Prop where
  channel : s.client.channel = true
  dispatcher : sendsIn s.dispatcher = []
  busy : ∃ u, (∀ v, v ≠ u → s.callers v = []) ∧
    HeardAs soxr w s.client (h₀.applyAll (s.sent ++ sendsIn (s.callers u)))

variable {h₀ : Heard} {s s' : RealtimeSession ρ} {w : Spoken}

/-- No call is under way, so all of it is sent. -/
theorem StreamInv.all_sent (hinv : StreamInv soxr h₀ s w) (halone : ∀ v, s.callers v = []) :
    HeardAs soxr w s.client (h₀.applyAll s.sent) := by
  obtain ⟨u, -, hu⟩ := hinv.busy
  rwa [halone u, sendsIn_nil, List.append_nil] at hu

/-- A call is entered. -/
theorem StreamInv.enter (hinv : StreamInv soxr h₀ s w) (halone : ∀ v, s.callers v = [])
    {thread : Nat} {t : RealtimeSession ρ} {r : RealtimeSttClient ρ × List AfterLock}
    {w' : Spoken} (hsent : t.sent = s.sent) (hcallers : t.callers = s.callers)
    (hdispatcher : t.dispatcher = s.dispatcher) (hchannel : r.1.channel = s.client.channel)
    (hheard : HeardAs soxr w s.client (h₀.applyAll s.sent) →
      HeardAs soxr w' r.1 ((h₀.applyAll s.sent).applyAll (sendsIn r.2)))
    (hstep : t.enter thread r = some s') : StreamInv soxr h₀ s' w' := by
  unfold RealtimeSession.enter at hstep
  split at hstep
  next =>
    cases hstep
    refine ⟨hchannel.trans hinv.channel, ?_, thread, fun v hv => ?_, ?_⟩
    · rw [show _ = t.dispatcher from rfl, hdispatcher]
      exact hinv.dispatcher
    · exact (Function.update_of_ne hv _ _).trans (hcallers ▸ halone v)
    · rw [Heard.applyAll_append]
      simp only [Function.update_self, hsent]
      exact hheard (hinv.all_sent halone)
  next => cases hstep

/-- The client changes, and nothing is sent. -/
theorem StreamInv.client (hinv : StreamInv soxr h₀ s w) {c : RealtimeSttClient ρ}
    (hc : s.client.KeepsStream c) (hclient : s'.client = c) (hsent : s'.sent = s.sent)
    (hcallers : s'.callers = s.callers) (hdispatcher : sendsIn s'.dispatcher = []) :
    StreamInv soxr h₀ s' w := by
  obtain ⟨u, hothers, hu⟩ := hinv.busy
  subst hclient
  refine ⟨hc.channel.trans hinv.channel, hdispatcher, u, fun v hv => ?_, ?_⟩
  · rw [hcallers]
    exact hothers v hv
  · rw [hsent, hcallers]
    exact hu.keeps soxr hc

theorem streamInv_step {a : SessionAction} (hinv : StreamInv soxr h₀ s w) (halone : Alone s a)
    (hstep : RealtimeSession.step soxr s a = some s') : StreamInv soxr h₀ s' (w.note soxr s a) := by
  have hsame : s.client.KeepsStream s.client := .of_eq rfl rfl
  cases a with
  | beginUtterance thread turn cancel cb =>
      obtain ⟨hchannel, -⟩ := beginUtterance_heardAs (hinv.all_sent halone) hinv.channel turn cancel
        { cb with owner := s.nextUtterance }
      exact hinv.enter (t := { s with nextUtterance := s.nextUtterance + 1 }) halone rfl rfl rfl
        hchannel (fun hh => (beginUtterance_heardAs hh hinv.channel turn cancel _).2) hstep
  | pushAudio thread samples =>
      obtain ⟨hchannel, -⟩ := pushAudio_heardAs (hinv.all_sent halone) hinv.channel s.pool samples
      exact hinv.enter halone rfl rfl rfl hchannel
        (fun hh => (pushAudio_heardAs hh hinv.channel s.pool samples).2) hstep
  | endUtterance thread =>
      obtain ⟨hchannel, -⟩ := endUtterance_heardAs (hinv.all_sent halone) hinv.channel
      exact hinv.enter halone rfl rfl rfl hchannel
        (fun hh => (endUtterance_heardAs hh hinv.channel).2) hstep
  | caller thread =>
      obtain ⟨u, hothers, hu⟩ := hinv.busy
      simp only [RealtimeSession.step] at hstep
      split at hstep
      next x rest hnext =>
        cases hstep
        -- only the busy thread has anything left
        have hthread : thread = u := by
          by_contra hne
          rw [hothers thread hne] at hnext
          cases hnext
        subst hthread
        rw [hnext] at hu
        refine ⟨?_, ?_, thread, fun v hv => ?_, ?_⟩
        · cases x <;> exact hinv.channel
        · cases x <;> exact hinv.dispatcher
        · cases x <;> exact (Function.update_of_ne hv _ _).trans (hothers v hv)
        · cases x with
          | send m =>
              have hsent : s.sent ++ [m] ++ sendsIn rest = s.sent ++ m :: sendsIn rest := by
                rw [List.append_assoc, List.singleton_append]
              simp only [RealtimeSession.perform, Function.update_self, hsent]
              exact hu
          | call c =>
              simp only [RealtimeSession.perform, Function.update_self]
              exact hu
      next => cases hstep
  | report e =>
      simp only [RealtimeSession.step] at hstep
      split at hstep
      next =>
        obtain ⟨server, -, rfl⟩ := Option.map_eq_some_iff.mp hstep
        obtain ⟨hkeeps, hsends⟩ := s.client.dispatch_keepsStream s.pool e
        exact hinv.client hkeeps rfl rfl rfl hsends
      next => cases hstep
  | dispatcher =>
      simp only [RealtimeSession.step] at hstep
      split at hstep
      next x rest hnext =>
        cases hstep
        have hsends := hinv.dispatcher
        rw [hnext] at hsends
        cases x with
        | send m => cases hsends
        | call c => exact hinv.client hsame rfl rfl rfl hsends
      next => cases hstep
  | makeToken =>
      cases hstep
      exact hinv.client hsame rfl rfl rfl hinv.dispatcher
  | cancelToken tok =>
      cases hstep
      exact hinv.client hsame rfl rfl rfl hinv.dispatcher
  | connectionLost =>
      cases hstep
      exact hinv.client s.client.connectionLost_keepsStream rfl rfl rfl hinv.dispatcher
  | stop =>
      cases hstep
      exact hinv.client s.client.stop_keepsStream rfl rfl rfl hinv.dispatcher

end

/-- In every run whose calls do not overlap, once the last call has returned: the server reads
every text, was set up with the model and without responses of its own, and has for each
utterance that was ended one commit, of all of its audio at the server's rate. -/
theorem committed_audio {ρ : Type} (soxr : Soxr ρ) (gen : Nat → Nat → UInt64)
    {modelId language : Bytes} (hmodel : ∀ b ∈ modelId, Plain b)
    (hlanguage : ∀ b ∈ language, Plain b) {s' : RealtimeSession ρ} {w : Spoken}
    {as : List SessionAction}
    (hrun : run (watch (RealtimeSession.step soxr) (Spoken.note soxr)) ({}, {}) as = some (s', w))
    (halone : Always (watch (RealtimeSession.step soxr) (Spoken.note soxr))
      (fun p a => Alone p.1 a) ({}, {}) as)
    (hidle : ∀ thread, s'.callers thread = []) :
    ∃ h, Heard.receiveAll (s'.texts gen modelId language) {} = some h ∧
      h.model = modelId ∧ h.language = (if language ≠ [] then some language else none) ∧
      h.createResponse = false ∧ h.committed.map some = w.ended.map (converted soxr) := by
  let h₀ : Heard := Heard.apply {} (.update modelId
    (if language ≠ [] then some language else none) false)
  have hstart : StreamInv soxr h₀ ({} : RealtimeSession ρ) {} :=
    ⟨rfl, rfl, 0, fun _ _ => rfl, rfl, fun r hr => by cases hr⟩
  have hkeeps : ∀ (p : RealtimeSession ρ × Spoken) a p', StreamInv soxr h₀ p.1 p.2 →
      Alone p.1 a → watch (RealtimeSession.step soxr) (Spoken.note soxr) p a = some p' →
      StreamInv soxr h₀ p'.1 p'.2 := by
    intro p a p' hp hok hs
    obtain ⟨hs, hw⟩ := watch_eq_some.mp hs
    rw [hw]
    exact streamInv_step hp hok hs
  have hinv : StreamInv soxr h₀ s' w := run_invariant hkeeps hrun halone hstart
  have hheard := hinv.all_sent hidle
  obtain ⟨hm, hl, hc⟩ := h₀.applyAll_session s'.sent
  refine ⟨h₀.applyAll s'.sent, ?_, hm, hl, hc, hheard.committed⟩
  rw [RealtimeSession.texts, Heard.receiveAll, Heard.receive,
    readBufferEvent_update (gen 0) hmodel hlanguage]
  exact receiveAll_wire gen s'.sent 1 h₀

/-- An utterance of two blocks, ended by another thread than the one that pushes. -/
def twoBlocks : List SessionAction :=
  [.beginUtterance 0 1 none {}, .caller 0, .pushAudio 1 [5, -3], .caller 1, .pushAudio 1 [7],
    .caller 1, .endUtterance 0, .caller 0]

theorem committed_audio_twoBlocks : ∃ s' w h,
    run (watch (RealtimeSession.step Soxr.passThrough) (Spoken.note Soxr.passThrough))
      ({}, {}) twoBlocks = some (s', w) ∧
    Heard.receiveAll (s'.texts (fun _ _ => 0) (ascii "whisper") []) {} = some h ∧
    h.model = ascii "whisper" ∧ h.createResponse = false ∧ h.committed = [[5, -3, 7]] := by
  have hplain : ∀ b ∈ ascii "whisper", Plain b := List.all_iff_forall_prop.mp (by decide)
  have hnone : ∀ b ∈ ([] : Bytes), Plain b := fun _ hb => absurd hb List.not_mem_nil
  have hdone : ∀ (f : Nat → List AfterLock) (t : Nat) (after : List AfterLock), (∀ u, f u = []) →
      ∀ u, Function.update (Function.update f t after) t [] u = [] := by
    intro f t after hf u
    rw [Function.update_idem]
    by_cases hu : u = t
    · rw [hu, Function.update_self]
    · rw [Function.update_of_ne hu, hf u]
  have hbegun := hdone _ 0 [.send (.clear 0)] fun _ => rfl
  have hfirst := hdone _ 1 [.send (.append [5, -3])] hbegun
  have hsecond := hdone _ 1 [.send (.append [7])] hfirst
  have hended := hdone _ 0 [.send (.commit 0)] hsecond
  have halone : Always (watch (RealtimeSession.step Soxr.passThrough)
      (Spoken.note Soxr.passThrough)) (fun p a => Alone p.1 a) ({}, {}) twoBlocks := by
    refine (always_cons_of_some rfl).mpr ⟨fun _ => rfl, ?_⟩
    refine (always_cons_of_some rfl).mpr ⟨trivial, ?_⟩
    refine (always_cons_of_some rfl).mpr ⟨hbegun, ?_⟩
    refine (always_cons_of_some rfl).mpr ⟨trivial, ?_⟩
    refine (always_cons_of_some rfl).mpr ⟨hfirst, ?_⟩
    refine (always_cons_of_some rfl).mpr ⟨trivial, ?_⟩
    refine (always_cons_of_some rfl).mpr ⟨hsecond, ?_⟩
    exact (always_cons_of_some rfl).mpr ⟨trivial, trivial⟩
  obtain ⟨h, hread, hmodel, -, hrespond, hcommitted⟩ :=
    committed_audio Soxr.passThrough (fun _ _ => 0) hplain hnone rfl halone hended
  refine ⟨_, _, h, rfl, hread, hmodel, hrespond, ?_⟩
  exact List.map_injective_iff.mpr (Option.some_injective _) (hcommitted.trans rfl)

end Acva.Stt
