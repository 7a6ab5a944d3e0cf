import Acva.Dialogue.TtsBridge.SentenceRuns
import Acva.Playback.Rendering
import Acva.Tts.OpenAiTtsClient
import Acva.Tts.RequestBody
import Acva.Tts.VoiceRoute

/-! # A call of the TTS client's `submit`

The call checks what it needs for a request, hands the request to libcurl, and reports how it
went. libcurl calls back with chunks of the response and for the progress; whichever of the two
finds the token cancelled aborts the transfer. What a chunk makes of calls is made one call after
the other, since each of them can take its time. The token is whatever the caller shares.
-/

namespace Acva.Tts

open Acva.Audio Acva.Config Acva.Dialogue Acva.Json Acva.Playback

/-! ## The request -/

structure HttpRequest where
  url : Bytes
  body : Bytes
deriving DecidableEq, Repr

def speechUrl (baseUrl : Bytes) : Bytes :=
  (if baseUrl.getLast? = some (byte '/') then baseUrl.dropLast else baseUrl) ++
    ascii "/audio/speech"

def requestFor (cfg : TtsConfig) (sentence : LlmSentence) : HttpRequest where
  url := speechUrl cfg.baseUrl
  body :=
    buildBody (routeFor cfg sentence.lang).modelId (routeFor cfg sentence.lang).voiceId
      sentence.text cfg.tempoWpm

/-! ## What can go wrong -/

inductive SubmitFailure
  | noBaseUrl
  | noVoice (lang fallbackLang : Bytes)
  | cancelled
  | initFailed
  /-- With libcurl's text for its result. -/
  | transfer (error : Bytes)
  | http (status : Nat) (url : Bytes)
deriving DecidableEq, Repr

def SubmitFailure.text : SubmitFailure → Bytes
  | .noBaseUrl => ascii "openai_tts: cfg.tts.base_url is empty"
  | .noVoice lang fallbackLang =>
      ascii "openai_tts: no voice configured for lang='" ++ lang ++ ascii "' (fallback '" ++
        fallbackLang ++ ascii "' also unset)"
  | .cancelled => ascii "cancelled"
  | .initFailed => ascii "openai_tts: curl_easy_init failed"
  | .transfer error => ascii "openai_tts: curl: " ++ error
  | .http status url => ascii "openai_tts: http " ++ decimal status ++ ascii " from " ++ url

/-- The checks before the transfer. -/
def refusal (cfg : TtsConfig) (lang : Bytes) (cancelled initOk : Bool) : Option SubmitFailure :=
  if cfg.baseUrl = [] then some .noBaseUrl
  else if (routeFor cfg lang).modelId = [] then some (.noVoice lang cfg.fallbackLang)
  else if cancelled = true then some .cancelled
  else if initOk = false then some .initFailed
  else none

/-- How the transfer went; a cancelled token goes before the rest. -/
def verdict (url : Bytes) (cancelled : Bool) (error : Option Bytes) (status : Nat) :
    Option SubmitFailure :=
  if cancelled = true then some .cancelled
  else
    match error with
    | some text => some (.transfer text)
    | none => if status < 200 ∨ 300 ≤ status then some (.http status url) else none

/-! ## The call -/

inductive SubmitPc
  | entered
  | transferring
  /-- One of libcurl's callbacks has asked it to abort. -/
  | aborting
  /-- With libcurl's text if it failed. -/
  | performed (error : Option Bytes)
  | reporting (failure : Option SubmitFailure)
  /-- `on_finished` or `on_error` has returned. -/
  | reported (failure : Option SubmitFailure)
deriving DecidableEq, Repr

/-- `todo` is what the write callback has still to call; `delivered` are the chunks that libcurl
has handed over, `accepted` those it was told to go on after. -/
structure SubmitCall where
  ctx : WriteCtx := {}
  pc : SubmitPc := .entered
  todo : List TtsCall := []
  request : Option HttpRequest := none
  status : Nat := 0
  delivered : List Bytes := []
  accepted : List Bytes := []
deriving DecidableEq, Repr

/-- What the call or libcurl does next. -/
inductive SubmitMove
  | enter (initOk : Bool)
  | write (chunk : Bytes)
  | progress
  /-- The write callback makes its next call. -/
  | call
  /-- `curl_easy_perform` returns. -/
  | perform (error : Option Bytes) (status : Nat)
  | conclude
  | report
  | leave
deriving DecidableEq, Repr

def submitEvent : TtsCall → SubmitEvent
  | .onFormat rate => .onFormat rate
  | .onAudio samples => .onAudio samples

def terminal (failure : Option SubmitFailure) : SubmitEvent :=
  if failure = none then .onFinished else .onError

namespace SubmitCall

/-- `curl_write`. -/
def write (cancelled : Bool) (chunk : Bytes) (c : SubmitCall) : SubmitCall :=
  let (ctx, calls, count) := c.ctx.curlWrite cancelled chunk
  { c with
    ctx := ctx
    todo := calls
    delivered := c.delivered ++ [chunk]
    accepted := if count = chunk.length then c.accepted ++ [chunk] else c.accepted
    pc := if count = chunk.length then .transferring else .aborting }

/-- `curl_progress`. -/
def progress (cancelled : Bool) (c : SubmitCall) : SubmitCall :=
  { c with pc := if cancelled = true then .aborting else .transferring }

/-- With the callback that the move makes. A transfer that was told to abort does not succeed. -/
def step (cfg : TtsConfig) (sentence : LlmSentence) (cancelled : Bool) (c : SubmitCall) :
    SubmitMove → Option (SubmitCall × Option SubmitEvent)
  | .enter initOk =>
      match c.pc with
      | .entered =>
          match refusal cfg sentence.lang cancelled initOk with
          | some failure => some ({ c with pc := .reporting (some failure) }, none)
          | none =>
              some ({ c with pc := .transferring, request := some (requestFor cfg sentence) }, none)
      | _ => none
  | .write chunk =>
      if c.pc = .transferring ∧ c.todo = [] then some (c.write cancelled chunk, none) else none
  | .progress =>
      if c.pc = .transferring ∧ c.todo = [] then some (c.progress cancelled, none) else none
  | .call =>
      match c.todo with
      | [] => none
      | call :: rest => some ({ c with todo := rest }, some (submitEvent call))
  | .perform error status =>
      if c.todo = [] ∧ (c.pc = .transferring ∨ c.pc = .aborting ∧ error ≠ none) then
        some ({ c with pc := .performed error, status := status }, none)
      else none
  | .conclude =>
      match c.pc with
      | .performed error =>
          let failure := verdict (speechUrl cfg.baseUrl) cancelled error c.status
          some ({ c with pc := .reporting failure }, none)
      | _ => none
  | .report =>
      match c.pc with
      | .reporting failure => some ({ c with pc := .reported failure }, some (terminal failure))
      | _ => none
  | .leave =>
      match c.pc with
      | .reported _ => some (c, some .returns)
      | _ => none

end SubmitCall

/-! ## The chunks -/

namespace WriteCtx

/-- Unless the token is cancelled a chunk is accepted whole. -/
theorem curlWrite_count (chunk : Bytes) (ctx : WriteCtx) :
    (ctx.curlWrite false chunk).2.2 = chunk.length := by
  by_cases hempty : chunk = []
  · rw [hempty]
    rfl
  · have hgoes : ¬((false : Bool) = true ∨ chunk.length = 0) := by simpa using hempty
    rw [curlWrite, if_neg hgoes]

theorem curlWrite_of_accepted {cancelled : Bool} {chunk : Bytes} {ctx : WriteCtx}
    (h : (ctx.curlWrite cancelled chunk).2.2 = chunk.length) :
    ctx.curlWrite cancelled chunk = ctx.curlWrite false chunk := by
  cases cancelled with
  | false => rfl
  | true =>
      have hempty : chunk = [] := List.eq_nil_of_length_eq_zero (h.symm.trans rfl)
      rw [hempty]
      rfl

theorem curlWrite_of_refused {cancelled : Bool} {chunk : Bytes} {ctx : WriteCtx}
    (h : (ctx.curlWrite cancelled chunk).2.2 ≠ chunk.length) :
    ctx.curlWrite cancelled chunk = (ctx, [], 0) := by
  cases cancelled with
  | false => exact absurd (ctx.curlWrite_count chunk) h
  | true => rfl

theorem receive_cons (chunk : Bytes) (chunks : List Bytes) (ctx : WriteCtx) :
    ctx.receive (chunk :: chunks) =
      (((ctx.curlWrite false chunk).1.receive chunks).1,
        (ctx.curlWrite false chunk).2.1 ++ ((ctx.curlWrite false chunk).1.receive chunks).2) := by
  simp only [receive, curlWrite_count, if_true]

theorem receive_concat (chunks : List Bytes) (chunk : Bytes) (ctx : WriteCtx) :
    ctx.receive (chunks ++ [chunk]) =
      (((ctx.receive chunks).1.curlWrite false chunk).1,
        (ctx.receive chunks).2 ++ ((ctx.receive chunks).1.curlWrite false chunk).2.1) := by
  induction chunks generalizing ctx with
  | nil =>
      rw [List.nil_append, receive_cons]
      simp only [receive, List.append_nil, List.nil_append]
  | cons first chunks ih =>
      rw [List.cons_append, receive_cons, receive_cons, ih, List.append_assoc]

/-- An empty chunk changes nothing. -/
theorem receive_filter (chunks : List Bytes) (ctx : WriteCtx) :
    ctx.receive (chunks.filter (· ≠ [])) = ctx.receive chunks := by
  induction chunks generalizing ctx with
  | nil => rfl
  | cons chunk chunks ih =>
      by_cases hempty : chunk = []
      · have hnone : ctx.curlWrite false chunk = (ctx, [], 0) := by
          rw [hempty]
          rfl
        rw [List.filter_cons_of_neg (by simpa using hempty), ih, receive_cons, hnone]
        rfl
      · rw [List.filter_cons_of_pos (by simpa using hempty), receive_cons, receive_cons, ih]

/-- The calls that are made of some chunks: a format if there are bytes, then the samples. -/
theorem receive_calls (chunks : List Bytes) :
    ∃ audio : List (List Sample), audio.flatten = decodePcm chunks.flatten ∧
      (receive {} chunks).2 = (if chunks.flatten = [] then [] else [.onFormat 22050]) ++
        audio.map .onAudio := by
  have hinit : Received [] {} [] :=
    ⟨rfl, rfl, iff_of_true rfl rfl, ⟨[], rfl, rfl, rfl⟩, fun _ => rfl, fun h => absurd rfl h⟩
  have hne : ∀ chunk ∈ chunks.filter (· ≠ []), chunk ≠ [] := fun chunk hchunk => by
    simpa using (List.mem_filter.mp hchunk).2
  have hall := hinit.chunks _ hne
  rw [List.nil_append, List.nil_append, receive_filter, List.flatten_filter_ne_nil] at hall
  obtain ⟨front, hcut, heven, hdecode⟩ := hall.decoded
  have hshort : (receive {} chunks).1.pending.length ≤ 1 := by
    unfold pending
    split <;> simp
  have hwhole : audioOf (receive {} chunks).2 = decodePcm chunks.flatten := by
    rw [hdecode, hcut, decodePcm_append heven, decodePcm_of_short hshort, List.append_nil]
  by_cases hempty : chunks.flatten = []
  · exact ⟨[], by rw [hempty]; rfl, by rw [if_pos hempty, hall.silent hempty]; rfl⟩
  · obtain ⟨audio, hcalls⟩ := hall.formatFirst hempty
    refine ⟨audio, ?_, by rw [if_neg hempty, hcalls]; rfl⟩
    rw [← hwhole, hcalls]
    exact (audioOf_onAudio audio).symm

end WriteCtx

/-! ## The sound of a response -/

variable {ρ : Type} (soxr : Soxr ρ) (deviceRate : Nat)

def eventsOf (chunks : List Bytes) : List SubmitEvent :=
  (WriteCtx.receive {} chunks).2.map submitEvent

/-- The samples that a response is turned into, at the rate of the device. -/
def voice (chunks : List Bytes) : List Sample :=
  (speechOf soxr deviceRate (eventsOf chunks)).outputs.flatten ++
    (speechOf soxr deviceRate (eventsOf chunks)).synth.tail soxr

theorem soundOf_sentenceRun (job : Job) (chunks : List Bytes) (failure : Option SubmitFailure) :
    soundOf (sentenceRun soxr deviceRate job
      (eventsOf chunks ++ [terminal failure, .returns])) = voice soxr deviceRate chunks := by
  have hheard : ∀ sp : Speech ρ,
      (Speech.hear soxr deviceRate (Speech.hear soxr deviceRate sp (terminal failure))
          .returns).outputs = sp.outputs ∧
        (Speech.hear soxr deviceRate (Speech.hear soxr deviceRate sp (terminal failure))
          .returns).synth.tail soxr = sp.synth.tail soxr := by
    intro sp
    unfold terminal
    split
    · exact ⟨rfl, rfl⟩
    · exact ⟨rfl, rfl⟩
  obtain ⟨houtputs, htail⟩ := hheard (speechOf soxr deviceRate (eventsOf chunks))
  have hspeech : speechOf soxr deviceRate (eventsOf chunks ++ [terminal failure, .returns]) =
      Speech.hear soxr deviceRate (Speech.hear soxr deviceRate
        (speechOf soxr deviceRate (eventsOf chunks)) (terminal failure)) .returns := by
    rw [speechOf, List.foldl_append]
    rfl
  have hsamples : ∀ outputs : List (List Sample),
      soundOf (outputs.map (audioChunk job)) = outputs.flatten := by
    intro outputs
    rw [soundOf, List.flatMap_map, ← List.flatMap_id]
    rfl
  rw [sentenceRun, soundOf_append, hspeech, hsamples, houtputs, htail, voice]
  exact congrArg _ (List.append_nil _)

/-- The calls of a response as the bridge hears them. -/
theorem eventsOf_eq (chunks : List Bytes) :
    ∃ blocks : List (List Sample), blocks.flatten = decodePcm chunks.flatten ∧
      eventsOf chunks = (if chunks.flatten = [] then [] else [.onFormat 22050]) ++
        blocks.map .onAudio := by
  obtain ⟨blocks, hflat, hcalls⟩ := WriteCtx.receive_calls chunks
  refine ⟨blocks, hflat, ?_⟩
  rw [eventsOf, hcalls, List.map_append, List.map_map]
  split <;> rfl

/-- At another rate than the voices' the samples of the response are one stream: a resampler is
created for the two rates, takes the decoded samples block by block, and is flushed. -/
theorem voice_other_rate (hother : deviceRate ≠ 22050) {chunks : List Bytes}
    (hsome : chunks.flatten ≠ []) :
    ∃ blocks, blocks.flatten = decodePcm chunks.flatten ∧
      eventsOf chunks = .onFormat 22050 :: blocks.map .onAudio ∧
      voice soxr deviceRate chunks = (soxr.stream 22050 deviceRate blocks).1 ++
        (soxr.flush (soxr.stream 22050 deviceRate blocks).2).getD [] := by
  obtain ⟨blocks, hflat, hevents⟩ := eventsOf_eq chunks
  rw [if_neg hsome, List.singleton_append] at hevents
  refine ⟨blocks, hflat, hevents, ?_⟩
  have hrate : (0 : Int) < 22050 := by decide
  obtain ⟨houtputs, hsynth⟩ := speechOf_resampled soxr hrate (Ne.symm hother) blocks
  rw [voice, hevents, houtputs, hsynth]
  rfl

example : voice Soxr.twice 44100 [[1, 0, 2], [0]] = [1, 1, 2, 2] := by decide

/-- At the rate of the voices the samples are those of the response. -/
theorem voice_same_rate (chunks : List Bytes) :
    voice soxr 22050 chunks = decodePcm chunks.flatten := by
  obtain ⟨audio, hflat, hevents⟩ := eventsOf_eq chunks
  have hplays : ∀ (audio outputs : List (List Sample)) (gotFormat : Bool),
      ((audio.map fun samples => SubmitEvent.onAudio samples).foldl (Speech.hear soxr 22050)
        ⟨{ gotFormat := gotFormat }, outputs⟩) =
          ⟨{ gotFormat := gotFormat }, outputs ++ audio.filter (· ≠ [])⟩ := by
    intro audio
    induction audio with
    | nil => simp
    | cons samples audio ih =>
        intro outputs gotFormat
        by_cases hempty : samples = []
        · simp [Speech.hear, Synth.resample, hempty, ih]
        · simp [Speech.hear, Synth.resample, hempty, ih]
  have hspeech : ∃ gotFormat, speechOf soxr 22050 (eventsOf chunks) =
      ⟨{ gotFormat := gotFormat }, audio.filter (· ≠ [])⟩ := by
    rw [hevents, speechOf, List.foldl_append]
    split
    · exact ⟨false, hplays audio [] false⟩
    · exact ⟨true, hplays audio [] true⟩
  obtain ⟨gotFormat, hspeech⟩ := hspeech
  rw [voice, hspeech, ← hflat, ← List.flatten_filter_ne_nil (L := audio)]
  exact List.append_nil _

/-! ## What the callbacks tell -/

namespace SubmitCall

variable {cfg : TtsConfig} {sentence : LlmSentence} {c c' : SubmitCall}
  {callbacks : List SubmitEvent}

/-- The calls made and those to make are the accepted chunks'. -/
structure Tells (c : SubmitCall) (callbacks : List SubmitEvent) : Prop where
  calls : callbacks ++ c.todo.map submitEvent = eventsOf c.accepted
  ctx : c.ctx = (WriteCtx.receive {} c.accepted).1

/-- What a call that reports success has done. -/
structure Succeeds (cfg : TtsConfig) (sentence : LlmSentence) (c : SubmitCall) : Prop where
  request : c.request = some (requestFor cfg sentence)
  whole : c.delivered = c.accepted
  status : 200 ≤ c.status ∧ c.status < 300

/-- Where the call stands and what it has called back. -/
def Told (cfg : TtsConfig) (sentence : LlmSentence) (c : SubmitCall)
    (callbacks : List SubmitEvent) : Prop :=
  match c.pc with
  | .entered => c = {} ∧ callbacks = []
  | .transferring =>
      c.Tells callbacks ∧ c.request = some (requestFor cfg sentence) ∧ c.delivered = c.accepted
  | .aborting => c.Tells callbacks ∧ c.request = some (requestFor cfg sentence)
  | .performed error =>
      c.Tells callbacks ∧ c.todo = [] ∧ c.request = some (requestFor cfg sentence) ∧
        (error = none → c.delivered = c.accepted)
  | .reporting failure =>
      callbacks = eventsOf c.accepted ∧ c.todo = [] ∧ (failure = none → c.Succeeds cfg sentence)
  | .reported failure =>
      callbacks = eventsOf c.accepted ++ [terminal failure] ∧ c.todo = [] ∧
        (failure = none → c.Succeeds cfg sentence)

/-- A call that has returned: what it was given back, then one of `on_finished` and `on_error`. -/
structure Answered (cfg : TtsConfig) (sentence : LlmSentence) (c : SubmitCall)
    (callbacks : List SubmitEvent) (failure : Option SubmitFailure) : Prop where
  callbacks : callbacks = eventsOf c.accepted ++ [terminal failure, .returns]
  succeeds : failure = none → c.Succeeds cfg sentence

theorem verdict_eq_none {url : Bytes} {cancelled : Bool} {error : Option Bytes} {status : Nat}
    (h : verdict url cancelled error status = none) :
    error = none ∧ 200 ≤ status ∧ status < 300 := by
  unfold verdict at h
  split at h
  next => cases h
  next =>
    cases error with
    | some text => cases h
    | none =>
        dsimp only at h
        split at h
        next => cases h
        next hstatus =>
          obtain ⟨hlow, hhigh⟩ := not_or.mp hstatus
          exact ⟨rfl, Nat.not_lt.mp hlow, Nat.not_le.mp hhigh⟩

theorem Told.write {cancelled : Bool} {chunk : Bytes} (ht : c.Told cfg sentence callbacks)
    (hpc : c.pc = .transferring) (htodo : c.todo = []) :
    (c.write cancelled chunk).Told cfg sentence callbacks := by
  simp only [Told, hpc] at ht
  obtain ⟨⟨hcalls, hctx⟩, hrequest, hwhole⟩ := ht
  rw [htodo, List.map_nil, List.append_nil] at hcalls
  by_cases hcount : (c.ctx.curlWrite cancelled chunk).2.2 = chunk.length
  · have hsame := WriteCtx.curlWrite_of_accepted hcount
    simp only [Told, SubmitCall.write, hcount, if_true]
    refine ⟨⟨?_, ?_⟩, hrequest, by rw [hwhole]⟩
    · rw [eventsOf, WriteCtx.receive_concat, List.map_append, ← hctx, hsame, hcalls]
      rfl
    · rw [WriteCtx.receive_concat, ← hctx, hsame]
  · have hrefused := WriteCtx.curlWrite_of_refused hcount
    simp only [Told, SubmitCall.write, hcount, if_false]
    rw [hrefused]
    exact ⟨⟨by rw [List.map_nil, List.append_nil]; exact hcalls, hctx⟩, hrequest⟩

/-- A move that makes no callback. -/
theorem Told.quiet {cancelled : Bool} {move : SubmitMove} (ht : c.Told cfg sentence callbacks)
    (h : c.step cfg sentence cancelled move = some (c', none)) :
    c'.Told cfg sentence callbacks := by
  cases move with
  | enter initOk =>
      simp only [SubmitCall.step] at h
      split at h
      next hpc =>
        simp only [Told, hpc] at ht
        obtain ⟨rfl, rfl⟩ := ht
        split at h
        next =>
          cases h
          exact ⟨rfl, rfl, nofun⟩
        next =>
          cases h
          exact ⟨⟨rfl, rfl⟩, rfl, rfl⟩
      next => cases h
  | write chunk =>
      simp only [SubmitCall.step] at h
      split at h
      next hopen =>
        cases h
        exact ht.write hopen.1 hopen.2
      next => cases h
  | progress =>
      simp only [SubmitCall.step] at h
      split at h
      next hopen =>
        cases h
        simp only [Told, hopen.1] at ht
        obtain ⟨⟨hcalls, hctx⟩, hrequest, hwhole⟩ := ht
        cases cancelled with
        | true => exact ⟨⟨hcalls, hctx⟩, hrequest⟩
        | false => exact ⟨⟨hcalls, hctx⟩, hrequest, hwhole⟩
      next => cases h
  | call =>
      simp only [SubmitCall.step] at h
      split at h <;> cases h
  | perform error status =>
      simp only [SubmitCall.step] at h
      split at h
      next hopen =>
        cases h
        obtain ⟨htodo, hpc | ⟨hpc, herror⟩⟩ := hopen
        · simp only [Told, hpc] at ht
          obtain ⟨⟨hcalls, hctx⟩, hrequest, hwhole⟩ := ht
          exact ⟨⟨hcalls, hctx⟩, htodo, hrequest, fun _ => hwhole⟩
        · simp only [Told, hpc] at ht
          obtain ⟨⟨hcalls, hctx⟩, hrequest⟩ := ht
          exact ⟨⟨hcalls, hctx⟩, htodo, hrequest, fun hnone => absurd hnone herror⟩
      next => cases h
  | conclude =>
      simp only [SubmitCall.step] at h
      split at h
      next error hpc =>
        cases h
        simp only [Told, hpc] at ht
        obtain ⟨⟨hcalls, hctx⟩, htodo, hrequest, hwhole⟩ := ht
        rw [htodo, List.map_nil, List.append_nil] at hcalls
        refine ⟨hcalls, htodo, fun hnone => ?_⟩
        obtain ⟨herror, hstatus⟩ := verdict_eq_none hnone
        exact ⟨hrequest, hwhole herror, hstatus⟩
      next => cases h
  | report =>
      simp only [SubmitCall.step] at h
      split at h <;> cases h
  | leave =>
      simp only [SubmitCall.step] at h
      split at h <;> cases h

/-- A move that calls back, or returns. -/
theorem Told.calls {cancelled : Bool} {move : SubmitMove} {e : SubmitEvent}
    (ht : c.Told cfg sentence callbacks)
    (h : c.step cfg sentence cancelled move = some (c', some e)) :
    (e ≠ .returns ∧ c'.Told cfg sentence (callbacks ++ [e])) ∨
      e = .returns ∧ ∃ failure, c'.pc = .reported failure ∧
        c'.Answered cfg sentence (callbacks ++ [e]) failure := by
  cases move with
  | enter initOk =>
      simp only [SubmitCall.step] at h
      split at h
      next => split at h <;> cases h
      next => cases h
  | write chunk =>
      simp only [SubmitCall.step] at h
      split at h <;> cases h
  | progress =>
      simp only [SubmitCall.step] at h
      split at h <;> cases h
  | call =>
      simp only [SubmitCall.step] at h
      split at h
      next => cases h
      next call rest htodo =>
        cases h
        refine .inl ⟨by cases call <;> exact nofun, ?_⟩
        have htells : c.Tells callbacks →
            ({ c with todo := rest } : SubmitCall).Tells (callbacks ++ [submitEvent call]) := by
          rintro ⟨hcalls, hctx⟩
          refine ⟨?_, hctx⟩
          rw [htodo] at hcalls
          simpa using hcalls
        have hnone : c.todo ≠ [] := by rw [htodo]; exact List.cons_ne_nil _ _
        unfold Told at ht ⊢
        dsimp only
        split at ht
        next hpc =>
          rw [ht.1] at hnone
          exact absurd rfl hnone
        next hpc => exact ⟨htells ht.1, ht.2⟩
        next hpc => exact ⟨htells ht.1, ht.2⟩
        next error hpc => exact absurd ht.2.1 hnone
        next failure hpc => exact absurd ht.2.1 hnone
        next failure hpc => exact absurd ht.2.1 hnone
  | perform error status =>
      simp only [SubmitCall.step] at h
      split at h <;> cases h
  | conclude =>
      simp only [SubmitCall.step] at h
      split at h <;> cases h
  | report =>
      simp only [SubmitCall.step] at h
      split at h
      next failure hpc =>
        cases h
        simp only [Told, hpc] at ht
        obtain ⟨hcalls, htodo, hsucceeds⟩ := ht
        refine .inl ⟨?_, by rw [hcalls], htodo, fun hnone => ?_⟩
        · unfold terminal
          split <;> exact nofun
        · obtain ⟨hrequest, hwhole, hstatus⟩ := hsucceeds hnone
          exact ⟨hrequest, hwhole, hstatus⟩
      next => cases h
  | leave =>
      simp only [SubmitCall.step] at h
      split at h
      next failure hpc =>
        cases h
        simp only [Told, hpc] at ht
        refine .inr ⟨rfl, failure, hpc, ?_, ht.2.2⟩
        rw [ht.1, List.append_assoc]
        rfl
      next => cases h

end SubmitCall

end Acva.Tts
