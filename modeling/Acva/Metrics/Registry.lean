import Acva.Core.Stopwatch
import Acva.Event.Event
import Mathlib.Algebra.Order.Field.Rat
import Mathlib.Algebra.Order.Field.Basic
import Mathlib.Tactic.NormNum

/-! # What the metrics measure

The registry watches the bus through three subscriptions, each with a worker of its own. One
counts the events by their names, one times the replies of the model, and one the audio of the
sentences. The histograms are the values observed, oldest first, as exact numbers. Left out are
the gauges, which are only set, and the rendering of the page.
-/

namespace Acva.Metrics

open Acva.Stopwatch

/-! ## The registry -/

def eventName : Event → String
  | .speechStarted _ => "speech_started"
  | .speechEnded _ => "speech_ended"
  | .utteranceReady _ => "utterance_ready"
  | .partialTranscript _ => "partial_transcript"
  | .finalTranscript _ => "final_transcript"
  | .llmStarted _ => "llm_started"
  | .llmToken _ => "llm_token"
  | .llmSentence _ => "llm_sentence"
  | .llmFinished _ => "llm_finished"
  | .ttsStarted _ => "tts_started"
  | .ttsAudioChunk _ => "tts_audio_chunk"
  | .ttsFinished _ => "tts_finished"
  | .playbackStarted _ => "playback_started"
  | .playbackFinished _ => "playback_finished"
  | .userInterrupted _ => "user_interrupted"
  | .cancelGeneration _ => "cancel_generation"
  | .pause => "pause"
  | .resume => "resume"
  | .error _ => "error"
  | .healthChanged _ => "health_changed"

/-- `started_at` and `first_token_seen`; and `first_audio_seen` in the other map. -/
abbrev TurnTimer := Watch

abbrev TtsTimer := Watch

structure Registry where
  eventsPublished : String → Nat := fun _ => 0
  timers : TurnId → Option TurnTimer := fun _ => none
  ttsTimers : UInt64 → Option TtsTimer := fun _ => none
  llmFirstTokenMs : List ℚ := []
  llmTokensPerSec : List ℚ := []
  ttsFirstAudioMs : List ℚ := []
  ttsAudioBytes : Nat := 0

/-- `duration<double, std::milli>` of a number of nanoseconds. -/
def toMs (ns : Int) : ℚ := ns / 1000000

/-- `duration<double>`. -/
def toSecs (ns : Int) : ℚ := ns / 1000000000

/-- The turn's upper half is shifted out. -/
def ttsKey (turn : TurnId) (seq : SequenceNo) : UInt64 :=
  (UInt64.ofNat turn <<< 32) ||| (UInt32.ofNat seq).toUInt64

theorem ttsKey_toNat (turn : TurnId) (seq : SequenceNo) :
    (ttsKey turn seq).toNat = turn % 2 ^ 32 * 2 ^ 32 + seq % 2 ^ 32 := by
  have hlow : (UInt32.ofNat seq).toUInt64.toNat = seq % 2 ^ 32 := by
    simp [UInt32.toNat_ofNat']
  have hhigh : (UInt64.ofNat turn <<< 32).toNat = (turn % 2 ^ 32) <<< 32 := by
    have h32 : (32 : UInt64).toNat % 64 = 32 := rfl
    rw [UInt64.toNat_shiftLeft, UInt64.toNat_ofNat', h32, Nat.shiftLeft_eq, Nat.shiftLeft_eq]
    omega
  rw [ttsKey, UInt64.toNat_or, hlow, hhigh,
    ← Nat.shiftLeft_add_eq_or_of_lt (Nat.mod_lt seq (by decide)), Nat.shiftLeft_eq]

/-- Only sentences that are `2 ^ 32` turns apart have one key. -/
theorem ttsKey_inj {turn turn' : TurnId} {seq seq' : SequenceNo} :
    ttsKey turn seq = ttsKey turn' seq' ↔
      turn % 2 ^ 32 = turn' % 2 ^ 32 ∧ seq % 2 ^ 32 = seq' % 2 ^ 32 := by
  rw [← UInt64.toNat_inj, ttsKey_toNat, ttsKey_toNat]
  have hseq := Nat.mod_lt seq (show 0 < 2 ^ 32 by decide)
  have hseq' := Nat.mod_lt seq' (show 0 < 2 ^ 32 by decide)
  generalize seq % 2 ^ 32 = s at *
  generalize seq' % 2 ^ 32 = s' at *
  generalize turn % 2 ^ 32 = t
  generalize turn' % 2 ^ 32 = t'
  refine ⟨fun h => ?_, fun ⟨ht, hs⟩ => by rw [ht, hs]⟩
  rcases Nat.lt_trichotomy t t' with hlt | rfl | hlt
  · omega
  · exact ⟨rfl, Nat.add_left_cancel h⟩
  · omega

namespace Registry

def onEventPublished (name : String) (r : Registry) : Registry :=
  { r with eventsPublished := Function.update r.eventsPublished name (r.eventsPublished name + 1) }

def onTtsFirstAudio (ms : ℚ) (r : Registry) : Registry :=
  if 0 ≤ ms then { r with ttsFirstAudioMs := r.ttsFirstAudioMs ++ [ms] } else r

def onTtsAudioBytes (deltaBytes : Nat) (r : Registry) : Registry :=
  if 0 < deltaBytes then { r with ttsAudioBytes := r.ttsAudioBytes + deltaBytes } else r

/-- The subscription `metrics.llm`. -/
def onLlmEvent (now : TimePoint) (r : Registry) : Event → Registry
  | .llmStarted e =>
      { r with timers := Function.update r.timers e.turn (some { startedAt := now }) }
  | .llmToken e =>
      match r.timers e.turn with
      | none => r
      | some it =>
          if it.lapped = true then r
          else
            let ms := toMs (now - it.startedAt)
            let r :=
              { r with timers := Function.update r.timers e.turn (some { it with lapped := true }) }
            if 0 ≤ ms then { r with llmFirstTokenMs := r.llmFirstTokenMs ++ [ms] } else r
  | .llmFinished e =>
      match r.timers e.turn with
      | none => r
      | some it =>
          let secs := toSecs (now - it.startedAt)
          let tps := if 0 < secs ∧ 0 < e.tokensGenerated then e.tokensGenerated / secs else 0
          let r := { r with timers := Function.update r.timers e.turn none }
          if 0 < tps then { r with llmTokensPerSec := r.llmTokensPerSec ++ [tps] } else r
  | _ => r

/-- The subscription `metrics.tts`. -/
def onTtsEvent (now : TimePoint) (r : Registry) : Event → Registry
  | .ttsStarted e =>
      { r with
        ttsTimers := Function.update r.ttsTimers (ttsKey e.turn e.seq) (some { startedAt := now }) }
  | .ttsAudioChunk e =>
      let key := ttsKey e.turn e.seq
      let (ms, r) :=
        match r.ttsTimers key with
        | some { startedAt := startedAt, lapped := false } =>
            (toMs (now - startedAt),
              { r with ttsTimers :=
                  Function.update r.ttsTimers key (some { startedAt := startedAt, lapped := true }) })
        | _ => (-1, r)
      (r.onTtsFirstAudio ms).onTtsAudioBytes e.bytes
  | .ttsFinished e =>
      { r with ttsTimers := Function.update r.ttsTimers (ttsKey e.turn e.seq) none }
  | _ => r

end Registry

/-- The subscriptions. -/
inductive Sub
  | events
  | llm
  | tts
deriving DecidableEq, Repr

/-- A worker handles an event; `now` is what the handler reads off the clock. -/
structure Delivery where
  sub : Sub
  now : TimePoint
  event : Event
deriving DecidableEq, Repr

def Registry.deliver (r : Registry) (d : Delivery) : Registry :=
  match d.sub with
  | .events => r.onEventPublished (eventName d.event)
  | .llm => r.onLlmEvent d.now d.event
  | .tts => r.onTtsEvent d.now d.event

def Registry.deliverAll (ds : List Delivery) : Registry := ds.foldl deliver {}

/-! ## What there is to measure -/

/-- A reply is started, goes on with a token, and is finished. -/
def replyPress (d : Delivery) : Option (Press TurnId) :=
  match d.sub, d.event with
  | .llm, .llmStarted e => some ⟨d.now, .start e.turn⟩
  | .llm, .llmToken e => some ⟨d.now, .lap e.turn⟩
  | .llm, .llmFinished e => some ⟨d.now, .stop e.turn⟩
  | _, _ => none

/-- A sentence is a turn and a number in it. -/
def sentencePress (d : Delivery) : Option (Press (TurnId × SequenceNo)) :=
  match d.sub, d.event with
  | .tts, .ttsStarted e => some ⟨d.now, .start (e.turn, e.seq)⟩
  | .tts, .ttsAudioChunk e => some ⟨d.now, .lap (e.turn, e.seq)⟩
  | .tts, .ttsFinished e => some ⟨d.now, .stop (e.turn, e.seq)⟩
  | _, _ => none

def replies (ds : List Delivery) : List (Press TurnId) := ds.filterMap replyPress

def sentences (ds : List Delivery) : List (Press (TurnId × SequenceNo)) :=
  ds.filterMap sentencePress

/-- A token that comes right behind its turn's start. -/
def firstToken (past : List Delivery) (d : Delivery) : Option ℚ :=
  match d.sub, d.event with
  | .llm, .llmToken e => (freshSince e.turn (replies past)).map fun t => toMs (d.now - t)
  | _, _ => none

/-- The end of a reply that was started, with tokens and after some time. -/
def throughput (past : List Delivery) (d : Delivery) : Option ℚ :=
  match d.sub, d.event with
  | .llm, .llmFinished e =>
      (runningSince e.turn (replies past)).bind fun t =>
        if t < d.now ∧ 0 < e.tokensGenerated then some (e.tokensGenerated / toSecs (d.now - t))
        else none
  | _, _ => none

/-- A chunk that comes right behind its sentence's start. -/
def firstAudio (past : List Delivery) (d : Delivery) : Option ℚ :=
  match d.sub, d.event with
  | .tts, .ttsAudioChunk e =>
      (freshSince (e.turn, e.seq) (sentences past)).map fun t => toMs (d.now - t)
  | _, _ => none

def audioBytes (d : Delivery) : Nat :=
  match d.sub, d.event with
  | .tts, .ttsAudioChunk e => e.bytes
  | _, _ => 0

/-! ## One delivery -/

theorem toMs_nonneg {ns : Int} (h : 0 ≤ ns) : 0 ≤ toMs ns := by
  have hcast : (0 : ℚ) ≤ ns := Int.cast_nonneg h
  exact div_nonneg hcast (by norm_num)

theorem toSecs_pos {ns : Int} : 0 < toSecs ns ↔ 0 < ns := by
  rw [toSecs, div_pos_iff_of_pos_right (by norm_num), Int.cast_pos]

theorem replies_concat (ds : List Delivery) (d : Delivery) :
    replies (ds ++ [d]) = replies ds ++ (replyPress d).toList := by
  rw [replies, List.filterMap_append]
  cases h : replyPress d <;> simp [replies, h]

theorem sentences_concat (ds : List Delivery) (d : Delivery) :
    sentences (ds ++ [d]) = sentences ds ++ (sentencePress d).toList := by
  rw [sentences, List.filterMap_append]
  cases h : sentencePress d <;> simp [sentences, h]

/-- A reply's start was read off the clock before. -/
theorem le_of_replies {ds : List Delivery} {now : TimePoint} (hclock : ∀ d ∈ ds, d.now ≤ now)
    {t : Int} (h : ∃ p ∈ replies ds, p.time = t) : t ≤ now := by
  obtain ⟨p, hp, rfl⟩ := h
  obtain ⟨d, hd, hpress⟩ := List.mem_filterMap.mp hp
  have htime : p.time = d.now := by
    obtain ⟨sub, dnow, event⟩ := d
    cases sub <;> cases event <;> cases hpress <;> rfl
  exact htime ▸ hclock d hd

theorem le_of_sentences {ds : List Delivery} {now : TimePoint} (hclock : ∀ d ∈ ds, d.now ≤ now)
    {t : Int} (h : ∃ p ∈ sentences ds, p.time = t) : t ≤ now := by
  obtain ⟨p, hp, rfl⟩ := h
  obtain ⟨d, hd, hpress⟩ := List.mem_filterMap.mp hp
  have htime : p.time = d.now := by
    obtain ⟨sub, dnow, event⟩ := d
    cases sub <;> cases event <;> cases hpress <;> rfl
  exact htime ▸ hclock d hd

/-- What a handler of the replies leaves alone. -/
structure KeepsAudio (r r' : Registry) : Prop where
  eventsPublished : r'.eventsPublished = r.eventsPublished
  ttsTimers : r'.ttsTimers = r.ttsTimers
  ttsFirstAudioMs : r'.ttsFirstAudioMs = r.ttsFirstAudioMs
  ttsAudioBytes : r'.ttsAudioBytes = r.ttsAudioBytes

/-- The timers and what they told, after a delivery to the subscription of the replies. -/
structure TimesReplies (ds : List Delivery) (d : Delivery) (r r' : Registry) : Prop where
  timers : r'.timers = watchesAfter (replies (ds ++ [d]))
  firstToken : r'.llmFirstTokenMs = r.llmFirstTokenMs ++ (firstToken ds d).toList
  throughput : r'.llmTokensPerSec = r.llmTokensPerSec ++ (throughput ds d).toList
  keeps : KeepsAudio r r'

section Replies

variable {ds : List Delivery} {r : Registry} {now : TimePoint}

theorem onLlmToken_times (htimers : r.timers = watchesAfter (replies ds))
    (hclock : ∀ d ∈ ds, d.now ≤ now) (e : LlmToken) :
    TimesReplies ds ⟨.llm, now, .llmToken e⟩ r (r.onLlmEvent now (.llmToken e)) := by
  obtain ⟨hwatch, hfresh⟩ := watchesAfter_eq e.turn (replies ds)
  have hpress : replies (ds ++ [⟨.llm, now, .llmToken e⟩]) =
      replies ds ++ [⟨now, .lap e.turn⟩] := replies_concat ds _
  have hread : r.timers e.turn = watchesAfter (replies ds) e.turn := congrFun htimers _
  cases hsince : freshSince e.turn (replies ds) with
  | some t =>
      have htime : t ≤ now := le_of_replies hclock (mem_of_freshSince hsince)
      have hms : 0 ≤ toMs (now - t) := toMs_nonneg (by omega)
      rw [hfresh t hsince, hsince] at hwatch
      rw [hwatch] at hread
      have hstep : r.onLlmEvent now (.llmToken e) =
          { r with
            timers := Function.update r.timers e.turn (some { startedAt := t, lapped := true })
            llmFirstTokenMs := r.llmFirstTokenMs ++ [toMs (now - t)] } := by
        simp [Registry.onLlmEvent, hread, hms]
      rw [hstep]
      refine ⟨?_, ?_, ?_, ⟨rfl, rfl, rfl, rfl⟩⟩
      · rw [hpress, watchesAfter_concat]
        simp [press, hwatch, htimers]
      · simp [firstToken, hsince]
      · simp [throughput]
  | none =>
      -- no watch, or one that has been lapped
      have hstep : r.onLlmEvent now (.llmToken e) = r := by
        cases hrunning : runningSince e.turn (replies ds) <;>
          simp [Registry.onLlmEvent, hread, hwatch, hrunning, hsince]
      rw [hstep]
      refine ⟨?_, ?_, ?_, ⟨rfl, rfl, rfl, rfl⟩⟩
      · rw [hpress, watchesAfter_concat, htimers]
        cases hrunning : runningSince e.turn (replies ds) <;>
          simp [press, hwatch, hrunning, hsince]
      · simp [firstToken, hsince]
      · simp [throughput]

theorem onLlmFinished_times (htimers : r.timers = watchesAfter (replies ds)) (e : LlmFinished) :
    TimesReplies ds ⟨.llm, now, .llmFinished e⟩ r (r.onLlmEvent now (.llmFinished e)) := by
  have hwatch := (watchesAfter_eq e.turn (replies ds)).1
  have hpress : replies (ds ++ [⟨.llm, now, .llmFinished e⟩]) =
      replies ds ++ [⟨now, .stop e.turn⟩] := replies_concat ds _
  have hread : r.timers e.turn = watchesAfter (replies ds) e.turn := congrFun htimers _
  cases hrunning : runningSince e.turn (replies ds) with
  | some t =>
      rw [hrunning] at hwatch
      rw [hwatch] at hread
      have hsecs : (0 < toSecs (now - t) ∧ 0 < e.tokensGenerated) ↔
          (t < now ∧ 0 < e.tokensGenerated) := by
        rw [toSecs_pos, Int.sub_pos]
      by_cases hsome : t < now ∧ 0 < e.tokensGenerated
      · have htps : (0 : ℚ) < e.tokensGenerated / toSecs (now - t) :=
          div_pos (Nat.cast_pos.mpr hsome.2) (hsecs.mpr hsome).1
        have hstep : r.onLlmEvent now (.llmFinished e) =
            { r with
              timers := Function.update r.timers e.turn none
              llmTokensPerSec :=
                r.llmTokensPerSec ++ [e.tokensGenerated / toSecs (now - t)] } := by
          simp only [Registry.onLlmEvent, hread, Option.map_some, if_pos (hsecs.mpr hsome),
            if_pos htps]
        rw [hstep]
        refine ⟨?_, ?_, ?_, ⟨rfl, rfl, rfl, rfl⟩⟩
        · rw [hpress, watchesAfter_concat]
          simp [press, htimers]
        · simp [firstToken]
        · simp [throughput, hrunning, hsome]
      · have hstep : r.onLlmEvent now (.llmFinished e) =
            { r with timers := Function.update r.timers e.turn none } := by
          simp only [Registry.onLlmEvent, hread, Option.map_some,
            if_neg (fun h => hsome (hsecs.mp h)), lt_irrefl, ↓reduceIte]
        rw [hstep]
        refine ⟨?_, ?_, ?_, ⟨rfl, rfl, rfl, rfl⟩⟩
        · rw [hpress, watchesAfter_concat]
          simp [press, htimers]
        · simp [firstToken]
        · simp [throughput, hrunning, hsome]
  | none =>
      rw [hrunning] at hwatch
      rw [hwatch] at hread
      have hstep : r.onLlmEvent now (.llmFinished e) = r := by
        simp [Registry.onLlmEvent, hread]
      rw [hstep]
      refine ⟨?_, ?_, ?_, ⟨rfl, rfl, rfl, rfl⟩⟩
      · rw [hpress, watchesAfter_concat, htimers]
        funext k
        by_cases hk : k = e.turn
        · simp [press, hk, hwatch]
        · simp [press, hk]
      · simp [firstToken]
      · simp [throughput, hrunning]

theorem onLlmEvent_times (htimers : r.timers = watchesAfter (replies ds))
    (hclock : ∀ d ∈ ds, d.now ≤ now) (e : Event) :
    TimesReplies ds ⟨.llm, now, e⟩ r (r.onLlmEvent now e) := by
  have hother : replyPress ⟨.llm, now, e⟩ = none → firstToken ds ⟨.llm, now, e⟩ = none →
      throughput ds ⟨.llm, now, e⟩ = none → r.onLlmEvent now e = r →
      TimesReplies ds ⟨.llm, now, e⟩ r (r.onLlmEvent now e) := by
    intro hnone hfirst hthrough hstep
    rw [hstep]
    refine ⟨?_, ?_, ?_, ⟨rfl, rfl, rfl, rfl⟩⟩
    · rw [replies_concat, hnone, Option.toList_none, List.append_nil, htimers]
    · rw [hfirst, Option.toList_none, List.append_nil]
    · rw [hthrough, Option.toList_none, List.append_nil]
  cases e with
  | llmStarted e =>
      refine ⟨?_, (List.append_nil _).symm, (List.append_nil _).symm, ⟨rfl, rfl, rfl, rfl⟩⟩
      have hpress : replies (ds ++ [⟨.llm, now, .llmStarted e⟩]) =
          replies ds ++ [⟨now, .start e.turn⟩] := replies_concat ds _
      rw [hpress, watchesAfter_concat, ← htimers]
      rfl
  | llmToken e => exact onLlmToken_times htimers hclock e
  | llmFinished e => exact onLlmFinished_times htimers e
  | _ => exact hother rfl rfl rfl rfl

end Replies

/-- What a handler of the sentences leaves alone. -/
structure KeepsReplies (r r' : Registry) : Prop where
  eventsPublished : r'.eventsPublished = r.eventsPublished
  timers : r'.timers = r.timers
  llmFirstTokenMs : r'.llmFirstTokenMs = r.llmFirstTokenMs
  llmTokensPerSec : r'.llmTokensPerSec = r.llmTokensPerSec

/-- The key of a sentence. -/
def keyOf (k : TurnId × SequenceNo) : UInt64 := ttsKey k.1 k.2

/-- The presses by the keys, which are all that the registry sees. -/
def keyed (ds : List Delivery) : List (Press UInt64) := (sentences ds).map (Press.rename keyOf)

/-- The timers and what they told, after a delivery to the subscription of the sentences. -/
structure TimesSentences (ds : List Delivery) (d : Delivery) (r r' : Registry) : Prop where
  timers : r'.ttsTimers = watchesAfter (keyed (ds ++ [d]))
  firstAudio : r'.ttsFirstAudioMs = r.ttsFirstAudioMs ++ (firstAudio ds d).toList
  audioBytes : r'.ttsAudioBytes = r.ttsAudioBytes + audioBytes d
  keeps : KeepsReplies r r'

section Sentences

variable {ds : List Delivery} {r : Registry} {now : TimePoint}

theorem keyed_concat (ds : List Delivery) (d : Delivery) :
    keyed (ds ++ [d]) = keyed ds ++ (sentencePress d).toList.map (Press.rename keyOf) := by
  rw [keyed, sentences_concat, List.map_append]
  rfl

/-- The handler's value for nothing to observe. -/
theorem onTtsFirstAudio_none (r : Registry) : r.onTtsFirstAudio (-1) = r := if_neg (by norm_num)

theorem onTtsAudioBytes_eq (n : Nat) (r : Registry) :
    r.onTtsAudioBytes n = { r with ttsAudioBytes := r.ttsAudioBytes + n } := by
  unfold Registry.onTtsAudioBytes
  split
  next => rfl
  next hzero => rw [Nat.eq_zero_of_not_pos hzero, Nat.add_zero]

theorem onTtsAudioChunk_times (htimers : r.ttsTimers = watchesAfter (keyed ds))
    (hclock : ∀ d ∈ ds, d.now ≤ now) (e : TtsAudioChunk)
    (hapart : ∀ p ∈ sentences ds, keyOf p.mark.key = keyOf (e.turn, e.seq) →
      p.mark.key = (e.turn, e.seq)) :
    TimesSentences ds ⟨.tts, now, .ttsAudioChunk e⟩ r (r.onTtsEvent now (.ttsAudioChunk e)) := by
  obtain ⟨hwatch, hfresh⟩ := watchesAfter_eq (keyOf (e.turn, e.seq)) (keyed ds)
  have hpress : keyed (ds ++ [⟨.tts, now, .ttsAudioChunk e⟩]) =
      keyed ds ++ [⟨now, .lap (keyOf (e.turn, e.seq))⟩] := keyed_concat ds _
  have hread : r.ttsTimers (ttsKey e.turn e.seq) =
      watchesAfter (keyed ds) (keyOf (e.turn, e.seq)) := congrFun htimers _
  have hname : freshSince (keyOf (e.turn, e.seq)) (keyed ds) =
      freshSince (e.turn, e.seq) (sentences ds) := freshSince_rename hapart
  cases hsince : freshSince (e.turn, e.seq) (sentences ds) with
  | some t =>
      have htime : t ≤ now := le_of_sentences hclock (mem_of_freshSince hsince)
      have hms : 0 ≤ toMs (now - t) := toMs_nonneg (by omega)
      rw [hfresh t (hname.trans hsince), hname, hsince] at hwatch
      rw [hwatch] at hread
      have hstep : r.onTtsEvent now (.ttsAudioChunk e) =
          { r with
            ttsTimers := Function.update r.ttsTimers (keyOf (e.turn, e.seq))
              (some { startedAt := t, lapped := true })
            ttsFirstAudioMs := r.ttsFirstAudioMs ++ [toMs (now - t)]
            ttsAudioBytes := r.ttsAudioBytes + e.bytes } := by
        simp [Registry.onTtsEvent, hread, Registry.onTtsFirstAudio, hms, onTtsAudioBytes_eq, keyOf]
      rw [hstep]
      refine ⟨?_, ?_, rfl, ⟨rfl, rfl, rfl, rfl⟩⟩
      · rw [hpress, watchesAfter_concat]
        simp [press, hwatch, htimers]
      · simp [firstAudio, hsince]
  | none =>
      have hnone : ∀ w, watchesAfter (keyed ds) (keyOf (e.turn, e.seq)) = some w →
          w.lapped = true := by
        intro w hw
        rw [hwatch, hname, hsince] at hw
        obtain ⟨t, -, rfl⟩ := Option.map_eq_some_iff.mp hw
        rfl
      have hstep : r.onTtsEvent now (.ttsAudioChunk e) =
          { r with ttsAudioBytes := r.ttsAudioBytes + e.bytes } := by
        cases hsome : watchesAfter (keyed ds) (keyOf (e.turn, e.seq)) with
        | none =>
            rw [hsome] at hread
            simp [Registry.onTtsEvent, hread, onTtsFirstAudio_none, onTtsAudioBytes_eq]
        | some w =>
            obtain ⟨startedAt, lapped⟩ := w
            obtain rfl : lapped = true := hnone _ hsome
            rw [hsome] at hread
            simp [Registry.onTtsEvent, hread, onTtsFirstAudio_none, onTtsAudioBytes_eq]
      rw [hstep]
      refine ⟨?_, ?_, rfl, ⟨rfl, rfl, rfl, rfl⟩⟩
      · rw [hpress, watchesAfter_concat]
        cases hsome : watchesAfter (keyed ds) (keyOf (e.turn, e.seq)) with
        | none => simp [press, hsome, htimers]
        | some w =>
            obtain ⟨startedAt, lapped⟩ := w
            obtain rfl : lapped = true := hnone _ hsome
            simp [press, hsome, htimers]
      · simp [firstAudio, hsince]

/-- The sentences on the bus have keys of their own. -/
def TellsApart (ds : List Delivery) : Prop :=
  ∀ p ∈ sentences ds, ∀ p' ∈ sentences ds,
    keyOf p.mark.key = keyOf p'.mark.key → p.mark.key = p'.mark.key

theorem onTtsEvent_times (htimers : r.ttsTimers = watchesAfter (keyed ds))
    (hclock : ∀ d ∈ ds, d.now ≤ now) (e : Event) (hapart : TellsApart (ds ++ [⟨.tts, now, e⟩])) :
    TimesSentences ds ⟨.tts, now, e⟩ r (r.onTtsEvent now e) := by
  have hother : sentencePress ⟨.tts, now, e⟩ = none → firstAudio ds ⟨.tts, now, e⟩ = none →
      audioBytes ⟨.tts, now, e⟩ = 0 → r.onTtsEvent now e = r →
      TimesSentences ds ⟨.tts, now, e⟩ r (r.onTtsEvent now e) := by
    intro hnone hfirst hbytes hstep
    rw [hstep]
    refine ⟨?_, ?_, ?_, ⟨rfl, rfl, rfl, rfl⟩⟩
    · rw [keyed_concat, hnone, Option.toList_none, List.map_nil, List.append_nil, htimers]
    · rw [hfirst, Option.toList_none, List.append_nil]
    · rw [hbytes, Nat.add_zero]
  cases e with
  | ttsStarted e =>
      refine ⟨?_, (List.append_nil _).symm, rfl, ⟨rfl, rfl, rfl, rfl⟩⟩
      have hpress : keyed (ds ++ [⟨.tts, now, .ttsStarted e⟩]) =
          keyed ds ++ [⟨now, .start (keyOf (e.turn, e.seq))⟩] := keyed_concat ds _
      rw [hpress, watchesAfter_concat, ← htimers]
      rfl
  | ttsAudioChunk e =>
      refine onTtsAudioChunk_times htimers hclock e fun p hp => ?_
      rw [TellsApart, sentences_concat] at hapart
      exact hapart p (List.mem_append_left _ hp) ⟨now, .lap (e.turn, e.seq)⟩
        (List.mem_append_right _ List.mem_cons_self)
  | ttsFinished e =>
      refine ⟨?_, (List.append_nil _).symm, rfl, ⟨rfl, rfl, rfl, rfl⟩⟩
      have hpress : keyed (ds ++ [⟨.tts, now, .ttsFinished e⟩]) =
          keyed ds ++ [⟨now, .stop (keyOf (e.turn, e.seq))⟩] := keyed_concat ds _
      rw [hpress, watchesAfter_concat, ← htimers]
      rfl
  | _ => exact hother rfl rfl rfl rfl

end Sentences

/-! ## All deliveries -/

/-- The metrics behind some deliveries; the timers are the watches of their presses. -/
structure MeasuresInv (ds : List Delivery) (r : Registry) : Prop where
  counted : ∀ name, r.eventsPublished name =
    ds.countP fun d => d.sub = .events ∧ eventName d.event = name
  timers : r.timers = watchesAfter (replies ds)
  ttsTimers : r.ttsTimers = watchesAfter (keyed ds)
  firstToken : r.llmFirstTokenMs = along firstToken ds
  throughput : r.llmTokensPerSec = along throughput ds
  firstAudio : r.ttsFirstAudioMs = along firstAudio ds
  audioBytes : r.ttsAudioBytes = (ds.map audioBytes).sum

theorem MeasuresInv.deliver {ds : List Delivery} {r : Registry} (h : MeasuresInv ds r)
    (d : Delivery) (hclock : ∀ d' ∈ ds, d'.now ≤ d.now) (hapart : TellsApart (ds ++ [d])) :
    MeasuresInv (ds ++ [d]) (r.deliver d) := by
  obtain ⟨sub, now, e⟩ := d
  cases sub with
  | events =>
      refine ⟨fun name => ?_, ?_, ?_, ?_, ?_, ?_, ?_⟩
      · rw [List.countP_append, ← h.counted name]
        by_cases hname : eventName e = name
        · simp [Registry.deliver, Registry.onEventPublished, hname]
        · simp [Registry.deliver, Registry.onEventPublished, hname,
            Function.update_of_ne (Ne.symm hname)]
      · rw [replies_concat]
        exact h.timers.trans (congrArg watchesAfter (List.append_nil _).symm)
      · rw [keyed_concat]
        exact h.ttsTimers.trans (congrArg watchesAfter (List.append_nil _).symm)
      · rw [along_concat]
        exact h.firstToken.trans (List.append_nil _).symm
      · rw [along_concat]
        exact h.throughput.trans (List.append_nil _).symm
      · rw [along_concat]
        exact h.firstAudio.trans (List.append_nil _).symm
      · rw [List.map_append, List.sum_append]
        exact h.audioBytes
  | llm =>
      have htimes := onLlmEvent_times h.timers hclock e
      have hkeeps := htimes.keeps
      refine ⟨fun name => ?_, htimes.timers, ?_, ?_, ?_, ?_, ?_⟩
      · rw [List.countP_append, ← h.counted name]
        exact (congrFun hkeeps.eventsPublished name).trans (by simp)
      · rw [keyed_concat]
        exact hkeeps.ttsTimers.trans
          (h.ttsTimers.trans (congrArg watchesAfter (List.append_nil _).symm))
      · rw [along_concat, ← h.firstToken]
        exact htimes.firstToken
      · rw [along_concat, ← h.throughput]
        exact htimes.throughput
      · rw [along_concat, ← h.firstAudio]
        exact hkeeps.ttsFirstAudioMs.trans (List.append_nil _).symm
      · rw [List.map_append, List.sum_append, ← h.audioBytes]
        exact hkeeps.ttsAudioBytes
  | tts =>
      have htimes := onTtsEvent_times h.ttsTimers hclock e hapart
      have hkeeps := htimes.keeps
      refine ⟨fun name => ?_, ?_, htimes.timers, ?_, ?_, ?_, ?_⟩
      · rw [List.countP_append, ← h.counted name]
        exact (congrFun hkeeps.eventsPublished name).trans (by simp)
      · rw [replies_concat]
        exact hkeeps.timers.trans
          (h.timers.trans (congrArg watchesAfter (List.append_nil _).symm))
      · rw [along_concat, ← h.firstToken]
        exact hkeeps.llmFirstTokenMs.trans (List.append_nil _).symm
      · rw [along_concat, ← h.throughput]
        exact hkeeps.llmTokensPerSec.trans (List.append_nil _).symm
      · rw [along_concat, ← h.firstAudio]
        exact htimes.firstAudio
      · rw [List.map_append, List.sum_append, ← h.audioBytes]
        exact htimes.audioBytes

/-- The metrics are what there is to measure, and a timer is kept exactly while its reply or its
sentence is started and not finished. -/
structure Measures (ds : List Delivery) (r : Registry) : Prop where
  counted : ∀ name, r.eventsPublished name =
    ds.countP fun d => d.sub = .events ∧ eventName d.event = name
  timers : ∀ turn, r.timers turn = watchOf turn (replies ds)
  ttsTimers : ∀ p ∈ sentences ds,
    r.ttsTimers (keyOf p.mark.key) = watchOf p.mark.key (sentences ds)
  noOthers : ∀ key, (∀ p ∈ sentences ds, keyOf p.mark.key ≠ key) → r.ttsTimers key = none
  firstToken : r.llmFirstTokenMs = along firstToken ds
  throughput : r.llmTokensPerSec = along throughput ds
  firstAudio : r.ttsFirstAudioMs = along firstAudio ds
  audioBytes : r.ttsAudioBytes = (ds.map audioBytes).sum

theorem MeasuresInv.measures {ds : List Delivery} {r : Registry} (h : MeasuresInv ds r)
    (hapart : TellsApart ds) : Measures ds r where
  counted := h.counted
  timers turn := by rw [h.timers, (watchesAfter_eq turn _).1, watchOf]
  ttsTimers p hp := by
    rw [h.ttsTimers]
    exact watchesAfter_rename fun p' hp' => hapart p' hp' p hp
  noOthers key hkey := by
    rw [h.ttsTimers]
    refine watchesAfter_of_unpressed fun p' hp' => ?_
    obtain ⟨p, hp, rfl⟩ := List.mem_map.mp hp'
    rw [rename_key]
    exact hkey p hp
  firstToken := h.firstToken
  throughput := h.throughput
  firstAudio := h.firstAudio
  audioBytes := h.audioBytes

theorem deliverAll_measuresInv {ds : List Delivery}
    (hclock : ds.Pairwise fun d d' => d.now ≤ d'.now) (hapart : TellsApart ds) :
    MeasuresInv ds (Registry.deliverAll ds) := by
  induction ds using List.reverseRecOn with
  | nil => exact ⟨fun _ => rfl, rfl, rfl, rfl, rfl, rfl, rfl⟩
  | append_singleton ds d ih =>
      obtain ⟨hbefore, -, hlast⟩ := List.pairwise_append.mp hclock
      have happart' : TellsApart ds := by
        intro p hp p' hp'
        rw [TellsApart, sentences_concat] at hapart
        exact hapart p (List.mem_append_left _ hp) p' (List.mem_append_left _ hp')
      have hmeasures := (ih hbefore happart').deliver d
        (fun d' hd' => hlast d' hd' d List.mem_cons_self) hapart
      rw [Registry.deliverAll, List.foldl_append]
      exact hmeasures

/-- Whatever the three workers are given and in whatever order they take it: the events are
counted by their names, and each histogram has, in order, one value for each first token, end of
a reply and first chunk of a sentence that the history says there is something to measure at.
The clock does not go back, and the sentences' keys differ. -/
theorem deliverAll_measures {ds : List Delivery}
    (hclock : ds.Pairwise fun d d' => d.now ≤ d'.now) (hapart : TellsApart ds) :
    Measures ds (Registry.deliverAll ds) :=
  (deliverAll_measuresInv hclock hapart).measures hapart

/-- Short of `2 ^ 32` turns and as many sentences in a turn, the keys differ. -/
theorem tellsApart_of_lt {ds : List Delivery}
    (h : ∀ p ∈ sentences ds, p.mark.key.1 < 2 ^ 32 ∧ p.mark.key.2 < 2 ^ 32) : TellsApart ds := by
  intro p hp p' hp' hkey
  obtain ⟨hturn, hseq⟩ := ttsKey_inj.mp hkey
  obtain ⟨hp1, hp2⟩ := h p hp
  obtain ⟨hp1', hp2'⟩ := h p' hp'
  rw [Nat.mod_eq_of_lt hp1, Nat.mod_eq_of_lt hp1'] at hturn
  rw [Nat.mod_eq_of_lt hp2, Nat.mod_eq_of_lt hp2'] at hseq
  exact Prod.ext hturn hseq

/-- Two replies, the second cut off before its first token, and a sentence of the first. -/
def twoReplies : List Delivery :=
  [⟨.llm, 0, .llmStarted { turn := 1 }⟩, ⟨.events, 1, .llmStarted { turn := 1 }⟩,
    ⟨.llm, 2000000, .llmToken { turn := 1 }⟩, ⟨.llm, 3000000, .llmToken { turn := 1 }⟩,
    ⟨.tts, 3000000, .ttsStarted { turn := 1 }⟩,
    ⟨.llm, 500000000, .llmFinished { turn := 1, tokensGenerated := 2 }⟩,
    ⟨.tts, 503000000, .ttsAudioChunk { turn := 1, bytes := 8 }⟩,
    ⟨.llm, 600000000, .llmStarted { turn := 2 }⟩,
    ⟨.llm, 700000000, .llmFinished { turn := 2, cancelled := true }⟩]

theorem deliverAll_measures_twoReplies :
    along firstToken twoReplies = [2] ∧ along throughput twoReplies = [4] ∧
      along firstAudio twoReplies = [500] ∧
      Measures twoReplies (Registry.deliverAll twoReplies) := by
  refine ⟨by decide +kernel, by decide +kernel, by decide +kernel, ?_⟩
  exact deliverAll_measures (by decide) (tellsApart_of_lt (by decide))

end Acva.Metrics
