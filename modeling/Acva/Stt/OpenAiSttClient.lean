import Acva.Audio.Utterance
import Acva.Audio.Wav
import Acva.Config.Config
import Acva.Core.Json
import Acva.Dialogue.CancellationToken

/-! # The request/response STT client

`submit` uploads the slice as a WAV file and makes one of its two callbacks. The transfer is
libcurl's and the server's; the reader of the JSON answer is a parameter.
-/

namespace Acva.Stt

open Acva.Audio Acva.Config Acva.Dialogue Acva.Json

/-! ## The request -/

structure SttRequest where
  turn : TurnId := kNoTurn
  slice : AudioSlice
  cancel : TokenRef
  langHint : Bytes := []
deriving DecidableEq, Repr

/-- The multipart form that is posted. -/
structure Upload where
  url : Bytes
  file : Bytes
  model : Bytes
  language : Option Bytes
deriving DecidableEq, Repr

def transcriptionsUrl (baseUrl : Bytes) : Bytes :=
  (if baseUrl.getLast? = some (byte '/') then baseUrl.dropLast else baseUrl) ++
    ascii "/audio/transcriptions"

/-- `CURL_ZERO_TERMINATED`. -/
def zeroTerminated (s : Bytes) : Bytes := s.takeWhile (· ≠ 0)

def uploadFor (cfg : SttConfig) (req : SttRequest) : Upload where
  url := transcriptionsUrl cfg.baseUrl
  file := makeWav req.slice.samples req.slice.sampleRate.toUInt32
  model := zeroTerminated cfg.model
  language := if req.langHint = [] then none else some (zeroTerminated req.langHint)

/-! ## What can go wrong -/

inductive SttFailure
  | noBaseUrl
  | noModel
  | cancelled
  | initFailed
  | transfer (error : Bytes)
  | http (status : Nat) (url body : Bytes)
  | unparsed (error : Bytes)
deriving DecidableEq, Repr

def SttFailure.text : SttFailure → Bytes
  | .noBaseUrl => ascii "openai_stt: cfg.stt.base_url is empty"
  | .noModel => ascii "openai_stt: cfg.stt.model is empty"
  | .cancelled => ascii "cancelled"
  | .initFailed => ascii "openai_stt: curl_easy_init failed"
  | .transfer error => ascii "openai_stt: curl: " ++ error
  | .http status url body =>
      ascii "openai_stt: http " ++ decimal status ++ ascii " from " ++ url ++ ascii ": " ++
        body.take 200
  | .unparsed error => ascii "openai_stt: response parse: " ++ error

/-- The checks before the transfer; a slice there is. -/
def refusal (cfg : SttConfig) (cancelled initOk : Bool) : Option SttFailure :=
  if cfg.baseUrl = [] then some .noBaseUrl
  else if cfg.model = [] then some .noModel
  else if cancelled = true then some .cancelled
  else if initOk = false then some .initFailed
  else none

/-- What the transfer came to: libcurl's text if it failed, the status and the body. -/
structure Reply where
  error : Option Bytes := none
  status : Nat := 0
  body : Bytes := []
deriving DecidableEq, Repr

/-- `readText` finds the text in a body, or says why it cannot read it. -/
def outcome (readText : Bytes → Except Bytes Bytes) (cfg : SttConfig) (req : SttRequest)
    (cancelled : Bool) (reply : Reply) : Except SttFailure FinalTranscript :=
  if cancelled = true then .error .cancelled
  else
    match reply.error with
    | some text => .error (.transfer text)
    | none =>
        if reply.status < 200 ∨ 300 ≤ reply.status then
          .error (.http reply.status (transcriptionsUrl cfg.baseUrl) reply.body)
        else
          match readText reply.body with
          | .error text => .error (.unparsed text)
          | .ok text => .ok { turn := req.turn, text := text, lang := req.langHint }

/-- A transcript has the turn and the language of its request, and needs a good answer. -/
theorem outcome_eq_ok {readText : Bytes → Except Bytes Bytes} {cfg : SttConfig} {req : SttRequest}
    {cancelled : Bool} {reply : Reply} {ev : FinalTranscript}
    (h : outcome readText cfg req cancelled reply = .ok ev) :
    ev.turn = req.turn ∧ ev.lang = req.langHint ∧ readText reply.body = .ok ev.text ∧
      reply.error = none ∧ 200 ≤ reply.status ∧ reply.status < 300 := by
  unfold outcome at h
  split at h
  next => cases h
  next =>
    split at h
    next => cases h
    next herror =>
      split at h
      next => cases h
      next hstatus =>
        obtain ⟨hlow, hhigh⟩ := not_or.mp hstatus
        split at h
        next => cases h
        next text htext =>
          cases h
          exact ⟨rfl, rfl, htext, herror, Nat.not_lt.mp hlow, Nat.not_le.mp hhigh⟩

theorem refusal_of_live {cfg : SttConfig} {initOk : Bool} :
    refusal cfg false initOk ≠ some .cancelled := by
  unfold refusal
  split
  · exact nofun
  · split
    · exact nofun
    · split
      next h => cases h
      next => split <;> exact nofun

theorem outcome_of_live {readText : Bytes → Except Bytes Bytes} {cfg : SttConfig}
    {req : SttRequest} {reply : Reply} :
    outcome readText cfg req false reply ≠ .error .cancelled := by
  unfold outcome
  split
  next h => cases h
  next =>
    split
    · exact nofun
    · split
      · exact nofun
      · split <;> exact nofun

end Acva.Stt
