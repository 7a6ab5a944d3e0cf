import Acva.Audio.WavRoundTrip
import Acva.Core.JsonText
import Acva.Stt.Base64
import Acva.Stt.RealtimeSttClient

/-! # What the realtime client writes

The messages are spliced from pieces of JSON, and nothing in them is escaped. The audio is
base64 over the bytes of the samples.
-/

namespace Acva.Stt

open Acva.Audio Acva.Json Acva.Playback

/-! ## The builders -/

def kEventIdAlphabet : Bytes :=
  ascii "ABCDEFGHIJKLMNOPQRSTUVWXYZabcdefghijklmnopqrstuvwxyz0123456789"

/-- `gen` is what the generator gives, draw by draw. -/
def randomEventId (gen : Nat → UInt64) : Bytes :=
  ascii "evt_" ++ (List.range 20).map fun i =>
    kEventIdAlphabet.getD ((gen i).toNat % kEventIdAlphabet.length) 0

def buildInputAudioBufferAppendJson (eventId base64Audio : Bytes) : Bytes :=
  ascii "\x7b\"event_id\":\"" ++ eventId ++
    ascii "\",\"type\":\"input_audio_buffer.append\",\"audio\":\"" ++ base64Audio ++
    ascii "\"\x7d"

def buildSimpleEventJson (eventId type : Bytes) : Bytes :=
  ascii "\x7b\"event_id\":\"" ++ eventId ++ ascii "\",\"type\":\"" ++ type ++ ascii "\"\x7d"

def buildSessionUpdateJson (eventId modelId language : Bytes) : Bytes :=
  ascii "\x7b\"event_id\":\"" ++ eventId ++
    ascii "\",\"type\":\"session.update\",\"session\":\x7b" ++
    ascii "\"modalities\":[\"text\"]," ++
    ascii "\"tools\":[]," ++
    ascii "\"turn_detection\":\x7b" ++
    ascii "\"type\":\"server_vad\"," ++
    ascii "\"create_response\":false," ++
    ascii "\"prefix_padding_ms\":0," ++
    ascii "\"silence_duration_ms\":550," ++
    ascii "\"threshold\":1.0" ++
    ascii "\x7d," ++
    ascii "\"input_audio_transcription\":\x7b\"model\":\"" ++ modelId ++
    (if language ≠ [] then ascii "\",\"language\":\"" ++ language else []) ++
    ascii "\"\x7d\x7d\x7d"

/-- The text that is sent for a message. -/
def ClientMessage.wire (eventId : Bytes) : ClientMessage → Bytes
  | .clear _ => buildSimpleEventJson eventId (ascii "input_audio_buffer.clear")
  | .append samples =>
      buildInputAudioBufferAppendJson eventId (base64Encode (sampleBytes samples))
  | .commit _ => buildSimpleEventJson eventId (ascii "input_audio_buffer.commit")

/-! ## The server's reading -/

/-- What a message asks of the session. -/
inductive BufferEvent
  | update (model : Bytes) (language : Option Bytes) (createResponse : Bool)
  | clear
  | append (samples : List Sample)
  | commit
deriving DecidableEq, Repr

def ClientMessage.bufferEvent : ClientMessage → BufferEvent
  | .clear _ => .clear
  | .append samples => .append samples
  | .commit _ => .commit

/-- The member of an object with a key. -/
def field (key : Bytes) : Value → Option Value
  | .object members => (members.find? fun m => m.1 = key).map Prod.snd
  | _ => none

def stringOf : Value → Option Bytes
  | .string s => some s
  | _ => none

def boolOf : Value → Option Bool
  | .bool b => some b
  | _ => none

def readUpdate (value : Value) : Option BufferEvent := do
  let session ← field (ascii "session") value
  let transcription ← field (ascii "input_audio_transcription") session
  let model ← (field (ascii "model") transcription).bind stringOf
  let detection ← field (ascii "turn_detection") session
  let createResponse ← (field (ascii "create_response") detection).bind boolOf
  some (.update model ((field (ascii "language") transcription).bind stringOf) createResponse)

def readBufferEvent (text : Bytes) : Option BufferEvent := do
  let value ← parse text
  let type ← (field (ascii "type") value).bind stringOf
  if type = ascii "session.update" then readUpdate value
  else if type = ascii "input_audio_buffer.clear" then some .clear
  else if type = ascii "input_audio_buffer.commit" then some .commit
  else if type = ascii "input_audio_buffer.append" then do
    let audio ← (field (ascii "audio") value).bind stringOf
    let bytes ← base64Decode audio
    some (.append (pcmSamples 0 (bytes.length / 2) bytes))
  else none

/-! ## What may stand between quotes -/

theorem plain_of_mem_kEventIdAlphabet : ∀ b ∈ kEventIdAlphabet, Plain b :=
  List.all_iff_forall_prop.mp (by decide)

theorem plain_getD {alphabet : Bytes} (h : ∀ b ∈ alphabet, Plain b) {i : Nat}
    (hi : i < alphabet.length) : Plain (alphabet.getD i 0) := by
  rw [List.getD_eq_getElem?_getD, List.getElem?_eq_getElem hi, Option.getD_some]
  exact h _ (List.getElem_mem hi)

theorem plain_randomEventId (gen : Nat → UInt64) : ∀ b ∈ randomEventId gen, Plain b := by
  intro b hb
  rcases List.mem_append.mp hb with hb | hb
  · exact List.all_iff_forall_prop.mp (show (ascii "evt_").all (Plain ·) = true by decide) b hb
  · obtain ⟨i, -, rfl⟩ := List.mem_map.mp hb
    exact plain_getD plain_of_mem_kEventIdAlphabet (Nat.mod_lt _ (by decide))

theorem plain_base64Char {i : Nat} (h : i < 64) : Plain (base64Char i) :=
  plain_getD (List.all_iff_forall_prop.mp (by decide)) h

theorem plain_of_mem_base64Encode (bytes : Bytes) : ∀ b ∈ base64Encode bytes, Plain b := by
  have hpad : Plain kBase64Pad := by decide
  induction bytes using base64Encode.induct with
  | case1 => exact fun b hb => absurd hb List.not_mem_nil
  | case2 x =>
      have hx := x.toNat_lt
      rw [base64Encode_one]
      simp only [List.forall_mem_cons, List.not_mem_nil, IsEmpty.forall_iff, implies_true, and_true]
      exact ⟨plain_base64Char (by omega), plain_base64Char (by omega), hpad, hpad⟩
  | case3 x y =>
      have hx := x.toNat_lt
      have hy := y.toNat_lt
      rw [base64Encode_two]
      simp only [List.forall_mem_cons, List.not_mem_nil, IsEmpty.forall_iff, implies_true, and_true]
      exact ⟨plain_base64Char (by omega), plain_base64Char (by omega), plain_base64Char (by omega),
        hpad⟩
  | case4 x y z bytes ih =>
      have hx := x.toNat_lt
      have hy := y.toNat_lt
      have hz := z.toNat_lt
      rw [base64Encode_three]
      simp only [List.forall_mem_cons]
      exact ⟨plain_base64Char (by omega), plain_base64Char (by omega), plain_base64Char (by omega),
        plain_base64Char (by omega), ih⟩

/-! ## Reading the messages back -/

section
variable {eventId : Bytes} (hid : ∀ b ∈ eventId, Plain b)

include hid

theorem parse_buildSimpleEventJson {type : Bytes} (htype : ∀ b ∈ type, Plain b) :
    parse (buildSimpleEventJson eventId type) =
      some (.object [(ascii "event_id", .string eventId), (ascii "type", .string type)]) := by
  have hopen : ascii "\x7b\"event_id\":\"" =
      '\x7b'.toUInt8 :: quote :: (ascii "event_id" ++ [quote, ':'.toUInt8, quote]) := by decide
  have hnext : ascii "\",\"type\":\"" =
      quote :: ','.toUInt8 :: quote :: (ascii "type" ++ [quote, ':'.toUInt8, quote]) := by decide
  have hclose : ascii "\"\x7d" = [quote, '\x7d'.toUInt8] := by decide
  have hkeys : ShortEscapes.bare.escape (ascii "event_id") = ascii "event_id" ∧
      ShortEscapes.bare.escape (ascii "type") = ascii "type" := by decide
  rw [← parse_render ShortEscapes.bare (.object _) rfl]
  congr 1
  simp [buildSimpleEventJson, hopen, hnext, hclose, render, renderMembers, quoted, hkeys,
    ShortEscapes.escape_bare hid, ShortEscapes.escape_bare htype]

theorem parse_buildInputAudioBufferAppendJson {base64Audio : Bytes}
    (haudio : ∀ b ∈ base64Audio, Plain b) :
    parse (buildInputAudioBufferAppendJson eventId base64Audio) =
      some (.object [(ascii "event_id", .string eventId),
        (ascii "type", .string (ascii "input_audio_buffer.append")),
        (ascii "audio", .string base64Audio)]) := by
  have hopen : ascii "\x7b\"event_id\":\"" =
      '\x7b'.toUInt8 :: quote :: (ascii "event_id" ++ [quote, ':'.toUInt8, quote]) := by decide
  have hnext : ascii "\",\"type\":\"input_audio_buffer.append\",\"audio\":\"" =
      quote :: ','.toUInt8 :: quote :: (ascii "type" ++ [quote, ':'.toUInt8, quote]) ++
        (ascii "input_audio_buffer.append" ++ quote :: ','.toUInt8 :: quote ::
          (ascii "audio" ++ [quote, ':'.toUInt8, quote])) := by decide
  have hclose : ascii "\"\x7d" = [quote, '\x7d'.toUInt8] := by decide
  have hkeys : ShortEscapes.bare.escape (ascii "event_id") = ascii "event_id" ∧
      ShortEscapes.bare.escape (ascii "type") = ascii "type" ∧
      ShortEscapes.bare.escape (ascii "audio") = ascii "audio" ∧
      ShortEscapes.bare.escape (ascii "input_audio_buffer.append") =
        ascii "input_audio_buffer.append" := by decide
  rw [← parse_render ShortEscapes.bare (.object _) rfl]
  congr 1
  simp [buildInputAudioBufferAppendJson, hopen, hnext, hclose, render, renderMembers, quoted, hkeys,
    ShortEscapes.escape_bare hid, ShortEscapes.escape_bare haudio]

end

theorem base64Decode_base64Encode (bytes : Bytes) :
    base64Decode (base64Encode bytes) = some bytes :=
  (base64Decode_eq_some_iff _ bytes).mpr ⟨[], (List.append_nil _).symm, ⟨0, rfl⟩, .inl rfl⟩

/-- A message is read as what it asks for. -/
theorem readBufferEvent_wire (gen : Nat → UInt64) (m : ClientMessage) :
    readBufferEvent (m.wire (randomEventId gen)) = some m.bufferEvent := by
  have hid := plain_randomEventId gen
  have hkeys : ascii "event_id" ≠ ascii "type" ∧ ascii "event_id" ≠ ascii "audio" ∧
      ascii "type" ≠ ascii "audio" := by decide
  have hclear : ascii "input_audio_buffer.clear" ≠ ascii "session.update" := by decide
  have hcommit : ascii "input_audio_buffer.commit" ≠ ascii "session.update" ∧
      ascii "input_audio_buffer.commit" ≠ ascii "input_audio_buffer.clear" := by decide
  have happend : ascii "input_audio_buffer.append" ≠ ascii "session.update" ∧
      ascii "input_audio_buffer.append" ≠ ascii "input_audio_buffer.clear" ∧
      ascii "input_audio_buffer.append" ≠ ascii "input_audio_buffer.commit" := by decide
  cases m with
  | clear owner =>
      rw [ClientMessage.wire, readBufferEvent,
        parse_buildSimpleEventJson hid (List.all_iff_forall_prop.mp (by decide))]
      simp [field, stringOf, hkeys, hclear, ClientMessage.bufferEvent]
  | commit owner =>
      rw [ClientMessage.wire, readBufferEvent,
        parse_buildSimpleEventJson hid (List.all_iff_forall_prop.mp (by decide))]
      simp [field, stringOf, hkeys, hcommit, ClientMessage.bufferEvent]
  | append samples =>
      have hlen := length_sampleBytes samples
      rw [ClientMessage.wire, readBufferEvent,
        parse_buildInputAudioBufferAppendJson hid (plain_of_mem_base64Encode _)]
      simp [field, stringOf, hkeys, happend, base64Decode_base64Encode, hlen,
        pcmSamples_sampleBytes, ClientMessage.bufferEvent]

/-! ## Reading the update back -/

def sessionValue (modelId language : Bytes) : Value :=
  .object [(ascii "modalities", .array [.string (ascii "text")]), (ascii "tools", .array []),
    (ascii "turn_detection", .object [(ascii "type", .string (ascii "server_vad")),
      (ascii "create_response", .bool false), (ascii "prefix_padding_ms", .number (ascii "0")),
      (ascii "silence_duration_ms", .number (ascii "550")),
      (ascii "threshold", .number (ascii "1.0"))]),
    (ascii "input_audio_transcription", .object ((ascii "model", .string modelId) ::
      if language ≠ [] then [(ascii "language", .string language)] else []))]

def updateValue (eventId modelId language : Bytes) : Value :=
  .object [(ascii "event_id", .string eventId), (ascii "type", .string (ascii "session.update")),
    (ascii "session", sessionValue modelId language)]

theorem numeric_updateValue (eventId modelId language : Bytes) :
    (updateValue eventId modelId language).numeric = true := by
  have h0 : isNumber (ascii "0") = true := by decide
  have h550 : isNumber (ascii "550") = true := by decide
  have h1 : isNumber (ascii "1.0") = true := by decide
  by_cases hl : language = []
  · simp [updateValue, sessionValue, hl, Value.numeric, membersNumeric, elementsNumeric, h0, h550,
      h1]
  · simp [updateValue, sessionValue, hl, Value.numeric, membersNumeric, elementsNumeric, h0, h550,
      h1]

theorem render_updateValue {eventId modelId language : Bytes}
    (hid : ∀ b ∈ eventId, Plain b) (hmodel : ∀ b ∈ modelId, Plain b)
    (hlanguage : ∀ b ∈ language, Plain b) :
    render ShortEscapes.bare (updateValue eventId modelId language) =
      buildSessionUpdateJson eventId modelId language := by
  have hkeys : ShortEscapes.bare.escape (ascii "event_id") = ascii "event_id" ∧
      ShortEscapes.bare.escape (ascii "type") = ascii "type" ∧
      ShortEscapes.bare.escape (ascii "session.update") = ascii "session.update" ∧
      ShortEscapes.bare.escape (ascii "session") = ascii "session" ∧
      ShortEscapes.bare.escape (ascii "modalities") = ascii "modalities" ∧
      ShortEscapes.bare.escape (ascii "text") = ascii "text" ∧
      ShortEscapes.bare.escape (ascii "tools") = ascii "tools" ∧
      ShortEscapes.bare.escape (ascii "turn_detection") = ascii "turn_detection" ∧
      ShortEscapes.bare.escape (ascii "server_vad") = ascii "server_vad" ∧
      ShortEscapes.bare.escape (ascii "create_response") = ascii "create_response" ∧
      ShortEscapes.bare.escape (ascii "prefix_padding_ms") = ascii "prefix_padding_ms" ∧
      ShortEscapes.bare.escape (ascii "silence_duration_ms") = ascii "silence_duration_ms" ∧
      ShortEscapes.bare.escape (ascii "threshold") = ascii "threshold" ∧
      ShortEscapes.bare.escape (ascii "input_audio_transcription") =
        ascii "input_audio_transcription" ∧
      ShortEscapes.bare.escape (ascii "model") = ascii "model" ∧
      ShortEscapes.bare.escape (ascii "language") = ascii "language" := by decide
  have hopen : ascii "\x7b\"event_id\":\"" =
      '\x7b'.toUInt8 :: quote :: (ascii "event_id" ++ [quote, ':'.toUInt8, quote]) := by decide
  have htype : ascii "\",\"type\":\"session.update\",\"session\":\x7b" =
      quote :: ','.toUInt8 :: quote :: (ascii "type" ++ quote :: ':'.toUInt8 :: quote ::
        (ascii "session.update" ++ quote :: ','.toUInt8 :: quote ::
          (ascii "session" ++ [quote, ':'.toUInt8, '\x7b'.toUInt8]))) := by decide
  have hmodalities : ascii "\"modalities\":[\"text\"]," =
      quote :: (ascii "modalities" ++ quote :: ':'.toUInt8 :: '['.toUInt8 :: quote ::
        (ascii "text" ++ [quote, ']'.toUInt8, ','.toUInt8])) := by decide
  have htools : ascii "\"tools\":[]," =
      quote :: (ascii "tools" ++
        [quote, ':'.toUInt8, '['.toUInt8, ']'.toUInt8, ','.toUInt8]) := by decide
  have hdetection : ascii "\"turn_detection\":\x7b" =
      quote :: (ascii "turn_detection" ++ [quote, ':'.toUInt8, '\x7b'.toUInt8]) := by decide
  have hserver : ascii "\"type\":\"server_vad\"," =
      quote :: (ascii "type" ++ quote :: ':'.toUInt8 :: quote ::
        (ascii "server_vad" ++ [quote, ','.toUInt8])) := by decide
  have hrespond : ascii "\"create_response\":false," =
      quote :: (ascii "create_response" ++ quote :: ':'.toUInt8 ::
        ['f'.toUInt8, 'a'.toUInt8, 'l'.toUInt8, 's'.toUInt8, 'e'.toUInt8, ','.toUInt8]) := by
    decide
  have hprefix : ascii "\"prefix_padding_ms\":0," =
      quote :: (ascii "prefix_padding_ms" ++ quote :: ':'.toUInt8 ::
        (ascii "0" ++ [','.toUInt8])) := by decide
  have hsilence : ascii "\"silence_duration_ms\":550," =
      quote :: (ascii "silence_duration_ms" ++ quote :: ':'.toUInt8 ::
        (ascii "550" ++ [','.toUInt8])) := by decide
  have hthreshold : ascii "\"threshold\":1.0" =
      quote :: (ascii "threshold" ++ quote :: ':'.toUInt8 :: ascii "1.0") := by decide
  have hcomma : ascii "\x7d," = ['\x7d'.toUInt8, ','.toUInt8] := by decide
  have hmodelKey : ascii "\"input_audio_transcription\":\x7b\"model\":\"" =
      quote :: (ascii "input_audio_transcription" ++ quote :: ':'.toUInt8 :: '\x7b'.toUInt8 ::
        quote :: (ascii "model" ++ [quote, ':'.toUInt8, quote])) := by decide
  have hlanguageKey : ascii "\",\"language\":\"" =
      quote :: ','.toUInt8 :: quote :: (ascii "language" ++ [quote, ':'.toUInt8, quote]) := by
    decide
  have hclose : ascii "\"\x7d\x7d\x7d" =
      [quote, '\x7d'.toUInt8, '\x7d'.toUInt8, '\x7d'.toUInt8] := by decide
  rw [buildSessionUpdateJson, hopen, htype, hmodalities, htools, hdetection, hserver, hrespond,
    hprefix, hsilence, hthreshold, hcomma, hmodelKey, hlanguageKey, hclose]
  by_cases hl : language = []
  · simp [updateValue, sessionValue, hl, render, renderMembers, renderElements, quoted, hkeys,
      ShortEscapes.escape_bare hid, ShortEscapes.escape_bare hmodel]
  · simp [updateValue, sessionValue, hl, render, renderMembers, renderElements, quoted, hkeys,
      ShortEscapes.escape_bare hid, ShortEscapes.escape_bare hmodel,
      ShortEscapes.escape_bare hlanguage]

/-- The update is one object. -/
theorem parse_buildSessionUpdateJson {eventId modelId language : Bytes}
    (hid : ∀ b ∈ eventId, Plain b) (hmodel : ∀ b ∈ modelId, Plain b)
    (hlanguage : ∀ b ∈ language, Plain b) :
    parse (buildSessionUpdateJson eventId modelId language) =
      some (updateValue eventId modelId language) := by
  rw [← render_updateValue hid hmodel hlanguage]
  exact parse_render _ _ (numeric_updateValue eventId modelId language)

theorem readBufferEvent_update (gen : Nat → UInt64) {modelId language : Bytes}
    (hmodel : ∀ b ∈ modelId, Plain b) (hlanguage : ∀ b ∈ language, Plain b) :
    readBufferEvent (buildSessionUpdateJson (randomEventId gen) modelId language) =
      some (.update modelId (if language ≠ [] then some language else none) false) := by
  have hkeys : ascii "event_id" ≠ ascii "type" ∧ ascii "event_id" ≠ ascii "session" ∧
      ascii "type" ≠ ascii "session" ∧ ascii "modalities" ≠ ascii "input_audio_transcription" ∧
      ascii "tools" ≠ ascii "input_audio_transcription" ∧
      ascii "turn_detection" ≠ ascii "input_audio_transcription" ∧
      ascii "modalities" ≠ ascii "turn_detection" ∧ ascii "tools" ≠ ascii "turn_detection" ∧
      ascii "type" ≠ ascii "create_response" ∧ ascii "model" ≠ ascii "language" := by decide
  rw [readBufferEvent, parse_buildSessionUpdateJson (plain_randomEventId gen) hmodel hlanguage]
  by_cases hl : language = []
  · simp [updateValue, sessionValue, readUpdate, field, stringOf, boolOf, hkeys, hl]
  · simp [updateValue, sessionValue, readUpdate, field, stringOf, boolOf, hkeys, hl]

end Acva.Stt
