import Acva.Core.Json
import Acva.Log.JsonEscape

/-! # The body of a speech request

The body is spliced from pieces of JSON, with the model, the text and the voice escaped. It
is read back as one object, whose input is the text byte for byte.
-/

namespace Acva.Tts

open Json

/-- The cases of the switch in `json_escape`. -/
def inputEscapes : ShortEscapes where
  table :=
    [(byte '"', byte '"'), (byte '\\', byte '\\'), (byte '\n', byte 'n'), (byte '\r', byte 'r'),
      (byte '\t', byte 't')]
  reads := List.all_iff_forall_prop.mp (by decide)
  quoted := by decide
  backslashed := by decide

def jsonEscape (text : Bytes) : Bytes := inputEscapes.escape text

/-! ## The speed -/

/-- A quotient rounded to a whole number, to the even one where two are as near. -/
def roundHalfEven (n d : Nat) : Nat :=
  if 2 * (n % d) < d ∨ (2 * (n % d) = d ∧ n / d % 2 = 0) then n / d else n / d + 1

/-- The `double` next to a quotient, as a whole number of 53 bits over a power of two; with the
exponent. -/
def divide (n d : Nat) : Nat × Nat :=
  let e := 53 + d.log2 - n.log2
  let e := if d * 2 ^ 53 ≤ n * 2 ^ e then e - 1 else e
  (roundHalfEven (n * 2 ^ e) d, e)

def kNativeWpm : Nat := 160

/-- `{:.3f}` of a whole number over a power of two. -/
def fixed3 (x : Nat × Nat) : Bytes :=
  let thousandths := roundHalfEven (1000 * x.1) (2 ^ x.2)
  decimal (thousandths / 1000) ++ byte '.' ::
    [thousandths / 100, thousandths / 10, thousandths].map fun n => digitByte (n % 10)

/-- 200 words a minute are 1.25 times the native tempo. -/
example : fixed3 (divide 200 kNativeWpm) = ascii "1.250" := by decide +kernel

/-! ## The body -/

def buildBody (modelId voiceId text : Bytes) (tempoWpm : UInt32) : Bytes :=
  ascii "\x7b\"model\":\"" ++ jsonEscape modelId ++ ascii "\",\"input\":\"" ++ jsonEscape text ++
    ascii "\"," ++
    (if voiceId ≠ [] then ascii "\"voice\":\"" ++ jsonEscape voiceId ++ ascii "\"," else []) ++
    (if 0 < tempoWpm then
      ascii "\"speed\":" ++ fixed3 (divide tempoWpm.toNat kNativeWpm) ++ ascii ","
    else []) ++
    ascii "\"response_format\":\"pcm\"\x7d"

/-! ## Reading the body back -/

def stringMember (key s : Bytes) (hkey : key.all (Plain ·) = true) : Member where
  key := key
  value := .string s
  text := quote :: (jsonEscape s ++ [quote])
  plain := List.all_iff_forall_prop.mp hkey
  writes := writes_string inputEscapes s

def speedMember (tempoWpm : UInt32) : Member where
  key := ascii "speed"
  value := .number (fixed3 (divide tempoWpm.toNat kNativeWpm))
  text := fixed3 (divide tempoWpm.toNat kNativeWpm)
  plain := List.all_iff_forall_prop.mp (by decide)
  writes := by
    refine writes_fraction _ (List.cons_ne_nil _ _) fun b hb => ?_
    obtain ⟨n, -, rfl⟩ := List.mem_map.mp hb
    exact isDigit_digitByte (Nat.mod_lt n (by decide))

/-- The members behind the model. -/
def laterMembers (voiceId text : Bytes) (tempoWpm : UInt32) : List Member :=
  stringMember (ascii "input") text (by decide) ::
    ((if voiceId ≠ [] then [stringMember (ascii "voice") voiceId (by decide)] else []) ++
      (if 0 < tempoWpm then [speedMember tempoWpm] else []) ++
      [stringMember (ascii "response_format") (ascii "pcm") (by decide)])

theorem buildBody_eq (modelId voiceId text : Bytes) (tempoWpm : UInt32) :
    buildBody modelId voiceId text tempoWpm =
      '\x7b'.toUInt8 ::
        (Member.writeAll (stringMember (ascii "model") modelId (by decide) ::
            laterMembers voiceId text tempoWpm) ++ ['\x7d'.toUInt8]) := by
  have hmodel : ascii "\x7b\"model\":\"" =
      '\x7b'.toUInt8 :: quote :: (ascii "model" ++ [quote, ':'.toUInt8, quote]) := by decide
  have hinput : ascii "\",\"input\":\"" =
      quote :: ','.toUInt8 :: quote :: (ascii "input" ++ [quote, ':'.toUInt8, quote]) := by decide
  have hnext : ascii "\"," = [quote, ','.toUInt8] := by decide
  have hvoice : ascii "\"voice\":\"" =
      quote :: (ascii "voice" ++ [quote, ':'.toUInt8, quote]) := by decide
  have hspeed : ascii "\"speed\":" = quote :: (ascii "speed" ++ [quote, ':'.toUInt8]) := by decide
  have hcomma : ascii "," = [','.toUInt8] := by decide
  have hformat : ascii "\"response_format\":\"pcm\"\x7d" =
      quote :: (ascii "response_format" ++ quote :: ':'.toUInt8 :: quote ::
        (jsonEscape (ascii "pcm") ++ [quote, '\x7d'.toUInt8])) := by decide
  rw [buildBody, hmodel, hinput, hnext, hvoice, hspeed, hcomma, hformat, laterMembers]
  by_cases hv : voiceId = []
  · by_cases ht : 0 < tempoWpm
    · simp [hv, ht, Member.writeAll, Member.write, stringMember, speedMember]
    · simp [hv, ht, Member.writeAll, Member.write, stringMember]
  · by_cases ht : 0 < tempoWpm
    · simp [hv, ht, Member.writeAll, Member.write, stringMember, speedMember]
    · simp [hv, ht, Member.writeAll, Member.write, stringMember]

/-- The body is one object, with the pieces as its members. -/
theorem parse_buildBody (modelId voiceId text : Bytes) (tempoWpm : UInt32) :
    parse (buildBody modelId voiceId text tempoWpm) =
      some (.object
        ((ascii "model", .string modelId) :: (ascii "input", .string text) ::
          ((if voiceId ≠ [] then [(ascii "voice", .string voiceId)] else []) ++
            (if 0 < tempoWpm then
              [(ascii "speed", .number (fixed3 (divide tempoWpm.toNat kNativeWpm)))]
            else []) ++
            [(ascii "response_format", .string (ascii "pcm"))]))) := by
  rw [buildBody_eq, Member.parse_object, laterMembers]
  simp [stringMember, speedMember, apply_ite (List.map _)]

/-- What each of the escapers writes may stand between quotes and is read back as what it was
given, the two of the log write the same, and the input of a request is its text. -/
theorem escapers_round_trip :
    (∀ s, StringBody (jsonEscape s) ∧ (∀ b ∈ jsonEscape s, 0x20 ≤ b) ∧
      unescape (jsonEscape s) = some s) ∧
    (∀ out s, ∃ body,
      Log.escapeJsonString out s = out ++ quote :: (body ++ [quote]) ∧
        Log.escapeString out s = out ++ quote :: (body ++ [quote]) ∧
        StringBody body ∧ (∀ b ∈ body, 0x20 ≤ b) ∧ unescape body = some s) ∧
    (∀ out s, Log.escapeString out s = Log.escapeJsonString out s) ∧
    ∀ modelId voiceId text tempoWpm, ∃ members,
      parse (buildBody modelId voiceId text tempoWpm) = some (.object members) ∧
        members.filter (fun m => m.1 = ascii "input") = [(ascii "input", .string text)] := by
  refine ⟨fun s => ?_, fun out s => ?_, Log.escapeString_eq,
    fun modelId voiceId text tempoWpm => ?_⟩
  · have hbody : StringBody (jsonEscape s) := ShortEscapes.stringBody_escape s
    exact ⟨hbody, hbody.no_control, ShortEscapes.unescape_escape s⟩
  · have hbody : StringBody (Log.jsonStringEscapes.escape s) := ShortEscapes.stringBody_escape s
    have hout : Log.escapeJsonString out s =
        out ++ quote :: (Log.jsonStringEscapes.escape s ++ [quote]) := by
      rw [Log.escapeJsonString, List.append_assoc, List.append_assoc, List.singleton_append]
      rfl
    exact ⟨Log.jsonStringEscapes.escape s, hout, Log.escapeString_eq out s ▸ hout, hbody,
      hbody.no_control, ShortEscapes.unescape_escape s⟩
  · refine ⟨_, parse_buildBody modelId voiceId text tempoWpm, ?_⟩
    have hother : ascii "model" ≠ ascii "input" ∧ ascii "voice" ≠ ascii "input" ∧
        ascii "speed" ≠ ascii "input" ∧ ascii "response_format" ≠ ascii "input" := by decide
    simp [apply_ite (List.filter _), hother]

end Acva.Tts
