import Acva.Audio.Wav

/-! # The TTS client's write callback

libcurl hands the response over in chunks of its own choosing, and each is passed on as whole
samples. An odd byte at the end of a chunk is carried to the next.
-/

namespace Acva.Tts

open Acva.Audio Acva.Playback

/-! ## The callback -/

/-- Which of the two callbacks are set. -/
structure TtsCallbacks where
  onFormat : Bool := true
  onAudio : Bool := true
deriving DecidableEq, Repr

inductive TtsCall
  | onFormat (sampleRateHz : Int)
  | onAudio (samples : List Sample)
deriving DecidableEq, Repr

structure WriteCtx where
  cb : TtsCallbacks := {}
  formatAnnounced : Bool := false
  sampleRate : Int := 22050
  hasCarry : Bool := false
  carryByte : UInt8 := 0
deriving DecidableEq, Repr

/-- A sample of two bytes. -/
def sampleOf (lo hi : UInt8) : Sample := (lo.toUInt16 ||| hi.toUInt16 <<< 8).toInt16

namespace WriteCtx

/-- On the first byte received. -/
def announceFormat (ctx : WriteCtx) : WriteCtx × List TtsCall :=
  if ctx.formatAnnounced = false then
    ({ ctx with formatAnnounced := true },
      if ctx.cb.onFormat = true then [.onFormat ctx.sampleRate] else [])
  else (ctx, [])

/-- The carried byte and the chunk's first make a sample; with how many bytes that consumes. -/
def joinCarry (chunk : Bytes) (ctx : WriteCtx) : WriteCtx × List TtsCall × Nat :=
  if ctx.hasCarry = true then
    ({ ctx with hasCarry := false },
      if ctx.cb.onAudio = true then [.onAudio [sampleOf ctx.carryByte (byteAt 0 chunk)]] else [], 1)
  else (ctx, [], 0)

/-- The pairs behind `consumed`, and the odd byte that is left. -/
def passPairs (consumed : Nat) (chunk : Bytes) (ctx : WriteCtx) : WriteCtx × List TtsCall :=
  let rem := chunk.length - consumed
  let pairs := rem / 2
  (if rem % 2 = 1 then
      { ctx with carryByte := byteAt (consumed + pairs * 2) chunk, hasCarry := true }
    else ctx,
    if 0 < pairs ∧ ctx.cb.onAudio = true then [.onAudio (pcmSamples consumed pairs chunk)] else [])

/-- With the returned count, by which libcurl goes on or aborts. -/
def curlWrite (cancelled : Bool) (chunk : Bytes) (ctx : WriteCtx) :
    WriteCtx × List TtsCall × Nat :=
  if cancelled = true ∨ chunk.length = 0 then (ctx, [], 0)
  else
    let (ctx, format) := ctx.announceFormat
    let (ctx, joined, consumed) := ctx.joinCarry chunk
    let (ctx, passed) := ctx.passPairs consumed chunk
    (ctx, format ++ joined ++ passed, chunk.length)

/-- A transfer that is not cancelled. A count that differs from the chunk's aborts it. -/
def receive (ctx : WriteCtx) : List Bytes → WriteCtx × List TtsCall
  | [] => (ctx, [])
  | chunk :: chunks =>
      let (ctx, calls, count) := ctx.curlWrite false chunk
      if count = chunk.length then
        let (ctx, more) := ctx.receive chunks
        (ctx, calls ++ more)
      else (ctx, calls)

end WriteCtx

/-! ## The stream -/

/-- The samples of a stream, up to its last complete pair. -/
def decodePcm : Bytes → List Sample
  | lo :: hi :: rest => sampleOf lo hi :: decodePcm rest
  | _ => []

/-- All that was passed to `on_audio`. -/
def audioOf (calls : List TtsCall) : List Sample :=
  calls.flatMap fun
    | .onFormat _ => []
    | .onAudio samples => samples

theorem audioOf_append (calls more : List TtsCall) :
    audioOf (calls ++ more) = audioOf calls ++ audioOf more := List.flatMap_append

theorem audioOf_onAudio (audio : List (List Sample)) :
    audioOf (audio.map .onAudio) = audio.flatten := by
  rw [audioOf, List.flatMap_map, ← List.flatMap_id]
  rfl

theorem decodePcm_append {front : Bytes} (heven : front.length % 2 = 0) (rest : Bytes) :
    decodePcm (front ++ rest) = decodePcm front ++ decodePcm rest := by
  induction front using decodePcm.induct with
  | case1 lo hi front ih =>
      have hlength : front.length % 2 = 0 := by
        simp only [List.length_cons] at heven
        omega
      simp only [List.cons_append, decodePcm, ih hlength]
  | case2 front hshort =>
      match front, heven, hshort with
      | [], _, _ => rfl
      | [_], heven, _ => exact absurd heven (by simp)
      | lo :: hi :: rest, _, hshort => exact absurd rfl (hshort lo hi rest)

theorem decodePcm_of_short {bytes : Bytes} (h : bytes.length ≤ 1) : decodePcm bytes = [] := by
  match bytes, h with
  | [], _ => rfl
  | [_], _ => rfl

/-- The view of a chunk as samples is its decoding. -/
theorem pcmSamples_eq (bytes : Bytes) :
    pcmSamples 0 (bytes.length / 2) bytes = decodePcm bytes := by
  induction bytes using decodePcm.induct with
  | case1 lo hi rest ih =>
      have hhalf : (lo :: hi :: rest).length / 2 = rest.length / 2 + 1 := by
        simp only [List.length_cons]
        omega
      rw [hhalf, pcmSamples_cons, ih]
      rfl
  | case2 bytes hshort =>
      match bytes, hshort with
      | [], _ => rfl
      | [_], _ => simp [pcmSamples, decodePcm]
      | lo :: hi :: rest, hshort => exact absurd rfl (hshort lo hi rest)

/-! ## One chunk -/

namespace WriteCtx

/-- The byte that is withheld, if there is one. -/
def pending (ctx : WriteCtx) : Bytes := if ctx.hasCarry = true then [ctx.carryByte] else []

theorem pending_of_carry {ctx : WriteCtx} (h : ctx.hasCarry = true) :
    ctx.pending = [ctx.carryByte] := if_pos h

theorem pending_of_none {ctx : WriteCtx} (h : ctx.hasCarry = false) : ctx.pending = [] :=
  if_neg (Bool.eq_false_iff.mp h)

/-- The odd byte of a run of bytes. -/
theorem drop_pairs (bytes : Bytes) :
    bytes.drop (bytes.length / 2 * 2) =
      if bytes.length % 2 = 1 then [byteAt (bytes.length / 2 * 2) bytes] else [] := by
  split
  next hodd =>
    have hlast : bytes.length / 2 * 2 < bytes.length := by omega
    have hnil : bytes.length ≤ bytes.length / 2 * 2 + 1 := by omega
    rw [List.drop_eq_getElem_cons hlast, List.drop_eq_nil_of_le hnil, byteAt,
      List.getD_eq_getElem?_getD, List.getElem?_eq_getElem hlast, Option.getD_some]
  next heven => exact List.drop_eq_nil_of_le (by omega)

/-- What a part of the callback makes of the bytes it is given: whole samples, and the byte
that is then pending. -/
structure Passes (bytes : Bytes) (ctx ctx' : WriteCtx) (audio : List (List Sample)) : Prop where
  cut : ∃ front, bytes = front ++ ctx'.pending ∧ front.length % 2 = 0 ∧
    audio.flatten = decodePcm front
  cb : ctx'.cb = ctx.cb
  sampleRate : ctx'.sampleRate = ctx.sampleRate
  formatAnnounced : ctx'.formatAnnounced = ctx.formatAnnounced

theorem passPairs_spec (front bytes : Bytes) {ctx : WriteCtx} (hcarry : ctx.hasCarry = false)
    (hcb : ctx.cb.onAudio = true) :
    ∃ audio, (ctx.passPairs front.length (front ++ bytes)).2 = audio.map .onAudio ∧
      Passes bytes ctx (ctx.passPairs front.length (front ++ bytes)).1 audio := by
  have hrem : (front ++ bytes).length - front.length = bytes.length := by
    rw [List.length_append, Nat.add_sub_cancel_left]
  have hview : pcmSamples front.length (bytes.length / 2) (front ++ bytes) = decodePcm bytes :=
    (pcmSamples_append front bytes 0 _).trans (pcmSamples_eq bytes)
  have hsplit : bytes = bytes.take (bytes.length / 2 * 2) ++ bytes.drop (bytes.length / 2 * 2) :=
    (List.take_append_drop _ _).symm
  have heven : (bytes.take (bytes.length / 2 * 2)).length % 2 = 0 := by
    rw [List.length_take]
    omega
  have hodd : (bytes.drop (bytes.length / 2 * 2)).length ≤ 1 := by
    rw [List.length_drop]
    omega
  have hdecode : decodePcm bytes = decodePcm (bytes.take (bytes.length / 2 * 2)) := by
    conv_lhs => rw [hsplit, decodePcm_append heven, decodePcm_of_short hodd, List.append_nil]
  have hpending : (ctx.passPairs front.length (front ++ bytes)).1.pending =
      bytes.drop (bytes.length / 2 * 2) := by
    rw [drop_pairs]
    simp only [passPairs, hrem, byteAt_append]
    split
    · rfl
    · exact pending_of_none hcarry
  have hcalls : (ctx.passPairs front.length (front ++ bytes)).2 =
      (if 0 < bytes.length / 2 then [decodePcm bytes] else []).map .onAudio := by
    simp only [passPairs, hrem, hview, hcb, and_true]
    split <;> rfl
  refine ⟨_, hcalls, ⟨_, hpending ▸ hsplit, heven, ?_⟩, ?_, ?_, ?_⟩
  · rw [← hdecode]
    split
    · exact List.append_nil _
    next hnone => exact (decodePcm_of_short (by omega)).symm
  · simp only [passPairs]
    split <;> rfl
  · simp only [passPairs]
    split <;> rfl
  · simp only [passPairs]
    split <;> rfl

theorem announceFormat_eq {ctx : WriteCtx} (hcb : ctx.cb.onFormat = true) :
    ctx.announceFormat = ({ ctx with formatAnnounced := true },
      if ctx.formatAnnounced = false then [.onFormat ctx.sampleRate] else []) := by
  unfold announceFormat
  cases hannounced : ctx.formatAnnounced with
  | false => simp only [if_true, hcb]
  | true =>
      have hsame : ({ ctx with formatAnnounced := true } : WriteCtx) = ctx := by
        rw [← hannounced]
      rw [hsame]
      rfl

/-- The pending byte and the chunk's first, and then the pairs behind it. -/
theorem joinCarry_passPairs_spec {chunk : Bytes} (hne : chunk ≠ []) {ctx : WriteCtx}
    (hcb : ctx.cb.onAudio = true) :
    let joined := ctx.joinCarry chunk
    let passed := joined.1.passPairs joined.2.2 chunk
    ∃ audio, joined.2.1 ++ passed.2 = audio.map .onAudio ∧
      Passes (ctx.pending ++ chunk) ctx passed.1 audio := by
  intro joined passed
  cases hcarry : ctx.hasCarry with
  | true =>
      obtain ⟨first, rest, rfl⟩ := List.exists_cons_of_ne_nil hne
      have hjoin : joined =
          ({ ctx with hasCarry := false }, [.onAudio [sampleOf ctx.carryByte first]], 1) := by
        simp only [joined, joinCarry, if_pos hcarry, if_pos hcb]
        rfl
      have hnone : ({ ctx with hasCarry := false } : WriteCtx).hasCarry = false := rfl
      obtain ⟨audio, hcalls, hpasses⟩ := passPairs_spec [first] rest hnone hcb
      obtain ⟨front, hcut, heven, hdecode⟩ := hpasses.cut
      simp only [passed, hjoin]
      refine ⟨[sampleOf ctx.carryByte first] :: audio, congrArg _ hcalls,
        ⟨ctx.carryByte :: first :: front, ?_, ?_, ?_⟩, hpasses.cb, hpasses.sampleRate,
        hpasses.formatAnnounced⟩
      · rw [pending_of_carry hcarry]
        exact congrArg (fun bytes => ctx.carryByte :: first :: bytes) hcut
      · simp only [List.length_cons]
        omega
      · rw [List.flatten_cons, hdecode]
        rfl
  | false =>
      have hjoin : joined = (ctx, [], 0) := if_neg (Bool.eq_false_iff.mp hcarry)
      obtain ⟨audio, hcalls, hpasses⟩ := passPairs_spec [] chunk hcarry hcb
      simp only [passed, hjoin, pending_of_none hcarry]
      exact ⟨audio, hcalls, hpasses⟩

/-- The format is announced with the first chunk, and the samples of each are passed on. -/
theorem curlWrite_spec {chunk : Bytes} (hne : chunk ≠ []) {ctx : WriteCtx} (hcb : ctx.cb = {}) :
    ∃ ctx' audio, ctx.curlWrite false chunk =
        (ctx', (if ctx.formatAnnounced = false then [.onFormat ctx.sampleRate] else []) ++
          audio.map .onAudio, chunk.length) ∧
      Passes (ctx.pending ++ chunk) { ctx with formatAnnounced := true } ctx' audio := by
  have hgoes : ¬((false : Bool) = true ∨ chunk.length = 0) := by
    simpa using hne
  have hformat : ctx.cb.onFormat = true := by rw [hcb]
  have haudio : ({ ctx with formatAnnounced := true } : WriteCtx).cb.onAudio = true := by
    simp only [hcb]
  obtain ⟨audio, hcalls, hpasses⟩ := joinCarry_passPairs_spec hne haudio
  refine ⟨_, audio, ?_, hpasses⟩
  rw [curlWrite, if_neg hgoes, announceFormat_eq hformat, ← hcalls, ← List.append_assoc]

/-! ## The stream -/

/-- What has been passed on and what is pending, of the bytes received. -/
structure Received (stream : Bytes) (ctx : WriteCtx) (calls : List TtsCall) : Prop where
  cb : ctx.cb = {}
  sampleRate : ctx.sampleRate = 22050
  announced : ctx.formatAnnounced = false ↔ stream = []
  decoded : ∃ front, stream = front ++ ctx.pending ∧ front.length % 2 = 0 ∧
    audioOf calls = decodePcm front
  silent : stream = [] → calls = []
  formatFirst : stream ≠ [] →
    ∃ audio : List (List Sample), calls = .onFormat 22050 :: audio.map .onAudio

theorem Received.chunk {stream : Bytes} {ctx : WriteCtx} {calls : List TtsCall}
    (h : Received stream ctx calls) {chunk : Bytes} (hne : chunk ≠ []) :
    ∃ ctx' more, ctx.curlWrite false chunk = (ctx', more, chunk.length) ∧
      Received (stream ++ chunk) ctx' (calls ++ more) := by
  obtain ⟨front, hstream, heven, hflat⟩ := h.decoded
  obtain ⟨ctx', audio, hwrite, hpasses⟩ := curlWrite_spec hne h.cb
  obtain ⟨front', hcut, heven', hflat'⟩ := hpasses.cut
  have hlater : stream ++ chunk ≠ [] := fun heq => hne (List.append_eq_nil_iff.mp heq).2
  have hcall : audioOf ((if ctx.formatAnnounced = false then [.onFormat ctx.sampleRate] else []) ++
      audio.map .onAudio) = decodePcm front' := by
    rw [audioOf_append, audioOf_onAudio, hflat']
    split <;> rfl
  refine ⟨ctx', _, hwrite, hpasses.cb.trans h.cb, hpasses.sampleRate.trans h.sampleRate, ?_,
    ⟨front ++ front', ?_, ?_, ?_⟩, fun heq => absurd heq hlater, fun _ => ?_⟩
  · rw [hpasses.formatAnnounced]
    exact iff_of_false Bool.noConfusion hlater
  · rw [hstream, List.append_assoc, hcut, List.append_assoc]
  · rw [List.length_append]
    omega
  · rw [audioOf_append, hflat, hcall, decodePcm_append heven]
  · by_cases hempty : stream = []
    · rw [h.silent hempty, if_pos (h.announced.mpr hempty), h.sampleRate]
      exact ⟨audio, rfl⟩
    · obtain ⟨earlier, hearlier⟩ := h.formatFirst hempty
      have hagain : ¬ctx.formatAnnounced = false := fun heq => hempty (h.announced.mp heq)
      refine ⟨earlier ++ audio, ?_⟩
      rw [hearlier, if_neg hagain, List.map_append]
      rfl

theorem Received.chunks (chunks : List Bytes) (hne : ∀ chunk ∈ chunks, chunk ≠ [])
    {stream : Bytes} {ctx : WriteCtx} {calls : List TtsCall} (h : Received stream ctx calls) :
    Received (stream ++ chunks.flatten) (ctx.receive chunks).1
      (calls ++ (ctx.receive chunks).2) := by
  induction chunks generalizing stream ctx calls with
  | nil =>
      rw [List.flatten_nil, List.append_nil]
      change Received stream ctx (calls ++ [])
      rwa [List.append_nil]
  | cons chunk chunks ih =>
      obtain ⟨ctx', more, hwrite, hnext⟩ := h.chunk (hne chunk List.mem_cons_self)
      have hrest := ih (fun other hother => hne other (List.mem_cons_of_mem _ hother)) hnext
      simp only [receive, hwrite, if_true, List.flatten_cons]
      rwa [List.append_assoc, List.append_assoc] at hrest

/-- However the stream is cut: the samples are its decoding, the byte withheld is its odd one,
and the format comes once and first. Only of an empty stream it does not come. -/
theorem receive_decodes (chunks : List Bytes) (hne : ∀ chunk ∈ chunks, chunk ≠ []) :
    let stream := chunks.flatten
    let received := receive {} chunks
    audioOf received.2 = decodePcm stream ∧
      received.1.pending = stream.drop (stream.length / 2 * 2) ∧
      (stream = [] → received.2 = []) ∧
      (stream ≠ [] → ∃ audio : List (List Sample),
        received.2 = .onFormat 22050 :: audio.map .onAudio) := by
  intro stream received
  have hinit : Received [] {} [] :=
    ⟨rfl, rfl, iff_of_true rfl rfl, ⟨[], rfl, rfl, rfl⟩, fun _ => rfl, fun h => absurd rfl h⟩
  have hall := hinit.chunks chunks hne
  rw [List.nil_append, List.nil_append] at hall
  obtain ⟨front, hcut, heven, hdecode⟩ := hall.decoded
  have hshort : received.1.pending.length ≤ 1 := by
    unfold pending
    split <;> simp
  have hlength : stream.length = front.length + received.1.pending.length := by
    rw [← List.length_append]
    exact congrArg List.length hcut
  refine ⟨?_, ?_, hall.silent, hall.formatFirst⟩
  · calc audioOf received.2 = decodePcm front ++ [] := by rw [List.append_nil]; exact hdecode
      _ = decodePcm (front ++ received.1.pending) := by
          rw [decodePcm_append heven, decodePcm_of_short hshort]
      _ = decodePcm stream := congrArg decodePcm hcut.symm
  · have hfront : stream.length / 2 * 2 = front.length := by omega
    rw [hfront]
    exact (List.drop_left' rfl).symm.trans (congrArg (List.drop front.length) hcut.symm)

/-- One byte and four more. -/
theorem receive_decodes_five :
    audioOf (receive {} [[1], [2, 3, 4, 5]]).2 = decodePcm [1, 2, 3, 4, 5] ∧
      (receive {} [[1], [2, 3, 4, 5]]).1.pending = [5] ∧
      ([1, 2, 3, 4, 5] = ([] : Bytes) → (receive {} [[1], [2, 3, 4, 5]]).2 = []) ∧
      ([1, 2, 3, 4, 5] ≠ ([] : Bytes) → ∃ audio : List (List Sample),
        (receive {} [[1], [2, 3, 4, 5]]).2 = .onFormat 22050 :: audio.map .onAudio) :=
  receive_decodes [[1], [2, 3, 4, 5]] (by decide)

/-- The format is not announced for a stream without bytes. -/
theorem empty_stream_unannounced :
    ¬∀ chunks : List Bytes, (∀ chunk ∈ chunks, chunk ≠ []) →
      ∃ audio : List (List Sample),
        (receive {} chunks).2 = .onFormat 22050 :: audio.map .onAudio := by
  intro h
  obtain ⟨_, hcalls⟩ := h [] (fun _ hmem => absurd hmem List.not_mem_nil)
  cases hcalls

end WriteCtx

end Acva.Tts
