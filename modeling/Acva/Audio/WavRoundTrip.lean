import Acva.Audio.WavWalk
import Acva.Core.LittleEndian

/-! # What is written is read back

The writer puts a format chunk of 16 bytes behind the RIFF header and the samples behind
that. Its header has 44 bytes, whatever the samples.
-/

namespace Acva.Audio

open Acva.Event Acva.LittleEndian Acva.Loops Acva.Playback

/-! ## Words at a position -/

theorem readU16le_u16le (v : UInt16) (rest : Bytes) : readU16le 0 (u16le v ++ rest) = v :=
  word16_of_octets v

theorem readU32le_u32le (v : UInt32) (rest : Bytes) : readU32le 0 (u32le v ++ rest) = v := by
  change (v >>> 0 &&& 0xFF).toUInt8.toUInt32 ||| ((v >>> 8) &&& 0xFF).toUInt8.toUInt32 <<< 8 |||
    ((v >>> 16) &&& 0xFF).toUInt8.toUInt32 <<< 16 |||
    ((v >>> 24) &&& 0xFF).toUInt8.toUInt32 <<< 24 = v
  rw [UInt32.shiftRight_zero]
  exact word32_of_octets v

/-! ## The samples -/

theorem length_sampleBytes (samples : List Sample) :
    (sampleBytes samples).length = 2 * samples.length := by
  induction samples with
  | nil => rfl
  | cons s samples ih =>
      rw [sampleBytes, List.flatMap_cons, List.length_append, ← sampleBytes, ih, List.length_cons]
      have htwo : (u16le s.toUInt16).length = 2 := rfl
      omega

theorem pcmSamples_sampleBytes (samples : List Sample) :
    pcmSamples 0 samples.length (sampleBytes samples) = samples := by
  induction samples with
  | nil => rfl
  | cons s samples ih =>
      have hfirst : (readU16le 0 (u16le s.toUInt16)).toInt16 = s := by
        rw [← List.append_nil (u16le s.toUInt16), readU16le_u16le, Int16.toInt16_toUInt16]
      have hcons := pcmSamples_cons ((s.toUInt16 &&& 0xFF).toUInt8)
        (((s.toUInt16 >>> 8) &&& 0xFF).toUInt8) (sampleBytes samples) samples.length
      rw [ih] at hcons
      exact hcons.trans (congrArg (· :: samples) hfirst)

/-! ## Fields -/

/-- The fields in front of one give its position. -/
theorem flatten_at_field {fields : List Bytes} {k : Nat} {field : Bytes}
    (hfield : fields[k]? = some field) (rest : Bytes) :
    ∃ behind, fields.flatten ++ rest = (fields.take k).flatten ++ (field ++ behind) := by
  obtain ⟨hk, hget⟩ := List.getElem?_eq_some_iff.mp hfield
  refine ⟨(fields.drop (k + 1)).flatten ++ rest, ?_⟩
  calc fields.flatten ++ rest
      = (fields.take k ++ fields.drop k).flatten ++ rest := by rw [List.take_append_drop]
    _ = (fields.take k).flatten ++ (field ++ ((fields.drop (k + 1)).flatten ++ rest)) := by
        rw [List.drop_eq_getElem_cons hk, hget, List.flatten_append, List.flatten_cons,
          List.append_assoc, List.append_assoc]

theorem readU16le_field (fields : List Bytes) (k : Nat) {pos : Nat} {v : UInt16}
    (hfield : fields[k]? = some (u16le v)) (hpos : (fields.take k).flatten.length = pos)
    (rest : Bytes) : readU16le pos (fields.flatten ++ rest) = v := by
  obtain ⟨behind, hcut⟩ := flatten_at_field hfield rest
  rw [hcut, ← hpos]
  exact (readU16le_append _ _ 0).trans (readU16le_u16le v behind)

theorem readU32le_field (fields : List Bytes) (k : Nat) {pos : Nat} {v : UInt32}
    (hfield : fields[k]? = some (u32le v)) (hpos : (fields.take k).flatten.length = pos)
    (rest : Bytes) : readU32le pos (fields.flatten ++ rest) = v := by
  obtain ⟨behind, hcut⟩ := flatten_at_field hfield rest
  rw [hcut, ← hpos]
  exact (readU32le_append _ _ 0).trans (readU32le_u32le v behind)

theorem hasTag_field (tag : String) (fields : List Bytes) (k : Nat) {pos : Nat} {field : Bytes}
    (hfield : fields[k]? = some field) (hlength : field.length = 4)
    (hpos : (fields.take k).flatten.length = pos) (rest : Bytes) :
    hasTag tag pos (fields.flatten ++ rest) = decide (field = ascii tag) := by
  obtain ⟨behind, hcut⟩ := flatten_at_field hfield rest
  rw [hcut, ← hpos]
  refine (hasTag_append tag _ _ 0).trans ?_
  rw [hasTag, List.drop_zero, List.take_append_of_le_length (Nat.le_of_eq hlength.symm),
    List.take_of_length_le (Nat.le_of_eq hlength)]

/-! ## The header -/

/-- The words before the samples. -/
structure WavHeader where
  riffPayload : UInt32
  fmtChunk : UInt32
  fmtCode : UInt16
  channels : UInt16
  rate : UInt32
  byteRate : UInt32
  blockAlign : UInt16
  bits : UInt16
  dataBytes : UInt32

namespace WavHeader

def fields (h : WavHeader) : List Bytes :=
  [ascii "RIFF", u32le h.riffPayload, ascii "WAVE",
    ascii "fmt ", u32le h.fmtChunk, u16le h.fmtCode, u16le h.channels, u32le h.rate,
    u32le h.byteRate, u16le h.blockAlign, u16le h.bits, ascii "data", u32le h.dataBytes]

def bytes (h : WavHeader) : Bytes := h.fields.flatten

theorem length_bytes (h : WavHeader) : h.bytes.length = 44 := rfl

theorem hasTag_bytes (h : WavHeader) (rest : Bytes) (k : Nat) {pos : Nat} {tag : String}
    (hfield : h.fields[k]? = some (ascii tag)) (hlength : (ascii tag).length = 4)
    (hpos : (h.fields.take k).flatten.length = pos) : hasTag tag pos (h.bytes ++ rest) = true :=
  (hasTag_field tag h.fields k hfield hlength hpos rest).trans (decide_eq_true rfl)

theorem isWav_bytes (h : WavHeader) (rest : Bytes) : isWav (h.bytes ++ rest) = true := by
  have hriff : hasTag "RIFF" 0 (h.bytes ++ rest) = true := h.hasTag_bytes rest 0 rfl rfl rfl
  have hwave : hasTag "WAVE" 8 (h.bytes ++ rest) = true := h.hasTag_bytes rest 2 rfl rfl rfl
  have hlength : 44 ≤ 44 + rest.length := Nat.le_add_right _ _
  rw [isWav, hriff, hwave, List.length_append, length_bytes, decide_eq_true hlength]
  rfl

/-- The first round reads the format. -/
theorem step_fmt (h : WavHeader) (rest : Bytes) (hpcm : h.fmtCode = 1) (hsize : h.fmtChunk = 16) :
    WavWalk.step (h.bytes ++ rest) {} =
      .ok { pos := 36, channels := h.channels, bits := h.bits, rate := h.rate } := by
  have hfmt : hasTag "fmt " 12 (h.bytes ++ rest) = true := h.hasTag_bytes rest 3 rfl rfl rfl
  have hchunk : readU32le 16 (h.bytes ++ rest) = h.fmtChunk := readU32le_field h.fields 4 rfl rfl _
  have hcode : readU16le 20 (h.bytes ++ rest) = h.fmtCode := readU16le_field h.fields 5 rfl rfl _
  have hchannels : readU16le 22 (h.bytes ++ rest) = h.channels :=
    readU16le_field h.fields 6 rfl rfl _
  have hrate : readU32le 24 (h.bytes ++ rest) = h.rate := readU32le_field h.fields 7 rfl rfl _
  have hbits : readU16le 34 (h.bytes ++ rest) = h.bits := readU16le_field h.fields 10 rfl rfl _
  have hfits : ¬(h.bytes ++ rest).length < 36 := by
    rw [List.length_append, length_bytes]
    omega
  have hstride : (chunkStride h.fmtChunk).toNat = 24 := by
    rw [hsize]
    rfl
  simp only [WavWalk.step, WavWalk.skip, WavWalk.chunkSize, if_pos hfmt, Nat.reduceAdd,
    if_neg hfits, hchunk, hcode, hpcm, hchannels, hrate, hbits, hstride, ne_eq, not_true_eq_false,
    if_false]

/-- The second ends at the samples. -/
theorem step_data (h : WavHeader) (rest : Bytes) (w : WavWalk) (hpos : w.pos = 36) :
    WavWalk.step (h.bytes ++ rest) w =
      .error (some { w with dataOff := 44, dataBytes := h.dataBytes.toNat }) := by
  have hdata : hasTag "data" 36 (h.bytes ++ rest) = true := h.hasTag_bytes rest 11 rfl rfl rfl
  have hfmt : hasTag "fmt " 36 (h.bytes ++ rest) = false :=
    (hasTag_field "fmt " h.fields 11 rfl rfl rfl rest).trans (by decide)
  have hsize : readU32le 40 (h.bytes ++ rest) = h.dataBytes := readU32le_field h.fields 12 rfl rfl _
  simp only [WavWalk.step, WavWalk.chunkSize, hpos, hfmt, hdata, hsize, Nat.reduceAdd,
    Bool.false_eq_true, if_false, if_true]

theorem readWavFile_bytes (h : WavHeader) (rest : Bytes) (hpcm : h.fmtCode = 1)
    (hsize : h.fmtChunk = 16) (rounds : Nat) :
    readWavFile (rounds + 2) (h.bytes ++ rest) =
      some (WavWalk.toFile (h.bytes ++ rest)
        { pos := 36, channels := h.channels, bits := h.bits, rate := h.rate, dataOff := 44,
          dataBytes := h.dataBytes.toNat }) := by
  have hin : ∀ w : WavWalk, w.pos ≤ 36 → w.inFile (h.bytes ++ rest) = true := by
    intro w hw
    rw [WavWalk.inFile, List.length_append, length_bytes]
    exact decide_eq_true (by omega)
  rw [readWavFile, if_pos (isWav_bytes h rest),
    whileLoop_succ_of_passes ⟨hin {} (by decide), step_fmt h rest hpcm hsize⟩, whileLoop,
    if_pos (hin _ (Nat.le_refl 36)), step_data h rest _ rfl]
  rfl

end WavHeader

/-! ## Round trip -/

/-- The header that the writer makes. -/
def wavHeader (samples : List Sample) (sampleRateHz : UInt32) : WavHeader where
  riffPayload := 4 + 8 + 16 + 8 + samples.length.toUInt32 * 2
  fmtChunk := 16
  fmtCode := 1
  channels := 1
  rate := sampleRateHz
  byteRate := sampleRateHz * 1 * 2
  blockAlign := 1 * 2
  bits := 2 * 8
  dataBytes := samples.length.toUInt32 * 2

/-- The samples' bytes are counted without a wrap. -/
theorem toNat_dataBytes {samples : List Sample} (rate : UInt32)
    (hsize : 36 + 2 * samples.length < 2 ^ 32) :
    (wavHeader samples rate).dataBytes.toNat = 2 * samples.length := by
  have htwo : (2 : UInt32).toNat = 2 := rfl
  rw [wavHeader, UInt32.toNat_mul, Nat.toUInt32_eq, UInt32.toNat_ofNat', htwo]
  omega

theorem makeWav_eq {samples : List Sample} (rate : UInt32)
    (hsize : 36 + 2 * samples.length < 2 ^ 32) :
    makeWav samples rate = (wavHeader samples rate).bytes ++ sampleBytes samples := by
  have htake : (sampleBytes samples).take (samples.length.toUInt32 * 2).toNat =
      sampleBytes samples :=
    List.take_of_length_le (Nat.le_of_eq
      ((length_sampleBytes samples).trans (toNat_dataBytes rate hsize).symm))
  rw [makeWav, htake]
  simp only [WavHeader.bytes, WavHeader.fields, wavHeader, List.flatten_cons, List.flatten_nil,
    List.append_nil, List.append_assoc]

/-- The reader returns the samples and the rate that the writer was given. -/
theorem readWavFile_makeWav (samples : List Sample) (sampleRateHz : UInt32)
    (hrate : 0 < sampleRateHz) (hsize : 36 + 2 * samples.length < 2 ^ 32) (rounds : Nat) :
    readWavFile (rounds + 2) (makeWav samples sampleRateHz) =
      some (some { sampleRateHz, samples }) := by
  have hfile := makeWav_eq sampleRateHz hsize
  have hpcm : pcmSamples 44 samples.length
      ((wavHeader samples sampleRateHz).bytes ++ sampleBytes samples) = samples :=
    (pcmSamples_append (wavHeader samples sampleRateHz).bytes _ 0 _).trans
      (pcmSamples_sampleBytes samples)
  have hlength : ((wavHeader samples sampleRateHz).bytes ++ sampleBytes samples).length =
      44 + 2 * samples.length := by
    rw [List.length_append, WavHeader.length_bytes, length_sampleBytes]
  have hne : sampleRateHz ≠ 0 := by
    rintro rfl
    exact absurd hrate (by decide)
  rw [hfile, WavHeader.readWavFile_bytes _ _ rfl rfl, toNat_dataBytes sampleRateHz hsize]
  simp only [WavWalk.toFile, hlength, Nat.mul_div_cancel_left _ Nat.two_pos, hpcm]
  simp [wavHeader, hne]

theorem readWavFile_makeWav_pair :
    readWavFile 2 (makeWav [1, -1] 16000) =
      some (some { sampleRateHz := 16000, samples := [1, -1] }) :=
  readWavFile_makeWav [1, -1] 16000 (by decide) (by decide) 0

end Acva.Audio
