import Acva.Core.Loops
import Acva.Playback.Queue

/-! # WAV files

The file is a list of bytes. Behind the RIFF header the reader walks from chunk to chunk
until it meets the samples, and the size that a chunk declares tells where the next one
begins. That sum is taken in 32 bits. Positions in the file do not wrap: a vector holds
fewer than 2^63 bytes.
-/

namespace Acva.Audio

open Acva.Loops Acva.Playback

/-! ## Bytes of the file -/

def byteAt (pos : Nat) (file : Bytes) : UInt8 := file.getD pos 0

def readU32le (pos : Nat) (file : Bytes) : UInt32 :=
  (byteAt pos file).toUInt32 ||| ((byteAt (pos + 1) file).toUInt32 <<< 8) |||
    ((byteAt (pos + 2) file).toUInt32 <<< 16) ||| ((byteAt (pos + 3) file).toUInt32 <<< 24)

def readU16le (pos : Nat) (file : Bytes) : UInt16 :=
  (byteAt pos file).toUInt16 ||| ((byteAt (pos + 1) file).toUInt16 <<< 8)

def u32le (v : UInt32) : Bytes :=
  (List.range 4).map fun i => ((v >>> (i * 8).toUInt32) &&& 0xFF).toUInt8

def u16le (v : UInt16) : Bytes := [(v &&& 0xFF).toUInt8, ((v >>> 8) &&& 0xFF).toUInt8]

/-- `memcmp` with a tag of four characters. -/
def hasTag (tag : String) (pos : Nat) (file : Bytes) : Bool :=
  (file.drop pos).take 4 = ascii tag

/-! ## The chunk walk -/

/-- The locals of the walk. -/
structure WavWalk where
  pos : Nat := 12
  channels : UInt16 := 0
  bits : UInt16 := 0
  rate : UInt32 := 0
  dataOff : Nat := 0
  dataBytes : Nat := 0
deriving DecidableEq, Repr

/-- What is added to the position: the chunk's header, the size it declares, and a byte of
padding where that is odd. -/
def chunkStride (size : UInt32) : UInt32 := 8 + size + (size &&& 1)

namespace WavWalk

def chunkSize (file : Bytes) (w : WavWalk) : UInt32 := readU32le (w.pos + 4) file

/-- Another header fits. -/
def inFile (file : Bytes) (w : WavWalk) : Bool := w.pos + 8 ≤ file.length

def skip (file : Bytes) (w : WavWalk) : WavWalk :=
  { w with pos := w.pos + (chunkStride (w.chunkSize file)).toNat }

/-- One round. The walk ends at the samples, and with `none` where the reader returns. -/
def step (file : Bytes) (w : WavWalk) : Except (Option WavWalk) WavWalk :=
  if hasTag "fmt " w.pos file = true then
    if file.length < w.pos + 8 + 16 then .error none
    -- PCM only
    else if readU16le (w.pos + 8) file ≠ 1 then .error none
    else
      .ok <| skip file { w with
        channels := readU16le (w.pos + 10) file
        rate := readU32le (w.pos + 12) file
        bits := readU16le (w.pos + 22) file }
  else if hasTag "data" w.pos file = true then
    .error (some { w with dataOff := w.pos + 8, dataBytes := (w.chunkSize file).toNat })
  else .ok (w.skip file)

end WavWalk

/-! ## The reader -/

structure WavFile where
  sampleRateHz : UInt32
  samples : List Sample
deriving DecidableEq, Repr

/-- The samples behind `pos`, as a little-endian host copies them. -/
def pcmSamples (pos count : Nat) (file : Bytes) : List Sample :=
  (List.range count).map fun i => (readU16le (pos + 2 * i) file).toInt16

def isWav (file : Bytes) : Bool :=
  44 ≤ file.length && hasTag "RIFF" 0 file && hasTag "WAVE" 8 file

/-- What is made of the walk. An odd byte at the end is no sample. -/
def WavWalk.toFile (file : Bytes) (w : WavWalk) : Option WavFile :=
  if w.channels ≠ 1 ∨ w.bits ≠ 16 ∨ w.rate = 0 ∨ w.dataOff = 0 ∨
      file.length < w.dataOff + w.dataBytes then none
  else some { sampleRateHz := w.rate, samples := pcmSamples w.dataOff (w.dataBytes / 2) file }

/-- `none` when the reader has begun more rounds than the fuel allows, `some none` for a file
that it refuses. -/
def readWavFile (fuel : Nat) (file : Bytes) : Option (Option WavFile) :=
  if isWav file = true then
    (whileLoop (WavWalk.inFile file) (WavWalk.step file) fuel {}).map fun
      | .ok w => w.toFile file
      | .error (some w) => w.toFile file
      | .error none => none
  else some none

/-- The copy of the samples: the vector that is made for them, and the bytes that are read
from the file's buffer. -/
structure PcmCopy where
  samples : Nat
  dataOff : Nat
  dataBytes : Nat
deriving DecidableEq, Repr

/-- Neither the vector nor the buffer is overrun. -/
def PcmCopy.InBounds (file : Bytes) (copy : PcmCopy) : Prop :=
  copy.dataBytes ≤ 2 * copy.samples ∧ copy.dataOff + copy.dataBytes ≤ file.length

instance (file : Bytes) (copy : PcmCopy) : Decidable (copy.InBounds file) :=
  inferInstanceAs (Decidable (_ ∧ _))

/-- Nothing is copied from a file that is refused. -/
def WavWalk.copy (file : Bytes) (w : WavWalk) : Option PcmCopy :=
  (w.toFile file).map fun _ =>
    { samples := w.dataBytes / 2, dataOff := w.dataOff, dataBytes := w.dataBytes }

/-- The copy by which `readWavFile` comes to its samples. -/
def readCopy (fuel : Nat) (file : Bytes) : Option (Option PcmCopy) :=
  if isWav file = true then
    (whileLoop (WavWalk.inFile file) (WavWalk.step file) fuel {}).map fun
      | .ok w => w.copy file
      | .error (some w) => w.copy file
      | .error none => none
  else some none

/-! ## The writer -/

/-- The samples as they lie in the memory of a little-endian host. -/
def sampleBytes (samples : List Sample) : Bytes := samples.flatMap fun s => u16le s.toUInt16

def makeWav (samples : List Sample) (sampleRateHz : UInt32) : Bytes :=
  let dataBytes : UInt32 := samples.length.toUInt32 * 2
  let fmtChunk : UInt32 := 16
  let riffPayload : UInt32 := 4 + 8 + fmtChunk + 8 + dataBytes
  ascii "RIFF" ++ u32le riffPayload ++ ascii "WAVE" ++
    ascii "fmt " ++ u32le fmtChunk ++
    u16le 1 ++ -- PCM
    u16le 1 ++ u32le sampleRateHz ++ u32le (sampleRateHz * 1 * 2) ++ u16le (1 * 2) ++
    u16le (2 * 8) ++
    ascii "data" ++ u32le dataBytes ++ (sampleBytes samples).take dataBytes.toNat

/-! ## Behind a front -/

theorem byteAt_append (front file : Bytes) (pos : Nat) :
    byteAt (front.length + pos) (front ++ file) = byteAt pos file := by
  simp only [byteAt, List.getD_eq_getElem?_getD]
  rw [List.getElem?_append_right (Nat.le_add_right _ _), Nat.add_sub_cancel_left]

theorem readU16le_append (front file : Bytes) (pos : Nat) :
    readU16le (front.length + pos) (front ++ file) = readU16le pos file := by
  simp only [readU16le, Nat.add_assoc, byteAt_append]

theorem readU32le_append (front file : Bytes) (pos : Nat) :
    readU32le (front.length + pos) (front ++ file) = readU32le pos file := by
  simp only [readU32le, Nat.add_assoc, byteAt_append]

theorem hasTag_append (tag : String) (front file : Bytes) (pos : Nat) :
    hasTag tag (front.length + pos) (front ++ file) = hasTag tag pos file := by
  simp only [hasTag, List.drop_append, List.drop_eq_nil_of_le (Nat.le_add_right _ _),
    Nat.add_sub_cancel_left, List.nil_append]

theorem pcmSamples_append (front file : Bytes) (pos count : Nat) :
    pcmSamples (front.length + pos) count (front ++ file) = pcmSamples pos count file := by
  simp only [pcmSamples, Nat.add_assoc, readU16le_append]

/-- Two bytes are a sample. -/
theorem pcmSamples_cons (lo hi : UInt8) (rest : Bytes) (count : Nat) :
    pcmSamples 0 (count + 1) (lo :: hi :: rest) =
      (readU16le 0 [lo, hi]).toInt16 :: pcmSamples 0 count rest := by
  have hnext : ∀ i, readU16le (0 + 2 * (i + 1)) (lo :: hi :: rest) = readU16le (0 + 2 * i) rest := by
    intro i
    have hpos : 0 + 2 * (i + 1) = [lo, hi].length + (0 + 2 * i) := by
      have htwo : [lo, hi].length = 2 := rfl
      omega
    rw [hpos]
    exact readU16le_append [lo, hi] rest _
  rw [pcmSamples, List.range_succ_eq_map, List.map_cons, List.map_map]
  refine congrArg₂ List.cons rfl ?_
  simp only [pcmSamples, Function.comp_def, hnext, Nat.succ_eq_add_one]

end Acva.Audio
