import Acva.Audio.WavWalk

/-! # The copy of the samples

The vector is made for half as many samples as the data chunk declares bytes, and then as
many bytes are copied as the chunk declares. The file's buffer is long enough for them. The
vector is not where the declared size is odd.
-/

namespace Acva.Audio

open Acva.Loops Acva.Playback

/-! ## The data chunk -/

/-- From a header to the next, as far as the samples. -/
def NextHeader (file : Bytes) (pos next : Nat) : Prop :=
  pos + 8 ≤ file.length ∧ ¬hasTag "data" pos file = true ∧
    next = pos + (chunkStride (readU32le (pos + 4) file)).toNat

/-- The first data chunk has its header here. -/
structure DataChunk (file : Bytes) (pos : Nat) : Prop where
  reached : Relation.ReflTransGen (NextHeader file) 12 pos
  inFile : pos + 8 ≤ file.length
  tag : hasTag "data" pos file = true

variable {file : Bytes} {w w' : WavWalk} {pos : Nat}

theorem nextHeader_rightUnique : Relator.RightUnique (NextHeader file) := by
  rintro pos _ _ ⟨-, -, rfl⟩ ⟨-, -, rfl⟩
  rfl

/-- No header follows that of the samples. -/
theorem DataChunk.eq_of_reached {next : Nat} (h : DataChunk file pos)
    (hreached : Relation.ReflTransGen (NextHeader file) pos next) : pos = next := by
  rcases hreached.cases_head with heq | ⟨_, hnext, _⟩
  · exact heq
  · exact absurd h.tag hnext.2.1

theorem DataChunk.unique {other : Nat} (h : DataChunk file pos) (h' : DataChunk file other) :
    pos = other := by
  rcases Relation.ReflTransGen.total_of_right_unique nextHeader_rightUnique h.reached h'.reached
    with hfrom | hto
  · exact h.eq_of_reached hfrom
  · exact (h'.eq_of_reached hto).symm

/-! ## The walk -/

theorem hasTag_data_of_fmt (h : hasTag "fmt " pos file = true) :
    ¬hasTag "data" pos file = true := by
  intro hdata
  have hfmt : (file.drop pos).take 4 = ascii "fmt " := of_decide_eq_true h
  have htag : (file.drop pos).take 4 = ascii "data" := of_decide_eq_true hdata
  rw [hfmt] at htag
  exact absurd htag (by decide)

/-- A round that goes on has met no samples. -/
theorem WavWalk.step_frame (h : w.step file = .ok w') :
    ¬hasTag "data" w.pos file = true ∧ w'.dataOff = w.dataOff ∧ w'.dataBytes = w.dataBytes := by
  unfold WavWalk.step at h
  split at h
  next hfmt =>
    split at h
    · cases h
    · split at h
      · cases h
      · cases h
        exact ⟨hasTag_data_of_fmt hfmt, rfl, rfl⟩
  next =>
    split at h
    · cases h
    next hdata =>
      cases h
      exact ⟨hdata, rfl, rfl⟩

/-- What the walk knows before each round. -/
structure WavWalk.Underway (file : Bytes) (w : WavWalk) : Prop where
  header : Relation.ReflTransGen (NextHeader file) 12 w.pos
  noData : w.dataOff = 0

theorem WavWalk.underway_of_reaches
    (h : Reaches (WavWalk.inFile file) (WavWalk.step file) {} w) : w.Underway file := by
  induction h with
  | refl => exact ⟨.refl, rfl⟩
  | tail _ hpass ih =>
      obtain ⟨hdata, hoff, -⟩ := WavWalk.step_frame hpass.2
      have hin : _ + 8 ≤ file.length := of_decide_eq_true hpass.1
      exact ⟨ih.header.tail ⟨hin, hdata, WavWalk.step_pos hpass.2⟩, hoff.trans ih.noData⟩

/-- The walk has ended at the samples. -/
structure WavWalk.AtSamples (file : Bytes) (w : WavWalk) : Prop where
  chunk : DataChunk file w.pos
  dataOff : w.dataOff = w.pos + 8
  dataBytes : w.dataBytes = (readU32le (w.pos + 4) file).toNat

theorem WavWalk.step_error (h : w.step file = .error (some w')) :
    hasTag "data" w.pos file = true ∧ w'.pos = w.pos ∧ w'.dataOff = w.pos + 8 ∧
      w'.dataBytes = (readU32le (w.pos + 4) file).toNat := by
  unfold WavWalk.step at h
  split at h
  · split at h
    · cases h
    · split at h <;> cases h
  · split at h
    next hdata =>
      cases h
      exact ⟨hdata, rfl, rfl, rfl⟩
    · cases h

theorem WavWalk.toFile_eq_some {f : WavFile} (h : w.toFile file = some f) :
    w.dataOff ≠ 0 ∧ w.dataOff + w.dataBytes ≤ file.length ∧
      f.samples.length = w.dataBytes / 2 := by
  unfold WavWalk.toFile at h
  split at h
  · cases h
  next hok =>
    cases h
    simp only [not_or] at hok
    refine ⟨hok.2.2.2.1, by omega, ?_⟩
    rw [pcmSamples, List.length_map, List.length_range]

/-! ## The copy -/

/-- An accepted file is one whose walk has ended at the samples. -/
theorem atSamples_of_readWavFile {fuel : Nat} {f : WavFile}
    (h : readWavFile fuel file = some (some f)) :
    ∃ w : WavWalk, w.AtSamples file ∧ w.toFile file = some f ∧
      readCopy fuel file = some (w.copy file) := by
  unfold readWavFile at h
  split at h
  next haccepted =>
    obtain ⟨r, hloop, hfile⟩ := Option.map_eq_some_iff.mp h
    obtain ⟨w, hreach, hleft⟩ := reaches_of_whileLoop hloop
    have hway := WavWalk.underway_of_reaches hreach
    rcases hleft with ⟨-, rfl⟩ | ⟨e, hround, htest, rfl⟩
    · exact absurd hway.noData (WavWalk.toFile_eq_some hfile).1
    · cases e with
      | none => cases hfile
      | some u =>
          obtain ⟨htag, hpos, hoff, hbytes⟩ := WavWalk.step_error hround
          have hin : w.pos + 8 ≤ file.length := of_decide_eq_true htest
          refine ⟨u, ⟨⟨?_, ?_, ?_⟩, ?_, ?_⟩, hfile, ?_⟩
          · rw [hpos]
            exact hway.header
          · rw [hpos]
            exact hin
          · rw [hpos]
            exact htag
          · rw [hoff, hpos]
          · rw [hbytes, hpos]
          · rw [readCopy, if_pos haccepted, hloop]
            rfl
  · cases h

/-- The reader copies within bounds exactly if the data chunk declares an even size. An odd
one takes the copy a byte beyond the vector. -/
theorem readCopy_inBounds_iff {fuel : Nat} {f : WavFile}
    (h : readWavFile fuel file = some (some f)) :
    ∃ copy, readCopy fuel file = some (some copy) ∧ copy.samples = f.samples.length ∧
      (copy.InBounds file ↔
        ∃ pos, DataChunk file pos ∧ (readU32le (pos + 4) file).toNat % 2 = 0) := by
  obtain ⟨w, hw, hfile, hcopy⟩ := atSamples_of_readWavFile h
  obtain ⟨-, hend, hsamples⟩ := WavWalk.toFile_eq_some hfile
  rw [WavWalk.copy, hfile] at hcopy
  refine ⟨_, hcopy, hsamples.symm, ?_⟩
  have hcut : (w.dataBytes ≤ 2 * (w.dataBytes / 2) ∧ w.dataOff + w.dataBytes ≤ file.length) ↔
      w.dataBytes % 2 = 0 := by omega
  unfold PcmCopy.InBounds
  rw [hcut, hw.dataBytes]
  constructor
  · exact fun heven => ⟨w.pos, hw.chunk, heven⟩
  · rintro ⟨pos, hchunk, heven⟩
    rwa [hchunk.unique hw.chunk] at heven

/-- A file whose data chunk holds these bytes. -/
def oneDataChunk (bytes : List UInt8) : Bytes :=
  ascii "RIFF" ++ u32le 0 ++ ascii "WAVE" ++
    ascii "fmt " ++ u32le 16 ++ u16le 1 ++ u16le 1 ++ u32le 16000 ++ u32le 32000 ++ u16le 2 ++
    u16le 16 ++ ascii "data" ++ u32le bytes.length.toUInt32 ++ bytes

theorem readCopy_inBounds_iff_pair :
    ∃ copy, readCopy 2 (oneDataChunk [1, 2]) = some (some copy) ∧
      copy.samples = 1 ∧
      (copy.InBounds (oneDataChunk [1, 2]) ↔ ∃ pos, DataChunk (oneDataChunk [1, 2]) pos ∧
        (readU32le (pos + 4) (oneDataChunk [1, 2])).toNat % 2 = 0) :=
  readCopy_inBounds_iff (show _ = some (some ⟨16000, [0x0201]⟩) by decide)

/-- One byte of samples: the vector is empty, and the byte is copied to it. -/
theorem oddChunk_overruns :
    ¬∀ fuel file f copy, readWavFile fuel file = some (some f) →
      readCopy fuel file = some (some copy) → copy.InBounds file := by
  intro h
  exact absurd (h 2 (oneDataChunk [1]) ⟨16000, []⟩ ⟨0, 44, 1⟩ (by decide) (by decide)) (by decide)

end Acva.Audio
