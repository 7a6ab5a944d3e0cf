import Acva.Audio.Wav

/-! # The chunk walk ends

A header takes the walk on by its eight bytes and the size it declares. For the sizes from
0xFFFFFFF7 to 0xFFFFFFFE that sum wraps to a stride of 0, 2, 4 or 6: with a stride of 0 the
walk stands still for ever, with the others it creeps.
-/

namespace Acva.Audio

open Acva.Loops

/-! ## Strides -/

/-- The two sizes whose stride is 0. -/
def StandsStill (size : UInt32) : Prop := size = 0xFFFFFFF7 ∨ size = 0xFFFFFFF8

/-- The sizes whose stride is less than a header. -/
def FallsShort (size : UInt32) : Prop := 0xFFFFFFF7 ≤ size ∧ size ≤ 0xFFFFFFFE

instance (size : UInt32) : Decidable (StandsStill size) := by
  unfold StandsStill
  infer_instance

theorem toNat_chunkStride (size : UInt32) :
    (chunkStride size).toNat = (8 + size.toNat + size.toNat % 2) % 2 ^ 32 := by
  have hodd : (size &&& 1).toNat = size.toNat % 2 := by
    rw [UInt32.toNat_and]
    exact Nat.and_one_is_mod _
  have height : (8 : UInt32).toNat = 8 := rfl
  simp only [chunkStride, UInt32.toNat_add, hodd, height]
  omega

theorem standsStill_iff {size : UInt32} : StandsStill size ↔ (chunkStride size).toNat = 0 := by
  have hlt := size.toNat_lt
  rw [toNat_chunkStride]
  simp only [StandsStill, ← UInt32.toNat_inj, UInt32.reduceToNat]
  omega

theorem fallsShort_iff {size : UInt32} : FallsShort size ↔ (chunkStride size).toNat < 8 := by
  have hlt := size.toNat_lt
  rw [toNat_chunkStride]
  simp only [FallsShort, UInt32.le_iff_toNat_le, UInt32.reduceToNat]
  omega

/-! ## Rounds -/

/-- The walk over the file passes from one header to the next. -/
structure Walks (file : Bytes) (w w' : WavWalk) : Prop where
  accepted : isWav file = true
  reached : Reaches (WavWalk.inFile file) (WavWalk.step file) {} w
  passes : Passes (WavWalk.inFile file) (WavWalk.step file) w w'

variable {file : Bytes} {w w' : WavWalk}

theorem WavWalk.step_pos (h : w.step file = .ok w') :
    w'.pos = w.pos + (chunkStride (w.chunkSize file)).toNat := by
  unfold WavWalk.step at h
  split at h
  · split at h
    · cases h
    · split at h
      · cases h
      · cases h
        rfl
  · split at h
    · cases h
    · cases h
      rfl

/-- A round that has not moved is made again. -/
theorem WavWalk.step_again (h : w.step file = .ok w') (hpos : w'.pos = w.pos) :
    w'.step file = .ok w' := by
  have hstride : (chunkStride (w.chunkSize file)).toNat = 0 := by
    have := WavWalk.step_pos h
    omega
  have hskip : ∀ u : WavWalk, u.pos = w.pos → u.skip file = u := by
    intro u hu
    have hsize : u.chunkSize file = w.chunkSize file := by simp only [chunkSize, hu]
    simp only [skip, hsize, hstride, Nat.add_zero]
  unfold WavWalk.step at h ⊢
  rw [hpos]
  split at h
  next hfmt =>
    split at h
    · cases h
    next hfits =>
      split at h
      · cases h
      next hpcm =>
        have hsame := (hskip _ (by rfl)).symm.trans (Except.ok.inj h)
        subst hsame
        rw [if_pos hfmt, if_neg hfits, if_neg hpcm]
        exact congrArg Except.ok (hskip _ rfl)
  next hfmt =>
    split at h
    · cases h
    next hdata =>
      have hsame := (hskip _ (by rfl)).symm.trans (Except.ok.inj h)
      subst hsame
      rw [if_neg hfmt, if_neg hdata]
      exact congrArg Except.ok (hskip _ rfl)

theorem Walks.pos (h : Walks file w w') :
    w'.pos = w.pos + (chunkStride (w.chunkSize file)).toNat :=
  WavWalk.step_pos h.passes.2

/-! ## The reader -/

/-- The walk moves on in every round, and the reader returns after at most so many. -/
structure WalkTerminates (file : Bytes) (rounds : Nat) : Prop where
  progress : ∀ w w', Walks file w w' → w.pos < w'.pos
  returns : (readWavFile rounds file).isSome

theorem readWavFile_isSome_iff (haccepted : isWav file = true) {rounds : Nat} :
    (readWavFile rounds file).isSome ↔
      (whileLoop (WavWalk.inFile file) (WavWalk.step file) rounds {}).isSome := by
  rw [readWavFile, if_pos haccepted, Option.isSome_map]

theorem readWavFile_isSome_of_refused (hrefused : ¬isWav file = true) (rounds : Nat) :
    (readWavFile rounds file).isSome := by
  rw [readWavFile, if_neg hrefused]
  rfl

/-- A stride of at least `unit` in every round bounds the number of rounds. -/
theorem walkTerminates_of_stride {unit : Nat} (hunit : 0 < unit) (hheader : unit ≤ 8)
    (hstride : ∀ w w', Walks file w w' → unit ≤ (chunkStride (w.chunkSize file)).toNat) :
    WalkTerminates file (file.length / unit) := by
  refine ⟨fun w w' h => ?_, ?_⟩
  · have hpos := h.pos
    have hle := hstride w w' h
    omega
  by_cases haccepted : isWav file = true
  · rw [readWavFile_isSome_iff haccepted]
    refine whileLoop_isSome_of_measure (fun w => (file.length - w.pos) / unit) ?_ ?_ ?_
    · intro w _ htest
      have hin : w.pos + 8 ≤ file.length := of_decide_eq_true htest
      exact Nat.div_pos (by omega) hunit
    · intro w w' hreached hpasses
      have hin : w.pos + 8 ≤ file.length := of_decide_eq_true hpasses.1
      have hpos := WavWalk.step_pos hpasses.2
      have hle := hstride w w' ⟨haccepted, hreached, hpasses⟩
      have hone : (file.length - w.pos) / unit = (file.length - w.pos - unit) / unit + 1 :=
        Nat.div_eq_sub_div hunit (by omega)
      calc (file.length - w'.pos) / unit
          ≤ (file.length - w.pos - unit) / unit := Nat.div_le_div_right (by omega)
        _ < (file.length - w.pos) / unit := hone ▸ Nat.lt_succ_self _
    · exact Nat.div_le_div_right (Nat.sub_le _ _)
  · exact readWavFile_isSome_of_refused haccepted _

/-- Once the walk stands still it does so for ever. -/
theorem readWavFile_eq_none (h : Walks file w w') (hstill : StandsStill (w.chunkSize file))
    (rounds : Nat) : readWavFile rounds file = none := by
  have hpos : w'.pos = w.pos := by
    rw [h.pos, standsStill_iff.mp hstill, Nat.add_zero]
  have hagain : Passes (WavWalk.inFile file) (WavWalk.step file) w' w' := by
    refine ⟨?_, WavWalk.step_again h.passes.2 hpos⟩
    have hin := h.passes.1
    rwa [WavWalk.inFile, ← hpos] at hin
  have hloop := whileLoop_eq_none_of_reaches (h.reached.tail h.passes)
    (whileLoop_eq_none (fun u => u = w') (fun u hu => ⟨w', hu ▸ hagain, rfl⟩) rfl) rounds
  rw [readWavFile, if_pos h.accepted, hloop]
  rfl

/-- The walk moves on in every round exactly if no header it passes makes it stand still, and
the reader returns exactly then. Where none falls short either, an eighth of the file bounds
the rounds. -/
theorem walk_terminates_iff (file : Bytes) :
    ((∀ w w', Walks file w w' → w.pos < w'.pos) ↔
        ∀ w w', Walks file w w' → ¬StandsStill (w.chunkSize file)) ∧
      ((∃ rounds, (readWavFile rounds file).isSome) ↔
        ∀ w w', Walks file w w' → ¬StandsStill (w.chunkSize file)) ∧
      ((∀ w w', Walks file w w' → ¬FallsShort (w.chunkSize file)) →
        WalkTerminates file (file.length / 8)) := by
  have hmoves : (∀ w w', Walks file w w' → ¬StandsStill (w.chunkSize file)) →
      WalkTerminates file (file.length / 1) := by
    intro h
    refine walkTerminates_of_stride Nat.one_pos (by omega) fun w w' hw => ?_
    have hpos := mt standsStill_iff.mpr (h w w' hw)
    omega
  refine ⟨⟨fun h w w' hw hstill => ?_, fun h => (hmoves h).progress⟩,
    ⟨?_, fun h => ⟨_, (hmoves h).returns⟩⟩, fun h => ?_⟩
  · have hpos := hw.pos
    have hlt := h w w' hw
    rw [standsStill_iff.mp hstill] at hpos
    omega
  · rintro ⟨rounds, hreturns⟩ w w' hw hstill
    rw [readWavFile_eq_none hw hstill] at hreturns
    cases hreturns
  · refine walkTerminates_of_stride (by omega) (Nat.le_refl 8) fun w w' hw => ?_
    have hfar := mt fallsShort_iff.mpr (h w w' hw)
    omega

/-- A RIFF file whose first chunk declares this size. -/
def oneChunk (size : List UInt8) : Bytes :=
  ascii "RIFF" ++ [36, 0, 0, 0] ++ ascii "WAVE" ++ ascii "LIST" ++ size ++ List.replicate 24 0

/-- The reader does not return from a chunk that stands still. -/
theorem standingChunk_never_returns :
    ¬∃ rounds, WalkTerminates (oneChunk [0xF8, 0xFF, 0xFF, 0xFF]) rounds := by
  rintro ⟨rounds, -, hreturns⟩
  have hwalks : Walks (oneChunk [0xF8, 0xFF, 0xFF, 0xFF]) {} {} :=
    ⟨by decide, .refl, by decide, by decide⟩
  rw [readWavFile_eq_none hwalks (by decide)] at hreturns
  cases hreturns

/-- Strides of 2 and 8 in turn: six rounds, where an eighth of the file is five. -/
example :
    let creeping := ascii "RIFF" ++ [36, 0, 0, 0] ++ ascii "WAVE" ++
      (List.replicate 3 [0, 0, 0, 0, 0xF9, 0xFF, 0xFF, 0xFF, 0xFF, 0xFF]).flatten ++ [0, 0]
    creeping.length / 8 = 5 ∧ readWavFile 5 creeping = none ∧ readWavFile 6 creeping ≠ none := by
  decide

end Acva.Audio
