import Acva.Audio.Pipeline

/-! # The echo canceller's blocks

What soxr yields is joined to what the last frame has left over, and whole blocks are taken
off the front. The blocks and the carry are therefore all that was resampled, in order.
-/

namespace Acva.Audio

open Acva.Playback Acva.Runs

namespace AudioPipeline

variable {ρ : Type}

/-! ## The loop over blocks -/

/-- The blocks have the length `n`, and with the carry they are the samples. -/
structure CutInto (n : Nat) (samples : List Sample) (blocks : List (List Sample))
    (carry : List Sample) : Prop where
  whole : ∀ block ∈ blocks, block.length = n
  all : blocks.flatten ++ carry = samples

theorem CutInto.cons {n : Nat} {samples carry : List Sample} {blocks : List (List Sample)}
    (hn : n ≤ samples.length) (h : CutInto n (samples.drop n) blocks carry) :
    CutInto n samples (samples.take n :: blocks) carry := by
  refine ⟨fun block hblock => ?_, ?_⟩
  · rcases List.mem_cons.mp hblock with rfl | hlater
    · rw [List.length_take, Nat.min_eq_left hn]
    · exact h.whole block hlater
  · rw [List.flatten_cons, List.append_assoc, h.all, List.take_append_drop]

/-- What comes before stays before. -/
theorem CutInto.append {n : Nat} {before samples carry carry' : List Sample}
    {blocks more : List (List Sample)} (h : CutInto n before blocks carry)
    (h' : CutInto n (carry ++ samples) more carry') :
    CutInto n (before ++ samples) (blocks ++ more) carry' := by
  refine ⟨fun block hblock => ?_, ?_⟩
  · rcases List.mem_append.mp hblock with hold | hnew
    · exact h.whole block hold
    · exact h'.whole block hnew
  · rw [List.flatten_append, List.append_assoc, h'.all, ← List.append_assoc, h.all]

/-- The loop ends with less than a block left. -/
theorem cleanBlocks_spec (ext : FrontEnd ρ) {n : Nat} (hn : 0 < n) (capturedAt : TimePoint)
    (fuel : Nat) (c : Cleaning ρ) (hfuel : c.carry.length ≤ fuel) :
    ∃ more, (cleanBlocks ext n capturedAt fuel c).blocks = c.blocks ++ more ∧
      CutInto n c.carry more (cleanBlocks ext n capturedAt fuel c).carry ∧
      (cleanBlocks ext n capturedAt fuel c).carry.length < n := by
  induction fuel generalizing c with
  | zero =>
      refine ⟨[], (List.append_nil _).symm, ⟨fun _ h => absurd h List.not_mem_nil, rfl⟩, ?_⟩
      have hempty : c.carry.length = 0 := Nat.le_zero.mp hfuel
      change c.carry.length < n
      omega
  | succ fuel ih =>
      unfold cleanBlocks
      split
      next hlong =>
        have hshorter : (c.carry.drop n).length ≤ fuel := by
          rw [List.length_drop]
          omega
        obtain ⟨more, hblocks, hcut, hcarry⟩ := ih
          { cleaned := c.cleaned ++ (ext.apm (c.carry.take n) capturedAt c.frontEnd).1
            carry := c.carry.drop n
            blocks := c.blocks ++ [c.carry.take n]
            frontEnd := (ext.apm (c.carry.take n) capturedAt c.frontEnd).2 } hshorter
        refine ⟨c.carry.take n :: more, ?_, hcut.cons hlong, hcarry⟩
        exact hblocks.trans (List.append_assoc _ _ _)
      next hshort =>
        refine ⟨[], (List.append_nil _).symm, ⟨fun _ h => absurd h List.not_mem_nil, rfl⟩, ?_⟩
        omega

theorem echoCancel_spec (ext : FrontEnd ρ) (resampled : List Sample) (capturedAt : TimePoint)
    {p : AudioPipeline ρ} (hrate : 0 < p.apmFrameSamples) :
    CutInto p.apmFrameSamples (p.apmCarry ++ resampled)
        (p.echoCancel ext resampled capturedAt).blocks
        (p.echoCancel ext resampled capturedAt).carry ∧
      (p.echoCancel ext resampled capturedAt).carry.length < p.apmFrameSamples := by
  obtain ⟨more, hblocks, hcut, hcarry⟩ := cleanBlocks_spec ext hrate capturedAt _
    { carry := p.apmCarry ++ resampled, frontEnd := p.frontEnd } (Nat.le_refl _)
  have hmore : (p.echoCancel ext resampled capturedAt).blocks = more :=
    hblocks.trans (List.nil_append _)
  rw [hmore]
  exact ⟨hcut, hcarry⟩

/-! ## One frame -/

def blocksOf (outs : List PipelineOutput) : List (List Sample) :=
  outs.filterMap fun
    | .apmBlock block => some block
    | _ => none

theorem blocksOf_append (outs more : List PipelineOutput) :
    blocksOf (outs ++ more) = blocksOf outs ++ blocksOf more := List.filterMap_append

theorem blocksOf_map (blocks : List (List Sample)) :
    blocksOf (blocks.map .apmBlock) = blocks := by
  rw [blocksOf, List.filterMap_map]
  exact List.filterMap_some

/-- The stage's own state is the same. -/
structure SameStage (p q : AudioPipeline ρ) : Prop where
  outputSampleRate : q.outputSampleRate = p.outputSampleRate
  aecActive : q.aecActive = p.aecActive
  apmCarry : q.apmCarry = p.apmCarry

theorem SameStage.trans {p q r : AudioPipeline ρ} (h : SameStage p q) (h' : SameStage q r) :
    SameStage p r :=
  ⟨h'.outputSampleRate.trans h.outputSampleRate, h'.aecActive.trans h.aecActive,
    h'.apmCarry.trans h.apmCarry⟩

theorem hear_sameStage (ext : FrontEnd ρ) (chunk : List Sample) (t : TimePoint)
    (p : AudioPipeline ρ) : SameStage p (p.hear ext chunk t).1 := by
  have hvad : ∀ q : AudioPipeline ρ, SameStage q (q.updateVad ext chunk) := by
    intro q
    unfold updateVad
    split <;> exact ⟨rfl, rfl, rfl⟩
  have hover : ∀ q : AudioPipeline ρ, SameStage q q.overrideVad := by
    intro q
    unfold overrideVad
    split <;> exact ⟨rfl, rfl, rfl⟩
  have hboth := (hvad { p with utteranceBuffer := p.utteranceBuffer.append chunk }).trans (hover _)
  exact ⟨hboth.outputSampleRate, hboth.aecActive, hboth.apmCarry⟩

theorem offerSlice_sameStage (slice : Option AudioSlice) (p : AudioPipeline ρ) :
    SameStage p (p.offerSlice slice).1 ∧ blocksOf (p.offerSlice slice).2 = [] := by
  unfold offerSlice
  split
  · exact ⟨⟨rfl, rfl, rfl⟩, rfl⟩
  · split <;> exact ⟨⟨rfl, rfl, rfl⟩, rfl⟩

theorem onOutcome_sameStage (outcome : FrameOutcome) (chunk : List Sample) (t : TimePoint)
    (p : AudioPipeline ρ) :
    SameStage p (p.onOutcome outcome chunk t).1 ∧ blocksOf (p.onOutcome outcome chunk t).2 = [] := by
  cases outcome with
  | none => exact ⟨⟨rfl, rfl, rfl⟩, rfl⟩
  | falseStart => exact ⟨⟨rfl, rfl, rfl⟩, rfl⟩
  | speechStarted =>
      refine ⟨⟨rfl, rfl, rfl⟩, ?_⟩
      change blocksOf (p.onsetReplay chunk ++ _) = []
      rw [blocksOf_append]
      unfold onsetReplay
      split
      · dsimp only
        split <;> rfl
      · rfl
  | speechEnded =>
      obtain ⟨hsame, hnone⟩ := offerSlice_sameStage (p.utteranceBuffer.onSpeechEnded t).2
        { p with utteranceBuffer := (p.utteranceBuffer.onSpeechEnded t).1, inSpeech := false }
      exact ⟨⟨hsame.outputSampleRate, hsame.aecActive, hsame.apmCarry⟩, hnone⟩

/-- Behind the stage no block is made. -/
theorem processChunk_sameStage (ext : FrontEnd ρ) (chunk : List Sample) (t : TimePoint)
    (p : AudioPipeline ρ) :
    SameStage p (p.processChunk ext chunk t).1 ∧ blocksOf (p.processChunk ext chunk t).2 = [] := by
  obtain ⟨hsame, hnone⟩ := onOutcome_sameStage (p.hear ext chunk t).2 chunk t (p.hear ext chunk t).1
  refine ⟨(hear_sameStage ext chunk t p).trans hsame, ?_⟩
  have hall : blocksOf (p.processChunk ext chunk t).2 =
      blocksOf (if p.inSpeech = true ∧ p.liveSink = true then [.live chunk] else []) ++
        blocksOf ((p.hear ext chunk t).1.onOutcome (p.hear ext chunk t).2 chunk t).2 :=
    blocksOf_append _ _
  rw [hall, hnone, List.append_nil]
  split <;> rfl

/-- What one call of `process_frame` does at the stage. -/
structure StageStep (ext : FrontEnd ρ) (frame : AudioFrame) (p q : AudioPipeline ρ)
    (outs : List PipelineOutput) : Prop where
  outputSampleRate : q.outputSampleRate = p.outputSampleRate
  aecActive : q.aecActive = p.aecActive
  cut : CutInto p.apmFrameSamples
    (p.apmCarry ++ (ext.resample frame.samples p.frontEnd).1) (blocksOf outs) q.apmCarry
  short : q.apmCarry.length < p.apmFrameSamples

theorem prepare_stage (ext : FrontEnd ρ) (frame : AudioFrame) {p : AudioPipeline ρ}
    (hactive : p.aecActive = true) (hrate : 0 < p.apmFrameSamples)
    (hshort : p.apmCarry.length < p.apmFrameSamples) :
    ∃ chunk q outs, p.prepare ext frame = some (chunk, q, outs) ∧ StageStep ext frame p q outs := by
  unfold prepare
  dsimp only
  split
  next hskip =>
    have hempty : (ext.resample frame.samples p.frontEnd).1 = [] := by
      rcases hskip with hempty | hinactive
      · exact hempty
      · rw [hactive] at hinactive
        cases hinactive
    refine ⟨_, _, _, rfl, rfl, rfl, ⟨fun _ h => absurd h List.not_mem_nil, ?_⟩, hshort⟩
    rw [hempty, List.append_nil]
    rfl
  next =>
    split
    next hzero => exact absurd hzero (Nat.ne_of_gt hrate)
    next =>
      obtain ⟨hcut, hcarry⟩ := echoCancel_spec ext (ext.resample frame.samples p.frontEnd).1
        frame.capturedAt (show 0 < apmFrameSamples { p with
          framesProcessed := p.framesProcessed + 1
          frontEnd := (ext.resample frame.samples p.frontEnd).2 } from hrate)
      refine ⟨_, _, _, rfl, rfl, rfl, ?_, hcarry⟩
      rw [blocksOf_map]
      exact hcut

/-- The call returns, and the rest of the pipeline leaves the stage alone. -/
theorem processFrame_stage (ext : FrontEnd ρ) (frame : AudioFrame) {p : AudioPipeline ρ}
    (hactive : p.aecActive = true) (hrate : 0 < p.apmFrameSamples)
    (hshort : p.apmCarry.length < p.apmFrameSamples) :
    ∃ q outs, p.processFrame ext frame = some (q, outs) ∧ StageStep ext frame p q outs := by
  obtain ⟨chunk, q, outs, hprepare, hstage⟩ := prepare_stage ext frame hactive hrate hshort
  by_cases hempty : chunk = []
  · refine ⟨q, outs, ?_, hstage⟩
    simp only [processFrame, hprepare, if_pos hempty]
  · obtain ⟨hsame, hnone⟩ := processChunk_sameStage ext chunk frame.capturedAt q
    refine ⟨(q.processChunk ext chunk frame.capturedAt).1,
      outs ++ (q.processChunk ext chunk frame.capturedAt).2, ?_, ?_⟩
    · simp only [processFrame, hprepare, if_neg hempty]
    · refine ⟨hsame.outputSampleRate.trans hstage.outputSampleRate,
        hsame.aecActive.trans hstage.aecActive, ?_, ?_⟩
      · rw [blocksOf_append, hnone, List.append_nil, hsame.apmCarry]
        exact hstage.cut
      · rw [hsame.apmCarry]
        exact hstage.short

/-! ## Runs -/

/-- The chunks that were resampled and the blocks that were passed to the APM. -/
structure ApmLog where
  resampled : List (List Sample) := []
  blocks : List (List Sample) := []
deriving DecidableEq, Repr

def ApmLog.note (ext : FrontEnd ρ) (l : ApmLog) (p : AudioPipeline ρ) :
    PipelineAction → ApmLog
  | .frame frame =>
      { resampled := l.resampled ++ [(ext.resample frame.samples p.frontEnd).1]
        blocks := l.blocks ++ ((p.processFrame ext frame).map fun r => blocksOf r.2).getD [] }
  | .setTestProbability _ => l
  | .release _ => l

/-- Nothing is lost, repeated or moved between the resampler and the APM. -/
structure Conserved (n : Nat) (p : AudioPipeline ρ) (l : ApmLog) : Prop where
  cut : CutInto n l.resampled.flatten l.blocks p.apmCarry
  short : p.apmCarry.length < n

structure StageInv (n : Nat) (p : AudioPipeline ρ) (l : ApmLog) : Prop where
  active : p.aecActive = true
  rate : p.apmFrameSamples = n
  conserved : Conserved n p l

theorem StageInv.step (ext : FrontEnd ρ) {n : Nat} (hn : 0 < n) {p : AudioPipeline ρ} {l : ApmLog}
    (h : StageInv n p l) (a : PipelineAction) :
    ∃ q, p.step ext a = some q ∧ StageInv n q (l.note ext p a) := by
  cases a with
  | frame frame =>
      have hrate := h.rate
      obtain ⟨q, outs, hframe, hstage⟩ := processFrame_stage ext frame h.active
        (hrate ▸ hn) (hrate ▸ h.conserved.short)
      have hcut := hstage.cut
      have hshort := hstage.short
      rw [hrate] at hcut hshort
      refine ⟨q, ?_, hstage.aecActive.trans h.active, ?_, ⟨?_, hshort⟩⟩
      · rw [AudioPipeline.step, hframe]
        rfl
      · rw [apmFrameSamples, hstage.outputSampleRate]
        exact hrate
      · rw [ApmLog.note, hframe]
        simp only [Option.map_some, Option.getD_some, List.flatten_append, List.flatten_cons,
          List.flatten_nil, List.append_nil]
        exact h.conserved.cut.append hcut
  | setTestProbability probability =>
      exact ⟨_, rfl, h.active, h.rate, ⟨h.conserved.cut, h.conserved.short⟩⟩
  | release ref => exact ⟨_, rfl, h.active, h.rate, ⟨h.conserved.cut, h.conserved.short⟩⟩

theorem StageInv.run (ext : FrontEnd ρ) {n : Nat} (hn : 0 < n) (actions : List PipelineAction)
    {p : AudioPipeline ρ} {l : ApmLog} (h : StageInv n p l) :
    ∃ q l', Runs.run (watch (AudioPipeline.step ext) (ApmLog.note ext)) (p, l) actions =
      some (q, l') ∧ StageInv n q l' := by
  induction actions generalizing p l with
  | nil => exact ⟨p, l, rfl, h⟩
  | cons a actions ih =>
      obtain ⟨q, hstep, hq⟩ := h.step ext hn a
      obtain ⟨r, l', hrun, hr⟩ := ih hq
      exact ⟨r, l', run_cons_eq_some.mpr ⟨_, watch_eq_some.mpr ⟨hstep, rfl⟩, hrun⟩, hr⟩

/-- Every frame returns, and after each the blocks with the carry are all that was resampled,
with or without a live sink. -/
theorem apm_sees_every_sample (ext : FrontEnd ρ) (cfg : PipelineConfig) (liveSink : Bool)
    (frontEnd : ρ) (hrate : 100 ≤ cfg.outputSampleRate) (actions : List PipelineAction) :
    ∃ p l, Runs.run (watch (AudioPipeline.step ext) (ApmLog.note ext))
        ({ AudioPipeline.create cfg true frontEnd with liveSink := liveSink }, {}) actions =
          some (p, l) ∧
      (∀ block ∈ l.blocks, block.length = cfg.outputSampleRate / 100) ∧
      l.blocks.flatten ++ p.apmCarry = l.resampled.flatten ∧
      p.apmCarry.length < cfg.outputSampleRate / 100 := by
  have hn : 0 < cfg.outputSampleRate / 100 := Nat.div_pos hrate (by omega)
  have hinit : StageInv (cfg.outputSampleRate / 100)
      { AudioPipeline.create cfg true frontEnd with liveSink := liveSink } {} :=
    ⟨rfl, rfl, ⟨⟨fun _ h => absurd h List.not_mem_nil, rfl⟩, hn⟩⟩
  obtain ⟨p, l, hrun, hinv⟩ := hinit.run ext hn actions
  exact ⟨p, l, hrun, hinv.conserved.cut.whole, hinv.conserved.cut.all, hinv.conserved.short⟩

/-- Two frames with blocks of two samples, and nothing in the front end. -/
theorem apm_sees_every_sample_of_two :
    let ext : FrontEnd Unit := ⟨fun samples r => (samples, r), fun block _ r => (block, r), none⟩
    ∃ p l, Runs.run (watch (AudioPipeline.step ext) (ApmLog.note ext))
        ({ AudioPipeline.create { outputSampleRate := 200 } true () with liveSink := true }, {})
        [.frame ⟨[1, 2, 3], 0⟩, .frame ⟨[4, 5, 6, 7, 8], 0⟩] = some (p, l) ∧
      (∀ block ∈ l.blocks, block.length = 200 / 100) ∧
      l.blocks.flatten ++ p.apmCarry = l.resampled.flatten ∧ p.apmCarry.length < 200 / 100 :=
  apm_sees_every_sample _ { outputSampleRate := 200 } true () (by decide) _

end AudioPipeline

end Acva.Audio
