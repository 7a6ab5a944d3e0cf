import Acva.Audio.Utterance
import Acva.Core.Runs
import Acva.Core.StreamParts

/-! # The slices of an utterance buffer

All that is appended is one stream. The buffer holds the end of it, the pre-buffer between
two utterances and the recording during one, and what it holds begins behind the last slice
that was issued.
-/

namespace Acva.Audio

open Acva.Playback Acva.Runs Acva.StreamParts

/-! ## Calls -/

inductive UtteranceCall
  | append (samples : List Sample)
  | onSpeechStarted (prePadStart speechStartedAt : TimePoint)
  | onSpeechEnded (speechEndedAt : TimePoint)
  | abortActive
  | release (ref : SliceRef)
deriving DecidableEq, Repr

namespace UtteranceBuffer

/-- The constructor's defaults stand with the fields. -/
def create (sampleRate : Nat) (prePaddingMs postPaddingMs : Int) (maxInFlight : Nat)
    (maxDurationMs : Int) : UtteranceBuffer :=
  { sampleRate, prePaddingMs, postPaddingMs, maxInFlight, maxDurationMs }

def step (b : UtteranceBuffer) : UtteranceCall → Option UtteranceBuffer
  | .append samples => some (b.append samples)
  | .onSpeechStarted prePadStart speechStartedAt =>
      some (b.onSpeechStarted prePadStart speechStartedAt)
  | .onSpeechEnded speechEndedAt => some (b.onSpeechEnded speechEndedAt).1
  | .abortActive => some b.abortActive
  | .release ref => some (b.release ref)

end UtteranceBuffer

/-! ## What has been heard -/

/-- A slice that was returned, with its position in the stream, that of the matching
`on_speech_started` and that of the `on_speech_ended` it came from. -/
structure IssuedSlice where
  samples : List Sample
  start : Nat
  startedAt : Nat
  endedAt : Nat
deriving DecidableEq, Repr

structure SliceLog where
  stream : List Sample := []
  startedAt : Nat := 0
  slices : List IssuedSlice := []
deriving DecidableEq, Repr

namespace SliceLog

/-- A slice begins where the recording does, behind what was dropped from its head. -/
def issue (l : SliceLog) (b : UtteranceBuffer) (slice : AudioSlice) : IssuedSlice where
  samples := slice.samples
  start := l.stream.length - b.activeSamples.length
  startedAt := l.startedAt
  endedAt := l.stream.length

def note (l : SliceLog) (b : UtteranceBuffer) : UtteranceCall → SliceLog
  | .append samples => { l with stream := l.stream ++ samples }
  | .onSpeechStarted _ _ => { l with startedAt := l.stream.length }
  | .onSpeechEnded speechEndedAt =>
      match (b.onSpeechEnded speechEndedAt).2 with
      | some slice => { l with slices := l.slices ++ [l.issue b slice] }
      | none => l
  | .abortActive => l
  | .release _ => l

end SliceLog

/-- What a returned slice promises. -/
structure IssuedSlice.Sound (cap prePad : Nat) (stream : List Sample) (slice : IssuedSlice) :
    Prop where
  contiguous : StandsAt stream slice.samples slice.start
  notEarly : slice.startedAt ≤ slice.start + prePad
  inTime : slice.start + slice.samples.length ≤ slice.endedAt
  bounded : slice.samples.length ≤ max cap prePad

theorem IssuedSlice.Sound.append {cap prePad : Nat} {stream : List Sample} {slice : IssuedSlice}
    (h : slice.Sound cap prePad stream) (new : List Sample) :
    slice.Sound cap prePad (stream ++ new) :=
  ⟨h.contiguous.append new, h.notEarly, h.inTime, h.bounded⟩

/-- Two slices share no sample: the later begins where the earlier has ended. -/
def IssuedSlice.Before (a b : IssuedSlice) : Prop := a.start + a.samples.length ≤ b.start

/-! ## What the buffer holds -/

namespace UtteranceBuffer

def held (b : UtteranceBuffer) : List Sample :=
  if b.recording = true then b.activeSamples else b.preBuffer

/-- The most it holds. -/
def room (b : UtteranceBuffer) : Nat :=
  if b.recording = true then max b.capSamples b.prePadCapacity else b.prePadCapacity

theorem held_of_recording {b : UtteranceBuffer} (h : b.recording = true) :
    b.held = b.activeSamples := if_pos h

theorem held_of_idle {b : UtteranceBuffer} (h : b.recording = false) : b.held = b.preBuffer :=
  if_neg (Bool.eq_false_iff.mp h)

theorem room_of_recording {b : UtteranceBuffer} (h : b.recording = true) :
    b.room = max b.capSamples b.prePadCapacity := if_pos h

theorem room_of_idle {b : UtteranceBuffer} (h : b.recording = false) :
    b.room = b.prePadCapacity := if_neg (Bool.eq_false_iff.mp h)

/-- The two sizes that come from the configuration. -/
structure SameSizes (b b' : UtteranceBuffer) : Prop where
  cap : b'.capSamples = b.capSamples
  prePad : b'.prePadCapacity = b.prePadCapacity

theorem truncateHead_sizes (b : UtteranceBuffer) : SameSizes b b.truncateHead := by
  unfold truncateHead
  split <;> exact ⟨rfl, rfl⟩

theorem append_sizes (samples : List Sample) (b : UtteranceBuffer) :
    SameSizes b (b.append samples) := by
  unfold append
  split
  · exact ⟨rfl, rfl⟩
  · split
    · exact ⟨(truncateHead_sizes _).cap, (truncateHead_sizes _).prePad⟩
    · exact ⟨rfl, rfl⟩

theorem track_sizes (b : UtteranceBuffer) : SameSizes b b.track := by
  have hdetach : ∀ c : UtteranceBuffer, SameSizes c c.detachOldest := by
    intro c
    unfold detachOldest
    split <;> exact ⟨rfl, rfl⟩
  exact ⟨(hdetach _).cap, (hdetach _).prePad⟩

theorem onSpeechEnded_sizes (t : TimePoint) (b : UtteranceBuffer) :
    SameSizes b (b.onSpeechEnded t).1 := by
  unfold onSpeechEnded
  split
  · exact ⟨(track_sizes _).cap, (track_sizes _).prePad⟩
  · exact ⟨rfl, rfl⟩

theorem abortActive_sizes (b : UtteranceBuffer) : SameSizes b b.abortActive := by
  unfold abortActive
  split <;> exact ⟨rfl, rfl⟩

theorem step_sizes {b b' : UtteranceBuffer} {call : UtteranceCall} (h : b.step call = some b') :
    SameSizes b b' := by
  cases call with
  | append samples => exact Option.some.inj h ▸ append_sizes samples b
  | onSpeechStarted prePadStart speechStartedAt => exact Option.some.inj h ▸ ⟨rfl, rfl⟩
  | onSpeechEnded speechEndedAt => exact Option.some.inj h ▸ onSpeechEnded_sizes speechEndedAt b
  | abortActive => exact Option.some.inj h ▸ abortActive_sizes b
  | release ref => exact Option.some.inj h ▸ ⟨rfl, rfl⟩

/-! ## What a call does to it -/

/-- An append adds its samples at the end and drops from the head what is too much. -/
theorem held_append (samples : List Sample) (b : UtteranceBuffer) :
    ∃ n, n ≤ (b.held ++ samples).length ∧ (b.append samples).held = (b.held ++ samples).drop n ∧
      (0 < b.capSamples → b.held.length ≤ b.room → (b.append samples).held.length ≤ b.room) := by
  by_cases hnil : samples = []
  · refine ⟨0, Nat.zero_le _, ?_, fun _ h => ?_⟩
    · rw [append, if_pos hnil, hnil, List.append_nil, List.drop_zero]
    · rwa [append, if_pos hnil]
  have hlater := append_recording samples b
  cases hrec : b.recording with
  | true =>
      have hheld : (b.append samples).held = (b.held ++ samples).drop
          (headDrop b.capSamples (b.held ++ samples).length) := by
        rw [held_of_recording (hlater.trans hrec), held_of_recording hrec,
          append_of_recording hnil hrec, truncateHead_eq]
        rfl
      refine ⟨_, ?_, hheld, fun hcap _ => ?_⟩
      · unfold headDrop
        split <;> omega
      · rw [hheld, List.length_drop, headDrop, if_pos hcap, room_of_recording hrec]
        omega
  | false =>
      have hheld : (b.append samples).held = (b.held ++ samples).drop
          ((b.held ++ samples).length - b.prePadCapacity) := by
        rw [held_of_idle (hlater.trans hrec), held_of_idle hrec, append_of_idle hnil hrec]
        rfl
      refine ⟨_, Nat.sub_le _ _, hheld, fun _ _ => ?_⟩
      rw [hheld, List.length_drop, room_of_idle hrec]
      omega

theorem append_preBuffer {samples : List Sample} {b : UtteranceBuffer}
    (hrec : b.recording = true) : (b.append samples).preBuffer = b.preBuffer := by
  by_cases hnil : samples = []
  · rw [append, if_pos hnil]
  · rw [append_of_recording hnil hrec, truncateHead_eq]

theorem onSpeechEnded_idle {t : TimePoint} {b : UtteranceBuffer} (hrec : b.recording = false) :
    b.onSpeechEnded t = (b, none) := if_neg (Bool.eq_false_iff.mp hrec)

theorem track_preBuffer (b : UtteranceBuffer) : b.track.preBuffer = b.preBuffer := by
  show (detachOldest _).preBuffer = _
  unfold detachOldest
  split <;> rfl

/-- The slice is the recording without a part of its tail. -/
theorem onSpeechEnded_recording_eq {t : TimePoint} {b : UtteranceBuffer}
    (hrec : b.recording = true) :
    ∃ slice n, (b.onSpeechEnded t).2 = some slice ∧ slice.samples = b.activeSamples.take n ∧
      (b.onSpeechEnded t).1.preBuffer = b.preBuffer := by
  rw [onSpeechEnded, if_pos hrec]
  have htail : ∃ n, trimTail (b.targetSamples t) b.activeSamples = b.activeSamples.take n := by
    unfold trimTail
    split
    · exact ⟨_, rfl⟩
    · exact ⟨b.activeSamples.length, (List.take_length).symm⟩
  obtain ⟨n, hn⟩ := htail
  exact ⟨_, n, rfl, hn, track_preBuffer _⟩

theorem abortActive_eq {b : UtteranceBuffer} (hrec : b.recording = true) :
    b.abortActive.recording = false ∧ b.abortActive.preBuffer = b.preBuffer := by
  rw [abortActive, if_pos hrec]
  exact ⟨rfl, rfl⟩

end UtteranceBuffer

/-! ## Invariant -/

/-- What the buffer holds ends the stream and begins at `pos`, behind all that was issued. -/
structure Holding (b : UtteranceBuffer) (l : SliceLog) (pos : Nat) : Prop where
  ends : EndsAt l.stream b.held pos
  behind : ∀ slice ∈ l.slices, slice.start + slice.samples.length ≤ pos
  notEarly : b.recording = true → l.startedAt ≤ pos + b.prePadCapacity
  preEmpty : b.recording = true → b.preBuffer = []
  bounded : b.held.length ≤ b.room

structure Sliced (b : UtteranceBuffer) (l : SliceLog) : Prop where
  holding : ∃ pos, Holding b l pos
  sound : ∀ slice ∈ l.slices, slice.Sound b.capSamples b.prePadCapacity l.stream
  apart : l.slices.Pairwise IssuedSlice.Before

variable {b : UtteranceBuffer} {l : SliceLog} {pos : Nat}

theorem Holding.append (h : Holding b l pos) (hcap : 0 < b.capSamples) (samples : List Sample) :
    ∃ pos', Holding (b.append samples) { l with stream := l.stream ++ samples } pos' := by
  obtain ⟨n, hn, hheld, hroom⟩ := b.held_append samples
  have hsizes := b.append_sizes samples
  have hrec := UtteranceBuffer.append_recording samples b
  have hsame : (b.append samples).room = b.room := by
    simp only [UtteranceBuffer.room, hrec, hsizes.cap, hsizes.prePad]
  refine ⟨pos + n, ?_, fun slice hs => ?_, fun h' => ?_, fun h' => ?_, ?_⟩
  · rw [hheld]
    exact (h.ends.append samples).drop hn
  · have := h.behind slice hs
    omega
  · have := h.notEarly (hrec ▸ h')
    rw [hsizes.prePad]
    dsimp only
    omega
  · rw [UtteranceBuffer.append_preBuffer (hrec ▸ h')]
    exact h.preEmpty (hrec ▸ h')
  · rw [hsame]
    exact hroom hcap h.bounded

/-- The pre-buffer becomes the head of the recording. -/
theorem Holding.onSpeechStarted (h : Holding b l pos) (prePadStart speechStartedAt : TimePoint) :
    ∃ pos', Holding (b.onSpeechStarted prePadStart speechStartedAt)
      { l with startedAt := l.stream.length } pos' := by
  have hsame : (b.onSpeechStarted prePadStart speechStartedAt).held = b.preBuffer := rfl
  have hroom : (b.onSpeechStarted prePadStart speechStartedAt).room =
      max b.capSamples b.prePadCapacity := rfl
  have hcapacity : (b.onSpeechStarted prePadStart speechStartedAt).prePadCapacity =
      b.prePadCapacity := rfl
  have hlength := h.ends.length
  cases hrec : b.recording with
  | true =>
      have hpre := h.preEmpty hrec
      refine ⟨l.stream.length, ?_, fun slice hs => ?_, fun _ => ?_, fun _ => rfl, ?_⟩
      · rw [hsame, hpre]
        exact endsAt_nil _
      · have := h.behind slice hs
        omega
      · dsimp only
        omega
      · rw [hsame, hpre]
        exact Nat.zero_le _
  | false =>
      have hheld := UtteranceBuffer.held_of_idle hrec
      have hbound := h.bounded
      rw [UtteranceBuffer.room_of_idle hrec, hheld] at hbound
      refine ⟨pos, ?_, h.behind, fun _ => ?_, fun _ => rfl, ?_⟩
      · rw [hsame, ← hheld]
        exact h.ends
      · rw [hheld] at hlength
        rw [hcapacity]
        dsimp only
        omega
      · rw [hsame, hroom]
        omega

/-- Without a recording the buffer holds nothing yet. -/
theorem Holding.idle {b' : UtteranceBuffer} (hpre : b'.preBuffer = [])
    (hrec : b'.recording = false)
    (hbehind : ∀ slice ∈ l.slices, slice.start + slice.samples.length ≤ l.stream.length) :
    Holding b' l l.stream.length := by
  have hheld : b'.held = [] := (UtteranceBuffer.held_of_idle hrec).trans hpre
  refine ⟨?_, hbehind, fun h => ?_, fun _ => hpre, ?_⟩
  · rw [hheld]
    exact endsAt_nil _
  · rw [hrec] at h
    cases h
  · rw [hheld]
    exact Nat.zero_le _

/-- The slice that is issued is sound and begins behind all the others. -/
theorem Holding.issue (h : Holding b l pos) (hrec : b.recording = true) {slice : AudioSlice}
    {n : Nat} (hslice : slice.samples = b.activeSamples.take n) :
    (l.issue b slice).start = pos ∧
      (l.issue b slice).Sound b.capSamples b.prePadCapacity l.stream ∧
      (l.issue b slice).start + (l.issue b slice).samples.length ≤ l.stream.length := by
  have hheld := UtteranceBuffer.held_of_recording hrec
  have hlength := h.ends.length
  have hbound := h.bounded
  rw [hheld] at hlength hbound
  rw [UtteranceBuffer.room_of_recording hrec] at hbound
  have hstart : (l.issue b slice).start = pos := by
    change l.stream.length - b.activeSamples.length = pos
    omega
  have hshort : (l.issue b slice).samples.length ≤ b.activeSamples.length := by
    change slice.samples.length ≤ _
    rw [hslice, List.length_take]
    omega
  have hend : (l.issue b slice).start + (l.issue b slice).samples.length ≤ l.stream.length := by
    omega
  refine ⟨hstart, ⟨?_, ?_, hend, by omega⟩, hend⟩
  · rw [hstart]
    change StandsAt l.stream slice.samples pos
    rw [hslice, ← hheld]
    exact h.ends.take n
  · rw [hstart]
    exact h.notEarly hrec

theorem Sliced.speechEnded (h : Sliced b l) (t : TimePoint) :
    Sliced (b.onSpeechEnded t).1 (l.note b (.onSpeechEnded t)) := by
  obtain ⟨⟨pos, hpos⟩, hsound, hapart⟩ := h
  have hsizes := b.onSpeechEnded_sizes t
  cases hrec : b.recording with
  | false =>
      rw [SliceLog.note, UtteranceBuffer.onSpeechEnded_idle hrec]
      exact ⟨⟨pos, hpos⟩, hsound, hapart⟩
  | true =>
      obtain ⟨slice, n, hslice, hsamples, hpre⟩ :=
        UtteranceBuffer.onSpeechEnded_recording_eq (t := t) hrec
      obtain ⟨hstart, hnew, hend⟩ := hpos.issue hrec hsamples
      have hlength := hpos.ends.length
      rw [SliceLog.note, hslice]
      refine ⟨⟨l.stream.length, ?_⟩, ?_, ?_⟩
      · refine Holding.idle (hpre.trans (hpos.preEmpty hrec)) (b.onSpeechEnded_recording t) ?_
        intro other hother
        rcases List.mem_append.mp hother with hold | hlast
        · have := hpos.behind other hold
          dsimp only
          omega
        · rw [List.mem_singleton.mp hlast]
          exact hend
      · intro other hother
        rw [hsizes.cap, hsizes.prePad]
        rcases List.mem_append.mp hother with hold | hlast
        · exact hsound other hold
        · rw [List.mem_singleton.mp hlast]
          exact hnew
      · refine List.pairwise_append.mpr ⟨hapart, List.pairwise_singleton _ _, ?_⟩
        intro other hother last hlast
        rw [List.mem_singleton.mp hlast, IssuedSlice.Before, hstart]
        exact hpos.behind other hother

/-- An aborted recording leaves no slice. -/
theorem Sliced.aborted (h : Sliced b l) : Sliced b.abortActive l := by
  obtain ⟨⟨pos, hpos⟩, hsound, hapart⟩ := h
  have hsizes := b.abortActive_sizes
  have hkept : ∀ slice ∈ l.slices,
      slice.Sound b.abortActive.capSamples b.abortActive.prePadCapacity l.stream := by
    rw [hsizes.cap, hsizes.prePad]
    exact hsound
  cases hrec : b.recording with
  | false =>
      have hsame : b.abortActive = b := if_neg (Bool.eq_false_iff.mp hrec)
      rw [hsame]
      exact ⟨⟨pos, hpos⟩, hsound, hapart⟩
  | true =>
      obtain ⟨hidle, hpre⟩ := UtteranceBuffer.abortActive_eq hrec
      have hlength := hpos.ends.length
      refine ⟨⟨l.stream.length, ?_⟩, hkept, hapart⟩
      refine Holding.idle (hpre.trans (hpos.preEmpty hrec)) hidle fun slice hs => ?_
      have := hpos.behind slice hs
      omega

theorem Sliced.step {b' : UtteranceBuffer} {call : UtteranceCall} (h : Sliced b l)
    (hcap : 0 < b.capSamples) (hs : b.step call = some b') : Sliced b' (l.note b call) := by
  cases call with
  | append samples =>
      obtain rfl := Option.some.inj hs
      obtain ⟨⟨pos, hpos⟩, hsound, hapart⟩ := h
      have hsizes := b.append_sizes samples
      refine ⟨hpos.append hcap samples, fun slice hslice => ?_, hapart⟩
      rw [hsizes.cap, hsizes.prePad]
      exact (hsound slice hslice).append samples
  | onSpeechStarted prePadStart speechStartedAt =>
      obtain rfl := Option.some.inj hs
      obtain ⟨⟨pos, hpos⟩, hsound, hapart⟩ := h
      exact ⟨hpos.onSpeechStarted prePadStart speechStartedAt, hsound, hapart⟩
  | onSpeechEnded speechEndedAt =>
      obtain rfl := Option.some.inj hs
      exact h.speechEnded speechEndedAt
  | abortActive =>
      obtain rfl := Option.some.inj hs
      exact h.aborted
  | release ref =>
      obtain rfl := Option.some.inj hs
      obtain ⟨⟨pos, hpos⟩, hsound, hapart⟩ := h
      exact ⟨⟨pos, hpos.ends, hpos.behind, hpos.notEarly, hpos.preEmpty, hpos.bounded⟩, hsound,
        hapart⟩

/-- The invariant with the sizes that the buffer was created with. -/
structure SlicedFor (b₀ : UtteranceBuffer) (p : UtteranceBuffer × SliceLog) : Prop where
  sizes : b₀.SameSizes p.1
  sliced : Sliced p.1 p.2

theorem SlicedFor.step {b₀ : UtteranceBuffer} (hcap : 0 < b₀.capSamples)
    {p p' : UtteranceBuffer × SliceLog} {call : UtteranceCall} (h : SlicedFor b₀ p)
    (hs : watch UtteranceBuffer.step SliceLog.note p call = some p') : SlicedFor b₀ p' := by
  obtain ⟨hstep, hnote⟩ := watch_eq_some.mp hs
  have hsizes := UtteranceBuffer.step_sizes hstep
  refine ⟨⟨hsizes.cap.trans h.sizes.cap, hsizes.prePad.trans h.sizes.prePad⟩, ?_⟩
  rw [hnote]
  exact h.sliced.step (h.sizes.cap.symm ▸ hcap) hstep

/-! ## Every run -/

/-- Each slice is a run of the stream that begins at most the pre-padding before the call
that started it and ends by the call that ended it, and no two slices share a sample. -/
theorem slices_of_run (sampleRate : Nat) (prePaddingMs postPaddingMs : Int) (maxInFlight : Nat)
    (maxDurationMs : Int) {calls : List UtteranceCall} {b : UtteranceBuffer} {l : SliceLog}
    (hcap : 0 < samplesIn sampleRate maxDurationMs)
    (hrun : run (watch UtteranceBuffer.step SliceLog.note)
      (.create sampleRate prePaddingMs postPaddingMs maxInFlight maxDurationMs, {}) calls =
        some (b, l)) :
    (∀ slice ∈ l.slices, slice.Sound (samplesIn sampleRate maxDurationMs)
      (samplesIn sampleRate prePaddingMs) l.stream) ∧
      l.slices.Pairwise IssuedSlice.Before := by
  have hinit : SlicedFor
      (.create sampleRate prePaddingMs postPaddingMs maxInFlight maxDurationMs)
      (.create sampleRate prePaddingMs postPaddingMs maxInFlight maxDurationMs, {}) := by
    refine ⟨⟨rfl, rfl⟩, ⟨0, ?_⟩, fun slice hs => absurd hs List.not_mem_nil, List.Pairwise.nil⟩
    exact Holding.idle rfl rfl fun slice hs => absurd hs List.not_mem_nil
  have hinv := run_preserves (SlicedFor _) (fun _ _ _ hi hs => SlicedFor.step (by exact hcap) hi hs)
    hrun hinit
  have hsound := hinv.sliced.sound
  rw [hinv.sizes.cap, hinv.sizes.prePad] at hsound
  exact ⟨hsound, hinv.sliced.apart⟩

/-- A recording that loses its head, and a second one behind it. -/
theorem slices_of_run_two :
    let l : SliceLog := {
      stream := [1, 2, 3, 4, 5, 6, 7]
      startedAt := 6
      slices := [⟨[3, 4, 5], 2, 3, 5⟩, ⟨[6, 7], 5, 6, 7⟩] }
    (∀ slice ∈ l.slices, slice.Sound (samplesIn 1000 3) (samplesIn 1000 2) l.stream) ∧
      l.slices.Pairwise IssuedSlice.Before :=
  have hrun : run (watch UtteranceBuffer.step SliceLog.note) (.create 1000 2 5 3 3, {})
      [.append [1, 2, 3], .onSpeechStarted 0 0, .append [4, 5], .onSpeechEnded 9000000,
        .append [6], .onSpeechStarted 0 0, .append [7], .onSpeechEnded 9000000] = some
      ({ sampleRate := 1000, prePaddingMs := 2, postPaddingMs := 5, maxDurationMs := 3,
         inFlight := [0, 1], nextSlice := 2 },
       { stream := [1, 2, 3, 4, 5, 6, 7], startedAt := 6,
         slices := [⟨[3, 4, 5], 2, 3, 5⟩, ⟨[6, 7], 5, 6, 7⟩] }) := by decide +kernel
  slices_of_run 1000 2 5 3 3 (by decide) hrun

end Acva.Audio
