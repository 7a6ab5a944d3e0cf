import Acva.Playback.Queue

/-! # The resampler

A stream of samples at one rate goes in, one at another rate comes out. The library
behind it is a parameter.
-/

namespace Acva.Audio

open Acva.Playback

/-- What is used of soxr, for one stream of samples. -/
structure Soxr (ρ : Type) where
  create : (inRate outRate : Nat) → ρ
  process : List Sample → ρ → List Sample × ρ
  /-- No result where it throws. -/
  flush : ρ → Option (List Sample)

namespace Soxr

variable {ρ : Type}

/-- `Resampler::process`. -/
def resample (soxr : Soxr ρ) (samples : List Sample) (r : ρ) : List Sample × ρ :=
  if samples = [] then ([], r) else soxr.process samples r

/-- Blocks of one stream, one after the other: what has come out, and the resampler there. -/
def stream (soxr : Soxr ρ) (inRate outRate : Nat) (blocks : List (List Sample)) :
    List Sample × ρ :=
  blocks.foldl (fun p samples =>
    (p.1 ++ (soxr.resample samples p.2).1, (soxr.resample samples p.2).2))
    ([], soxr.create inRate outRate)

theorem stream_concat (soxr : Soxr ρ) (inRate outRate : Nat) (blocks : List (List Sample))
    (samples : List Sample) :
    soxr.stream inRate outRate (blocks ++ [samples]) =
      ((soxr.stream inRate outRate blocks).1 ++
          (soxr.resample samples (soxr.stream inRate outRate blocks).2).1,
        (soxr.resample samples (soxr.stream inRate outRate blocks).2).2) := by
  rw [stream, List.foldl_append]
  rfl

/-- Twice the rate. The newest sample is held back until there is another or the flush. -/
def twice : Soxr (List Sample) where
  create := fun _ _ => []
  process := fun samples held =>
    ((held ++ samples).dropLast.flatMap fun x => [x, x], (held ++ samples).getLast?.toList)
  flush := fun held => some (held.flatMap fun x => [x, x])

/-- Equal rates. -/
def passThrough : Soxr Unit where
  create := fun _ _ => ()
  process := fun samples r => (samples, r)
  flush := fun _ => some []

end Soxr

end Acva.Audio
