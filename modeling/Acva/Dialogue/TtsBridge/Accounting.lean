import Acva.Core.Runs
import Acva.Dialogue.TtsBridge.Calculus

/-! # Every sentence is disposed of once

A sentence is dropped on arrival, purged from the pending jobs, or taken by the
I/O thread, which ends every job in one of three counters. Whatever the submit
function does, whenever tokens are cancelled and whatever playback does to the
queue, the counters, the pending jobs and the job in hand add up to the sentences
handled.
-/

namespace Acva.Dialogue

open Acva.Audio Acva.Playback Acva.Runs

variable {ρ : Type}

/-! ## The bridge among others -/

/-- The bridge and the queue it fills. -/
structure BridgeHost (ρ : Type) where
  bridge : TtsBridge ρ := {}
  queue : PlaybackQueue := {}

inductive BridgeAction
  /-- The subscriber thread takes an event. -/
  | event (e : Event)
  /-- The subscriber thread moves inside `on_user_interrupted`. -/
  | handler
  | io
  | submit (e : SubmitEvent)
  | unsubscribe
  | stop
  /-- Anybody who holds a token cancels it. -/
  | cancel (tok : TokenRef)
  /-- Playback changes the queue. -/
  | playback (q : PlaybackQueue)
deriving DecidableEq, Repr

namespace BridgeHost

def onBridge (s : BridgeHost ρ) (b : TtsBridge ρ) : BridgeHost ρ := { s with bridge := b }

def step (soxr : Soxr ρ) (s : BridgeHost ρ) : BridgeAction → Option (BridgeHost ρ)
  | .event e => (s.bridge.onEvent e).map s.onBridge
  | .handler => (s.bridge.handlerStep s.queue).map fun (b, q) => ⟨b, q⟩
  | .io => (s.bridge.ioStep soxr s.queue).map fun (b, q) => ⟨b, q⟩
  | .submit e => (s.bridge.onSubmit soxr e).map s.onBridge
  | .unsubscribe => s.bridge.unsubscribe.map s.onBridge
  | .stop => s.bridge.stop.map s.onBridge
  | .cancel tok => some (s.onBridge { s.bridge with pool := s.bridge.pool.cancel tok })
  | .playback q => some { s with queue := q }

end BridgeHost

/-! ## The ledger -/

/-- What a reader of the run writes down. -/
structure JobLedger where
  handled : List LlmSentence := []
  taken : List Job := []
  finished : List Job := []
deriving DecidableEq, Repr

namespace TtsIoPc

/-- The job in hand before it is handed to the submit function. -/
def unsubmitted : TtsIoPc ρ → List Job
  | .taken job => [job]
  | .starting job => [job]
  | _ => []

end TtsIoPc

def sentenceOf : BridgeAction → List LlmSentence
  | .event (.llmSentence e) => [e]
  | _ => []

/-- A job is new in hand. -/
def takenBy (b b' : TtsBridge ρ) : List Job := if b.io.job = none then b'.io.job.toList else []

/-- The job in hand is counted as synthesized. -/
def finishedBy (b b' : TtsBridge ρ) : List Job :=
  if b.synthesized < b'.synthesized then b.io.job.toList else []

def noteJobs (soxr : Soxr ρ) (l : JobLedger) (s : BridgeHost ρ) (a : BridgeAction) : JobLedger :=
  match s.step soxr a with
  | none => l
  | some s' =>
      { handled := l.handled ++ sentenceOf a
        taken := l.taken ++ takenBy s.bridge s'.bridge
        finished := l.finished ++ finishedBy s.bridge s'.bridge }

/-- The `TtsFinished` events among what was published. -/
def ttsFinishedIn (es : List Event) : List TtsFinished :=
  es.filterMap fun
    | .ttsFinished e => some e
    | _ => none

def ttsFinished (job : Job) : TtsFinished where
  turn := job.sentence.turn
  seq := job.sentence.seq

theorem ttsFinishedIn_append (as bs : List Event) :
    ttsFinishedIn (as ++ bs) = ttsFinishedIn as ++ ttsFinishedIn bs := List.filterMap_append

/-- The accounts of the bridge agree with the ledger. -/
structure JobAccounts (b : TtsBridge ρ) (l : JobLedger) : Prop where
  balance : l.handled.length =
    b.synthesized + b.cancelled + b.errored + b.pending.length + b.io.job.toList.length
  /-- Jobs are taken in the order their sentences arrive. -/
  arrival : ((l.taken ++ b.pending).map Job.sentence).Sublist l.handled
  /-- What is submitted, and what is about to be, are jobs taken, each once. -/
  submitted : (b.submitted ++ b.io.unsubmitted).Sublist l.taken
  /-- So are the finished jobs and the one in hand. -/
  finished : (l.finished ++ b.io.job.toList).Sublist l.taken
  counted : l.finished.length = b.synthesized
  published : ttsFinishedIn b.published = l.finished.map ttsFinished

/-! ## What one step enters -/

/-- The counters. -/
structure SameCounts (b b' : TtsBridge ρ) : Prop where
  synthesized : b'.synthesized = b.synthesized
  cancelled : b'.cancelled = b.cancelled
  errored : b'.errored = b.errored

/-- The I/O thread takes a job, goes on with it, or ends it in one counter. -/
inductive IoEntry (b b' : TtsBridge ρ) : Prop
  | takes (job : Job) (hpending : b.pending = job :: b'.pending) (hnone : b.io.job = none)
      (hjob : b'.io.job = some job) (hsubmitted : b'.submitted = b.submitted)
      (hbefore : b.io.unsubmitted = []) (hafter : b'.io.unsubmitted = [job])
      (hcounts : SameCounts b b') (hpublished : b'.published = b.published)
  | keeps (hpending : b'.pending = b.pending) (hjob : b'.io.job = b.io.job)
      (hsubmitted : b'.submitted ++ b'.io.unsubmitted = b.submitted ++ b.io.unsubmitted)
      (hcounts : SameCounts b b')
      (hpublished : ttsFinishedIn b'.published = ttsFinishedIn b.published)
  | fails (job : Job) (hpending : b'.pending = b.pending) (hjob : b.io.job = some job)
      (hnone : b'.io.job = none) (hsubmitted : b'.submitted = b.submitted)
      (hafter : b'.io.unsubmitted = []) (hsynthesized : b'.synthesized = b.synthesized)
      (hcounts : b'.cancelled + b'.errored = b.cancelled + b.errored + 1)
      (hpublished : b'.published = b.published)
  | finishes (job : Job) (hpending : b'.pending = b.pending) (hjob : b.io.job = some job)
      (hnone : b'.io.job = none) (hsubmitted : b'.submitted = b.submitted)
      (hafter : b'.io.unsubmitted = []) (hsynthesized : b'.synthesized = b.synthesized + 1)
      (hcounts : b'.cancelled = b.cancelled ∧ b'.errored = b.errored)
      (hpublished : b'.published = b.published ++ [.ttsFinished (ttsFinished job)])

namespace IoEntry

variable {b : TtsBridge ρ} {pc : TtsIoPc ρ}

theorem moves (hjob : pc.job = b.io.job) (hunsubmitted : pc.unsubmitted = b.io.unsubmitted) :
    IoEntry b { b with io := pc } :=
  .keeps rfl hjob (congrArg (b.submitted ++ ·) hunsubmitted) ⟨rfl, rfl, rfl⟩ rfl

theorem publishes {es : List Event} (hjob : pc.job = b.io.job)
    (hunsubmitted : pc.unsubmitted = b.io.unsubmitted) (hes : ttsFinishedIn es = []) :
    IoEntry b { b with io := pc, published := b.published ++ es } := by
  refine .keeps rfl hjob (congrArg (b.submitted ++ ·) hunsubmitted) ⟨rfl, rfl, rfl⟩ ?_
  rw [ttsFinishedIn_append, hes, List.append_nil]

end IoEntry

theorem TtsIoStep.entry {soxr : Soxr ρ} {q q' : PlaybackQueue} {b b' : TtsBridge ρ}
    (h : TtsIoStep soxr q b b' q') : IoEntry b b' := by
  cases h with
  | take job rest hpc hpending =>
      have hnone : b.io.job = none := by rw [hpc]; rfl
      have hbefore : b.io.unsubmitted = [] := by rw [hpc]; rfl
      exact .takes job hpending hnone rfl rfl hbefore rfl ⟨rfl, rfl, rfl⟩ rfl
  | exit hpc hpending hstop => apply IoEntry.moves <;> rw [hpc] <;> rfl
  | skip job hpc hcancelled =>
      have hjob : b.io.job = some job := by rw [hpc]; rfl
      exact .fails job rfl hjob rfl rfl rfl rfl (Nat.add_right_comm _ _ _) rfl
  | begin job hpc hlive => apply IoEntry.moves <;> rw [hpc] <;> rfl
  | submit job hpc =>
      have hjob : b.io.job = some job := by rw [hpc]; rfl
      have hbefore : b.io.unsubmitted = [job] := by rw [hpc]; rfl
      refine .keeps rfl hjob.symm ?_ ⟨rfl, rfl, rfl⟩ ?_
      · rw [hbefore]
        exact List.append_nil _
      · rw [ttsFinishedIn_append]
        exact List.append_nil _
  | enqueue job synth samples hpc =>
      apply IoEntry.publishes
      · rw [hpc]; rfl
      · rw [hpc]; rfl
      · split <;> rfl
  | abandon job synth hpc hcancelled => apply IoEntry.moves <;> rw [hpc] <;> rfl
  | finish job synth hpc hlive => apply IoEntry.moves <;> rw [hpc] <;> rfl
  | enqueueEnd job gotError tail hpc hroom =>
      apply IoEntry.publishes
      · rw [hpc]; rfl
      · rw [hpc]; rfl
      · split <;> rfl
  | full job gotError tail hpc hfull => apply IoEntry.moves <;> rw [hpc] <;> rfl
  | giveUp job gotError tail hpc hcancelled => apply IoEntry.moves <;> rw [hpc] <;> rfl
  | again job gotError tail hpc hlive => apply IoEntry.moves <;> rw [hpc] <;> rfl
  | closeCancelled job gotError hpc hcancelled =>
      have hjob : b.io.job = some job := by rw [hpc]; rfl
      exact .fails job rfl hjob rfl rfl rfl rfl (Nat.add_right_comm _ _ _) rfl
  | closeErrored job hpc hlive =>
      have hjob : b.io.job = some job := by rw [hpc]; rfl
      exact .fails job rfl hjob rfl rfl rfl rfl rfl rfl
  | close job hpc hlive =>
      have hjob : b.io.job = some job := by rw [hpc]; rfl
      exact .finishes job rfl hjob rfl rfl rfl rfl ⟨rfl, rfl⟩ rfl
  | release hpc =>
      refine .keeps rfl ?_ ?_ ⟨rfl, rfl, rfl⟩ rfl
      · rw [hpc]; rfl
      · rw [hpc]; rfl

namespace TtsBridge

theorem onSubmit_entry {soxr : Soxr ρ} {e : SubmitEvent} {b b' : TtsBridge ρ}
    (h : b.onSubmit soxr e = some b') : IoEntry b b' := by
  have hmoves : ∀ {job : Job} {synth : Synth ρ} {pc : TtsIoPc ρ}, b.io = .submitting job synth →
      pc.job = some job → pc.unsubmitted = [] → IoEntry b { b with io := pc } := by
    intro job synth pc hpc hjob hunsubmitted
    apply IoEntry.moves
    · rw [hjob, hpc]
      rfl
    · rw [hunsubmitted, hpc]
      rfl
  have hsame : IoEntry b b := .keeps rfl rfl rfl ⟨rfl, rfl, rfl⟩ rfl
  cases onSubmit_eq_some h with
  | formats rate job synth hpc => exact hmoves hpc rfl rfl
  | ignores samples job synth hpc hskip => exact hsame
  | holds samples job synth synth' hpc hheard hout => exact hmoves hpc rfl rfl
  | speaks samples job synth synth' out hpc hheard hlive hout hsome => exact hmoves hpc rfl rfl
  | finishes job synth hpc => exact hsame
  | fails job synth hpc => exact hmoves hpc rfl rfl
  | returns job synth hpc => exact hmoves hpc rfl rfl

end TtsBridge

/-- A job that ends is counted once, and nothing of it is left to be submitted. -/
theorem JobAccounts.ends {b b' : TtsBridge ρ} {l : JobLedger} (ha : JobAccounts b l) {job : Job}
    (hpending : b'.pending = b.pending) (hjob : b.io.job = some job) (hnone : b'.io.job = none)
    (hsubmitted : b'.submitted = b.submitted) (hafter : b'.io.unsubmitted = [])
    (hcounts : b'.synthesized + b'.cancelled + b'.errored =
      b.synthesized + b.cancelled + b.errored + 1) :
    takenBy b b' = [] ∧
      l.handled.length = b'.synthesized + b'.cancelled + b'.errored + b'.pending.length +
        b'.io.job.toList.length ∧
      (b'.submitted ++ b'.io.unsubmitted).Sublist l.taken := by
  refine ⟨if_neg (by rw [hjob]; simp), ?_, ?_⟩
  · have hbalance := ha.balance
    rw [hjob] at hbalance
    rw [hpending, hnone]
    simp only [Option.toList_none, List.length_nil, Option.toList_some, List.length_cons]
      at hbalance ⊢
    omega
  · rw [hsubmitted, hafter, List.append_nil]
    exact (List.sublist_append_left _ _).trans ha.submitted

/-- The I/O thread moves; no sentence is handled meanwhile. -/
theorem JobAccounts.io {b b' : TtsBridge ρ} {l : JobLedger} (ha : JobAccounts b l)
    (h : IoEntry b b') :
    JobAccounts b' { l with
      taken := l.taken ++ takenBy b b'
      finished := l.finished ++ finishedBy b b' } := by
  have ⟨hbalance, harrival, hsub, hfin, hcounted, hpub⟩ := ha
  cases h with
  | takes job hpending hnone hjob hsubmitted hbefore hafter hcounts hpublished =>
      obtain ⟨hsynthesized, hcancelled, herrored⟩ := hcounts
      have htaken : takenBy b b' = [job] := by rw [takenBy, if_pos hnone, hjob]; rfl
      have hnew : finishedBy b b' = [] := if_neg (by omega)
      rw [hpending, hnone] at hbalance
      rw [hpending] at harrival
      rw [hbefore, List.append_nil] at hsub
      rw [hnone, Option.toList_none, List.append_nil] at hfin
      rw [htaken, hnew, List.append_nil]
      refine ⟨?_, ?_, ?_, ?_, hcounted.trans hsynthesized.symm, hpublished ▸ hpub⟩
      · rw [hjob]
        simp only [List.length_cons, Option.toList_none, List.length_nil, Option.toList_some]
          at hbalance ⊢
        omega
      · rw [List.append_assoc]
        exact harrival
      · rw [hsubmitted, hafter]
        exact hsub.append_right [job]
      · rw [hjob]
        exact hfin.append_right [job]
  | keeps hpending hjob hsubmitted hcounts hpublished =>
      obtain ⟨hsynthesized, hcancelled, herrored⟩ := hcounts
      have htaken : takenBy b b' = [] := by
        unfold takenBy
        split
        next hnone => rw [hjob, hnone]; rfl
        next => rfl
      have hnew : finishedBy b b' = [] := if_neg (by omega)
      rw [htaken, hnew, List.append_nil, List.append_nil]
      refine ⟨?_, hpending ▸ harrival, hsubmitted ▸ hsub, hjob ▸ hfin,
        hcounted.trans hsynthesized.symm, hpublished.trans hpub⟩
      show l.handled.length = _
      rw [hpending, hjob]
      omega
  | fails job hpending hjob hnone hsubmitted hafter hsynthesized hcounts hpublished =>
      obtain ⟨htaken, hbalance', hsub'⟩ :=
        ha.ends hpending hjob hnone hsubmitted hafter (by omega)
      have hnew : finishedBy b b' = [] := if_neg (by omega)
      rw [htaken, hnew, List.append_nil, List.append_nil]
      refine ⟨hbalance', hpending ▸ harrival, hsub', ?_, hcounted.trans hsynthesized.symm,
        hpublished ▸ hpub⟩
      rw [hnone, Option.toList_none, List.append_nil]
      exact (List.sublist_append_left _ _).trans hfin
  | finishes job hpending hjob hnone hsubmitted hafter hsynthesized hcounts hpublished =>
      obtain ⟨htaken, hbalance', hsub'⟩ :=
        ha.ends hpending hjob hnone hsubmitted hafter (by omega)
      have hnew : finishedBy b b' = [job] := by
        rw [finishedBy, if_pos (by omega), hjob]
        rfl
      rw [htaken, hnew, List.append_nil]
      refine ⟨hbalance', hpending ▸ harrival, hsub', ?_, ?_, ?_⟩
      · rw [hnone, Option.toList_none, List.append_nil]
        rw [hjob] at hfin
        exact hfin
      · rw [List.length_append, hcounted, hsynthesized]
        rfl
      · rw [hpublished, ttsFinishedIn_append, hpub, List.map_append]
        rfl

/-! ## The subscriber thread -/

/-- What the subscriber thread and the callers of `stop` leave alone. -/
structure SameWork (b b' : TtsBridge ρ) : Prop where
  io : b'.io = b.io
  synthesized : b'.synthesized = b.synthesized
  errored : b'.errored = b.errored
  submitted : b'.submitted = b.submitted
  published : b'.published = b.published

/-- A sentence is dropped or gets a job; jobs are purged, each of them as cancelled. -/
inductive EventEntry (b b' : TtsBridge ρ) : List LlmSentence → Prop
  | drops (e : LlmSentence) (hcancelled : b'.cancelled = b.cancelled + 1)
      (hpending : b'.pending = b.pending) : EventEntry b b' [e]
  | accepts (e : LlmSentence) (tok : TokenRef) (hcancelled : b'.cancelled = b.cancelled)
      (hpending : b'.pending = b.pending ++ [{ sentence := e, cancel := tok }]) :
      EventEntry b b' [e]
  | purges (hpending : b'.pending.Sublist b.pending)
      (hcancelled : b'.cancelled + b'.pending.length = b.cancelled + b.pending.length) :
      EventEntry b b' []

/-- Whatever jobs came before the pending ones, jobs stay in the order of their sentences. -/
theorem EventEntry.arrival {b b' : TtsBridge ρ} {es : List LlmSentence} (h : EventEntry b b' es)
    {jobs : List Job} {handled : List LlmSentence}
    (harrival : ((jobs ++ b.pending).map Job.sentence).Sublist handled) :
    ((jobs ++ b'.pending).map Job.sentence).Sublist (handled ++ es) := by
  cases h with
  | drops e hcancelled hpending =>
      rw [hpending]
      exact harrival.trans (List.sublist_append_left _ _)
  | accepts e tok hcancelled hpending =>
      rw [hpending, ← List.append_assoc, List.map_append]
      exact harrival.append_right [e]
  | purges hpending hcancelled =>
      rw [List.append_nil]
      exact (((List.Sublist.refl _).append hpending).map _).trans harrival

theorem EventEntry.balance {b b' : TtsBridge ρ} {es : List LlmSentence}
    (h : EventEntry b b' es) :
    b'.cancelled + b'.pending.length = b.cancelled + b.pending.length + es.length := by
  cases h with
  | drops e hcancelled hpending =>
      rw [hcancelled, hpending, List.length_singleton]
      omega
  | accepts e tok hcancelled hpending =>
      rw [hcancelled, hpending, List.length_append, List.length_singleton, List.length_singleton]
      omega
  | purges hpending hcancelled => exact hcancelled

theorem JobAccounts.event {b b' : TtsBridge ρ} {l : JobLedger} {es : List LlmSentence}
    (ha : JobAccounts b l) (hsame : SameWork b b') (h : EventEntry b b' es) :
    JobAccounts b' { l with handled := l.handled ++ es } := by
  obtain ⟨hbalance, harrival, hsub, hfin, hcounted, hpub⟩ := ha
  obtain ⟨hio, hsynthesized, herrored, hsubmitted, hpublished⟩ := hsame
  refine ⟨?_, h.arrival harrival, ?_, ?_, hcounted.trans hsynthesized.symm, hpublished ▸ hpub⟩
  · have := h.balance
    rw [List.length_append, hio]
    omega
  · rw [hsubmitted, hio]
    exact hsub
  · rw [hio]
    exact hfin

namespace TtsBridge

variable {b b' : TtsBridge ρ}

theorem onLlmSentence_entry (e : LlmSentence) (b : TtsBridge ρ) :
    SameWork b (b.onLlmSentence e) ∧ EventEntry b (b.onLlmSentence e) [e] := by
  unfold onLlmSentence tokenFor
  cases b.tokens e.turn with
  | none =>
      dsimp only
      split
      · exact ⟨⟨rfl, rfl, rfl, rfl, rfl⟩, .drops e rfl rfl⟩
      · exact ⟨⟨rfl, rfl, rfl, rfl, rfl⟩, .accepts e _ rfl rfl⟩
  | some tok =>
      dsimp only
      split
      · exact ⟨⟨rfl, rfl, rfl, rfl, rfl⟩, .drops e rfl rfl⟩
      · exact ⟨⟨rfl, rfl, rfl, rfl, rfl⟩, .accepts e _ rfl rfl⟩

theorem onUserInterrupted_entry (e : UserInterrupted) (b : TtsBridge ρ) :
    SameWork b (b.onUserInterrupted e) ∧ EventEntry b (b.onUserInterrupted e) [] := by
  have hpurge : ∀ {b' : TtsBridge ρ}, (b'.pending = b.pending.filter fun j => j.sentence.turn ≠ e.turn) →
      b'.cancelled = b.cancelled + (b.pending.length - b'.pending.length) →
      EventEntry b b' [] := by
    intro b' hpending hcancelled
    have hle : b'.pending.length ≤ b.pending.length := hpending ▸ List.length_filter_le _ _
    exact .purges (hpending ▸ List.filter_sublist) (by omega)
  unfold onUserInterrupted tokenToCancel
  cases b.tokens e.turn with
  | none => exact ⟨⟨rfl, rfl, rfl, rfl, rfl⟩, hpurge rfl rfl⟩
  | some tok => exact ⟨⟨rfl, rfl, rfl, rfl, rfl⟩, hpurge rfl rfl⟩

theorem onEvent_entry {e : Event} (h : b.onEvent e = some b') :
    SameWork b b' ∧ EventEntry b b' (sentenceOf (.event e)) := by
  have hpasses : EventEntry b b [] := .purges (List.Sublist.refl _) rfl
  unfold onEvent at h
  split at h
  next =>
    cases e with
    | llmSentence e =>
        cases h
        exact onLlmSentence_entry e b
    | userInterrupted e =>
        cases h
        exact onUserInterrupted_entry e b
    | _ =>
        cases h
        exact ⟨⟨rfl, rfl, rfl, rfl, rfl⟩, .purges (List.Sublist.refl _) rfl⟩
  next => cases h

/-- The rest of what other threads do. -/
theorem idle_entry (hsame : SameWork b b') (hcancelled : b'.cancelled = b.cancelled)
    (hpending : b'.pending = b.pending) : SameWork b b' ∧ EventEntry b b' [] := by
  apply And.intro hsame
  apply EventEntry.purges
  · rw [hpending]
  · rw [hpending, hcancelled]

end TtsBridge

theorem takenBy_of_sameWork {b b' : TtsBridge ρ} (h : SameWork b b') :
    takenBy b b' = [] ∧ finishedBy b b' = [] := by
  constructor
  · unfold takenBy
    split
    next hnone => rw [h.io, hnone]; rfl
    next => rfl
  · exact if_neg (by rw [h.synthesized]; omega)

namespace BridgeHost

variable {soxr : Soxr ρ} {s s' : BridgeHost ρ} {l : JobLedger}

/-- The other threads. -/
theorem step_others {a : BridgeAction} (h : s.step soxr a = some s') (hio : a ≠ .io)
    (hsubmit : ∀ e, a ≠ .submit e) :
    SameWork s.bridge s'.bridge ∧ EventEntry s.bridge s'.bridge (sentenceOf a) := by
  have hnone : ∀ {b' : TtsBridge ρ}, SameWork s.bridge b' → b'.cancelled = s.bridge.cancelled →
      b'.pending = s.bridge.pending → SameWork s.bridge b' ∧ EventEntry s.bridge b' [] :=
    TtsBridge.idle_entry
  cases a with
  | event e =>
      obtain ⟨b', hb', rfl⟩ := Option.map_eq_some_iff.mp h
      exact TtsBridge.onEvent_entry hb'
  | handler =>
      obtain ⟨⟨b', q'⟩, hb', rfl⟩ := Option.map_eq_some_iff.mp h
      obtain ⟨turn, tok, rest, -, rfl, -⟩ | ⟨turn, -, rfl, -⟩ :=
        TtsBridge.handlerStep_eq_some hb'
      · exact hnone ⟨rfl, rfl, rfl, rfl, rfl⟩ rfl rfl
      · exact hnone ⟨rfl, rfl, rfl, rfl, rfl⟩ rfl rfl
  | io => exact absurd rfl hio
  | submit e => exact absurd rfl (hsubmit e)
  | unsubscribe =>
      obtain ⟨b', hb', rfl⟩ := Option.map_eq_some_iff.mp h
      obtain ⟨-, rfl⟩ := TtsBridge.unsubscribe_eq_some hb'
      exact hnone ⟨rfl, rfl, rfl, rfl, rfl⟩ rfl rfl
  | stop =>
      obtain ⟨b', hb', rfl⟩ := Option.map_eq_some_iff.mp h
      obtain ⟨-, rfl⟩ := TtsBridge.stop_eq_some hb'
      exact hnone ⟨rfl, rfl, rfl, rfl, rfl⟩ rfl rfl
  | cancel tok =>
      cases h
      exact hnone ⟨rfl, rfl, rfl, rfl, rfl⟩ rfl rfl
  | playback q =>
      cases h
      exact hnone ⟨rfl, rfl, rfl, rfl, rfl⟩ rfl rfl

/-- Either the I/O thread moves, or another one. -/
theorem step_entry {a : BridgeAction} (h : s.step soxr a = some s') :
    (sentenceOf a = [] ∧ IoEntry s.bridge s'.bridge) ∨
      (SameWork s.bridge s'.bridge ∧ EventEntry s.bridge s'.bridge (sentenceOf a)) := by
  cases a with
  | io =>
      obtain ⟨⟨b', q'⟩, hb', rfl⟩ := Option.map_eq_some_iff.mp h
      exact .inl ⟨rfl, (TtsBridge.ioStep_eq_some hb').entry⟩
  | submit e =>
      obtain ⟨b', hb', rfl⟩ := Option.map_eq_some_iff.mp h
      exact .inl ⟨rfl, TtsBridge.onSubmit_entry hb'⟩
  | _ => exact .inr (step_others h nofun nofun)

theorem JobAccounts.step {a : BridgeAction} (ha : JobAccounts s.bridge l)
    (h : s.step soxr a = some s') : JobAccounts s'.bridge (noteJobs soxr l s a) := by
  simp only [noteJobs, h]
  obtain ⟨hnone, hio⟩ | ⟨hsame, hevent⟩ := step_entry h
  · rw [hnone, List.append_nil]
    exact ha.io hio
  · obtain ⟨htaken, hfinished⟩ := takenBy_of_sameWork hsame
    rw [htaken, hfinished, List.append_nil, List.append_nil]
    exact ha.event hsame hevent

/-- Whatever happens, the accounts of the bridge agree with the ledger. -/
theorem run_jobAccounts {deviceRate : Nat} {queue : PlaybackQueue} {acts : List BridgeAction}
    (hrun : run (watch (step soxr) (noteJobs soxr))
      (⟨{ deviceRate := deviceRate }, queue⟩, {}) acts = some (s, l)) :
    JobAccounts s.bridge l := by
  have hinitial : JobAccounts ({ deviceRate := deviceRate } : TtsBridge ρ) {} :=
    ⟨rfl, List.Sublist.refl _, List.Sublist.refl _, List.Sublist.refl _, rfl, rfl⟩
  exact run_preserves (fun w => JobAccounts w.1.bridge w.2)
    (fun w a w' hw hs => by
      obtain ⟨hstep, hnote⟩ := watch_eq_some.mp hs
      rw [hnote]
      exact JobAccounts.step hw hstep)
    hrun hinitial

/-- The first sentence is spoken, the second is interrupted in hand, and the third comes
too late. -/
def oneOfThree : List BridgeAction :=
  [.event (.llmStarted { turn := 1 }), .event (.llmSentence { turn := 1 }), .io, .io, .io,
    .event (.llmSentence { turn := 1, seq := 1 }), .submit (.onFormat 48000),
    .submit (.onAudio [1, 2]), .io, .playback {}, .submit .onFinished, .submit .returns, .io, .io,
    .io, .io, .io, .event (.userInterrupted { turn := 1 }), .handler, .handler, .io, .handler,
    .event (.llmSentence { turn := 1, seq := 2 }), .io]

theorem run_jobAccounts_oneOfThree : ∃ (s : BridgeHost Unit) (l : JobLedger),
    run (watch (step Soxr.passThrough) (noteJobs Soxr.passThrough))
        (⟨{ deviceRate := 48000 }, {}⟩, {}) oneOfThree = some (s, l) ∧
      l.handled.length = 3 ∧ s.bridge.synthesized = 1 ∧ s.bridge.cancelled = 2 ∧
        JobAccounts s.bridge l := by
  obtain ⟨⟨s, l⟩, hrun, hhandled, hsynthesized, hcancelled⟩ : ∃ w,
      run (watch (step Soxr.passThrough) (noteJobs Soxr.passThrough))
          (⟨{ deviceRate := 48000 }, {}⟩, {}) oneOfThree = some w ∧
        w.2.handled.length = 3 ∧ w.1.bridge.synthesized = 1 ∧ w.1.bridge.cancelled = 2 := by
    refine ⟨(run (watch (step Soxr.passThrough) (noteJobs Soxr.passThrough))
      (⟨{ deviceRate := 48000 }, {}⟩, {}) oneOfThree).get (by decide +kernel), ?_,
      by decide +kernel, by decide +kernel, by decide +kernel⟩
    exact (Option.some_get _).symm
  exact ⟨s, l, hrun, hhandled, hsynthesized, hcancelled, run_jobAccounts hrun⟩

end BridgeHost

end Acva.Dialogue
