import Acva.Core.Runs
import Acva.Dialogue.Manager.Run

/-! # The manager's threads, callback by callback

Between two callbacks of one submission the subscription thread may handle any
event: while the deltas of one network chunk are handed over, while the parser is
flushed, and before the finish callback. The provider's answers, the factory, what
the network does and the events are the run's to choose.
-/

namespace Acva.Llm

/-- Where `submit` stands. The deltas are read and not handed over yet; a parser without
any may be fed. -/
inductive SubmitPc
  | outside
  /-- About to ask for the handle. -/
  | entered
  /-- Inside `curl_easy_perform`. -/
  | performing (parser : SseParser) (deltas : List Bytes) (tokens : Nat)
  /-- The transfer is over, and the parser is flushed. -/
  | draining (deltas : List Bytes) (tokens : Nat)
  /-- The finish record is made; the finish callback is next. -/
  | finishing (cancelled : Bool) (tokens : Nat)
  | returned
deriving DecidableEq, Repr

namespace SubmitPc

/-- The delta that is handed over next. -/
def nextDelta : SubmitPc → Option Bytes
  | .performing _ (delta :: _) _ => some delta
  | .draining (delta :: _) _ => some delta
  | _ => none

/-- After the delta is handed over. -/
def popDelta : SubmitPc → SubmitPc
  | .performing parser (_ :: rest) tokens => .performing parser rest (tokens + 1)
  | .draining (_ :: rest) tokens => .draining rest (tokens + 1)
  | pc => pc

/-- `curl_easy_perform` returns, and `SseParser::finish` reads what is left. -/
def drain (readChunk : Bytes → Option SseChunk) (parser : SseParser) (tokens : Nat) : SubmitPc :=
  .draining (deltasOf readChunk parser.finish.2) tokens

end SubmitPc

end Acva.Llm

namespace Acva.Dialogue

open Acva.Llm Acva.Runs

structure ManagerHost where
  manager : Manager := {}
  submit : SubmitPc := .outside
deriving DecidableEq, Repr

inductive ManagerAction
  /-- The subscription thread handles an event. -/
  | event (i : ManagerInput)
  | requestStop
  | takeJob
  | askProvider (id : TurnId)
  | fixTurn (turns : TurnFactory)
  | runHook
  | startStream
  /-- `curl_easy_init`. -/
  | init (handle : Bool)
  /-- `curl_write`. -/
  | write (chunk : Bytes)
  /-- `curl_progress`. -/
  | progress
  /-- The transfer ends by itself. -/
  | complete
  /-- `on_token`. -/
  | token
  /-- The finish record is made. -/
  | classify
  /-- `on_finished`, and the end is published. -/
  | finish
  /-- `submit` has returned, and `run_one` returns. -/
  | leave
deriving DecidableEq, Repr

namespace ManagerHost

def onManager (s : ManagerHost) (m : Manager) : ManagerHost := { s with manager := m }

def step (readChunk : Bytes → Option SseChunk) (s : ManagerHost) :
    ManagerAction → Option ManagerHost
  | .event i => some (s.onManager (s.manager.handle i))
  | .requestStop => some (s.onManager s.manager.requestStop)
  | .takeJob => s.manager.takeJob.map s.onManager
  | .askProvider id => (s.manager.askProvider id).map s.onManager
  | .fixTurn turns => (s.manager.fixTurn turns).map fun (m, _) => s.onManager m
  | .runHook => s.manager.runHook.map fun (m, _) => s.onManager m
  | .startStream =>
      s.manager.startStream.map fun m => { manager := m, submit := .entered }
  | .init handle =>
      match s.submit with
      | .entered =>
          if handle = true then some { s with submit := .performing {} [] 0 }
          else some { manager := s.manager.finishCallback, submit := .returned }
      | _ => none
  | .write chunk =>
      match s.submit with
      | .performing parser [] tokens =>
          if s.manager.tokenCancelled = true then
            some { s with submit := .drain readChunk parser tokens }
          else
            let (parser, out) := parser.feed chunk
            some { s with submit := .performing parser (deltasOf readChunk out) tokens }
      | _ => none
  | .progress =>
      match s.submit with
      | .performing parser [] tokens =>
          if s.manager.tokenCancelled = true then
            some { s with submit := .drain readChunk parser tokens }
          else some s
      | _ => none
  | .complete =>
      match s.submit with
      | .performing parser [] tokens => some { s with submit := .drain readChunk parser tokens }
      | _ => none
  | .token =>
      s.submit.nextDelta.map fun delta =>
        { manager := s.manager.tokenCallback delta, submit := s.submit.popDelta }
  | .classify =>
      match s.submit with
      | .draining [] tokens =>
          some { s with submit := .finishing s.manager.tokenCancelled tokens }
      | _ => none
  | .finish =>
      match s.submit with
      | .finishing cancelled tokens =>
          some
            { manager := s.manager.finishCallback.publish (.llmFinished
                { turn := s.manager.active.id, cancelled := cancelled, tokensGenerated := tokens })
              submit := .returned }
      | _ => none
  | .leave =>
      match s.submit with
      | .returned => some { manager := s.manager.endRun, submit := .outside }
      | _ => none

/-- Everything a step can do. -/
inductive Step (readChunk : Bytes → Option SseChunk) (s : ManagerHost) :
    ManagerAction → ManagerHost → Prop
  | event (i : ManagerInput) : Step readChunk s (.event i) (s.onManager (s.manager.handle i))
  | requestStop : Step readChunk s .requestStop (s.onManager s.manager.requestStop)
  | takeJob (job : FinalTranscript) (hio : s.manager.io = .idle)
      (hpending : s.manager.pending = some job) :
      Step readChunk s .takeJob
        (s.onManager { s.manager with pending := none, io := .took job })
  | exit (hio : s.manager.io = .idle) (hpending : s.manager.pending = none)
      (hstop : s.manager.stopping = true) :
      Step readChunk s .takeJob (s.onManager { s.manager with io := .stopped })
  | askProvider (job : FinalTranscript) (id : TurnId) (hio : s.manager.io = .took job) :
      Step readChunk s (.askProvider id) (s.onManager { s.manager with io := .asked job id })
  | fixTurn (turns : TurnFactory) (job : FinalTranscript) (id t : TurnId)
      (hio : s.manager.io = .asked job id) :
      Step readChunk s (.fixTurn turns)
        (s.onManager { s.manager with active := { id := t, token := some {} }, io := .building job })
  | runHook (job : FinalTranscript) (hio : s.manager.io = .building job) :
      Step readChunk s .runHook (s.onManager { s.manager with io := .hooked job })
  | startStream (job : FinalTranscript) (hio : s.manager.io = .hooked job) :
      Step readChunk s .startStream
        { manager := { s.manager.publish (.llmStarted { turn := s.manager.active.id }) with
            io := .streaming (s.manager.newReply job) }
          submit := .entered }
  | initOk (hsubmit : s.submit = .entered) :
      Step readChunk s (.init true) { s with submit := .performing {} [] 0 }
  | initFail (hsubmit : s.submit = .entered) :
      Step readChunk s (.init false) { manager := s.manager.finishCallback, submit := .returned }
  | feed (chunk : Bytes) (parser : SseParser) (tokens : Nat)
      (hsubmit : s.submit = .performing parser [] tokens)
      (hlive : s.manager.tokenCancelled = false) :
      Step readChunk s (.write chunk) { s with
        submit := .performing (parser.feed chunk).1 (deltasOf readChunk (parser.feed chunk).2) tokens }
  | proceed (hlive : s.manager.tokenCancelled = false) : Step readChunk s .progress s
  | drain (a : ManagerAction) (ha : a = .complete ∨ a = .progress ∨ ∃ chunk, a = .write chunk)
      (parser : SseParser) (tokens : Nat) (hsubmit : s.submit = .performing parser [] tokens) :
      Step readChunk s a { s with submit := .drain readChunk parser tokens }
  | token (delta : Bytes) (hnext : s.submit.nextDelta = some delta) :
      Step readChunk s .token
        { manager := s.manager.tokenCallback delta, submit := s.submit.popDelta }
  | classify (tokens : Nat) (hsubmit : s.submit = .draining [] tokens) :
      Step readChunk s .classify
        { s with submit := .finishing s.manager.tokenCancelled tokens }
  | finish (cancelled : Bool) (tokens : Nat) (hsubmit : s.submit = .finishing cancelled tokens) :
      Step readChunk s .finish
        { manager := s.manager.finishCallback.publish (.llmFinished
            { turn := s.manager.active.id, cancelled := cancelled, tokensGenerated := tokens })
          submit := .returned }
  | leave (hsubmit : s.submit = .returned) :
      Step readChunk s .leave { manager := s.manager.endRun, submit := .outside }

theorem step_eq_some {readChunk : Bytes → Option SseChunk} {s s' : ManagerHost}
    {a : ManagerAction} (h : s.step readChunk a = some s') : Step readChunk s a s' := by
  cases a with
  | event i =>
      cases h
      exact .event i
  | requestStop =>
      cases h
      exact .requestStop
  | takeJob =>
      obtain ⟨m, hm, rfl⟩ := Option.map_eq_some_iff.mp h
      unfold Manager.takeJob at hm
      split at hm
      next job hio hpending =>
        cases hm
        exact .takeJob job hio hpending
      next hio hpending =>
        split at hm
        next hstop =>
          cases hm
          exact .exit hio hpending hstop
        next => cases hm
      next => cases hm
  | askProvider id =>
      obtain ⟨m, hm, rfl⟩ := Option.map_eq_some_iff.mp h
      unfold Manager.askProvider at hm
      split at hm
      next job hio =>
        cases hm
        exact .askProvider job id hio
      next => cases hm
  | fixTurn turns =>
      obtain ⟨⟨m, turns'⟩, hm, rfl⟩ := Option.map_eq_some_iff.mp h
      unfold Manager.fixTurn at hm
      split at hm
      next job id hio =>
        split at hm
        next =>
          cases hm
          exact .fixTurn turns job id id hio
        next =>
          cases hm
          exact .fixTurn turns job id turns.next hio
      next => cases hm
  | runHook =>
      obtain ⟨⟨m, t⟩, hm, rfl⟩ := Option.map_eq_some_iff.mp h
      unfold Manager.runHook at hm
      split at hm
      next job hio =>
        cases hm
        exact .runHook job hio
      next => cases hm
  | startStream =>
      obtain ⟨m, hm, rfl⟩ := Option.map_eq_some_iff.mp h
      unfold Manager.startStream at hm
      split at hm
      next job hio =>
        cases hm
        exact .startStream job hio
      next => cases hm
  | init handle =>
      simp only [step] at h
      split at h
      next hsubmit =>
        cases handle with
        | true =>
            cases h
            exact .initOk hsubmit
        | false =>
            cases h
            exact .initFail hsubmit
      next => cases h
  | write chunk =>
      simp only [step] at h
      split at h
      next parser tokens hsubmit =>
        split at h
        next =>
          cases h
          exact .drain _ (.inr (.inr ⟨chunk, rfl⟩)) parser tokens hsubmit
        next hlive =>
          cases h
          exact .feed chunk parser tokens hsubmit (Bool.not_eq_true _ ▸ hlive)
      next => cases h
  | progress =>
      simp only [step] at h
      split at h
      next parser tokens hsubmit =>
        split at h
        next =>
          cases h
          exact .drain _ (.inr (.inl rfl)) parser tokens hsubmit
        next hlive =>
          cases h
          exact .proceed (Bool.not_eq_true _ ▸ hlive)
      next => cases h
  | complete =>
      simp only [step] at h
      split at h
      next parser tokens hsubmit =>
        cases h
        exact .drain _ (.inl rfl) parser tokens hsubmit
      next => cases h
  | token =>
      obtain ⟨delta, hnext, rfl⟩ := Option.map_eq_some_iff.mp h
      exact .token delta hnext
  | classify =>
      simp only [step] at h
      split at h
      next tokens hsubmit =>
        cases h
        exact .classify tokens hsubmit
      next => cases h
  | finish =>
      simp only [step] at h
      split at h
      next cancelled tokens hsubmit =>
        cases h
        exact .finish cancelled tokens hsubmit
      next => cases h
  | leave =>
      simp only [step] at h
      split at h
      next hsubmit =>
        cases h
        exact .leave hsubmit
      next => cases h

end ManagerHost

/-- The turn whose end an event asks for. -/
def cancelTarget : Event → Option TurnId
  | .userInterrupted e => some e.turn
  | .cancelGeneration e => some e.turn
  | _ => none

namespace Manager

/-- The reply that the I/O thread streams. -/
def reply (m : Manager) : Option Reply :=
  match m.io with
  | .streaming r => some r
  | _ => none

theorem tokenCallback_eq (delta : Bytes) (m : Manager) : m.tokenCallback delta =
    match m.reply with
    | some r => m.setReply r (r.onToken delta)
    | none => m := by
  unfold tokenCallback reply
  cases m.io <;> rfl

theorem finishCallback_eq (m : Manager) : m.finishCallback =
    match m.reply with
    | some r => m.setReply r r.onFinished
    | none => m := by
  unfold finishCallback reply
  cases m.io <;> rfl

/-- A cancel of `target` concerns the context that is stored. -/
def hitBy (target : TurnId) (m : Manager) : Bool :=
  m.active.valid && (target = kNoTurn || target = m.active.id)

theorem cancelActive_eq (target : TurnId) (m : Manager) :
    m.cancelActive target =
      if m.hitBy target = true then { m with active := m.active.cancelToken } else m := by
  unfold cancelActive hitBy
  by_cases hvalid : m.active.valid = false
  · rw [if_pos hvalid, if_neg (by simp [hvalid])]
  · rw [if_neg hvalid]
    rw [Bool.not_eq_false] at hvalid
    by_cases hother : target ≠ kNoTurn ∧ target ≠ m.active.id
    · rw [if_pos hother, if_neg (by simp [hother.1, hother.2])]
    · rw [if_neg hother, if_pos]
      rw [not_and_or, not_not, not_not] at hother
      simpa [hvalid] using hother

end Manager

end Acva.Dialogue
