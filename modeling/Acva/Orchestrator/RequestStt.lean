import Acva.Core.Runs
import Acva.Stt.OpenAiSttClient

/-! # The request/response STT stack

The subscriber of the utterances fills a queue that has no limit, and one worker sends what is in
it to the server. Both hold the mutex for what they do to the queue; `stop` sets its flag without
it, so that the flag and the notification can come between the worker's look at the queue and its
sleep. A wait can also end by itself. A transcript is published on the worker's own thread, where
the full queue of a subscriber holds it up.
-/

namespace Acva.Orchestrator

open Acva.Audio Acva.Config Acva.Dialogue Acva.Runs Acva.Stt

/-! ## The stack -/

/-- Where the worker stands. -/
inductive SttWorkerPc
  /-- At the head of its loop. -/
  | loop
  /-- About to lock the mutex and look at the flag and the queue. -/
  | looking
  /-- Nothing was there; it holds the mutex until it sleeps. -/
  | drowsy
  | asleep
  /-- Something was there; it holds the mutex until it has taken a request. -/
  | through
  | submitting (req : SttRequest)
  /-- The form is on its way. -/
  | transferring (req : SttRequest)
  | answered (req : SttRequest) (reply : Stt.Reply)
  /-- In `publish`, which waits while a subscriber's queue is full. -/
  | publishing
  | exited
deriving DecidableEq, Repr

inductive SttStopPc
  | notCalled
  | flagged
  | notified
  | joined
deriving DecidableEq, Repr

structure RequestStt where
  queue : List SttRequest := []
  pool : TokenPool := {}
  stop : Bool := false
  worker : SttWorkerPc := .loop
  stopper : SttStopPc := .notCalled
  published : List FinalTranscript := []
deriving DecidableEq, Repr

inductive RequestSttAction
  /-- The subscriber takes an `UtteranceReady`. -/
  | ready (turn : TurnId) (slice : Option AudioSlice)
  | worker (initOk : Bool)
  /-- The wait ends by itself. -/
  | wake
  /-- The server answers, or the transfer fails. -/
  | reply (reply : Stt.Reply)
  /-- The bus has taken the transcript. -/
  | published
  | setStop
  | notify
  | join
deriving DecidableEq, Repr

namespace SttWorkerPc

def holdsMutex : SttWorkerPc → Bool
  | .drowsy => true
  | .through => true
  | _ => false

/-- The request that is taken and not answered. -/
def inHand : SttWorkerPc → List SttRequest
  | .submitting req => [req]
  | .transferring req => [req]
  | .answered req _ => [req]
  | _ => []

/-- A notification wakes whoever sleeps. -/
def notified : SttWorkerPc → SttWorkerPc
  | .asleep => .looking
  | pc => pc

end SttWorkerPc

namespace RequestStt

/-- A slice that is not there is skipped. -/
def onReady (lang : Bytes) (turn : TurnId) (slice : Option AudioSlice) (s : RequestStt) :
    RequestStt :=
  match slice with
  | none => s
  | some slice =>
      let req := { turn := turn, slice := slice, cancel := s.pool.make.1, langHint := lang }
      { s with
        pool := s.pool.make.2, queue := s.queue ++ [req], worker := s.worker.notified }

/-- `on_final` publishes, `on_error` only logs. -/
def report (result : Except SttFailure FinalTranscript) (s : RequestStt) : RequestStt :=
  match result with
  | .ok ev => { s with published := s.published ++ [ev], worker := .publishing }
  | .error _ => { s with worker := .loop }

def onWorker (readText : Bytes → Except Bytes Bytes) (cfg : SttConfig) (initOk : Bool)
    (s : RequestStt) : Option RequestStt :=
  match s.worker with
  | .loop => some { s with worker := if s.stop = true then .exited else .looking }
  | .looking =>
      some { s with worker := if s.stop = true ∨ s.queue ≠ [] then .through else .drowsy }
  | .drowsy => some { s with worker := .asleep }
  | .asleep => none
  | .through =>
      if s.stop = true then some { s with worker := .exited }
      else
        match s.queue with
        | req :: rest => some { s with queue := rest, worker := .submitting req }
        | [] => none
  | .submitting req =>
      match refusal cfg (s.pool.isCancelled req.cancel) initOk with
      | some failure => some (s.report (.error failure))
      | none => some { s with worker := .transferring req }
  | .transferring _ => none
  | .answered req reply =>
      some (s.report (outcome readText cfg req (s.pool.isCancelled req.cancel) reply))
  | .publishing => none
  | .exited => none

def step (readText : Bytes → Except Bytes Bytes) (cfg : SttConfig) (lang : Bytes)
    (s : RequestStt) : RequestSttAction → Option RequestStt
  | .ready turn slice =>
      if s.worker.holdsMutex = true then none else some (s.onReady lang turn slice)
  | .worker initOk => s.onWorker readText cfg initOk
  | .wake => if s.worker = .asleep then some { s with worker := .looking } else none
  | .reply reply =>
      match s.worker with
      | .transferring req => some { s with worker := .answered req reply }
      | _ => none
  | .published => if s.worker = .publishing then some { s with worker := .loop } else none
  | .setStop =>
      if s.stopper = .notCalled then some { s with stop := true, stopper := .flagged } else none
  | .notify =>
      if s.stopper = .flagged then
        some { s with worker := s.worker.notified, stopper := .notified }
      else none
  | .join =>
      if s.stopper = .notified ∧ s.worker = .exited then some { s with stopper := .joined }
      else none

end RequestStt

/-! ## What is written down -/

structure SttLedger where
  requests : List SttRequest := []
  uploads : List (SttRequest × Upload) := []
  answered : List (SttRequest × Except SttFailure FinalTranscript) := []

namespace RequestStt

/-- The request that the worker is done with, and how it went. -/
def answeredBy (readText : Bytes → Except Bytes Bytes) (cfg : SttConfig) (initOk : Bool)
    (s : RequestStt) : List (SttRequest × Except SttFailure FinalTranscript) :=
  match s.worker with
  | .submitting req =>
      (refusal cfg (s.pool.isCancelled req.cancel) initOk).toList.map fun failure =>
        (req, .error failure)
  | .answered req reply =>
      [(req, outcome readText cfg req (s.pool.isCancelled req.cancel) reply)]
  | _ => []

/-- The form that goes out. -/
def uploadedBy (cfg : SttConfig) (initOk : Bool) (s : RequestStt) :
    List (SttRequest × Upload) :=
  match s.worker with
  | .submitting req =>
      if refusal cfg (s.pool.isCancelled req.cancel) initOk = none then [(req, uploadFor cfg req)]
      else []
  | _ => []

def noteStt (readText : Bytes → Except Bytes Bytes) (cfg : SttConfig) (lang : Bytes)
    (l : SttLedger) (s : RequestStt) : RequestSttAction → SttLedger
  | .ready turn slice =>
      { l with
        requests := l.requests ++ (slice.toList.map fun slice =>
          { turn := turn, slice := slice, cancel := s.pool.make.1, langHint := lang }) }
  | .worker initOk =>
      { l with
        uploads := l.uploads ++ s.uploadedBy cfg initOk
        answered := l.answered ++ s.answeredBy readText cfg initOk }
  | _ => l

end RequestStt

/-! ## The invariant -/

namespace SttWorkerPc

/-- The request in hand whose form is out. -/
def sent : SttWorkerPc → List SttRequest
  | .transferring req => [req]
  | .answered req _ => [req]
  | _ => []

@[simp] theorem inHand_notified (pc : SttWorkerPc) : pc.notified.inHand = pc.inHand := by
  cases pc <;> rfl

@[simp] theorem sent_notified (pc : SttWorkerPc) : pc.notified.sent = pc.sent := by
  cases pc <;> rfl

end SttWorkerPc

namespace RequestStt

variable {readText : Bytes → Except Bytes Bytes} {cfg : SttConfig} {lang : Bytes}
  {s s' : RequestStt} {l : SttLedger}

structure RequestSttInv (cfg : SttConfig) (w : RequestStt × SttLedger) : Prop where
  order : w.2.requests = w.2.answered.map Prod.fst ++ w.1.worker.inHand ++ w.1.queue
  tokens : w.2.requests.map SttRequest.cancel = List.range w.1.pool.next
  live : w.1.pool.cancelled = []
  published : w.1.published = w.2.answered.filterMap fun a => a.2.toOption
  uploads : (w.2.uploads.map Prod.fst).Sublist (w.2.answered.map Prod.fst ++ w.1.worker.sent)
  form : ∀ u ∈ w.2.uploads, u.2 = uploadFor cfg u.1
  sent : ∀ req ∈ w.1.worker.sent, (req, uploadFor cfg req) ∈ w.2.uploads
  own : ∀ a ∈ w.2.answered, ∀ ev, a.2 = .ok ev →
    ev.turn = a.1.turn ∧ ev.lang = a.1.langHint ∧ (a.1, uploadFor cfg a.1) ∈ w.2.uploads
  uncancelled : ∀ a ∈ w.2.answered, a.2 ≠ .error .cancelled
  idle : w.1.worker = .drowsy ∨ w.1.worker = .asleep → w.1.queue = []
  found : w.1.worker = .through → w.1.stop = false → w.1.queue ≠ []
  joined : w.1.stopper = .joined → w.1.worker = .exited

theorem RequestSttInv.isCancelled (hi : RequestSttInv cfg (s, l)) (tok : TokenRef) :
    s.pool.isCancelled tok = false := by
  have hnone := hi.live
  dsimp only at hnone
  rw [TokenPool.isCancelled, hnone]
  rfl

/-- The worker moves between the requests. -/
theorem RequestSttInv.moves (hi : RequestSttInv cfg (s, l)) {pc : SttWorkerPc}
    (hinHand : s.worker.inHand = []) (hinHand' : pc.inHand = []) (hsent' : pc.sent = [])
    (hidle : pc = .drowsy ∨ pc = .asleep → s.queue = [])
    (hfound : pc = .through → s.stop = false → s.queue ≠ [])
    (hrunning : s.worker ≠ .exited) : RequestSttInv cfg ({ s with worker := pc }, l) where
  order := by
    have horder := hi.order
    dsimp only at horder ⊢
    rw [hinHand] at horder
    rw [hinHand']
    exact horder
  tokens := hi.tokens
  live := hi.live
  published := hi.published
  uploads := by
    have huploads := hi.uploads
    have hnone : s.worker.sent = [] := by
      cases hpc : s.worker <;> rw [hpc] at hinHand <;> first | rfl | cases hinHand
    dsimp only at huploads ⊢
    rw [hnone] at huploads
    rw [hsent']
    exact huploads
  form := hi.form
  sent := by
    dsimp only
    rw [hsent']
    exact fun _ h => absurd h List.not_mem_nil
  own := hi.own
  uncancelled := hi.uncancelled
  idle := hidle
  found := hfound
  joined h := absurd (hi.joined h) hrunning

/-- What a report leaves alone; the worker has nothing in hand. -/
theorem report_eq (result : Except SttFailure FinalTranscript) (s : RequestStt) :
    ∃ pc, (pc = .publishing ∨ pc = .loop) ∧ s.report result =
      { s with published := s.published ++ result.toOption.toList, worker := pc } := by
  cases result with
  | ok ev => exact ⟨_, .inl rfl, rfl⟩
  | error failure =>
      refine ⟨_, .inr rfl, ?_⟩
      rw [report, Except.toOption, Option.toList_none, List.append_nil]

/-- The request in hand is done with. -/
theorem RequestSttInv.answer (hi : RequestSttInv cfg (s, l)) {req : SttRequest}
    {result : Except SttFailure FinalTranscript} (hinHand : s.worker.inHand = [req])
    (hown : ∀ ev, result = .ok ev →
      ev.turn = req.turn ∧ ev.lang = req.langHint ∧ (req, uploadFor cfg req) ∈ l.uploads)
    (hlive : result ≠ .error .cancelled) :
    RequestSttInv cfg (s.report result, { l with answered := l.answered ++ [(req, result)] }) := by
  obtain ⟨pc, hpc, hreport⟩ := report_eq result s
  have hfree : pc.inHand = [] ∧ pc.sent = [] := by
    rcases hpc with rfl | rfl
    · exact ⟨rfl, rfl⟩
    · exact ⟨rfl, rfl⟩
  have hnot : ∀ pc', pc' ≠ .publishing → pc' ≠ .loop → pc ≠ pc' := by
    rintro pc' hpublishing hloop rfl
    exact hpc.elim hpublishing hloop
  rw [hreport]
  refine ⟨?_, hi.tokens, hi.live, ?_, ?_, hi.form, fun other hother => ?_, fun a ha ev hev => ?_,
    fun a ha => ?_, fun h => ?_, fun h => absurd h (hnot _ nofun nofun), fun h => ?_⟩
  · have horder := hi.order
    dsimp only at horder
    rw [hinHand] at horder
    simpa [hfree.1] using horder
  · have hpublished := hi.published
    dsimp only at hpublished
    cases result with
    | ok ev => simp [hpublished, Except.toOption]
    | error failure => simp [hpublished, Except.toOption]
  · have huploads := hi.uploads
    have hsent : s.worker.sent.Sublist [req] := by
      cases hworker : s.worker <;> rw [hworker] at hinHand <;>
        first
        | exact List.nil_sublist _
        | exact hinHand ▸ List.Sublist.refl _
    dsimp only at huploads ⊢
    rw [List.map_append, hfree.2, List.append_nil]
    exact huploads.trans ((List.Sublist.refl _).append hsent)
  · dsimp only at hother
    rw [hfree.2] at hother
    exact absurd hother List.not_mem_nil
  · rcases List.mem_append.mp ha with hold | hnew
    · exact hi.own a hold ev hev
    · rw [List.mem_singleton.mp hnew] at hev ⊢
      exact hown ev hev
  · rcases List.mem_append.mp ha with hold | hnew
    · exact hi.uncancelled a hold
    · rw [List.mem_singleton.mp hnew]
      exact hlive
  · exact h.elim (fun h => absurd h (hnot _ nofun nofun)) fun h => absurd h (hnot _ nofun nofun)
  · have hexited := hi.joined h
    dsimp only at hexited
    rw [hexited] at hinHand
    cases hinHand

/-! ## The steps -/

theorem RequestSttInv.ready (hi : RequestSttInv cfg (s, l)) (hmutex : s.worker.holdsMutex = false)
    (turn : TurnId) (slice : Option AudioSlice) :
    RequestSttInv cfg (s.onReady lang turn slice,
      noteStt readText cfg lang l s (.ready turn slice)) := by
  cases slice with
  | none =>
      have hnote : noteStt readText cfg lang l s (.ready turn none) = l := by simp [noteStt]
      rw [hnote]
      exact hi
  | some slice =>
      refine ⟨?_, ?_, hi.live, hi.published, ?_, hi.form, ?_, hi.own, hi.uncancelled,
        fun h => ?_, fun h _ => ?_, fun h => ?_⟩
      · have horder := hi.order
        dsimp only at horder
        simp [noteStt, onReady, horder]
      · have htokens := hi.tokens
        dsimp only at htokens
        simp [noteStt, onReady, htokens, TokenPool.make, List.range_succ]
      · have huploads := hi.uploads
        dsimp only at huploads
        simpa [noteStt, onReady] using huploads
      · have hsent := hi.sent
        dsimp only at hsent
        simpa [noteStt, onReady] using hsent
      · -- whoever sleeps is woken, and a drowsy worker has the mutex
        dsimp only [onReady] at h
        cases hpc : s.worker <;> simp [hpc, SttWorkerPc.notified, SttWorkerPc.holdsMutex] at h hmutex
      · dsimp only [onReady] at h
        cases hpc : s.worker <;> simp [hpc, SttWorkerPc.notified, SttWorkerPc.holdsMutex] at h hmutex
      · have hexited := hi.joined h
        dsimp only at hexited
        dsimp only [onReady]
        rw [hexited]
        rfl

theorem RequestSttInv.worker {initOk : Bool} (hi : RequestSttInv cfg (s, l))
    (h : s.onWorker readText cfg initOk = some s') :
    RequestSttInv cfg (s', noteStt readText cfg lang l s (.worker initOk)) := by
  have hquiet : s.uploadedBy cfg initOk = [] → s.answeredBy readText cfg initOk = [] →
      noteStt readText cfg lang l s (.worker initOk) = l := by
    intro huploaded hanswered
    simp [noteStt, huploaded, hanswered]
  unfold onWorker at h
  split at h
  next hpc =>
    cases h
    rw [hquiet (by simp [uploadedBy, hpc]) (by simp [answeredBy, hpc])]
    by_cases hstop : s.stop = true
    · rw [if_pos hstop]
      exact hi.moves (by rw [hpc]; rfl) rfl rfl (fun h => h.elim nofun nofun) nofun
        (by rw [hpc]; exact nofun)
    · rw [if_neg hstop]
      exact hi.moves (by rw [hpc]; rfl) rfl rfl (fun h => h.elim nofun nofun) nofun
        (by rw [hpc]; exact nofun)
  next hpc =>
    cases h
    rw [hquiet (by simp [uploadedBy, hpc]) (by simp [answeredBy, hpc])]
    by_cases hfound : s.stop = true ∨ s.queue ≠ []
    · rw [if_pos hfound]
      refine hi.moves (by rw [hpc]; rfl) rfl rfl (fun h => h.elim nofun nofun) (fun _ hstop => ?_)
        (by rw [hpc]; exact nofun)
      exact hfound.resolve_left (by rw [hstop]; exact nofun)
    · rw [if_neg hfound]
      have hempty : s.queue = [] := not_not.mp (not_or.mp hfound).2
      exact hi.moves (by rw [hpc]; rfl) rfl rfl (fun _ => hempty) nofun (by rw [hpc]; exact nofun)
  next hpc =>
    cases h
    rw [hquiet (by simp [uploadedBy, hpc]) (by simp [answeredBy, hpc])]
    exact hi.moves (by rw [hpc]; rfl) rfl rfl (fun _ => hi.idle (.inl hpc)) nofun
      (by rw [hpc]; exact nofun)
  next => cases h
  next hpc =>
    rw [hquiet (by simp [uploadedBy, hpc]) (by simp [answeredBy, hpc])]
    split at h
    next =>
      cases h
      exact hi.moves (by rw [hpc]; rfl) rfl rfl (fun h => h.elim nofun nofun) nofun
        (by rw [hpc]; exact nofun)
    next =>
      split at h
      next req rest hqueue =>
        cases h
        have horder := hi.order
        have huploads := hi.uploads
        dsimp only at horder huploads
        rw [hpc, hqueue] at horder
        rw [hpc] at huploads
        refine ⟨?_, hi.tokens, hi.live, hi.published, huploads, hi.form,
          fun _ hreq => absurd hreq List.not_mem_nil, hi.own, hi.uncancelled,
          fun h => h.elim nofun nofun, nofun, fun hjoined => ?_⟩
        · simpa [SttWorkerPc.inHand] using horder
        · have hexited := hi.joined hjoined
          dsimp only at hexited
          rw [hpc] at hexited
          cases hexited
      next => cases h
  next req hpc =>
    rw [hi.isCancelled] at h
    have hin : s.worker.inHand = [req] := by rw [hpc]; rfl
    split at h
    next failure hrefused =>
      cases h
      have hnote : noteStt readText cfg lang l s (.worker initOk) =
          { l with answered := l.answered ++ [(req, .error failure)] } := by
        simp [noteStt, uploadedBy, answeredBy, hpc, hi.isCancelled, hrefused]
      rw [hnote]
      refine hi.answer hin nofun fun hlive => ?_
      cases hlive
      exact refusal_of_live hrefused
    next hpassed =>
      cases h
      have hnote : noteStt readText cfg lang l s (.worker initOk) =
          { l with uploads := l.uploads ++ [(req, uploadFor cfg req)] } := by
        simp [noteStt, uploadedBy, answeredBy, hpc, hi.isCancelled, hpassed]
      rw [hnote]
      have horder := hi.order
      have huploads := hi.uploads
      dsimp only at horder huploads
      rw [hpc] at horder huploads
      refine ⟨horder, hi.tokens, hi.live, hi.published, ?_, fun u hu => ?_, fun other hother => ?_,
        fun a ha ev hev => ?_, hi.uncancelled, fun h => h.elim nofun nofun, nofun,
        fun hjoined => ?_⟩
      · rw [List.map_append]
        refine List.Sublist.append ?_ (List.Sublist.refl _)
        simpa [SttWorkerPc.sent] using huploads
      · rcases List.mem_append.mp hu with hold | hnew
        · exact hi.form u hold
        · rw [List.mem_singleton.mp hnew]
      · rw [List.mem_singleton.mp hother]
        exact List.mem_append_right _ List.mem_cons_self
      · obtain ⟨hturn, hlang, hsent⟩ := hi.own a ha ev hev
        exact ⟨hturn, hlang, List.mem_append_left _ hsent⟩
      · have hexited := hi.joined hjoined
        dsimp only at hexited
        rw [hpc] at hexited
        cases hexited
  next => cases h
  next req reply hpc =>
    cases h
    have hin : s.worker.inHand = [req] := by rw [hpc]; rfl
    have hsent := hi.sent req
    dsimp only at hsent
    rw [hpc] at hsent
    have hnote : noteStt readText cfg lang l s (.worker initOk) =
        { l with answered := l.answered ++
          [(req, outcome readText cfg req (s.pool.isCancelled req.cancel) reply)] } := by
      simp [noteStt, uploadedBy, answeredBy, hpc]
    rw [hnote]
    refine hi.answer hin (fun ev hev => ?_) ?_
    · obtain ⟨hturn, hlang, -⟩ := outcome_eq_ok hev
      exact ⟨hturn, hlang, hsent List.mem_cons_self⟩
    · rw [hi.isCancelled]
      exact outcome_of_live
  next => cases h
  next => cases h

/-- The thread that stops the stack. -/
theorem RequestSttInv.stops {stop : Bool} {pc : SttWorkerPc} {stopper : SttStopPc}
    (hi : RequestSttInv cfg (s, l)) (hpc : pc = s.worker ∨ pc = s.worker.notified)
    (hstop : s.stop = true → stop = true) (hjoined : stopper = .joined → pc = .exited) :
    RequestSttInv cfg ({ s with stop := stop, worker := pc, stopper := stopper }, l) := by
  have hinHand : pc.inHand = s.worker.inHand := by
    rcases hpc with rfl | rfl
    · rfl
    · exact SttWorkerPc.inHand_notified _
  have hsent : pc.sent = s.worker.sent := by
    rcases hpc with rfl | rfl
    · rfl
    · exact SttWorkerPc.sent_notified _
  have hstays : ∀ pc', pc' ≠ .looking → pc = pc' → s.worker = pc' := by
    rintro pc' hlooking rfl
    rcases hpc with rfl | hwoken
    · rfl
    · cases hworker : s.worker <;> rw [hworker] at hwoken <;>
        first
        | exact hwoken.symm
        | exact absurd hwoken hlooking
  refine ⟨?_, hi.tokens, hi.live, hi.published, ?_, hi.form, ?_, hi.own, hi.uncancelled,
    fun h => ?_, fun h hlive => ?_, hjoined⟩
  · dsimp only
    rw [hinHand]
    exact hi.order
  · dsimp only
    rw [hsent]
    exact hi.uploads
  · dsimp only
    rw [hsent]
    exact hi.sent
  · exact hi.idle (h.imp (hstays _ nofun) (hstays _ nofun))
  · refine hi.found (hstays _ nofun h) ?_
    cases hbefore : s.stop with
    | false => rfl
    | true =>
        rw [hstop hbefore] at hlive
        cases hlive

theorem RequestSttInv.step {w w' : RequestStt × SttLedger} {a : RequestSttAction}
    (hi : RequestSttInv cfg w)
    (h : watch (step readText cfg lang) (noteStt readText cfg lang) w a = some w') :
    RequestSttInv cfg w' := by
  obtain ⟨s, l⟩ := w
  obtain ⟨s', l'⟩ := w'
  obtain ⟨hstep, rfl⟩ := watch_eq_some.mp h
  dsimp only at hstep
  cases a with
  | ready turn slice =>
      simp only [RequestStt.step] at hstep
      split at hstep
      next => cases hstep
      next hmutex =>
        cases hstep
        exact hi.ready (Bool.eq_false_iff.mpr hmutex) turn slice
  | worker initOk => exact hi.worker hstep
  | wake =>
      simp only [RequestStt.step] at hstep
      split at hstep
      next hpc =>
        cases hstep
        exact hi.moves (by rw [hpc]; rfl) rfl rfl (fun h => h.elim nofun nofun) nofun
          (by rw [hpc]; exact nofun)
      next => cases hstep
  | reply reply =>
      simp only [RequestStt.step] at hstep
      split at hstep
      next req hpc =>
        cases hstep
        have horder := hi.order
        have huploads := hi.uploads
        have hsent := hi.sent
        dsimp only at horder huploads hsent
        rw [hpc] at horder huploads hsent
        refine ⟨horder, hi.tokens, hi.live, hi.published, huploads, hi.form, hsent, hi.own,
          hi.uncancelled, fun h => h.elim nofun nofun, nofun, fun hjoined => ?_⟩
        have hexited := hi.joined hjoined
        dsimp only at hexited
        rw [hpc] at hexited
        cases hexited
      next => cases hstep
  | published =>
      simp only [RequestStt.step] at hstep
      split at hstep
      next hpc =>
        cases hstep
        exact hi.moves (by rw [hpc]; rfl) rfl rfl (fun h => h.elim nofun nofun) nofun
          (by rw [hpc]; exact nofun)
      next => cases hstep
  | setStop =>
      simp only [RequestStt.step] at hstep
      split at hstep
      next =>
        cases hstep
        exact hi.stops (.inl rfl) (fun _ => rfl) nofun
      next => cases hstep
  | notify =>
      simp only [RequestStt.step] at hstep
      split at hstep
      next =>
        cases hstep
        exact hi.stops (.inr rfl) id nofun
      next => cases hstep
  | join =>
      simp only [RequestStt.step] at hstep
      split at hstep
      next hready =>
        cases hstep
        exact hi.stops (.inl rfl) id fun _ => hready.2
      next => cases hstep

/-! ## Runs -/

theorem initial_requestSttInv : RequestSttInv cfg (({}, {}) : RequestStt × SttLedger) where
  order := rfl
  tokens := rfl
  live := rfl
  published := rfl
  uploads := List.Sublist.refl _
  form := nofun
  sent := nofun
  own := nofun
  uncancelled := nofun
  idle h := h.elim nofun nofun
  found := nofun
  joined := nofun

/-- What becomes of the utterances. -/
structure Transcribes (cfg : SttConfig) (s : RequestStt) (l : SttLedger) : Prop where
  apart : l.requests.Nodup
  order : l.requests = l.answered.map Prod.fst ++ s.worker.inHand ++ s.queue
  published : s.published = l.answered.filterMap fun a => a.2.toOption
  uploads : (l.uploads.map Prod.fst).Sublist l.requests
  form : ∀ u ∈ l.uploads, u.2 = uploadFor cfg u.1
  own : ∀ a ∈ l.answered, ∀ ev, a.2 = .ok ev →
    ev.turn = a.1.turn ∧ ev.lang = a.1.langHint ∧ (a.1, uploadFor cfg a.1) ∈ l.uploads
  uncancelled : ∀ a ∈ l.answered, a.2 ≠ .error .cancelled
  drained : s.worker = .asleep → l.requests = l.answered.map Prod.fst
  joined : s.stopper = .joined → s.worker = .exited

theorem RequestSttInv.transcribes (hi : RequestSttInv cfg (s, l)) : Transcribes cfg s l where
  apart := List.Nodup.of_map SttRequest.cancel (hi.tokens ▸ List.nodup_range)
  order := hi.order
  published := hi.published
  uploads := by
    have horder := hi.order
    dsimp only at horder
    have hhand : s.worker.sent.Sublist (s.worker.inHand ++ s.queue) := by
      cases s.worker <;>
        first
        | exact List.nil_sublist _
        | exact List.sublist_append_left _ _
    rw [horder, List.append_assoc]
    exact hi.uploads.trans ((List.Sublist.refl _).append hhand)
  form := hi.form
  own := hi.own
  uncancelled := hi.uncancelled
  drained hasleep := by
    have horder := hi.order
    have hempty := hi.idle (.inr hasleep)
    dsimp only at horder hempty
    rw [hasleep, hempty] at horder
    simpa [SttWorkerPc.inHand] using horder
  joined := hi.joined

/-- Only its sleep, the server, the bus and its end hold the worker up. -/
theorem onWorker_enabled (hi : RequestSttInv cfg (s, l)) (hasleep : s.worker ≠ .asleep)
    (hsent : ∀ req, s.worker ≠ .transferring req) (hpublishing : s.worker ≠ .publishing)
    (hexited : s.worker ≠ .exited) (initOk : Bool) :
    (s.onWorker readText cfg initOk).isSome = true := by
  unfold onWorker
  split
  next => rfl
  next => rfl
  next => rfl
  next hpc => exact absurd hpc hasleep
  next hpc =>
    split
    next => rfl
    next hstop =>
      split
      next => rfl
      next hqueue => exact absurd hqueue (hi.found hpc (Bool.eq_false_iff.mpr hstop))
  next => split <;> rfl
  next req hpc => exact absurd hpc (hsent req)
  next => rfl
  next hpc => exact absurd hpc hpublishing
  next hpc => exact absurd hpc hexited

/-- Over every interleaving: the utterances are answered one after the other in the order in which
they were ready, each once, and the transcripts are published in that order, each with the turn
and the language of its own request, whose slice was uploaded once. None is answered as cancelled,
and none is left waiting while the worker sleeps. Once `stop` has returned the worker is gone. -/
theorem run_transcribes {acts : List RequestSttAction}
    (hrun : run (watch (step readText cfg lang) (noteStt readText cfg lang)) ({}, {}) acts =
      some (s, l)) :
    Transcribes cfg s l ∧
      (s.worker ≠ .asleep → (∀ req, s.worker ≠ .transferring req) → s.worker ≠ .publishing →
        s.worker ≠ .exited → ∀ initOk, (s.onWorker readText cfg initOk).isSome = true) := by
  have hinv : RequestSttInv cfg (s, l) :=
    run_preserves (RequestSttInv cfg) (fun _ _ _ hi hs => hi.step hs) hrun initial_requestSttInv
  exact ⟨hinv.transcribes, fun hasleep hsent hpublishing hexited initOk =>
    onWorker_enabled hinv hasleep hsent hpublishing hexited initOk⟩

def oneServer : SttConfig := { baseUrl := ascii "http://h/v1", model := ascii "m" }

def oneSlice : AudioSlice := { samples := [1, 2], sampleRate := 16000, startedAt := 0, endedAt := 0 }

/-- The second utterance is ready while the first is on its way; the first gets an answer, the
second does not. -/
def twoUtterances : List RequestSttAction :=
  [.worker true, .worker true, .worker true, .ready 1 (some oneSlice), .worker true, .worker true,
    .worker true, .ready 2 (some oneSlice), .reply { status := 200, body := ascii "hi" },
    .worker true, .published, .worker true, .worker true, .worker true, .worker true,
    .reply { status := 500 },
    .worker true, .worker true, .worker true, .worker true]

theorem run_transcribes_twoUtterances : ∃ s l,
    run (watch (step .ok oneServer []) (noteStt .ok oneServer [])) ({}, {}) twoUtterances =
        some (s, l) ∧
      s.worker = .asleep ∧ s.published = [{ turn := 1, text := ascii "hi" }] ∧
      l.requests.length = 2 ∧ Transcribes oneServer s l := by
  obtain ⟨⟨s, l⟩, hrun, hasleep, hpublished, hrequests⟩ : ∃ w,
      run (watch (step .ok oneServer []) (noteStt .ok oneServer [])) ({}, {}) twoUtterances =
          some w ∧
        w.1.worker = .asleep ∧ w.1.published = [{ turn := 1, text := ascii "hi" }] ∧
        w.2.requests.length = 2 := by
    refine ⟨(run (watch (step .ok oneServer []) (noteStt .ok oneServer [])) ({}, {})
      twoUtterances).get (by decide +kernel), ?_, by decide +kernel, by decide +kernel,
      by decide +kernel⟩
    exact (Option.some_get _).symm
  exact ⟨s, l, hrun, hasleep, hpublished, hrequests, (run_transcribes hrun).1⟩

/-- The flag and the notification come before the sleep, which nothing ends. -/
example : (run (step .ok oneServer []) {} [.worker true, .worker true, .setStop, .notify,
    .worker true]).map (fun s => (s.worker, s.stop, s.stopper)) =
      some (.asleep, true, .notified) := by decide +kernel

end RequestStt

end Acva.Orchestrator
