import Acva.Llm.Client

/-! # What a submission does, call by call

Between two calls of `on_token`, and before the token is looked at for the last time, the
caller's other threads may move. What `submit` calls and publishes is recorded.
-/

namespace Acva.Llm

inductive SubmitCall
  | onToken (delta : Bytes)
  | onFinished (finish : LlmFinish)
  | publish (e : Event)
deriving DecidableEq, Repr

/-- The caller, and what it and the bus have seen of the submission. -/
structure Recorded (σ : Type) where
  state : σ
  log : List SubmitCall := []

/-- A transfer, with what the other threads do meanwhile: before each delta of a chunk, and
before each delta that the parser still has when the transfer is over. What is left of a
list of moves comes after the last delta. -/
structure Schedule (α : Type) where
  handle : Bool := true
  steps : List (TransferStep α × List (List α)) := []
  rc : CurlCode := .ok
  httpStatus : Nat := 200
  leftover : List (List α) := []

/-- A transfer during which the other threads move between chunks only. -/
def Transfer.schedule {α : Type} (tr : Transfer α) : Schedule α where
  handle := tr.handle
  steps := tr.steps.map (·, [])
  rc := tr.rc
  httpStatus := tr.httpStatus

namespace LlmClient

variable {σ α : Type} (readChunk : Bytes → Option SseChunk) (cb : LlmCallbacks σ α)

def otherMoves (moves : List α) (s : Recorded σ) : Recorded σ :=
  { s with state := moves.foldl (fun s a => cb.other a s) s.state }

def callToken (delta : Bytes) (s : Recorded σ) : Recorded σ :=
  { state := cb.onToken delta s.state, log := s.log ++ [.onToken delta] }

/-- The deltas of one feed, among the moves of the other threads. -/
def handOverAmong : List (List α) → List Bytes → Recorded σ → Recorded σ
  | moves, [], s => otherMoves cb moves.flatten s
  | [], delta :: deltas, s => handOverAmong [] deltas (callToken cb delta s)
  | now :: moves, delta :: deltas, s =>
      handOverAmong moves deltas (callToken cb delta (otherMoves cb now s))

/-- `curl_easy_perform`. -/
def performAmong (rc : CurlCode) : List (TransferStep α × List (List α)) → SseParser →
    Recorded σ → CurlCode × SseParser × Recorded σ
  | [], p, s => (rc, p, s)
  | (.write chunk, moves) :: rest, p, s =>
      if cb.isCancelled s.state = true then (.writeError, p, s)
      else
        let (p, out) := p.feed chunk
        performAmong rc rest p (handOverAmong cb moves (deltasOf readChunk out) s)
  | (.progress, _) :: rest, p, s =>
      if cb.isCancelled s.state = true then (.abortedByCallback, p, s)
      else performAmong rc rest p s
  | (.other a, _) :: rest, p, s => performAmong rc rest p (otherMoves cb [a] s)

/-- The transfer's result, the parser and the caller when `curl_easy_perform` returns. -/
def transferred (sch : Schedule α) (state : σ) : CurlCode × SseParser × Recorded σ :=
  performAmong readChunk cb sch.rc sch.steps {} { state := state }

/-- The caller when the token is looked at. -/
def flushed (sch : Schedule α) (state : σ) : Recorded σ :=
  let (_, p, s) := transferred readChunk cb sch state
  handOverAmong cb sch.leftover (deltasOf readChunk p.finish.2) s

/-- The calls of `on_token`; each has counted. -/
def tokensIn (log : List SubmitCall) : Nat :=
  log.countP fun
    | .onToken _ => true
    | _ => false

def callFinished (finish : LlmFinish) (s : Recorded σ) : Recorded σ :=
  { state := cb.onFinished finish s.state, log := s.log ++ [.onFinished finish] }

def submitAmong (turn : TurnId) (sch : Schedule α) (state : σ) : Recorded σ :=
  if sch.handle = false then
    callFinished cb
      { turn := turn, error := true, errorMessage := ascii "curl_easy_init failed" }
      { state := state }
  else
    let s := flushed readChunk cb sch state
    let finish := classify turn (cb.isCancelled s.state) (transferred readChunk cb sch state).1
      sch.httpStatus (tokensIn s.log)
    let s := callFinished cb finish s
    { s with
      log := s.log ++ [.publish (.llmFinished
        { turn := finish.turn, cancelled := finish.cancelled,
          tokensGenerated := finish.tokensGenerated })] }

/-- All calls of `on_token`, then one finish for the caller and one for the bus, both
cancelled as `cancelled` says. -/
def EndsOnce (turn : TurnId) (cancelled : Bool) (log : List SubmitCall) : Prop :=
  ∃ (deltas : List Bytes) (finish : LlmFinish), log = deltas.map .onToken ++
      [.onFinished finish, .publish (.llmFinished
        { turn := turn, cancelled := cancelled, tokensGenerated := deltas.length })] ∧
    finish.turn = turn ∧ finish.cancelled = cancelled

/-! ## The log -/

variable {cb} in
theorem handOverAmong_log (moves : List (List α)) (deltas : List Bytes) (s : Recorded σ) :
    (handOverAmong cb moves deltas s).log = s.log ++ deltas.map .onToken := by
  induction deltas generalizing moves s with
  | nil =>
      rw [handOverAmong]
      exact (List.append_nil _).symm
  | cons delta deltas ih =>
      cases moves with
      | nil =>
          rw [handOverAmong, ih, List.map_cons]
          exact List.append_assoc ..
      | cons now moves =>
          rw [handOverAmong, ih, List.map_cons]
          exact List.append_assoc ..

/-- Until the token is looked at only tokens are called back. -/
theorem performAmong_log (rc : CurlCode) (steps : List (TransferStep α × List (List α)))
    (p : SseParser) (s : Recorded σ) :
    ∃ deltas : List Bytes, (performAmong readChunk cb rc steps p s).2.2.log =
      s.log ++ deltas.map .onToken := by
  induction steps generalizing p s with
  | nil => exact ⟨[], (List.append_nil _).symm⟩
  | cons step steps ih =>
      obtain ⟨step, moves⟩ := step
      cases step with
      | write chunk =>
          simp only [performAmong]
          split
          · exact ⟨[], (List.append_nil _).symm⟩
          · obtain ⟨deltas, hdeltas⟩ := ih (p.feed chunk).1
              (handOverAmong cb moves (deltasOf readChunk (p.feed chunk).2) s)
            refine ⟨deltasOf readChunk (p.feed chunk).2 ++ deltas, ?_⟩
            rw [hdeltas, handOverAmong_log, List.map_append, List.append_assoc]
      | progress =>
          simp only [performAmong]
          split
          · exact ⟨[], (List.append_nil _).symm⟩
          · exact ih p s
      | other a => exact ih p (otherMoves cb [a] s)

theorem flushed_log (sch : Schedule α) (state : σ) :
    ∃ deltas : List Bytes, (flushed readChunk cb sch state).log = deltas.map .onToken := by
  obtain ⟨deltas, hdeltas⟩ := performAmong_log readChunk cb sch.rc sch.steps {} { state := state }
  refine ⟨deltas ++ deltasOf readChunk (transferred readChunk cb sch state).2.1.finish.2, ?_⟩
  rw [flushed, handOverAmong_log, List.map_append]
  exact congrArg (· ++ _) hdeltas

theorem tokensIn_map (deltas : List Bytes) : tokensIn (deltas.map .onToken) = deltas.length := by
  rw [tokensIn, List.countP_map]
  exact List.countP_eq_length.mpr fun _ _ => rfl

theorem EndsOnce.getLast? {turn : TurnId} {cancelled : Bool} {log : List SubmitCall}
    (h : EndsOnce turn cancelled log) :
    ∃ n, log.getLast? = some (.publish (.llmFinished
      { turn := turn, cancelled := cancelled, tokensGenerated := n })) := by
  obtain ⟨deltas, finish, rfl, -, -⟩ := h
  refine ⟨deltas.length, ?_⟩
  rw [List.getLast?_append]
  rfl

/-- A submission ends once, and cancelled as the transfer was, exactly if libcurl had a handle
and nobody cancels while the parser is flushed. -/
theorem submitAmong_endsOnce_iff (turn : TurnId) (sch : Schedule α) (state : σ) :
    EndsOnce turn (cb.isCancelled (transferred readChunk cb sch state).2.2.state)
        (submitAmong readChunk cb turn sch state).log ↔
      sch.handle = true ∧
        cb.isCancelled (flushed readChunk cb sch state).state =
          cb.isCancelled (transferred readChunk cb sch state).2.2.state := by
  obtain ⟨deltas, hlog⟩ := flushed_log readChunk cb sch state
  unfold submitAmong
  by_cases hhandle : sch.handle = false
  · rw [if_pos hhandle]
    refine iff_of_false (fun h => ?_) (fun h => by rw [hhandle] at h; cases h.1)
    obtain ⟨n, hlast⟩ := h.getLast?
    simp only [callFinished, List.nil_append, List.getLast?_singleton, Option.some.injEq,
      reduceCtorEq] at hlast
  · have hhandle' : sch.handle = true := by simpa using hhandle
    rw [if_neg hhandle]
    simp only [callFinished, hlog, tokensIn_map, classify_turn, classify_cancelled,
      classify_tokens, List.append_assoc, List.singleton_append]
    constructor
    · intro h
      obtain ⟨n, hlast⟩ := h.getLast?
      rw [List.getLast?_append] at hlast
      simp only [List.getLast?_cons_cons, List.getLast?_singleton, Option.some_or,
        Option.some.injEq, SubmitCall.publish.injEq, Event.llmFinished.injEq,
        LlmFinished.mk.injEq] at hlast
      exact ⟨hhandle', hlast.2.1⟩
    · rintro ⟨-, hsame⟩
      rw [hsame]
      exact ⟨deltas, _, rfl, classify_turn .., classify_cancelled ..⟩

/-- A token that is cancelled by the first delta, as a sentence cap can be. -/
def cancellingCallbacks : LlmCallbacks Bool Unit where
  onToken _ _ := true
  onFinished _ s := s
  isCancelled s := s
  other _ s := s

def chunkText : Bytes :=
  ascii "\x7b\"choices\":[\x7b\"delta\":\x7b\"content\":\"Hi\"\x7d\x7d]\x7d"

def readChunkText (payload : Bytes) : Option SseChunk :=
  if payload = chunkText then some ⟨[some (ascii "Hi")]⟩ else none

/-- Without a handle nothing is published, and an event that no empty line ends cancels the
token behind the transfer's end. -/
theorem submit_not_endsOnce :
    ¬EndsOnce 1 false
      (submitAmong readChunkText cancellingCallbacks 1 { handle := false } false).log ∧
    (transferred readChunkText cancellingCallbacks
        { steps := [(.write (ascii "data: " ++ chunkText), [])] } false).2.2.state = false ∧
      ¬EndsOnce 1 false (submitAmong readChunkText cancellingCallbacks 1
        { steps := [(.write (ascii "data: " ++ chunkText), [])] } false).log := by
  refine ⟨fun h => ?_, by decide +kernel, fun h => ?_⟩
  · obtain ⟨n, hlast⟩ := h.getLast?
    cases hlast
  · obtain ⟨n, hlast⟩ := h.getLast?
    have hcancelled : (submitAmong readChunkText cancellingCallbacks 1
        { steps := [(.write (ascii "data: " ++ chunkText), [])] } false).log.getLast? =
        some (.publish (.llmFinished { turn := 1, cancelled := true, tokensGenerated := 1 })) := by
      decide +kernel
    rw [hcancelled] at hlast
    cases hlast

/-! ## Without interference -/

/-- The recorded stream is the client's own. -/
structure Records (s : Stream σ) (p : SseParser) (r : Recorded σ) : Prop where
  parser : p = s.parser
  state : r.state = s.state
  tokens : tokensIn r.log = s.tokensGenerated

variable {cb} in
theorem handOverAmong_nil_state (deltas : List Bytes) (s : Recorded σ) :
    (handOverAmong cb [] deltas s).state = handOver cb deltas s.state := by
  induction deltas generalizing s with
  | nil => rfl
  | cons delta deltas ih =>
      rw [handOverAmong, ih]
      rfl

variable {readChunk cb} in
theorem Records.deliver {s : Stream σ} {p : SseParser} {r : Recorded σ} (h : Records s p r)
    (p' : SseParser) (out : List SseCallback) :
    Records (deliver readChunk cb p' out s) p'
      (handOverAmong cb [] (deltasOf readChunk out) r) where
  parser := rfl
  state := by
    rw [handOverAmong_nil_state, h.state]
    rfl
  tokens := by
    rw [handOverAmong_log, tokensIn, List.countP_append]
    exact congrArg₂ (· + ·) h.tokens (tokensIn_map _)

theorem Records.perform {s : Stream σ} {p : SseParser} {r : Recorded σ} (h : Records s p r)
    (rc : CurlCode) (steps : List (TransferStep α)) :
    (performAmong readChunk cb rc (steps.map (·, [])) p r).1 =
        (perform readChunk cb rc steps s).1 ∧
      Records (perform readChunk cb rc steps s).2
        (performAmong readChunk cb rc (steps.map (·, [])) p r).2.1
        (performAmong readChunk cb rc (steps.map (·, [])) p r).2.2 := by
  induction steps generalizing s p r with
  | nil => exact ⟨rfl, h⟩
  | cons step steps ih =>
      cases step with
      | write chunk =>
          simp only [List.map_cons, performAmong, LlmClient.perform, h.state, h.parser]
          split
          · exact ⟨rfl, h.parser ▸ h⟩
          · exact ih (h.deliver _ _)
      | progress =>
          simp only [List.map_cons, performAmong, LlmClient.perform, h.state]
          split
          · exact ⟨rfl, h⟩
          · exact ih h
      | other a =>
          refine ih ⟨h.parser, ?_, h.tokens⟩
          show cb.other a r.state = cb.other a s.state
          rw [h.state]

/-- What is published, in order. -/
def publishedIn (log : List SubmitCall) : List Event :=
  log.filterMap fun
    | .publish e => some e
    | _ => none

theorem publishedIn_tokens (deltas : List Bytes) : publishedIn (deltas.map .onToken) = [] := by
  rw [publishedIn, List.filterMap_map]
  exact List.filterMap_eq_nil_iff.mpr fun _ _ => rfl

/-- Then the caller ends where `submit` leaves it, and the bus sees what it publishes. -/
theorem submitAmong_schedule (turn : TurnId) (tr : Transfer α) (state : σ) :
    (submitAmong readChunk cb turn tr.schedule state).state =
        (submit readChunk cb turn tr state).1 ∧
      publishedIn (submitAmong readChunk cb turn tr.schedule state).log =
        (submit readChunk cb turn tr state).2 := by
  unfold submitAmong submit
  by_cases hhandle : tr.handle = false
  · rw [if_pos hhandle, if_pos (show tr.schedule.handle = false from hhandle)]
    exact ⟨rfl, rfl⟩
  · rw [if_neg hhandle, if_neg (show ¬tr.schedule.handle = false from hhandle)]
    have hinitial : Records (σ := σ) { state := state } {} { state := state } := ⟨rfl, rfl, rfl⟩
    obtain ⟨hrc, hend⟩ := hinitial.perform readChunk cb tr.rc tr.steps
    have hflush : Records (drained readChunk cb tr state) (drained readChunk cb tr state).parser
        (flushed readChunk cb tr.schedule state) := by
      simp only [flushed, transferred, Transfer.schedule, hend.parser]
      exact hend.deliver _ _
    obtain ⟨deltas, hlog⟩ := flushed_log readChunk cb tr.schedule state
    have hfinish : classify turn (cb.isCancelled (flushed readChunk cb tr.schedule state).state)
          (transferred readChunk cb tr.schedule state).1 tr.schedule.httpStatus
          (tokensIn (flushed readChunk cb tr.schedule state).log) =
        classify turn (cb.isCancelled (drained readChunk cb tr state).state)
          (perform readChunk cb tr.rc tr.steps { state := state }).1 tr.httpStatus
          (drained readChunk cb tr state).tokensGenerated := by
      rw [hflush.state, hflush.tokens]
      exact congrArg (classify turn _ · _ _) hrc
    constructor
    · simp only [callFinished]
      rw [hfinish, hflush.state]
      rfl
    · simp only [callFinished, hfinish, publishedIn, List.filterMap_append]
      rw [← publishedIn, hlog, publishedIn_tokens]
      rfl

end LlmClient

end Acva.Llm
