import Acva.Llm.SseParser

/-! # The LLM client

`submit` runs one streamed transfer on the caller's thread and calls back into
the caller, whose state is a parameter. libcurl is seen through what it does:
it hands over chunks and asks whether to go on, and it stops as soon as a
callback says so. The reader of the JSON chunks is a parameter too.
-/

namespace Acva.Llm

/-- A streamed chunk as far as it is read: the `content` of each choice's delta. -/
structure SseChunk where
  choices : List (Option Bytes)
deriving DecidableEq, Repr

structure LlmFinish where
  turn : TurnId
  cancelled : Bool := false
  error : Bool := false
  errorMessage : Bytes := []
  tokensGenerated : Nat := 0
deriving DecidableEq, Repr

/-- The caller's callbacks, its cancellation token, and what its other threads do to its
state. -/
structure LlmCallbacks (σ α : Type) where
  onToken : Bytes → σ → σ
  onFinished : LlmFinish → σ → σ
  isCancelled : σ → Bool
  other : α → σ → σ

/-- What happens during `curl_easy_perform`. -/
inductive TransferStep (α : Type)
  /-- A chunk is handed to the write callback. -/
  | write (chunk : Bytes)
  /-- The progress callback is asked. -/
  | progress
  /-- Another thread of the caller moves. -/
  | other (a : α)
deriving DecidableEq, Repr

/-- `CURLcode`, with the text that `curl_easy_strerror` has for it. -/
inductive CurlCode
  | ok
  | writeError
  | abortedByCallback
  | failed (message : Bytes)
deriving DecidableEq, Repr

def CurlCode.message : CurlCode → Bytes
  | .ok => ascii "No error"
  | .writeError => ascii "Failed writing received data to disk/application"
  | .abortedByCallback => ascii "Operation was aborted by an application callback"
  | .failed message => message

/-- One transfer as the network would have it: `rc` is the result if no callback stops it.
`handle = false` is a failed `curl_easy_init`. -/
structure Transfer (α : Type) where
  handle : Bool := true
  steps : List (TransferStep α) := []
  rc : CurlCode := .ok
  httpStatus : Nat := 200
deriving DecidableEq, Repr

/-- The delta of a data payload, if it carries one. -/
def deltaOf (readChunk : Bytes → Option SseChunk) : SseCallback → Option Bytes
  | .data payload =>
      match readChunk payload with
      | some ⟨some delta :: _⟩ => if delta = [] then none else some delta
      -- malformed, without choices, or without content
      | _ => none
  | _ => none

def deltasOf (readChunk : Bytes → Option SseChunk) (out : List SseCallback) : List Bytes :=
  out.filterMap (deltaOf readChunk)

/-- What `submit` keeps while the transfer runs. -/
structure Stream (σ : Type) where
  parser : SseParser := {}
  state : σ
  tokensGenerated : Nat := 0

namespace LlmClient

variable {σ α : Type}

section
variable (readChunk : Bytes → Option SseChunk) (cb : LlmCallbacks σ α)

/-- Call back for every delta among the parser's callbacks. -/
def deliver (p : SseParser) (out : List SseCallback) (s : Stream σ) : Stream σ :=
  let deltas := deltasOf readChunk out
  { parser := p
    state := deltas.foldl (fun s delta => cb.onToken delta s) s.state
    tokensGenerated := s.tokensGenerated + deltas.length }

/-- `curl_easy_perform`. -/
def perform (rc : CurlCode) : List (TransferStep α) → Stream σ → CurlCode × Stream σ
  | [], s => (rc, s)
  | .write chunk :: rest, s =>
      if cb.isCancelled s.state = true then (.writeError, s)
      else
        let (p, out) := s.parser.feed chunk
        perform rc rest (deliver readChunk cb p out s)
  | .progress :: rest, s =>
      if cb.isCancelled s.state = true then (.abortedByCallback, s) else perform rc rest s
  | .other a :: rest, s => perform rc rest { s with state := cb.other a s.state }

/-- The classification of the finish. -/
def classify (turn : TurnId) (cancelled : Bool) (rc : CurlCode) (httpStatus tokens : Nat) :
    LlmFinish :=
  if cancelled = true then { turn := turn, cancelled := true, tokensGenerated := tokens }
  else if rc ≠ .ok then
    { turn := turn, error := true, errorMessage := rc.message, tokensGenerated := tokens }
  else if httpStatus ≠ 200 then
    { turn := turn, error := true, tokensGenerated := tokens
      errorMessage := ascii "http " ++ ascii (toString httpStatus) }
  else { turn := turn, tokensGenerated := tokens }

/-- The state of the caller after the call, and what the client publishes itself. -/
def submit (turn : TurnId) (tr : Transfer α) (state : σ) : σ × List Event :=
  if tr.handle = false then
    let finish : LlmFinish :=
      { turn := turn, error := true, errorMessage := ascii "curl_easy_init failed" }
    (cb.onFinished finish state, [])
  else
    let (rc, s) := perform readChunk cb tr.rc tr.steps { state := state }
    let (p, out) := s.parser.finish
    let s := deliver readChunk cb p out s
    let finish := classify turn (cb.isCancelled s.state) rc tr.httpStatus s.tokensGenerated
    (cb.onFinished finish s.state,
      [.llmFinished { turn := finish.turn, cancelled := finish.cancelled,
                      tokensGenerated := finish.tokensGenerated }])

/-- The stream when the transfer is over and the parser is flushed. -/
def drained (tr : Transfer α) (state : σ) : Stream σ :=
  let s := (perform readChunk cb tr.rc tr.steps { state := state }).2
  deliver readChunk cb s.parser.finish.1 s.parser.finish.2 s

end

theorem classify_turn (turn : TurnId) (cancelled : Bool) (rc : CurlCode) (httpStatus n : Nat) :
    (classify turn cancelled rc httpStatus n).turn = turn := by
  unfold classify
  repeat' split
  all_goals rfl

theorem classify_cancelled (turn : TurnId) (cancelled : Bool) (rc : CurlCode)
    (httpStatus n : Nat) : (classify turn cancelled rc httpStatus n).cancelled = cancelled := by
  unfold classify
  split
  next hc => exact hc.symm
  next hc =>
    have hfalse : cancelled = false := by simpa using hc
    rw [hfalse]
    repeat' split
    all_goals rfl

theorem classify_tokens (turn : TurnId) (cancelled : Bool) (rc : CurlCode) (httpStatus n : Nat) :
    (classify turn cancelled rc httpStatus n).tokensGenerated = n := by
  unfold classify
  repeat' split
  all_goals rfl

/-- The end of a reply is published as cancelled exactly if the caller's token is. -/
theorem submit_of_handle (readChunk : Bytes → Option SseChunk) (cb : LlmCallbacks σ α)
    {tr : Transfer α} (h : tr.handle ≠ false) (turn : TurnId) (state : σ) :
    let s := drained readChunk cb tr state
    ∃ finish, submit readChunk cb turn tr state =
      (cb.onFinished finish s.state,
        [.llmFinished { turn := turn, cancelled := cb.isCancelled s.state,
                        tokensGenerated := s.tokensGenerated }]) := by
  simp only [submit, if_neg h, classify_turn, classify_cancelled, classify_tokens, drained]
  exact ⟨_, rfl⟩

end LlmClient

/-! ## The stream without interference -/

/-- The chunks among the steps of a transfer. -/
def chunksOf {α : Type} (steps : List (TransferStep α)) : List Bytes :=
  steps.filterMap fun
    | .write chunk => some chunk
    | _ => none

/-- The deltas of a stream that is read to its end, the unfinished last event included. -/
def streamDeltas (readChunk : Bytes → Option SseChunk) (chunks : List Bytes) (p : SseParser) :
    List Bytes :=
  let (p, out) := p.feedAll chunks
  deltasOf readChunk (out ++ p.finish.2)

theorem deltasOf_append (readChunk : Bytes → Option SseChunk) (as bs : List SseCallback) :
    deltasOf readChunk (as ++ bs) = deltasOf readChunk as ++ deltasOf readChunk bs :=
  List.filterMap_append

theorem streamDeltas_cons (readChunk : Bytes → Option SseChunk) (c : Bytes) (cs : List Bytes)
    (p : SseParser) :
    streamDeltas readChunk (c :: cs) p =
      deltasOf readChunk (p.feed c).2 ++ streamDeltas readChunk cs (p.feed c).1 := by
  simp only [streamDeltas, SseParser.feedAll, ← deltasOf_append, List.append_assoc]

namespace Transfer

/-- The deltas that the whole transfer carries. -/
def deltas {α : Type} (readChunk : Bytes → Option SseChunk) (tr : Transfer α) : List Bytes :=
  streamDeltas readChunk (chunksOf tr.steps) {}

/-- The server answers in full. -/
structure Succeeds {α : Type} (tr : Transfer α) : Prop where
  handle : tr.handle = true
  rc : tr.rc = .ok
  httpStatus : tr.httpStatus = 200

end Transfer

namespace LlmClient

variable {σ ρ α : Type} {readChunk : Bytes → Option SseChunk} {cb : LlmCallbacks σ α}

/-- Hand the deltas to the caller one by one. -/
def handOver (cb : LlmCallbacks σ α) (deltas : List Bytes) (s : σ) : σ :=
  deltas.foldl (fun s delta => cb.onToken delta s) s

theorem handOver_append (cb : LlmCallbacks σ α) (as bs : List Bytes) (s : σ) :
    handOver cb (as ++ bs) s = handOver cb bs (handOver cb as s) := List.foldl_append

/-- Tokens that come after the cancel change nothing. -/
def IgnoresCancelled (cb : LlmCallbacks σ α) : Prop :=
  ∀ delta s, cb.isCancelled s = true → cb.onToken delta s = s

/-- What the other threads do does not concern the request. -/
def Undisturbed (cb : LlmCallbacks σ α) (steps : List (TransferStep α)) : Prop :=
  ∀ a, TransferStep.other a ∈ steps → ∀ s, cb.other a s = s

theorem handOver_of_cancelled (hcb : IgnoresCancelled cb) (deltas : List Bytes) {s : σ}
    (h : cb.isCancelled s = true) : handOver cb deltas s = s := by
  induction deltas with
  | nil => rfl
  | cons delta deltas ih =>
      have hone : handOver cb (delta :: deltas) s = handOver cb deltas (cb.onToken delta s) := rfl
      rw [hone, hcb delta s h, ih]

@[simp] theorem deliver_state (p : SseParser) (out : List SseCallback) (s : Stream σ) :
    (deliver readChunk cb p out s).state = handOver cb (deltasOf readChunk out) s.state := rfl

@[simp] theorem deliver_sse (p : SseParser) (out : List SseCallback) (s : Stream σ) :
    (deliver readChunk cb p out s).parser = p := rfl

/-- Whether or not a callback stops the transfer, the caller ends in the state that all its
deltas lead to; and a transfer that is not cancelled in the end was not stopped. -/
theorem perform_finish (readChunk : Bytes → Option SseChunk) (hcb : IgnoresCancelled cb)
    (rc : CurlCode)
    {steps : List (TransferStep α)} (hsteps : Undisturbed cb steps) (s : Stream σ) :
    let ended := perform readChunk cb rc steps s
    let final := handOver cb (streamDeltas readChunk (chunksOf steps) s.parser) s.state
    handOver cb (deltasOf readChunk ended.2.parser.finish.2) ended.2.state = final ∧
      (cb.isCancelled final = false → ended.1 = rc) := by
  induction steps generalizing s with
  | nil => exact ⟨rfl, fun _ => rfl⟩
  | cons step steps ih =>
      have hrest : Undisturbed cb steps := fun a h => hsteps a (List.mem_cons_of_mem _ h)
      have hstopped : ∀ deltas deltas' : List Bytes, ∀ rc' : CurlCode,
          cb.isCancelled s.state = true →
            handOver cb deltas s.state = handOver cb deltas' s.state ∧
              (cb.isCancelled (handOver cb deltas' s.state) = false → rc' = rc) := by
        intro deltas deltas' rc' hc
        rw [handOver_of_cancelled hcb _ hc, handOver_of_cancelled hcb _ hc]
        exact ⟨rfl, fun hgo => by simp [hc] at hgo⟩
      cases step with
      | write chunk =>
          simp only [perform]
          split
          next hc => exact hstopped _ _ _ hc
          next =>
            have hone := ih hrest (deliver readChunk cb (s.parser.feed chunk).1
              (s.parser.feed chunk).2 s)
            have hchunks : chunksOf (.write chunk :: steps) = chunk :: chunksOf steps := rfl
            rw [hchunks, streamDeltas_cons, handOver_append]
            exact hone
      | progress =>
          simp only [perform]
          split
          next hc => exact hstopped _ _ _ hc
          next => exact ih hrest s
      | other a =>
          simp only [perform, hsteps a List.mem_cons_self]
          exact ih hrest s

/-- A submission that the server answers in full: the caller has seen all deltas, the finish
is an error for nobody, and it is a cancel if and only if the caller asked for one. -/
theorem submit_of_succeeds (readChunk : Bytes → Option SseChunk) (hcb : IgnoresCancelled cb)
    {tr : Transfer α} (htr : tr.Succeeds)
    (hsteps : Undisturbed cb tr.steps) (turn : TurnId) (s : σ) :
    let final := handOver cb (tr.deltas readChunk) s
    ∃ tokens, submit readChunk cb turn tr s =
      (cb.onFinished { turn := turn, cancelled := cb.isCancelled final,
                       tokensGenerated := tokens } final,
        [.llmFinished { turn := turn, cancelled := cb.isCancelled final,
                        tokensGenerated := tokens }]) := by
  obtain ⟨hstate, hrc⟩ := perform_finish readChunk hcb tr.rc hsteps
    { state := s }
  have hhandle : ¬ tr.handle = false := by simp [htr.handle]
  simp only [submit, if_neg hhandle, deliver_state, Transfer.deltas]
  rw [hstate]
  generalize (deliver readChunk cb _ _ _).tokensGenerated = tokens
  refine ⟨tokens, ?_⟩
  cases hc : cb.isCancelled (handOver cb (streamDeltas readChunk (chunksOf tr.steps) {}) s) with
  | true => rfl
  | false =>
      have hok : (perform readChunk cb tr.rc tr.steps { state := s }).1 = .ok :=
        (hrc hc).trans htr.rc
      simp only [classify, hok, htr.httpStatus]
      rfl

/-! ## Two callers -/

/-- `cb'` follows `cb` through the relation `R`, as far as the other threads only do what is
`quiet`. -/
structure Follows (cb : LlmCallbacks σ α) (cb' : LlmCallbacks ρ α) (R : σ → ρ → Prop)
    (quiet : α → Prop) : Prop where
  onToken : ∀ {delta s r}, R s r → R (cb.onToken delta s) (cb'.onToken delta r)
  onFinished : ∀ {finish s r}, R s r → R (cb.onFinished finish s) (cb'.onFinished finish r)
  isCancelled : ∀ {s r}, R s r → cb.isCancelled s = cb'.isCancelled r
  other : ∀ {a s r}, quiet a → R s r → R (cb.other a s) (cb'.other a r)

section
variable {cb' : LlmCallbacks ρ α} {R : σ → ρ → Prop} {quiet : α → Prop}

theorem Follows.handOver (h : Follows cb cb' R quiet) (deltas : List Bytes) {s : σ} {r : ρ}
    (hr : R s r) : R (handOver cb deltas s) (handOver cb' deltas r) := by
  induction deltas generalizing s r with
  | nil => exact hr
  | cons delta deltas ih => exact ih (h.onToken hr)

/-- Two streams that differ in the caller only. -/
structure SameStream (R : σ → ρ → Prop) (s : Stream σ) (r : Stream ρ) : Prop where
  parser : s.parser = r.parser
  state : R s.state r.state
  tokens : s.tokensGenerated = r.tokensGenerated

theorem Follows.deliver (h : Follows cb cb' R quiet) (readChunk : Bytes → Option SseChunk)
    (p : SseParser) (out : List SseCallback)
    {s : Stream σ} {r : Stream ρ} (hr : SameStream R s r) :
    SameStream R (deliver readChunk cb p out s) (deliver readChunk cb' p out r) :=
  ⟨rfl, h.handOver _ hr.state, congrArg (· + (deltasOf readChunk out).length) hr.tokens⟩

theorem Follows.perform (h : Follows cb cb' R quiet) (readChunk : Bytes → Option SseChunk)
    (rc : CurlCode) {steps : List (TransferStep α)}
    (hquiet : ∀ a, TransferStep.other a ∈ steps → quiet a)
    {s : Stream σ} {r : Stream ρ} (hr : SameStream R s r) :
    (perform readChunk cb rc steps s).1 = (perform readChunk cb' rc steps r).1 ∧
      SameStream R (perform readChunk cb rc steps s).2 (perform readChunk cb' rc steps r).2 := by
  induction steps generalizing s r with
  | nil => exact ⟨rfl, hr⟩
  | cons step steps ih =>
      have hrest : ∀ a, TransferStep.other a ∈ steps → quiet a :=
        fun a ha => hquiet a (List.mem_cons_of_mem _ ha)
      cases step with
      | write chunk =>
          simp only [LlmClient.perform, h.isCancelled hr.state, hr.parser]
          split
          · exact ⟨rfl, hr⟩
          · exact ih hrest (h.deliver _ _ _ hr)
      | progress =>
          simp only [LlmClient.perform, h.isCancelled hr.state]
          split
          · exact ⟨rfl, hr⟩
          · exact ih hrest hr
      | other a =>
          exact ih hrest ⟨hr.parser, h.other (hquiet a List.mem_cons_self) hr.state, hr.tokens⟩

/-- What the client publishes depends on the caller only through its token. -/
theorem Follows.submit (h : Follows cb cb' R quiet) (readChunk : Bytes → Option SseChunk)
    (turn : TurnId) {tr : Transfer α}
    (hquiet : ∀ a, TransferStep.other a ∈ tr.steps → quiet a) {s : σ} {r : ρ} (hr : R s r) :
    R (submit readChunk cb turn tr s).1 (submit readChunk cb' turn tr r).1 ∧
      (submit readChunk cb turn tr s).2 = (submit readChunk cb' turn tr r).2 := by
  obtain ⟨hrc, hsame⟩ := h.perform readChunk tr.rc hquiet
    (s := { state := s }) (r := { state := r }) ⟨rfl, hr, rfl⟩
  simp only [LlmClient.submit]
  split
  · exact ⟨h.onFinished hr, rfl⟩
  · rw [hrc, hsame.parser]
    have hlast := h.deliver readChunk
      (LlmClient.perform readChunk cb' tr.rc tr.steps { state := r }).2.parser.finish.1
      (LlmClient.perform readChunk cb' tr.rc tr.steps { state := r }).2.parser.finish.2 hsame
    rw [h.isCancelled hlast.state, hlast.tokens]
    exact ⟨h.onFinished hlast.state, rfl⟩

end

end LlmClient

end Acva.Llm
