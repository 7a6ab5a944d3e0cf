import Acva.Dialogue.Manager.Run

/-! # The sentence cap over a whole reply

A client that hands over deltas until the token is cancelled, and finishes once. Where
nobody else cancels, the reply is a prefix of the splitter's sentences, one past the cap
at most.
-/

namespace Acva.Dialogue

namespace Reply

variable {r : Reply} {texts : List Bytes}

/-- The final flush goes on to the backstop. -/
theorem sentencesOf_flushSentences (hcap : 0 < r.cap) (hroom : r.cap.toNat + 1 < 2 ^ 32)
    (hseq : r.seq = UInt32.ofNat texts.length) (hle : texts.length ≤ r.cap.toNat + 1)
    (hsent : sentencesOf r.published = numbered r.turn r.lang texts) (ss : List Bytes) :
    sentencesOf (flushSentences ss r).published =
      numbered r.turn r.lang ((texts ++ ss).take (r.cap.toNat + 1)) := by
  induction ss generalizing texts r with
  | nil =>
      rw [List.append_nil, List.take_of_length_le hle]
      exact hsent
  | cons s ss ih =>
      have hseqNat : r.seq.toNat = texts.length := by
        rw [hseq, UInt32.toNat_ofNat', Nat.mod_eq_of_lt (by omega)]
      have hback : r.pastBackstop = true ↔ r.cap.toNat + 1 ≤ texts.length := by
        rw [pastBackstop_iff hcap, hseqNat]
        exact and_iff_right hroom
      simp only [flushSentences]
      split
      next hpast =>
        have hfull := hback.mp hpast
        rw [List.take_append_of_le_length hfull, List.take_of_length_le hle]
        exact hsent
      next hpast =>
        have hmore : ¬r.cap.toNat + 1 ≤ texts.length := mt hback.mpr hpast
        have hone : sentencesOf (r.publishSentence s).published =
            numbered r.turn r.lang (texts ++ [s]) := by
          simp only [publishSentence, publish, sentencesOf_append, hsent, numbered_concat,
            sentencesOf_llmSentence, hseqNat]
        have hlen : (texts ++ [s]).length = texts.length + 1 := by simp
        have hseq' : (r.publishSentence s).seq = UInt32.ofNat (texts ++ [s]).length := by
          rw [hlen, UInt32.ofNat_add, ← hseq]
          rfl
        have hle' : (texts ++ [s]).length ≤ (r.publishSentence s).cap.toNat + 1 := by
          rw [hlen]
          show _ ≤ r.cap.toNat + 1
          omega
        have hcap' : 0 < (r.publishSentence s).cap := hcap
        have hrest := ih hcap' hroom hseq' hle' hone
        rw [List.append_assoc, List.singleton_append] at hrest
        exact hrest

/-- What the finish callback leaves on the bus: the splitter's sentences, cut one past the
cap. -/
theorem Streamed.onFinished {cfg : SentenceSplitterConfig} {fed : Bytes}
    (h : Streamed { cfg := cfg } fed r) (hroom : r.cap.toNat + 1 < 2 ^ 32) :
    sentencesOf r.onFinished.published =
      numbered r.turn r.lang ((splitSentences cfg fed).take (r.cap.toNat + 1)) := by
  by_cases hover : r.cap.toNat < (({ cfg := cfg } : SentenceSplitter).push fed).2.length
  · let pushed := (({ cfg := cfg } : SentenceSplitter).push fed).2
    let fedReply : Reply := { r with splitter := r.splitter.flush.1 }
    have hfull : (pushed.take (r.cap.toNat + 1)).length = r.cap.toNat + 1 := by
      rw [List.length_take]
      exact Nat.min_eq_left hover
    have hseq' : fedReply.seq = UInt32.ofNat (pushed.take (r.cap.toNat + 1)).length := by
      rw [List.length_take, Nat.min_comm]
      exact h.emitted.seq
    refine (sentencesOf_flushSentences (r := fedReply) h.emitted.cap_pos hroom hseq'
      (Nat.le_of_eq hfull) h.emitted.sentences r.splitter.flush.2).trans ?_
    show numbered r.turn r.lang
      ((pushed.take (r.cap.toNat + 1) ++ r.splitter.flush.2).take (r.cap.toNat + 1)) =
      numbered r.turn r.lang ((pushed ++ _).take (r.cap.toNat + 1))
    rw [List.take_left' hfull, List.take_append_of_le_length hover]
  · have hle := Nat.not_lt.mp hover
    have hone : (splitSentences cfg fed).length ≤ r.cap.toNat + 1 := by
      have hflush := (({ cfg := cfg } : SentenceSplitter).push fed).1.flush_length_le
      simp only [splitSentences, List.length_append]
      omega
    rw [h.onFinished_of_le hle, List.take_of_length_le hone]

end Reply

/-! ## The client -/

/-- What happens between `LlmStarted` and the end of a request. -/
inductive ClientStep
  /-- The subscription thread handles an event. -/
  | event (i : ManagerInput)
  /-- The next delta of the stream. -/
  | token (delta : Bytes)
deriving DecidableEq, Repr

/-- The token stream, in its deltas. -/
def deltasIn (steps : List ClientStep) : List Bytes :=
  steps.filterMap fun
    | .token delta => some delta
    | .event _ => none

namespace Manager

variable {base : List Event} {m : Manager} {r : Reply}

/-- No delta is handed over once the token is cancelled. -/
def clientRun : List ClientStep → Manager → Manager
  | [], m => m
  | .event i :: rest, m => clientRun rest (m.handle i)
  | .token delta :: rest, m =>
      clientRun rest (if m.tokenCancelled = true then m else m.tokenCallback delta)

/-- The manager serves the reply that has seen all deltas. -/
theorem Serves.clientRun (h : Serves base m r) {steps : List ClientStep}
    (hquiet : ∀ i, ClientStep.event i ∈ steps → ¬Targets r.turn i.event) :
    Serves base (m.clientRun steps) (r.onTokens (deltasIn steps)) := by
  induction steps generalizing m r with
  | nil => exact h
  | cons step steps ih =>
      cases step with
      | event i =>
          obtain ⟨hserves, -⟩ := (llmCallbacks_follows base r.turn).other
            (hquiet i List.mem_cons_self) ⟨h, rfl⟩
          exact ih hserves fun j hj => hquiet j (List.mem_cons_of_mem _ hj)
      | token delta =>
          have hrest : ∀ j, ClientStep.event j ∈ steps →
              ¬Targets (r.onToken delta).turn j.event := by
            intro j hj
            rw [(Reply.onToken_continues delta r).turn]
            exact hquiet j (List.mem_cons_of_mem _ hj)
          have hstep : Serves base
              (if m.tokenCancelled = true then m else m.tokenCallback delta) (r.onToken delta) := by
            split
            next hc =>
              rw [h.tokenCancelled, decide_eq_true_eq] at hc
              rwa [Reply.onToken, if_pos hc]
            next => exact h.tokenCallback delta
          exact ih hstep hrest

/-- A reply under a cap: `m` is as before the run, `m'` as the client is about to finish. -/
structure RepliesCapped (m : Manager) (t : TurnId) (lang : Bytes) (cap : Nat)
    (sentences : List Bytes) (m' : Manager) : Prop where
  published : m'.finishCallback.published.filter (replyEvent t) =
    m.published.filter (replyEvent t) ++ Event.llmStarted { turn := t } ::
      (numbered t lang (sentences.take (cap + 1))).map .llmSentence
  cancelled : ∃ texts, m'.published.filter (replyEvent t) =
      m.published.filter (replyEvent t) ++ Event.llmStarted { turn := t } ::
        (numbered t lang texts).map .llmSentence ∧
    (m'.tokenCancelled = true ↔ texts.length = cap + 1)
  -- the flush does not cancel
  finished : m'.finishCallback.tokenCancelled = m'.tokenCancelled

/-- Whatever the deltas are, the run publishes the first sentences of the whole stream, up to
one past the cap, and cancels the stream exactly if it had come that far before the flush. -/
theorem run_repliesCapped {job : FinalTranscript} (hio : m.io = .took job)
    (hcap : 1 ≤ m.cfg.maxAssistantSentences)
    (hroom : m.cfg.maxAssistantSentences.toNat + 1 < 2 ^ 32) (id : TurnId) (turns : TurnFactory)
    (waiting : List ManagerInput) (steps : List ClientStep)
    (hwaiting : ∀ i ∈ waiting, ¬Targets (runTurn id turns) i.event)
    (hquiet : ∀ i, ClientStep.event i ∈ steps → ¬Targets (runTurn id turns) i.event) :
    ∃ m', m.enterStream id turns waiting = some m' ∧
      RepliesCapped m (runTurn id turns) (m.replyLang job) m.cfg.maxAssistantSentences.toNat
        (splitSentences m.cfg.sentenceSplitter (deltasIn steps).flatten) (m'.clientRun steps) := by
  obtain ⟨m', henter, hcfg, hid, hserves⟩ := enterStream_entered hio hwaiting
  refine ⟨m', henter, ?_⟩
  let fresh := m'.newReply job
  let last := fresh.onTokens (deltasIn steps)
  have hturn : fresh.turn = runTurn id turns := hid
  have hcont : Reply.Continues fresh last := Reply.onTokens_continues _ _
  have hcap' : last.cap = m.cfg.maxAssistantSentences := by
    rw [hcont.cap, ← hcfg]
    rfl
  have hlang : last.lang = m.replyLang job := by
    rw [hcont.lang]
    show m'.replyLang job = _
    simp only [replyLang, hcfg]
  have hlastTurn : last.turn = runTurn id turns := hcont.turn.trans hturn
  have hpos : 0 < fresh.cap := by
    rw [← hcfg] at hcap
    exact UInt32.lt_iff_toNat_lt.mpr (UInt32.le_iff_toNat_le.mp hcap)
  have hstart : Reply.Streamed { cfg := m.cfg.sentenceSplitter } [] fresh := by
    rw [← hcfg]
    exact Reply.streamed_fresh (r := fresh) hpos rfl rfl rfl
  have hstreamed : Reply.Streamed { cfg := m.cfg.sentenceSplitter } (deltasIn steps).flatten last :=
    hstart.onTokens (deltasIn steps)
  have hserved : Serves _ (m'.clientRun steps) last := hserves.clientRun (hturn ▸ hquiet)
  have hfinished := hserved.finishCallback
  have hfinal := Reply.onFinished_continues last
  have hflat : ∀ texts : List Bytes,
      (m.published.filter (replyEvent (runTurn id turns)) ++
          [Event.llmStarted { turn := runTurn id turns }]) ++
        (numbered (runTurn id turns) (m.replyLang job) texts).map .llmSentence =
      m.published.filter (replyEvent (runTurn id turns)) ++
        Event.llmStarted { turn := runTurn id turns } ::
          (numbered (runTurn id turns) (m.replyLang job) texts).map .llmSentence := by
    intro texts
    rw [List.append_assoc, List.singleton_append]
  refine ⟨?_, ?_, ?_⟩
  · have hpublished := hfinished.published
    rw [hfinal.turn, hlastTurn, hstreamed.onFinished (hcap' ▸ hroom), hlastTurn, hlang,
      hcap'] at hpublished
    rw [hpublished, hflat]
  · have hpublished := hserved.published
    rw [hstreamed.emitted.sentences, hlastTurn, hlang, hcap', hflat] at hpublished
    refine ⟨_, hpublished, ?_⟩
    have hlimit := hstreamed.emitted.cancelled_iff
    rw [hserved.tokenCancelled, decide_eq_true_eq, hlimit, hcap', List.length_take]
    omega
  · rw [hfinished.tokenCancelled, hserved.tokenCancelled, Reply.onFinished_capState]

/-- A cap of one over three sentences in two deltas; an event of another turn comes between. -/
theorem run_repliesCapped_one :
    let job : FinalTranscript := { turn := 3, text := ascii "Hello" }
    let m : Manager := { cfg := { maxAssistantSentences := 1 }, io := .took job }
    let steps : List ClientStep := [.token (ascii "Yes! N"),
      .event { now := 0, gateOpen := true, event := .userInterrupted { turn := 9, ts := 0 } },
      .token (ascii "o? Well! ")]
    ∃ m', m.enterStream 3 {} [] = some m' ∧
      RepliesCapped m (runTurn 3 {}) (m.replyLang job) 1
        (splitSentences {} (deltasIn steps).flatten) (m'.clientRun steps) := by
  intro job m steps
  refine run_repliesCapped (m := m) rfl (by decide) (by decide) 3 {} [] steps
    (fun _ h => by cases h) ?_
  intro i hi
  simp only [steps, List.mem_cons, reduceCtorEq, ClientStep.event.injEq, List.not_mem_nil,
    or_false, false_or] at hi
  rw [hi]
  rintro (h | h)
  · exact absurd h (by decide)
  · exact absurd h (by decide)

end Manager

end Acva.Dialogue
