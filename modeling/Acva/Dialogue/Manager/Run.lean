import Acva.Dialogue.Manager.Machine
import Acva.Llm.Client

/-! # One run of the manager

`run_one` is the client's caller. While the request streams, the subscription
thread goes on handling events. As long as none of them cancels the turn, what
the run publishes is what the reply alone would publish.
-/

namespace Acva.Dialogue

open Acva.Llm

/-- An event handled on the subscription thread. -/
structure ManagerInput where
  now : TimePoint
  gateOpen : Bool
  event : Event
deriving DecidableEq, Repr

/-- The events that tell the rest of the program about the reply of turn `t`. -/
def replyEvent (t : TurnId) : Event → Bool
  | .llmStarted e => e.turn = t
  | .llmSentence e => e.turn = t
  | .llmFinished e => e.turn = t
  | _ => false

/-- The event asks for the end of turn `t`. -/
def Targets (t : TurnId) : Event → Prop
  | .userInterrupted e => e.turn = kNoTurn ∨ e.turn = t
  | .cancelGeneration e => e.turn = kNoTurn ∨ e.turn = t
  | _ => False

namespace Manager

def handle (i : ManagerInput) (m : Manager) : Manager := m.onEvent i.now i.gateOpen i.event

def handleAll (is : List ManagerInput) (m : Manager) : Manager :=
  is.foldl (fun m i => m.handle i) m

/-- What `run_one` passes to `submit`, beside the events that its thread does not wait for. -/
def llmCallbacks : LlmCallbacks Manager ManagerInput where
  onToken := tokenCallback
  onFinished _ := finishCallback
  isCancelled := tokenCancelled
  other := handle

/-- The turn of the run: the provider's id, or the next one of the factory. -/
def runTurn (id : TurnId) (turns : TurnFactory) : TurnId :=
  if id ≠ kNoTurn then id else turns.next

/-- `run_one` from a taken job up to the call of `submit`. `waiting` is handled while the
prompt is being built. -/
def enterStream (id : TurnId) (turns : TurnFactory) (waiting : List ManagerInput)
    (m : Manager) : Option Manager := do
  let m ← m.askProvider id
  let (m, _) ← m.fixTurn turns
  let (m, _) ← (m.handleAll waiting).runHook
  m.startStream

def runOne (readChunk : Bytes → Option SseChunk) (id : TurnId) (turns : TurnFactory)
    (waiting : List ManagerInput) (tr : Transfer ManagerInput) (m : Manager) :
    Option Manager := do
  let m ← m.enterStream id turns waiting
  let (m, es) := LlmClient.submit readChunk llmCallbacks m.active.id tr m
  return { m with published := m.published ++ es }.endRun

end Manager

/-! ## The reply alone -/

namespace Reply

variable {r : Reply}

/-- The reply as a caller with no other threads. -/
def llmCallbacks : LlmCallbacks Reply ManagerInput where
  onToken := onToken
  onFinished _ := onFinished
  isCancelled r := r.capState = .cancelled
  other _ r := r

theorem llmCallbacks_ignoresCancelled : LlmClient.IgnoresCancelled llmCallbacks := by
  intro delta r h
  have hcap : r.capState = .cancelled := by simpa [llmCallbacks] using h
  show r.onToken delta = r
  rw [onToken, if_pos hcap]

theorem flushSentences_capState (ss : List Bytes) (r : Reply) :
    (flushSentences ss r).capState = r.capState := by
  induction ss generalizing r with
  | nil => rfl
  | cons s ss ih =>
      simp only [flushSentences]
      split
      · rfl
      · rw [ih]
        rfl

theorem onFinished_capState (r : Reply) : r.onFinished.capState = r.capState :=
  flushSentences_capState _ _

end Reply

/-! ## The manager follows its reply -/

namespace Manager

variable {base : List Event} {m : Manager} {r r' : Reply}

/-- The manager's stream serves the reply `r`; `base` is what the bus has seen of the turn
before. -/
structure Serves (base : List Event) (m : Manager) (r : Reply) : Prop where
  io : m.io = .streaming r
  active : m.active.id = r.turn
  token : m.active.token = some { cancelled := decide (r.capState = .cancelled) }
  published : m.published.filter (replyEvent r.turn) =
    base ++ (sentencesOf r.published).map .llmSentence

theorem filter_replyEvent {t : TurnId} {es : List Event} (h : ∀ e ∈ es, Reply.ReplyEvent t e) :
    es.filter (replyEvent t) = (sentencesOf es).map .llmSentence := by
  induction es with
  | nil => rfl
  | cons e es ih =>
      have hrest := ih (fun x hx => h x (List.mem_cons_of_mem _ hx))
      have hone := h e List.mem_cons_self
      cases e with
      | llmSentence e =>
          have hturn : e.turn = t := hone
          have hsome : sentencesOf (.llmSentence e :: es) = e :: sentencesOf es := rfl
          rw [List.filter_cons_of_pos (by simp [replyEvent, hturn]), hrest, hsome, List.map_cons]
      | llmToken e =>
          rw [List.filter_cons_of_neg (by simp [replyEvent]), hrest]
          rfl
      | _ => exact hone.elim

theorem Serves.setReply (h : Serves base m r) (hr : Reply.Continues r r')
    (hcap : r.capState = .cancelled → r'.capState = .cancelled) :
    Serves base (m.setReply r r') r' := by
  obtain ⟨es, hes, hkind⟩ := hr.published
  refine ⟨rfl, ?_, ?_, ?_⟩
  · show (if r'.capState = .cancelled then m.active.cancelToken else m.active).id = r'.turn
    rw [hr.turn, ← h.active]
    split <;> rfl
  · show (if r'.capState = .cancelled then m.active.cancelToken else m.active).token = _
    by_cases hc : r'.capState = .cancelled
    · simp [hc, TurnContext.cancelToken, h.token, CancellationToken.cancel]
    · have hgo : ¬ r.capState = .cancelled := fun hcr => hc (hcap hcr)
      simp [hc, h.token, hgo]
  · have hnew : (m.setReply r r').published = m.published ++ es := by
      simp [Manager.setReply, hes]
    rw [hnew, List.filter_append, hr.turn, h.published, filter_replyEvent hkind, hes,
      sentencesOf_append, List.map_append, List.append_assoc]

theorem Serves.tokenCallback (h : Serves base m r) (delta : Bytes) :
    Serves base (m.tokenCallback delta) (r.onToken delta) := by
  simp only [Manager.tokenCallback, h.io]
  refine h.setReply (Reply.onToken_continues delta r) (fun hc => ?_)
  rwa [Reply.onToken, if_pos hc]

theorem Serves.finishCallback (h : Serves base m r) :
    Serves base m.finishCallback r.onFinished := by
  simp only [Manager.finishCallback, h.io]
  refine h.setReply (Reply.onFinished_continues r) (fun hc => ?_)
  rwa [Reply.onFinished_capState]

theorem Serves.tokenCancelled (h : Serves base m r) :
    m.tokenCancelled = decide (r.capState = .cancelled) := by
  simp [Manager.tokenCancelled, h.token, CancellationToken.isCancelled]

/-- What the subscription thread leaves alone when no event asks for the end of turn `t`. -/
structure KeepsRun (t : TurnId) (m m' : Manager) : Prop where
  cfg : m'.cfg = m.cfg
  io : m'.io = m.io
  active : m'.active = m.active
  published : m'.published.filter (replyEvent t) = m.published.filter (replyEvent t)

theorem cancelActive_of_other {target : TurnId} (h : target ≠ kNoTurn)
    (h' : target ≠ m.active.id) : m.cancelActive target = m := by
  unfold cancelActive
  split
  · rfl
  · exact if_pos ⟨h, h'⟩

theorem handle_keepsRun {i : ManagerInput} {t : TurnId} (h : ¬ Targets t i.event)
    (ht : m.active.id = t) : KeepsRun t m (m.handle i) := by
  obtain ⟨now, gateOpen, e⟩ := i
  have hskip : ∀ e : UserInterrupted, (m.publish (.userInterrupted e)).published.filter
      (replyEvent t) = m.published.filter (replyEvent t) := by
    intro e
    simp [publish, replyEvent]
  have hcancel : ∀ target : TurnId, ¬ (target = kNoTurn ∨ target = t) →
      KeepsRun t m (m.cancelActive target) := by
    intro target hother
    rw [cancelActive_of_other (fun hn => hother (.inl hn))
      (fun ha => hother (.inr (ha.trans ht)))]
    exact ⟨rfl, rfl, rfl, rfl⟩
  cases e with
  | finalTranscript e =>
      simp only [handle, onEvent, onFinalTranscript]
      split
      · exact ⟨rfl, rfl, rfl, hskip _⟩
      · split
        · exact ⟨rfl, rfl, rfl, hskip _⟩
        · exact ⟨rfl, rfl, rfl, rfl⟩
  | userInterrupted e => exact hcancel e.turn h
  | cancelGeneration e => exact hcancel e.turn h
  | _ => exact ⟨rfl, rfl, rfl, rfl⟩

theorem handleAll_keepsRun {is : List ManagerInput} {t : TurnId}
    (h : ∀ i ∈ is, ¬ Targets t i.event) (ht : m.active.id = t) :
    KeepsRun t m (m.handleAll is) := by
  induction is generalizing m with
  | nil => exact ⟨rfl, rfl, rfl, rfl⟩
  | cons i is ih =>
      have hone := handle_keepsRun (h i List.mem_cons_self) ht
      have hrest := ih (m := m.handle i) (fun x hx => h x (List.mem_cons_of_mem _ hx))
        (by rw [hone.active]; exact ht)
      exact ⟨hrest.cfg.trans hone.cfg, hrest.io.trans hone.io, hrest.active.trans hone.active,
        hrest.published.trans hone.published⟩

/-- The manager follows the reply alone, as long as no event asks for the turn's end. -/
theorem llmCallbacks_follows (base : List Event) (t : TurnId) :
    LlmClient.Follows llmCallbacks Reply.llmCallbacks (fun m r => Serves base m r ∧ r.turn = t)
      (fun i => ¬ Targets t i.event) where
  onToken := fun {delta _ r} h =>
    ⟨h.1.tokenCallback delta, (Reply.onToken_continues delta r).turn.trans h.2⟩
  onFinished := fun {_ _ r} h =>
    ⟨h.1.finishCallback, (Reply.onFinished_continues r).turn.trans h.2⟩
  isCancelled h := h.1.tokenCancelled
  other := fun {i m r} hquiet h => by
    obtain ⟨hserves, rfl⟩ := h
    have hkeep := handle_keepsRun hquiet hserves.active
    refine ⟨⟨hkeep.io.trans hserves.io, ?_, ?_, hkeep.published.trans hserves.published⟩, rfl⟩
    · exact (congrArg TurnContext.id hkeep.active).trans hserves.active
    · exact (congrArg TurnContext.token hkeep.active).trans hserves.token

/-! ## A whole run -/

/-- The sentences that the splitter completes from the tokens of the transfer, before the
final flush. -/
def streamedSentences (m : Manager) (readChunk : Bytes → Option SseChunk)
    (tr : Transfer ManagerInput) : List Bytes :=
  (({ cfg := m.cfg.sentenceSplitter } : SentenceSplitter).push (tr.deltas readChunk).flatten).2

/-- The sentences of the whole reply, the final flush included. -/
def replySentences (m : Manager) (readChunk : Bytes → Option SseChunk)
    (tr : Transfer ManagerInput) : List Bytes :=
  splitSentences m.cfg.sentenceSplitter (tr.deltas readChunk).flatten

/-- The stream of the reply, once its hook has run: below the cap the sentences of the turn in
order, and an end that counts as cancelled if the cap cut the stream. -/
theorem submit_published (readChunk : Bytes → Option SseChunk) {tr : Transfer ManagerInput}
    {job : FinalTranscript} (hcap : 0 < m.cfg.maxAssistantSentences) (htr : tr.Succeeds)
    (hquiet : ∀ i, TransferStep.other i ∈ tr.steps → ¬ Targets m.active.id i.event)
    (hserves : Serves base m (m.newReply job)) :
    ∃ ss n, ((m.streamedSentences readChunk tr).length ≤ m.cfg.maxAssistantSentences.toNat →
        ss = numbered m.active.id (m.replyLang job) (m.replySentences readChunk tr)) ∧
      (LlmClient.submit readChunk llmCallbacks m.active.id tr m).1.published.filter
          (replyEvent m.active.id) = base ++ ss.map .llmSentence ∧
      (LlmClient.submit readChunk llmCallbacks m.active.id tr m).2 =
        [.llmFinished
          { turn := m.active.id
            cancelled := m.cfg.maxAssistantSentences.toNat <
              (m.streamedSentences readChunk tr).length
            tokensGenerated := n }] := by
  let r := m.newReply job
  obtain ⟨hfinal, hevents⟩ := (llmCallbacks_follows base m.active.id).submit
    readChunk m.active.id hquiet (r := r) ⟨hserves, rfl⟩
  obtain ⟨n, hsubmit⟩ := LlmClient.submit_of_succeeds readChunk
    Reply.llmCallbacks_ignoresCancelled htr (fun _ _ _ => rfl) m.active.id r
  have hstart : Reply.Streamed { cfg := m.cfg.sentenceSplitter } [] r :=
    Reply.streamed_fresh (r := r) hcap rfl rfl rfl
  have hstreamed := hstart.onTokens (tr.deltas readChunk)
  let last := r.onTokens (tr.deltas readChunk)
  have hover : LlmClient.handOver Reply.llmCallbacks (tr.deltas readChunk) r = last := rfl
  have hcont : Reply.Continues r last := Reply.onTokens_continues _ r
  have hlast := Reply.onFinished_continues last
  rw [hover] at hsubmit
  rw [hsubmit] at hfinal hevents
  have hcapped : last.cap = m.cfg.maxAssistantSentences := hcont.cap
  have hcancelled : Reply.llmCallbacks.isCancelled last =
      decide (m.cfg.maxAssistantSentences.toNat < (m.streamedSentences readChunk tr).length) := by
    have hiff := hstreamed.emitted.cancelled_iff
    rw [hcapped] at hiff
    exact decide_eq_decide.mpr hiff
  have hturn : last.onFinished.turn = m.active.id := hlast.turn.trans hcont.turn
  have hlang : last.onFinished.lang = m.replyLang job := hlast.lang.trans hcont.lang
  have hserved : Serves base (LlmClient.submit readChunk llmCallbacks m.active.id tr m).1
      last.onFinished := hfinal.1
  refine ⟨sentencesOf last.onFinished.published, n, fun hle => ?_, ?_, ?_⟩
  · rw [← hcapped] at hle
    rw [hstreamed.onFinished_of_le hle, ← hturn, ← hlang, hlast.turn, hlast.lang]
    rfl
  · rw [← hserved.published, hturn]
  · rw [hevents, hcancelled]

/-- The manager as it enters `submit`. -/
structure Entered (t : TurnId) (job : FinalTranscript) (m m' : Manager) : Prop where
  cfg : m'.cfg = m.cfg
  active : m'.active.id = t
  serves : Serves (m.published.filter (replyEvent t) ++ [Event.llmStarted { turn := t }]) m'
    (m'.newReply job)

theorem enterStream_entered {id : TurnId} {turns : TurnFactory} {waiting : List ManagerInput}
    {job : FinalTranscript} (hio : m.io = .took job)
    (hwaiting : ∀ i ∈ waiting, ¬ Targets (runTurn id turns) i.event) :
    ∃ m', m.enterStream id turns waiting = some m' ∧ Entered (runTurn id turns) job m m' := by
  let t := runTurn id turns
  let fixed : Manager := { m with active := { id := t, token := some {} }, io := .building job }
  let built := fixed.handleAll waiting
  have hkeep : KeepsRun t fixed built := handleAll_keepsRun hwaiting rfl
  have hid : built.active.id = t := congrArg TurnContext.id hkeep.active
  let hooked : Manager := { built with io := .hooked job }
  let entered : Manager := { hooked.publish (.llmStarted { turn := built.active.id }) with
    io := .streaming (hooked.newReply job) }
  have hfix : ∃ turns', ({ m with io := .asked job id } : Manager).fixTurn turns =
      some (fixed, turns') := by
    by_cases hnone : id = kNoTurn
    · exact ⟨turns.mint.2, by simp [fixTurn, hnone, fixed, t, runTurn, TurnFactory.mint]⟩
    · exact ⟨turns, by simp [fixTurn, hnone, fixed, t, runTurn, TurnFactory.adopt]⟩
  obtain ⟨turns', hfix⟩ := hfix
  have hhook : (fixed.handleAll waiting).runHook = some (hooked, built.active.id) := by
    have hbuilt : (fixed.handleAll waiting).io = .building job := hkeep.io
    simp only [runHook, hbuilt, hooked, built]
  refine ⟨entered, ?_, hkeep.cfg, hid, rfl, rfl, congrArg TurnContext.token hkeep.active, ?_⟩
  · simp only [enterStream, askProvider, hio, Option.bind_eq_bind, Option.bind_some, hfix, hhook]
    rfl
  · have hnew : entered.published = built.published ++ [Event.llmStarted { turn := t }] := by
      rw [← hid]
      rfl
    have hturn : (entered.newReply job).turn = t := hid
    rw [hturn, hnew, List.filter_append, hkeep.published]
    simp [replyEvent, newReply, fixed, t]

/-- What a run publishes about its turn, if nothing asks for the turn's end and the server
answers in full. -/
theorem runOne_published {readChunk : Bytes → Option SseChunk} {id : TurnId}
    {turns : TurnFactory} {waiting : List ManagerInput} {tr : Transfer ManagerInput}
    {job : FinalTranscript} (hio : m.io = .took job) (hcap : 0 < m.cfg.maxAssistantSentences)
    (htr : tr.Succeeds)
    (hwaiting : ∀ i ∈ waiting, ¬ Targets (runTurn id turns) i.event)
    (hquiet : ∀ i, TransferStep.other i ∈ tr.steps → ¬ Targets (runTurn id turns) i.event) :
    ∃ m' ss n, m.runOne readChunk id turns waiting tr = some m' ∧
      ((m.streamedSentences readChunk tr).length ≤ m.cfg.maxAssistantSentences.toNat →
        ss = numbered (runTurn id turns) (m.replyLang job) (m.replySentences readChunk tr)) ∧
      m'.published.filter (replyEvent (runTurn id turns)) =
        m.published.filter (replyEvent (runTurn id turns)) ++
          Event.llmStarted { turn := runTurn id turns } :: ss.map .llmSentence ++
          [Event.llmFinished
            { turn := runTurn id turns
              cancelled := m.cfg.maxAssistantSentences.toNat <
                (m.streamedSentences readChunk tr).length
              tokensGenerated := n }] := by
  obtain ⟨entered, henter, hcfg, hid, hserves⟩ := enterStream_entered hio hwaiting
  have hsentences : entered.streamedSentences readChunk tr = m.streamedSentences readChunk tr := by
    simp only [streamedSentences, hcfg]
  have hwhole : entered.replySentences readChunk tr = m.replySentences readChunk tr := by
    simp only [replySentences, hcfg]
  have hlang : entered.replyLang job = m.replyLang job := by simp only [replyLang, hcfg]
  obtain ⟨ss, n, hss, hpublished, hevents⟩ := submit_published readChunk
    (hcfg ▸ hcap) htr (hid ▸ hquiet) hserves
  rw [hsentences, hcfg, hid, hlang, hwhole] at hss
  rw [hsentences, hcfg, hid] at hevents
  rw [hid] at hpublished
  refine ⟨_, ss, n, by simp only [runOne, henter, Option.bind_eq_bind, Option.bind_some]; rfl,
    hss, ?_⟩
  show List.filter _ (_ ++ _) = _
  rw [List.filter_append, hid, hpublished, hevents]
  simp [replyEvent]

end Manager

end Acva.Dialogue
