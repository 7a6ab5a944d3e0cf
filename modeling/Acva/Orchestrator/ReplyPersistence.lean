import Acva.Orchestrator.DialogueStack
import Acva.Dialogue.Manager.Run
import Acva.Dialogue.TurnWriter.Calculus

/-! # From the token stream to the row

An uninterrupted reply passes from the client through the manager's sentence cap
to the turn writer. The cap ends a stream with the token that an interruption
also uses, and the writer takes the end for an interruption.
-/

namespace Acva.Orchestrator

open Acva.Dialogue Acva.Llm Acva.Memory Acva.Runs

namespace DialogueStack

/-! ## The client moves the stack -/

/-- The I/O thread is in the stream of turn `t`. -/
def StreamsTurn (t : TurnId) (m : Manager) : Prop := ∃ r, m.io = .streaming r ∧ r.turn = t

theorem handOver_run {t : TurnId} (deltas : List Bytes) {s : DialogueStack}
    (h : StreamsTurn t s.manager) :
    ∃ acts, run step s acts =
        some (s.onManager (LlmClient.handOver Manager.llmCallbacks deltas s.manager)) ∧
      StreamsTurn t (LlmClient.handOver Manager.llmCallbacks deltas s.manager) := by
  induction deltas generalizing s with
  | nil => exact ⟨[], rfl, h⟩
  | cons delta deltas ih =>
      obtain ⟨r, hio, hturn⟩ := h
      have hone : s.step (.token delta) = some (s.onManager (s.manager.tokenCallback delta)) := by
        simp only [step, Manager.onToken, hio, Option.map_some]
      have hstreams : StreamsTurn t (s.manager.tokenCallback delta) := by
        refine ⟨r.onToken delta, by simp only [Manager.tokenCallback, hio, Manager.setReply], ?_⟩
        exact (Reply.onToken_continues delta r).turn.trans hturn
      obtain ⟨acts, hacts, hrest⟩ := ih (s := s.onManager (s.manager.tokenCallback delta)) hstreams
      exact ⟨.token delta :: acts, by rw [run_cons_eq_some]; exact ⟨_, hone, hacts⟩, hrest⟩

theorem perform_run (readChunk : Bytes → Option SseChunk) {t : TurnId} (rc : CurlCode)
    (steps : List (TransferStep ManagerInput)) (st : Stream Manager) {s : DialogueStack}
    (hst : st.state = s.manager) (h : StreamsTurn t s.manager) :
    ∃ acts, run step s acts = some (s.onManager
        (LlmClient.perform readChunk Manager.llmCallbacks rc steps st).2.state) ∧
      StreamsTurn t (LlmClient.perform readChunk Manager.llmCallbacks rc steps st).2.state := by
  induction steps generalizing st s with
  | nil => exact ⟨[], by simp [LlmClient.perform, hst, run, onManager], by rwa [LlmClient.perform, hst]⟩
  | cons a steps ih =>
      have hstop : ∃ acts, run step s acts = some (s.onManager st.state) ∧
          StreamsTurn t st.state := ⟨[], by simp [hst, run, onManager], hst ▸ h⟩
      cases a with
      | write chunk =>
          simp only [LlmClient.perform]
          split
          · exact hstop
          · obtain ⟨acts, hacts, hstreams⟩ := handOver_run
              (deltasOf readChunk (st.parser.feed chunk).2) h
            obtain ⟨acts', hacts', hrest⟩ := ih
              (LlmClient.deliver readChunk Manager.llmCallbacks (st.parser.feed chunk).1
                (st.parser.feed chunk).2 st) (s := s.onManager _)
              (by rw [LlmClient.deliver_state, hst]; rfl) hstreams
            exact ⟨acts ++ acts', by rw [run_append, hacts]; exact hacts', hrest⟩
      | progress =>
          simp only [LlmClient.perform]
          split
          · exact hstop
          · exact ih st hst h
      | other i =>
          have hstreams : StreamsTurn t (s.manager.handle i) := by
            obtain ⟨r, hio, hturn⟩ := h
            exact ⟨r, (Manager.onEvent_io i.now i.gateOpen i.event s.manager).trans hio, hturn⟩
          obtain ⟨acts, hacts, hrest⟩ := ih
            { st with state := Manager.llmCallbacks.other i st.state }
            (s := s.onManager (s.manager.handle i)) (by rw [hst]; rfl) hstreams
          refine ⟨.managerEvent i.now i.gateOpen i.event :: acts, ?_, hrest⟩
          rw [run_cons_eq_some]
          exact ⟨_, rfl, hacts⟩

/-- What a submission does to the manager, with all that happens meanwhile, the stack does
step by step. -/
theorem submit_run {readChunk : Bytes → Option SseChunk} {t : TurnId}
    (tr : Transfer ManagerInput) {s : DialogueStack} (h : StreamsTurn t s.manager) :
    ∃ acts, run step s acts = some (s.onManager
      { (LlmClient.submit readChunk Manager.llmCallbacks t tr s.manager).1 with
        published :=
          (LlmClient.submit readChunk Manager.llmCallbacks t tr s.manager).1.published ++
            (LlmClient.submit readChunk Manager.llmCallbacks t tr s.manager).2
        active := {}
        io := .idle }) := by
  by_cases hhandle : tr.handle = false
  · obtain ⟨r, hio, -⟩ := h
    refine ⟨[.abortStream], ?_⟩
    simp [LlmClient.submit, hhandle, step, Manager.abortStream, hio, Manager.llmCallbacks,
      Manager.endRun]
  · obtain ⟨acts, hacts, hstreams⟩ := perform_run readChunk tr.rc tr.steps
      { state := s.manager } rfl h
    let last := LlmClient.drained readChunk Manager.llmCallbacks tr s.manager
    obtain ⟨acts', hacts', hlast⟩ := handOver_run
      (s := s.onManager (LlmClient.perform readChunk Manager.llmCallbacks tr.rc tr.steps
        { state := s.manager }).2.state) (deltasOf readChunk _) hstreams
    have hrun : run step s (acts ++ acts') = some (s.onManager last.state) := by
      rw [run_append, hacts]
      exact hacts'
    obtain ⟨r, hio, hturn⟩ : StreamsTurn t last.state := hlast
    obtain ⟨finish, hsubmit⟩ := LlmClient.submit_of_handle readChunk
      Manager.llmCallbacks hhandle t s.manager
    refine ⟨acts ++ acts' ++ [.finishStream last.tokensGenerated], ?_⟩
    rw [run_append, hrun, Option.bind_some, run_cons_eq_some, hsubmit]
    refine ⟨_, ?_, rfl⟩
    simp only [step, onManager, Manager.finishStream, hio, Option.map_some, hturn]
    rfl

end DialogueStack

/-! ## What the writer sees of a run -/

namespace ReplyPersistence

open TurnWriter

theorem sentencesIn_eq (t : TurnId) (es : List (UnixMs × Event)) :
    sentencesIn t es = sentencesOf ((es.map (·.2)).filter (replyEvent t)) := by
  induction es with
  | nil => rfl
  | cons e es ih =>
      obtain ⟨now, e⟩ := e
      rw [List.map_cons]
      by_cases he : replyEvent t e = true
      · rw [List.filter_cons_of_pos he]
        cases e with
        | llmSentence e =>
            have hturn : e.turn = t := by simpa [replyEvent] using he
            have hin : sentencesIn t ((now, .llmSentence e) :: es) = e :: sentencesIn t es := by
              simp [sentencesIn, hturn]
            have hof : ∀ xs, sentencesOf (.llmSentence e :: xs) = e :: sentencesOf xs :=
              fun _ => rfl
            rw [hin, hof, ih]
        | llmStarted e => exact ih
        | llmFinished e => exact ih
        | _ => simp [replyEvent] at he
      · rw [List.filter_cons_of_neg he]
        cases e with
        | llmSentence e =>
            have hturn : ¬ e.turn = t := by simpa [replyEvent] using he
            have hin : sentencesIn t ((now, .llmSentence e) :: es) = sentencesIn t es := by
              simp [sentencesIn, hturn]
            rw [hin, ih]
        | _ => exact ih

theorem sentencesOf_map (ss : List LlmSentence) : sentencesOf (ss.map .llmSentence) = ss := by
  induction ss with
  | nil => rfl
  | cons s ss ih => exact congrArg (s :: ·) ih

theorem not_replyEvent {t : TurnId} {e : Event} (h : ¬ replyEvent t e = true) :
    ¬ IsStart t e ∧ ¬ IsSentence t e ∧ ¬ IsFinish t e := by
  cases e with
  | llmStarted e => exact ⟨fun ht => h (decide_eq_true ht), id, id⟩
  | llmSentence e => exact ⟨id, fun ht => h (decide_eq_true ht), id⟩
  | llmFinished e => exact ⟨id, id, fun ht => h (decide_eq_true ht)⟩
  | _ => exact ⟨id, id, id⟩

/-- The first of the kept events, and what stands before and after it. -/
theorem exists_first {p : Event → Bool} {es : List (UnixMs × Event)} {e : Event}
    {l : List Event} (h : (es.map (·.2)).filter p = e :: l) :
    ∃ before now tail, es = before ++ (now, e) :: tail ∧ (∀ x ∈ before, ¬ p x.2 = true) ∧
      (tail.map (·.2)).filter p = l := by
  rw [List.filter_map, List.map_eq_cons_iff] at h
  obtain ⟨⟨now, e'⟩, kept, hkept, rfl, rfl⟩ := h
  obtain ⟨before, tail, rfl, hbefore, -, htail⟩ := List.filter_eq_cons_iff.mp hkept
  exact ⟨before, now, tail, rfl, hbefore, by rw [List.filter_map, htail]⟩

/-- A writer that handles a start, sentences and an end of one turn handles one reply. -/
theorem exists_replyOrder {t : TurnId} {es : List (UnixMs × Event)} {ss : List LlmSentence}
    {cancelled : Bool} {n : Nat}
    (h : (es.map (·.2)).filter (replyEvent t) =
      Event.llmStarted { turn := t } :: ss.map .llmSentence ++
        [Event.llmFinished { turn := t, cancelled := cancelled, tokensGenerated := n }]) :
    ∃ o : ReplyOrder, o.turn = t ∧ o.cancelled = cancelled ∧ o.events = es ∧ o.OneReply ∧
      o.sentences = ss := by
  obtain ⟨before, startedAt, tail, rfl, hbefore, htail⟩ := exists_first h
  obtain ⟨first, last, hsplit, hfirst, hlast⟩ := List.filter_eq_append_iff.mp htail
  obtain ⟨sentences, rest, rfl, rfl, rfl⟩ := List.map_eq_append_iff.mp hsplit
  obtain ⟨quiet, finishedAt, after, rfl, hquiet, hafter⟩ := exists_first hlast
  have hnone : (quiet.map (·.2)).filter (replyEvent t) = [] := by
    rw [List.filter_eq_nil_iff]
    intro e he
    obtain ⟨x, hx, rfl⟩ := List.mem_map.mp he
    exact hquiet x hx
  let o : ReplyOrder :=
    { turn := t
      before := before
      startedAt := startedAt
      during := sentences ++ quiet
      finishedAt := finishedAt
      cancelled := cancelled
      tokensGenerated := n
      after := after }
  refine ⟨o, rfl, rfl, by simp [o, ReplyOrder.events], ⟨?_, ?_, ?_⟩, ?_⟩
  · intro x hx
    obtain ⟨hstart, hsentence, -⟩ := not_replyEvent (hbefore x hx)
    exact ⟨hstart, hsentence⟩
  · intro x hx
    rcases List.mem_append.mp hx with hx | hx
    · by_cases hkept : replyEvent t x.2 = true
      · have hmem : x.2 ∈ ss.map Event.llmSentence := by
          rw [← hfirst]
          exact List.mem_filter.mpr ⟨List.mem_map_of_mem hx, hkept⟩
        obtain ⟨s, -, hs⟩ := List.mem_map.mp hmem
        rw [← hs]
        exact ⟨id, id⟩
      · obtain ⟨hstart, -, hfinish⟩ := not_replyEvent hkept
        exact ⟨hstart, hfinish⟩
    · obtain ⟨hstart, -, hfinish⟩ := not_replyEvent (hquiet x hx)
      exact ⟨hstart, hfinish⟩
  · intro x hx
    have hskip : ¬ replyEvent t x.2 = true :=
      List.filter_eq_nil_iff.mp hafter x.2 (List.mem_map_of_mem hx)
    obtain ⟨hstart, hsentence, -⟩ := not_replyEvent hskip
    exact ⟨hstart, hsentence⟩
  · show sentencesIn t (sentences ++ quiet) = ss
    rw [sentencesIn_eq, List.map_append, List.filter_append, hfirst, hnone, List.append_nil,
      sentencesOf_map]

/-! ## The persisted reply -/

theorem numbered_seq (t : TurnId) (lang : Bytes) (texts : List Bytes) :
    (numbered t lang texts).map (·.seq) = List.range texts.length := by
  refine List.ext_getElem (by simp [numbered]) fun i _ _ => ?_
  simp [numbered]

theorem numbered_inBounds_iff (t : TurnId) (lang : Bytes) (texts : List Bytes) :
    (∀ s ∈ numbered t lang texts, s.seq < lastPosition) ↔ texts.length < 2 ^ 32 := by
  have hseq : (∀ s ∈ numbered t lang texts, s.seq < lastPosition) ↔
      ∀ i < texts.length, i < lastPosition := by
    simp only [← List.mem_range, ← numbered_seq t lang texts, List.forall_mem_map]
  rw [hseq, lastPosition]
  constructor
  · intro h
    by_contra hlong
    exact Nat.lt_irrefl _ (h (2 ^ 32 - 1) (by omega))
  · intro h i hi
    omega

theorem numbered_text (t : TurnId) (lang : Bytes) (texts : List Bytes) :
    (numbered t lang texts).map (·.text) = texts := by
  refine List.ext_getElem (by simp [numbered]) fun i _ _ => ?_
  simp [numbered]

/-- The positions of a reply are in order already. -/
theorem orderedTexts_numbered (t : TurnId) (lang : Bytes) (texts : List Bytes) :
    orderedTexts (numbered t lang texts) = texts := by
  have hsorted : (numbered t lang texts).Pairwise (fun a b => decide (a.seq ≤ b.seq) = true) := by
    have hrange : ((numbered t lang texts).map (·.seq)).Pairwise (· < ·) := by
      rw [numbered_seq]
      exact List.pairwise_lt_range
    exact (List.pairwise_map.mp hrange).imp fun h => decide_eq_true (Nat.le_of_lt h)
  rw [orderedTexts, List.mergeSort_of_pairwise hsorted, numbered_text]

/-- The writer handles, about turn `t`, what the run from `m` to `m'` published about it. -/
def Delivered (t : TurnId) (m m' : Manager) (es : List (UnixMs × Event)) : Prop :=
  m'.published.filter (replyEvent t) =
    m.published.filter (replyEvent t) ++ (es.map (·.2)).filter (replyEvent t)

/-- The writer posts one row for the turn: committed, with all its sentences. -/
def PersistedWhole (sid : SessionId) (t : TurnId) (es : List (UnixMs × Event)) : Prop :=
  (({ session := sid } : TurnWriter).onEvents es).map
      (fun w => (w.assistantRows t).map fun j => (j.status, j.text)) =
    some [(.committed, joinSentences ((sentencesIn t es).map (·.text)))]

instance (sid : SessionId) (t : TurnId) (es : List (UnixMs × Event)) :
    Decidable (PersistedWhole sid t es) := inferInstanceAs (Decidable (_ = _))

/-- No event but a sentence of turn `t` is written past the end of a vector. -/
def OthersInBounds (t : TurnId) (es : List (UnixMs × Event)) : Prop :=
  ∀ before e after, es = before ++ e :: after → ¬ IsSentence t e.2 → ¬ Overruns before e.2

theorem staysInBounds_iff (t : TurnId) (es : List (UnixMs × Event)) :
    StaysInBounds es ↔ (∀ s ∈ sentencesIn t es, s.seq < lastPosition) ∧ OthersInBounds t es := by
  constructor
  · intro h
    refine ⟨fun s hs => ?_, fun before e after hes _ => h before e after hes⟩
    obtain ⟨⟨now, e⟩, he, hsome⟩ := List.mem_filterMap.mp hs
    obtain ⟨before, after, hes⟩ := List.append_of_mem he
    cases e with
    | llmSentence e =>
        obtain ⟨-, hsame⟩ := Option.ite_none_right_eq_some.mp hsome
        cases hsame
        exact Nat.not_le.mp (h before _ after hes)
    | _ => cases hsome
  · rintro ⟨hown, hothers⟩ before ⟨now, e⟩ after hes
    rcases sentence_or_playback t now e with ⟨s, hturn, rfl⟩ | ⟨p, -, rfl⟩ | ⟨hsentence, -, -⟩
    · have hmem : (now, Event.llmSentence s) ∈ es := by
        rw [hes]
        exact List.mem_append_right _ List.mem_cons_self
      exact Nat.not_le.mpr (hown s (List.mem_filterMap.mpr ⟨_, hmem, if_pos hturn⟩))
    · exact hothers before _ after hes id
    · exact hothers before _ after hes hsentence

theorem sentencesIn_of_reply {t : TurnId} {es : List (UnixMs × Event)} {ss : List LlmSentence}
    {cancelled : Bool} {n : Nat}
    (hes : (es.map (·.2)).filter (replyEvent t) =
      Event.llmStarted { turn := t } :: ss.map .llmSentence ++
        [Event.llmFinished { turn := t, cancelled := cancelled, tokensGenerated := n }]) :
    sentencesIn t es = ss := by
  rw [sentencesIn_eq, hes, sentencesOf_append, ← List.singleton_append, sentencesOf_append,
    sentencesOf_map, sentencesOf_llmStarted, sentencesOf_llmFinished, List.nil_append,
    List.append_nil]

/-- The writer takes a cancelled end for an interruption. -/
theorem not_persistedWhole_of_cancelled {sid : SessionId} (hsid : sid ≠ 0) {t : TurnId}
    {ss : List LlmSentence} {n : Nat} {es : List (UnixMs × Event)}
    (hes : (es.map (·.2)).filter (replyEvent t) =
      Event.llmStarted { turn := t } :: ss.map .llmSentence ++
        [Event.llmFinished { turn := t, cancelled := true, tokensGenerated := n }]) :
    ¬ PersistedWhole sid t es := by
  intro h
  obtain ⟨o, rfl, hcancelled, rfl, ho, -⟩ := exists_replyOrder hes
  obtain ⟨w', hw', hrows⟩ := Option.map_eq_some_iff.mp h
  obtain ⟨st, -, hrow⟩ := assistantRows_onEvents ho hsid hw'
  rw [hrow, hcancelled] at hrows
  split at hrows
  · simp at hrows
  · simp [assistantJob] at hrows

/-- A reply that is not cancelled is persisted whole if the writer has room for all it
handles. -/
theorem persistedWhole_of_order {sid : SessionId} (hsid : sid ≠ 0) {t : TurnId} {lang : Bytes}
    {texts : List Bytes} (hne : ∀ x ∈ texts, x ≠ []) {n : Nat} {es : List (UnixMs × Event)}
    (hes : (es.map (·.2)).filter (replyEvent t) =
      Event.llmStarted { turn := t } :: (numbered t lang texts).map .llmSentence ++
        [Event.llmFinished { turn := t, cancelled := false, tokensGenerated := n }]) :
    PersistedWhole sid t es ↔ StaysInBounds es := by
  have hall := sentencesIn_of_reply hes
  obtain ⟨o, rfl, hcancelled, rfl, ho, hsentences⟩ := exists_replyOrder hes
  have hdistinct : (o.sentences.map (·.seq)).Nodup := by
    rw [hsentences, numbered_seq]
    exact List.nodup_range
  have hnonempty : ∀ s ∈ o.sentences, s.text ≠ [] := by
    intro s hs
    refine hne s.text ?_
    rw [← numbered_text o.turn lang texts, ← hsentences]
    exact List.mem_map_of_mem hs
  rw [← exists_onEvents_iff sid]
  constructor
  · intro h
    obtain ⟨w', hw', -⟩ := Option.map_eq_some_iff.mp h
    exact ⟨w', hw'⟩
  · rintro ⟨w', hw'⟩
    obtain ⟨st, htracks, hrows⟩ := assistantRows_onEvents ho hsid hw'
    have htexts : st.persistedTexts false = texts := by
      have hkept : o.sentences.filter
          (fun s => !false || decide (s.seq ∈ playedIn o.turn o.during)) = o.sentences := by simp
      rw [htracks.persistedTexts hdistinct hnonempty, hkept, hsentences, orderedTexts_numbered]
    rw [PersistedWhole, hw', Option.map_some, hrows, hcancelled, if_neg (by simp), hall,
      numbered_text]
    simp [assistantJob, htexts]

/-- A run that nothing interrupts and that the server answers in full is persisted whole
exactly if the splitter completes no more sentences from its tokens than the cap allows, every
sentence of the reply has a position with room, and so has whatever else the writer handles. -/
theorem persistedWhole_iff {readChunk : Bytes → Option SseChunk} {id : TurnId}
    {turns : TurnFactory} {waiting : List ManagerInput} {tr : Transfer ManagerInput}
    {m m' : Manager} {job : FinalTranscript} (hio : m.io = .took job)
    (hcap : 1 ≤ m.cfg.maxAssistantSentences) (htr : tr.Succeeds)
    (hwaiting : ∀ i ∈ waiting, ¬ Targets (Manager.runTurn id turns) i.event)
    (hquiet : ∀ i, TransferStep.other i ∈ tr.steps →
      ¬ Targets (Manager.runTurn id turns) i.event)
    (hrun : m.runOne readChunk id turns waiting tr = some m') {sid : SessionId} (hsid : sid ≠ 0)
    {es : List (UnixMs × Event)} (hes : Delivered (Manager.runTurn id turns) m m' es) :
    PersistedWhole sid (Manager.runTurn id turns) es ↔
      (m.streamedSentences readChunk tr).length ≤ m.cfg.maxAssistantSentences.toNat ∧
        (m.replySentences readChunk tr).length < 2 ^ 32 ∧
        OthersInBounds (Manager.runTurn id turns) es := by
  have hpos : 0 < m.cfg.maxAssistantSentences :=
    UInt32.lt_iff_toNat_lt.mpr (UInt32.le_iff_toNat_le.mp hcap)
  obtain ⟨last, ss, n, hlast, hss, hpublished⟩ :=
    Manager.runOne_published hio hpos htr hwaiting hquiet
  obtain rfl : last = m' := Option.some.inj (hlast.symm.trans hrun)
  have hhandled := (List.append_cancel_left ((List.append_assoc _ _ _).symm.trans
    (hpublished.symm.trans hes))).symm
  by_cases hle : (m.streamedSentences readChunk tr).length ≤ m.cfg.maxAssistantSentences.toNat
  · rw [hss hle, decide_eq_false (Nat.not_lt.mpr hle)] at hhandled
    have hne : ∀ x ∈ m.replySentences readChunk tr, x ≠ [] := fun _ => splitSentences_ne_nil
    rw [persistedWhole_of_order hsid hne hhandled, staysInBounds_iff (Manager.runTurn id turns),
      sentencesIn_of_reply hhandled, numbered_inBounds_iff, and_iff_right hle]
  · rw [decide_eq_true (Nat.not_le.mp hle)] at hhandled
    exact iff_of_false (not_persistedWhole_of_cancelled hsid hhandled) (fun h => hle h.1)

/-! ## A reply at its cap -/

/-- The reader on one payload. -/
def readSample (text : Bytes) (payload : Bytes) : Option SseChunk :=
  if payload = ascii "\x7b\"choices\":[\x7b\"delta\":\x7b\"content\":\"" ++ text ++
      ascii "\"\x7d\x7d]\x7d" then some ⟨[some text]⟩
  else none

def sampleTransfer (text : Bytes) : Transfer ManagerInput where
  steps := [.write (ascii "data: \x7b\"choices\":[\x7b\"delta\":\x7b\"content\":\"" ++ text ++
      ascii "\"\x7d\x7d]\x7d\n\n"), .progress, .write (ascii "data: [DONE]\n\n")]

/-- A manager that has taken a job, and lets one sentence pass. -/
def oneSentence : Manager :=
  { cfg := { maxAssistantSentences := 1 }, io := .took { turn := 1, text := ascii "hello" } }

theorem sampleTransfer_succeeds (text : Bytes) : (sampleTransfer text).Succeeds := ⟨rfl, rfl, rfl⟩

theorem sampleTransfer_quiet (text : Bytes) (t : TurnId) :
    ∀ i, TransferStep.other i ∈ (sampleTransfer text).steps → ¬ Targets t i.event := by
  intro i hi
  simp [sampleTransfer] at hi

/-- Everything that is published reaches the writer at once. -/
def handled (m : Manager) : List (UnixMs × Event) := m.published.map fun e => (1, e)

theorem delivered_handled {t : TurnId} {m m' : Manager} (h : m.published = []) :
    Delivered t m m' (handled m') := by
  simp [Delivered, handled, h, Function.comp_def]

theorem persistedWhole_iff_shortReply :
    ∃ m', oneSentence.runOne (readSample (ascii "First. Second")) 1 {} []
        (sampleTransfer (ascii "First. Second")) = some m' ∧
      PersistedWhole 1 1 (handled m') := by
  obtain ⟨m', hm'⟩ : ∃ m', oneSentence.runOne (readSample (ascii "First. Second")) 1 {} []
      (sampleTransfer (ascii "First. Second")) = some m' :=
    ⟨_, (Option.some_get (by decide)).symm⟩
  refine ⟨m', hm', ?_⟩
  have hio : oneSentence.io = .took { turn := 1, text := ascii "hello" } := rfl
  have hsid : (1 : SessionId) ≠ 0 := by decide
  have hiff := persistedWhole_iff hio (by decide) (sampleTransfer_succeeds _)
    (fun i hi => absurd hi List.not_mem_nil) (sampleTransfer_quiet _ _) hm' hsid
    (delivered_handled rfl)
  refine hiff.mpr ⟨by decide, by decide +kernel, ?_⟩
  have hreach : ∀ e ∈ handled m', InReach e.2 := by
    obtain rfl : _ = m' := Option.get_of_eq_some (by decide) hm'
    decide
  exact ((staysInBounds_iff _ _).mp (staysInBounds_of_inReach hreach)).2

/-- Two sentences come out of the tokens, one more than the cap; both are published, and
neither is persisted. -/
theorem longReply_notPersisted :
    ∃ m', oneSentence.runOne (readSample (ascii "First. Second. Third")) 1 {} []
        (sampleTransfer (ascii "First. Second. Third")) = some m' ∧
      (sampleTransfer (ascii "First. Second. Third")).Succeeds ∧ Delivered 1 oneSentence m' (handled m') ∧
      (sentencesOf m'.published).map (·.text) = [ascii "First.", ascii "Second."] ∧
      (({ session := 1 } : TurnWriter).onEvents (handled m')).map (·.assistantRows 1) = some [] ∧
      ¬ PersistedWhole 1 1 (handled m') := by
  refine ⟨(oneSentence.runOne (readSample (ascii "First. Second. Third")) 1 {} []
    (sampleTransfer (ascii "First. Second. Third"))).get (by decide), (Option.some_get _).symm,
    sampleTransfer_succeeds _, delivered_handled rfl, by decide, by decide, by decide⟩

end ReplyPersistence

end Acva.Orchestrator
