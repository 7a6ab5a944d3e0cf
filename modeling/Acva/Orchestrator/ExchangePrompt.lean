import Acva.Core.Runs
import Acva.Dialogue.TurnWriter.Machine
import Acva.Llm.PromptBuilder
import Acva.Memory.MemoryThread

/-! # The utterance in its prompt

Two subscribers react to one `FinalTranscript`: the turn writer posts the row of
the utterance, and the manager posts the read its prompt is built from. The
memory thread runs the two jobs in whichever order they come, among the jobs of
all other turns. The prompt always ends with the utterance; the row repeats it if
the read finds it.
-/

namespace Acva.Orchestrator

open Acva.Dialogue Acva.Llm Acva.Memory Acva.Runs

inductive ExchangeJob
  /-- The row of this exchange's utterance. -/
  | utterance (job : InsertTurnJob)
  /-- The read of this exchange's prompt. -/
  | readPrompt
  /-- The row of another turn. -/
  | otherTurn (job : InsertTurnJob)
  /-- A write that leaves the other tables like this. -/
  | otherTables (summaries : List SummaryRow) (facts : List FactRow)
deriving DecidableEq, Repr

/-- How the statements of a job end, and the time it reads off the clock. -/
structure JobOutcome where
  insertOk : Bool := true
  statusOk : Bool := true
  now : UnixMs := 0
  query : QueryOutcome := {}
deriving DecidableEq, Repr

def ExchangeJob.exec (o : JobOutcome) (job : ExchangeJob) (repo : Repository) : Repository :=
  match job with
  | .utterance job | .otherTurn job =>
      { repo with turns := job.exec o.insertOk o.statusOk o.now repo.turns }
  | .readPrompt => repo
  | .otherTables summaries facts => { repo with summaries := summaries, facts := facts }

/-- One exchange: `written` and `asked` tell which subscriber has reacted, `ownRow` is the
row of the utterance, and `answer` is what the prompt's read has found. -/
structure Exchange where
  session : SessionId
  final : FinalTranscript
  cfg : PromptConfig
  memory : MemoryThread ExchangeJob JobOutcome
  written : Bool := false
  asked : Bool := false
  ownRow : Option RowId := none
  answer : Option MemorySnapshot := none

inductive ExchangeAction
  /-- The turn writer handles the transcript. -/
  | write (now : UnixMs)
  /-- `run_one` builds its prompt. -/
  | ask
  /-- Another turn is persisted. -/
  | otherTurn (job : InsertTurnJob)
  | otherTables (summaries : List SummaryRow) (facts : List FactRow)
  /-- The memory thread runs a job. -/
  | work (outcome : JobOutcome)
  | shutDown
deriving DecidableEq, Repr

namespace Exchange

/-- The jobs that `handle_final` posts. -/
def utteranceJobs (now : UnixMs) (x : Exchange) : List ExchangeJob :=
  (({ session := x.session } : TurnWriter).handleFinal now x.final).posted.map
    fun p => .utterance p.job

def post (job : ExchangeJob) (x : Exchange) : Exchange :=
  { x with memory := (x.memory.post job).2 }

/-- What the job's caller learns from it. -/
def learn (job : ExchangeJob) (o : JobOutcome) (repo : Repository) (x : Exchange) : Exchange :=
  match job with
  | .utterance _ => { x with ownRow := if o.insertOk = true then some repo.turns.nextId else x.ownRow }
  | .readPrompt => { x with answer := some (readSnapshot x.cfg x.session o.query repo) }
  | _ => x

def step (x : Exchange) : ExchangeAction → Option Exchange
  | .write now =>
      if x.written = true then none
      else some ((x.utteranceJobs now).foldl (fun x job => x.post job) { x with written := true })
  | .ask => if x.asked = true then none else some ({ x with asked := true }.post .readPrompt)
  | .otherTurn job => some (x.post (.otherTurn job))
  | .otherTables summaries facts => some (x.post (.otherTables summaries facts))
  | .work o =>
      (x.memory.work ExchangeJob.exec o).map fun (job, memory) =>
        { x.learn job o x.memory.repo with memory := memory }
  | .shutDown => some { x with memory := x.memory.shutDown }

/-! ## The messages -/

/-- The messages of the request that is built from a snapshot. -/
def messages (snap : MemorySnapshot) (x : Exchange) : List ChatMessage :=
  (chatRequest x.cfg { sessionId := x.session, lang := x.final.lang,
                       currentUserText := x.final.text } snap).messages

def utterance (x : Exchange) : ChatMessage := { role := ascii "user", content := x.final.text }

/-- The messages of this exchange: those of its own row, and the last one. -/
def ownMessages (snap : MemorySnapshot) (x : Exchange) : List ChatMessage :=
  (snap.turns.filter fun t => some t.id = x.ownRow).map turnMessage ++ [x.utterance]

theorem messages_getLast? (snap : MemorySnapshot) (x : Exchange) :
    (x.messages snap).getLast? = some x.utterance := by
  unfold messages chatRequest assembleMessages
  exact List.getLast?_concat

theorem ownMessages_sublist {x : Exchange} (hsession : x.session ≠ 0) (snap : MemorySnapshot) :
    (x.ownMessages snap).Sublist (x.messages snap) := by
  have hrows := (List.filter_sublist (l := snap.turns) (p := fun t => some t.id = x.ownRow)).map
    turnMessage
  simp only [messages, chatRequest, if_neg hsession, assembleMessages, ownMessages]
  exact (hrows.cons _).append (List.Sublist.refl _)

/-! ## What the memory thread has run -/

/-- How many rows of the session follow the utterance's own one after the jobs `log`; `none`
while it has none. -/
def newerRows (session : SessionId) (log : List (ExchangeJob × JobOutcome)) : Option Nat :=
  log.foldl (fun k e => match e.1 with
    | .utterance _ => if e.2.insertOk = true then some 0 else k
    | .otherTurn job => if e.2.insertOk = true ∧ job.session = session then k.map (· + 1) else k
    | _ => k) none

/-- The jobs that ran before the prompt's read. -/
def beforeRead (log : List (ExchangeJob × JobOutcome)) : List (ExchangeJob × JobOutcome) :=
  log.takeWhile fun e => e.1 ≠ .readPrompt

/-- The prompt's read has found its rows. -/
def readOk (log : List (ExchangeJob × JobOutcome)) : Bool :=
  (log.find? fun e => e.1 = .readPrompt).any (·.2.query.turnsOk)

/-- The rows that a limit keeps: the last ones, all of them if it is negative. -/
def Kept (limit : Int) (newer : Nat) : Prop := limit < 0 ∨ (newer : Int) < limit

instance (limit : Int) (newer : Nat) : Decidable (Kept limit newer) :=
  inferInstanceAs (Decidable (_ ∨ _))

/-- The utterance's row was inserted before the prompt's read, and was then still among the
rows that the read asks for. -/
def RepeatsUtterance (x : Exchange) : Prop :=
  readOk x.memory.executed = true ∧
    (newerRows x.session (beforeRead x.memory.executed)).any
      (fun k => Kept (recentLimit x.cfg) k) = true

instance (x : Exchange) : Decidable x.RepeatsUtterance := inferInstanceAs (Decidable (_ ∧ _))

variable {log : List (ExchangeJob × JobOutcome)} {e : ExchangeJob × JobOutcome}
  {session : SessionId}

theorem newerRows_concat (session : SessionId) (log : List (ExchangeJob × JobOutcome))
    (e : ExchangeJob × JobOutcome) :
    newerRows session (log ++ [e]) = match e.1 with
      | .utterance _ => if e.2.insertOk = true then some 0 else newerRows session log
      | .otherTurn job =>
          if e.2.insertOk = true ∧ job.session = session then (newerRows session log).map (· + 1)
          else newerRows session log
      | _ => newerRows session log := by
  simp only [newerRows, List.foldl_append, List.foldl_cons, List.foldl_nil]

theorem beforeRead_eq {before after : List (ExchangeJob × JobOutcome)} {o : JobOutcome}
    (h : ∀ e ∈ before, e.1 ≠ .readPrompt) :
    beforeRead (before ++ (.readPrompt, o) :: after) = before := by
  rw [beforeRead, List.takeWhile_append_of_pos (fun e he => by simpa using h e he),
    List.takeWhile_cons_of_neg (by simp), List.append_nil]

theorem readOk_eq {before after : List (ExchangeJob × JobOutcome)} {o : JobOutcome}
    (h : ∀ e ∈ before, e.1 ≠ .readPrompt) :
    readOk (before ++ (.readPrompt, o) :: after) = o.query.turnsOk := by
  have hnone : before.find? (fun e => e.1 = .readPrompt) = none :=
    List.find?_eq_none.mpr fun e he => by simpa using h e he
  simp [readOk, List.find?_append, hnone]

theorem newerRows_of_unwritten (h : ∀ e ∈ log, ∀ job, e.1 ≠ .utterance job) :
    newerRows session log = none := by
  induction log with
  | nil => rfl
  | cons e log ih =>
      have hrest := ih (fun x hx => h x (List.mem_cons_of_mem _ hx))
      obtain ⟨job, o⟩ := e
      cases job with
      | utterance job => exact absurd rfl (h _ List.mem_cons_self job)
      | otherTurn job =>
          by_cases hin : o.insertOk = true ∧ job.session = session
          · simpa [newerRows, hin] using hrest
          · simpa [newerRows, hin] using hrest
      | _ => exact hrest

/-! ## The utterance's row in the table -/

/-- The job that `handle_final` posts. -/
structure IsUtterance (session : SessionId) (said : Bytes) (job : InsertTurnJob) : Prop where
  session : job.session = session
  role : job.role = .user
  text : job.text = said
  nonempty : said ≠ []
  status : job.status = .committed

theorem isUtterance_of_mem {now : UnixMs} {x : Exchange} {job : ExchangeJob}
    (h : job ∈ x.utteranceJobs now) : ∃ j, job = .utterance j ∧ IsUtterance x.session x.final.text j := by
  unfold utteranceJobs TurnWriter.handleFinal at h
  split at h
  · simp at h
  · split at h
    · simp at h
    next hne =>
      simp only [TurnWriter.post, List.nil_append, List.map_cons, List.map_nil,
        List.mem_singleton] at h
      exact ⟨_, h, rfl, rfl, rfl, hne, rfl⟩

theorem utteranceJobs_length (now : UnixMs) (x : Exchange) : (x.utteranceJobs now).length ≤ 1 := by
  unfold utteranceJobs TurnWriter.handleFinal
  split
  · simp
  · split <;> simp [TurnWriter.post]

/-- The row of the utterance `u` among the session's rows: that many of them follow it. -/
def OwnRow (session : SessionId) (u : ChatMessage) (t : TurnTable) :
    Option RowId → Option Nat → Prop
  | none, none => True
  | some id, some k => ∃ older row newer,
      (t.rows.filter fun r => r.sessionId = session) = older ++ row :: newer ∧
      row.id = id ∧ turnMessage row = u ∧ usableTurn row = true ∧ newer.length = k
  | _, _ => False

variable {t : TurnTable} {u : ChatMessage} {own : Option RowId} {newer : Option Nat}

/-- A further row comes last. -/
theorem OwnRow.insert (h : OwnRow session u t own newer) (job : InsertTurnJob) (o : JobOutcome) :
    OwnRow session u (job.exec o.insertOk o.statusOk o.now t) own
      (if o.insertOk = true ∧ job.session = session then newer.map (· + 1) else newer) := by
  cases hok : o.insertOk with
  | false => simpa [InsertTurnJob.exec_of_failed] using h
  | true =>
      obtain ⟨-, row, hrows, hrow⟩ := job.exec_rows o.statusOk o.now t
      match own, newer, h with
      | none, none, _ => split <;> trivial
      | some id, some k, ⟨older, r, rest, hfilter, hid, hmessage, husable, hlen⟩ =>
          by_cases hin : job.session = session
          · rw [if_pos ⟨rfl, hin⟩]
            refine ⟨older, r, rest ++ [row], ?_, hid, hmessage, husable, by simp [hlen]⟩
            rw [hrows, List.filter_append, hfilter,
              List.filter_cons_of_pos (by simp [hrow.sessionId, hin])]
            simp
          · rw [if_neg (fun hand => hin hand.2)]
            refine ⟨older, r, rest, ?_, hid, hmessage, husable, hlen⟩
            rw [hrows, List.filter_append, hfilter,
              List.filter_cons_of_neg (by simp [hrow.sessionId, hin])]
            simp

/-- The utterance's own row comes last. -/
theorem IsUtterance.ownRow {text : Bytes} {job : InsertTurnJob}
    (h : IsUtterance session text job) (statusOk : Bool) (now : UnixMs) (t : TurnTable) :
    OwnRow session { role := ascii "user", content := text }
      (job.exec true statusOk now t) (some t.nextId) (some 0) := by
  obtain ⟨-, row, hrows, hrow⟩ := job.exec_rows statusOk now t
  refine ⟨t.rows.filter fun r => r.sessionId = session, row, [], ?_, hrow.id, ?_, ?_, rfl⟩
  · rw [hrows, List.filter_append,
      List.filter_cons_of_pos (by simp [hrow.sessionId, h.session])]
    rfl
  · simp [turnMessage, hrow.role, h.role, hrow.text, h.text]
  · simp [usableTurn, hrow.status, h.status, hrow.text, h.text, h.nonempty]

/-- What a read finds of the utterance. -/
theorem OwnRow.snapshot {cfg : PromptConfig} {query : QueryOutcome} {repo : Repository}
    (h : OwnRow session u repo.turns own newer) :
    ((readSnapshot cfg session query repo).turns.filter fun r => some r.id = own).map turnMessage =
      if query.turnsOk = true ∧ newer.any (fun k => Kept (recentLimit cfg) k) = true then [u]
      else [] := by
  cases hok : query.turnsOk with
  | false => simp [readSnapshot, hok]
  | true =>
      match own, newer, h with
      | none, none, _ => simp
      | some id, some k, ⟨older, row, rest, hfilter, hid, hmessage, husable, hlen⟩ =>
          subst hid
          have hfound := TurnTable.recentTurns_filter_id (recentLimit cfg) hfilter
          have hswap : ((repo.turns.recentTurns session (recentLimit cfg)).filter usableTurn).filter
              (fun r => some r.id = some row.id) =
              ((repo.turns.recentTurns session (recentLimit cfg)).filter
                fun r => r.id = row.id).filter usableTurn := by
            rw [List.filter_filter, List.filter_filter]
            refine List.filter_congr fun r _ => ?_
            simp [Bool.and_comm]
          simp only [readSnapshot, hok, if_true, hswap, hfound, Option.any_some, true_and, hlen]
          by_cases hkept : recentLimit cfg < 0 ∨ (k : Int) < recentLimit cfg
          · rw [if_pos hkept, if_pos (show decide (Kept _ k) = true from decide_eq_true hkept)]
            simp [husable, hmessage]
          · have hlost : ¬ decide (Kept (recentLimit cfg) k) = true :=
              fun hany => hkept (of_decide_eq_true hany)
            rw [if_neg hkept, if_neg hlost]
            rfl

/-! ## One step -/

/-- What the prompt's read has found, once it was run. -/
def Answered (x : Exchange) : Option MemorySnapshot → Prop
  | none => ∀ e ∈ x.memory.executed, e.1 ≠ .readPrompt
  | some snap => ∃ before o after,
      x.memory.executed = before ++ (.readPrompt, o) :: after ∧
      (∀ e ∈ before, e.1 ≠ .readPrompt) ∧
      (∀ r ∈ snap.turns, r.id < x.memory.repo.turns.nextId) ∧
      (snap.turns.filter fun r => some r.id = x.ownRow).map turnMessage =
        if o.query.turnsOk = true ∧
          (newerRows x.session before).any (fun k => Kept (recentLimit x.cfg) k) = true
        then [x.utterance] else []

def isUtterance : ExchangeJob → Bool
  | .utterance _ => true
  | _ => false

/-- Both subscribers react once, and the row and the answer are those of the jobs run. -/
structure Sound (x : Exchange) : Prop where
  session : x.session ≠ 0
  policy : x.memory.queue.policy = .dropNewest
  utterances : x.memory.jobs.countP isUtterance ≤ if x.written = true then 1 else 0
  reads : x.memory.jobs.count .readPrompt ≤ if x.asked = true then 1 else 0
  jobs : ∀ job, .utterance job ∈ x.memory.jobs →
    IsUtterance x.session x.final.text job
  own : OwnRow x.session x.utterance x.memory.repo.turns x.ownRow
    (newerRows x.session x.memory.executed)
  answer : x.Answered x.answer

theorem Sound.post {x : Exchange} (h : x.Sound) {job : ExchangeJob}
    (hutterance : x.memory.jobs.countP isUtterance + [job].countP isUtterance ≤
      if x.written = true then 1 else 0)
    (hread : x.memory.jobs.count .readPrompt + [job].count .readPrompt ≤
      if x.asked = true then 1 else 0)
    (hjob : ∀ j, job = .utterance j → IsUtterance x.session x.final.text j) : (x.post job).Sound := by
  obtain ⟨hexecuted, hrepo, hpolicy, hjobs⟩ := MemoryThread.post_jobs h.policy job
  refine ⟨h.session, hpolicy, ?_, ?_, ?_, ?_, ?_⟩
  · show (x.memory.post job).2.jobs.countP isUtterance ≤ if x.written = true then 1 else 0
    rcases hjobs with heq | heq
    · rw [heq]
      exact h.utterances
    · rwa [heq, List.countP_append]
  · show (x.memory.post job).2.jobs.count .readPrompt ≤ if x.asked = true then 1 else 0
    rcases hjobs with heq | heq
    · rw [heq]
      exact h.reads
    · rwa [heq, List.count_append]
  · intro j hj
    have hmem : .utterance j ∈ x.memory.jobs ++ [job] := by
      rcases hjobs with heq | heq
      · exact List.mem_append_left _ (heq ▸ hj)
      · exact heq ▸ hj
    rcases List.mem_append.mp hmem with hmem | hmem
    · exact h.jobs j hmem
    · exact hjob j (List.mem_singleton.mp hmem).symm
  · show OwnRow x.session x.utterance (x.memory.post job).2.repo.turns x.ownRow
      (newerRows x.session (x.memory.post job).2.executed)
    rw [hrepo, hexecuted]
    exact h.own
  · show (x.post job).Answered x.answer
    have hanswer := h.answer
    cases hsnap : x.answer with
    | none =>
        rw [hsnap] at hanswer
        show ∀ e ∈ (x.memory.post job).2.executed, e.1 ≠ .readPrompt
        rwa [hexecuted]
    | some snap =>
        rw [hsnap] at hanswer
        obtain ⟨before, o, after, hlog, hbefore, hids, hfound⟩ := hanswer
        refine ⟨before, o, after, hexecuted.trans hlog, hbefore, ?_, hfound⟩
        show ∀ r ∈ snap.turns, r.id < (x.memory.post job).2.repo.turns.nextId
        rwa [hrepo]

/-- A job that is run was not run before. -/
theorem fresh_of_count {p : ExchangeJob → Bool} {x : Exchange} {job : ExchangeJob} {bound : Nat}
    (hbound : bound ≤ 1) (hcount : x.memory.jobs.countP p ≤ bound)
    (hmem : job ∈ x.memory.queue.items) (hp : p job = true) :
    ∀ e ∈ x.memory.executed, p e.1 = false := by
  intro e he
  by_contra hne
  have hsplit : x.memory.jobs.countP p =
      (x.memory.executed.map (·.1)).countP p + x.memory.queue.items.countP p :=
    List.countP_append
  have hran : 0 < (x.memory.executed.map (·.1)).countP p :=
    List.countP_pos_iff.mpr ⟨e.1, List.mem_map_of_mem he, by simpa using hne⟩
  have hwaits : 0 < x.memory.queue.items.countP p := List.countP_pos_iff.mpr ⟨job, hmem, hp⟩
  omega

theorem exec_nextId (o : JobOutcome) (job : ExchangeJob) (repo : Repository) :
    repo.turns.nextId ≤ (job.exec o repo).turns.nextId := by
  have hinsert : ∀ job : InsertTurnJob,
      repo.turns.nextId ≤ (job.exec o.insertOk o.statusOk o.now repo.turns).nextId := by
    intro job
    cases hok : o.insertOk with
    | false => rw [InsertTurnJob.exec_of_failed]
    | true =>
        rw [(job.exec_rows o.statusOk o.now repo.turns).1]
        exact Nat.le_succ _
  cases job with
  | utterance job => exact hinsert job
  | otherTurn job => exact hinsert job
  | _ => exact Nat.le_refl _

/-- After any job, the row of the utterance is where the log says it is. -/
theorem Sound.own_work {x : Exchange} (h : x.Sound) {job : ExchangeJob} (o : JobOutcome)
    (hmem : job ∈ x.memory.queue.items) :
    OwnRow x.session x.utterance (job.exec o x.memory.repo).turns
      (x.learn job o x.memory.repo).ownRow
      (newerRows x.session (x.memory.executed ++ [(job, o)])) := by
  rw [newerRows_concat]
  cases job with
  | utterance job =>
      cases hok : o.insertOk with
      | false => simpa [ExchangeJob.exec, learn, hok, InsertTurnJob.exec_of_failed] using h.own
      | true =>
          have hjob := h.jobs job (List.mem_append_right _ hmem)
          have hrow := hjob.ownRow o.statusOk o.now x.memory.repo.turns
          simp only [ExchangeJob.exec, learn, hok, if_true]
          exact hrow
  | otherTurn job => exact h.own.insert job o
  | readPrompt => exact h.own
  | otherTables summaries facts => exact h.own

/-- Only the read of the prompt answers. -/
theorem learn_answer {job : ExchangeJob} (h : job ≠ .readPrompt) (o : JobOutcome)
    (repo : Repository) (x : Exchange) : (x.learn job o repo).answer = x.answer := by
  cases job with
  | readPrompt => exact absurd rfl h
  | _ => rfl

/-- What the read has found stays as it is; a later row of the utterance is not in it. -/
theorem Sound.answered_work {x : Exchange} (h : x.Sound) {job : ExchangeJob} (o : JobOutcome)
    (hmem : job ∈ x.memory.queue.items) {memory : MemoryThread ExchangeJob JobOutcome}
    (hexecuted : memory.executed = x.memory.executed ++ [(job, o)])
    (hrepo : memory.repo = job.exec o x.memory.repo) :
    Answered { x.learn job o x.memory.repo with memory := memory }
      (x.learn job o x.memory.repo).answer := by
  have hid := exec_nextId o job x.memory.repo
  have hanswer := h.answer
  have hwritten : x.memory.jobs.countP isUtterance ≤ 1 :=
    h.utterances.trans (by split <;> omega)
  have hasked : x.memory.jobs.countP (· == .readPrompt) ≤ 1 :=
    h.reads.trans (by split <;> omega)
  cases hsnap : x.answer with
  | none =>
      rw [hsnap] at hanswer
      by_cases hread : job = .readPrompt
      · subst hread
        refine ⟨x.memory.executed, o, [], hexecuted, hanswer, ?_, h.own.snapshot⟩
        intro r hr
        refine Nat.lt_of_lt_of_le ?_ (hrepo ▸ hid)
        simp only [readSnapshot] at hr
        split at hr
        · exact x.memory.repo.turns.bounded r
            (TurnTable.mem_of_mem_recentTurns (List.mem_of_mem_filter hr))
        · simp at hr
      · rw [learn_answer hread, hsnap]
        show ∀ e ∈ memory.executed, e.1 ≠ .readPrompt
        rw [hexecuted]
        intro e he
        rcases List.mem_append.mp he with he | he
        · exact hanswer e he
        · rwa [List.mem_singleton.mp he]
  | some snap =>
      rw [hsnap] at hanswer
      obtain ⟨before, o', after, hlog, hbefore, hids, hfound⟩ := hanswer
      have hread : job ≠ .readPrompt := by
        rintro rfl
        have hfresh := fresh_of_count (p := (· == .readPrompt)) (Nat.le_refl 1) hasked hmem
          (by simp) (.readPrompt, o') (by rw [hlog]; simp)
        simp at hfresh
      rw [learn_answer hread, hsnap]
      refine ⟨before, o', after ++ [(job, o)], ?_, hbefore, ?_, ?_⟩
      · show memory.executed = _
        rw [hexecuted, hlog, List.append_assoc, List.cons_append]
      · intro r hr
        show r.id < memory.repo.turns.nextId
        rw [hrepo]
        exact Nat.lt_of_lt_of_le (hids r hr) hid
      · cases job with
        | utterance job =>
            cases hok : o.insertOk with
            | false =>
                have hrow : (x.learn (.utterance job) o x.memory.repo).ownRow = x.ownRow := by
                  simp [learn, hok]
                show (snap.turns.filter fun r =>
                  some r.id = (x.learn (.utterance job) o x.memory.repo).ownRow).map _ = _
                rw [hrow]
                exact hfound
            | true =>
                have hunwritten : ∀ e ∈ before, ∀ job, e.1 ≠ .utterance job := by
                  intro e he job hjob
                  have hfresh := fresh_of_count (p := isUtterance) (Nat.le_refl 1) hwritten hmem
                    rfl e (by rw [hlog]; exact List.mem_append_left _ he)
                  simp [hjob, isUtterance] at hfresh
                have hnew : ∀ r ∈ snap.turns, ¬ r.id = x.memory.repo.turns.nextId :=
                  fun r hr => Nat.ne_of_lt (hids r hr)
                simpa [learn, hok, newerRows_of_unwritten hunwritten] using hnew
        | readPrompt => exact absurd rfl hread
        | otherTurn job => exact hfound
        | otherTables summaries facts => exact hfound

theorem learn_eq (job : ExchangeJob) (o : JobOutcome) (repo : Repository) (x : Exchange) :
    (x.learn job o repo).session = x.session ∧ (x.learn job o repo).final = x.final ∧
      (x.learn job o repo).written = x.written ∧ (x.learn job o repo).asked = x.asked := by
  cases job <;> exact ⟨rfl, rfl, rfl, rfl⟩

theorem Sound.work {x : Exchange} (h : x.Sound) {job : ExchangeJob} {o : JobOutcome}
    {memory : MemoryThread ExchangeJob JobOutcome}
    (hwork : x.memory.work ExchangeJob.exec o = some (job, memory)) :
    Sound { x.learn job o x.memory.repo with memory := memory } := by
  obtain ⟨hexecuted, hrepo, hpolicy, hjobs, hmem⟩ := MemoryThread.work_eq_some hwork
  obtain ⟨hsession, hfinal, hwritten, hasked⟩ := learn_eq job o x.memory.repo x
  refine ⟨by rw [hsession]; exact h.session, hpolicy.trans h.policy, ?_, ?_, ?_, ?_,
    h.answered_work o hmem hexecuted hrepo⟩
  · show memory.jobs.countP isUtterance ≤
      if (x.learn job o x.memory.repo).written = true then 1 else 0
    rw [hjobs, hwritten]
    exact h.utterances
  · show memory.jobs.count .readPrompt ≤
      if (x.learn job o x.memory.repo).asked = true then 1 else 0
    rw [hjobs, hasked]
    exact h.reads
  · intro j hj
    show IsUtterance (x.learn job o x.memory.repo).session
      (x.learn job o x.memory.repo).final.text j
    rw [hsession, hfinal]
    exact h.jobs j (hjobs ▸ hj)
  · show OwnRow (x.learn job o x.memory.repo).session (x.learn job o x.memory.repo).utterance
      memory.repo.turns (x.learn job o x.memory.repo).ownRow
      (newerRows (x.learn job o x.memory.repo).session memory.executed)
    have hu : (x.learn job o x.memory.repo).utterance = x.utterance := by
      simp only [utterance, hfinal]
    rw [hsession, hu, hrepo, hexecuted]
    exact h.own_work o hmem

theorem Sound.step {x x' : Exchange} {a : ExchangeAction} (h : x.Sound)
    (hstep : x.step a = some x') : x'.Sound := by
  cases a with
  | write now =>
      simp only [Exchange.step] at hstep
      split at hstep
      · cases hstep
      next hnew =>
        have hfirst : x.memory.jobs.countP isUtterance = 0 := by
          simpa [hnew] using h.utterances
        have hmarked : Sound { x with written := true } :=
          ⟨h.session, h.policy, by rw [hfirst]; exact Nat.zero_le _, h.reads, h.jobs, h.own, h.answer⟩
        cases hjobs : x.utteranceJobs now with
        | nil =>
            simp only [hjobs, List.foldl_nil, Option.some.injEq] at hstep
            exact hstep ▸ hmarked
        | cons job rest =>
            have hone : rest = [] := by
              have := x.utteranceJobs_length now
              simpa [hjobs] using this
            have hmem : job ∈ x.utteranceJobs now := hjobs ▸ List.mem_cons_self
            obtain ⟨j, rfl, hj⟩ := isUtterance_of_mem hmem
            simp only [hjobs, hone, List.foldl_cons, List.foldl_nil, Option.some.injEq] at hstep
            rw [← hstep]
            refine hmarked.post (by simp [hfirst, isUtterance]) ?_ ?_
            · simpa using h.reads
            · intro j' hj'
              cases hj'
              exact hj
  | ask =>
      simp only [Exchange.step] at hstep
      split at hstep
      · cases hstep
      next hnew =>
        cases hstep
        have hfirst : x.memory.jobs.count .readPrompt = 0 := by simpa [hnew] using h.reads
        have hmarked : Sound { x with asked := true } :=
          ⟨h.session, h.policy, h.utterances, by rw [hfirst]; exact Nat.zero_le _, h.jobs, h.own,
            h.answer⟩
        refine hmarked.post ?_ (by simp [hfirst]) (fun _ hj => by cases hj)
        simpa [isUtterance] using h.utterances
  | otherTurn job =>
      cases hstep
      exact h.post (by simpa [isUtterance] using h.utterances) (by simpa using h.reads)
        (fun _ hj => by cases hj)
  | otherTables summaries facts =>
      cases hstep
      exact h.post (by simpa [isUtterance] using h.utterances) (by simpa using h.reads)
        (fun _ hj => by cases hj)
  | work o =>
      simp only [Exchange.step, Option.map_eq_some_iff] at hstep
      obtain ⟨⟨job, memory⟩, hwork, rfl⟩ := hstep
      exact h.work hwork
  | shutDown =>
      cases hstep
      exact ⟨h.session, h.policy, h.utterances, h.reads, h.jobs, h.own, h.answer⟩

/-- Before either subscriber has reacted. -/
structure Fresh (x : Exchange) : Prop where
  session : x.session ≠ 0
  policy : x.memory.queue.policy = .dropNewest
  executed : x.memory.executed = []
  jobs : ∀ job ∈ x.memory.queue.items, isUtterance job = false ∧ job ≠ .readPrompt
  written : x.written = false
  asked : x.asked = false
  ownRow : x.ownRow = none
  answer : x.answer = none

theorem Fresh.sound {x : Exchange} (h : x.Fresh) : x.Sound := by
  have hjobs : x.memory.jobs = x.memory.queue.items := by simp [MemoryThread.jobs, h.executed]
  refine ⟨h.session, h.policy, ?_, ?_, ?_, ?_, ?_⟩
  · rw [hjobs, List.countP_eq_zero.mpr fun job hjob => by simp [(h.jobs job hjob).1]]
    exact Nat.zero_le _
  · rw [hjobs, List.count_eq_zero.mpr fun hmem => (h.jobs _ hmem).2 rfl]
    exact Nat.zero_le _
  · intro job hjob
    have hnone := (h.jobs _ (hjobs ▸ hjob)).1
    simp [isUtterance] at hnone
  · rw [h.ownRow, h.executed]
    trivial
  · rw [h.answer]
    show ∀ e ∈ x.memory.executed, e.1 ≠ .readPrompt
    rw [h.executed]
    exact fun e he => absurd he List.not_mem_nil

/-- The prompt ends with the utterance, and holds it a second time exactly if the memory
thread inserted its row before the prompt's read and the read still asks for it. -/
theorem ownMessages_eq {x₀ x : Exchange} {acts : List ExchangeAction} (h₀ : x₀.Fresh)
    (hrun : run step x₀ acts = some x) {snap : MemorySnapshot} (hsnap : x.answer = some snap) :
    (x.messages snap).getLast? = some x.utterance ∧
      (x.ownMessages snap).Sublist (x.messages snap) ∧
      x.ownMessages snap =
        if x.RepeatsUtterance then [x.utterance, x.utterance] else [x.utterance] := by
  have hsound : x.Sound := run_preserves Sound (fun _ _ _ hi hs => hi.step hs) hrun h₀.sound
  refine ⟨messages_getLast? snap x, ownMessages_sublist hsound.session snap, ?_⟩
  have hanswer := hsound.answer
  rw [hsnap] at hanswer
  obtain ⟨before, o, after, hlog, hbefore, -, hfound⟩ := hanswer
  have hiff : x.RepeatsUtterance ↔ o.query.turnsOk = true ∧
      (newerRows x.session before).any (fun k => Kept (recentLimit x.cfg) k) = true := by
    rw [RepeatsUtterance, hlog, readOk_eq hbefore, beforeRead_eq hbefore]
  rw [ownMessages, hfound]
  by_cases hrepeats : x.RepeatsUtterance
  · rw [if_pos hrepeats, if_pos (hiff.mp hrepeats)]
    rfl
  · rw [if_neg hrepeats, if_neg (mt hiff.mpr hrepeats)]
    rfl

/-! ## The two orders -/

/-- A question in an empty session. -/
def question : Exchange where
  session := 1
  final := { turn := 1, text := ascii "hello" }
  cfg := {}
  memory := { queue := { capacity := 256, policy := .dropNewest } }

theorem question_fresh : question.Fresh :=
  ⟨by decide, rfl, rfl, fun _ h => absurd h List.not_mem_nil, rfl, rfl, rfl, rfl⟩

/-- The read comes first: the prompt holds the question once. -/
theorem ownMessages_eq_readFirst :
    ∃ x snap, run step question [.ask, .write 1, .work {}, .work {}] = some x ∧
      x.answer = some snap ∧ x.ownMessages snap = [question.utterance] := by
  obtain ⟨x, hx⟩ : ∃ x, run step question [.ask, .write 1, .work {}, .work {}] = some x :=
    ⟨(run step question [.ask, .write 1, .work {}, .work {}]).get (by decide),
      (Option.some_get _).symm⟩
  obtain ⟨snap, hsnap⟩ : ∃ snap, x.answer = some snap := by
    cases hx
    exact ⟨_, rfl⟩
  refine ⟨x, snap, hx, hsnap, ?_⟩
  have hown := (ownMessages_eq question_fresh hx hsnap).2.2
  cases hx
  exact hown.trans (if_neg (by decide))

/-- The row comes first: the prompt holds the question twice. -/
theorem writeFirst_repeats_utterance :
    ∃ x snap, run step question [.write 1, .ask, .work {}, .work {}] = some x ∧
      x.answer = some snap ∧
      (x.messages snap).tail = [question.utterance, question.utterance] ∧
      x.ownMessages snap ≠ [question.utterance] := by
  refine ⟨_, _, rfl, rfl, by decide, by decide⟩

end Exchange

end Acva.Orchestrator
