import Acva.Dialogue.Manager.Submission

/-! # Sentences after the cancel

A cancelled turn is to publish no more sentences. Neither callback of `run_one`
looks at the token: a delta that was read before the cancel may still complete a
sentence, and the finish callback publishes what the splitter holds. So a cancelled
turn stays silent exactly if none of its later callbacks has anything to publish.
-/

namespace Acva.Dialogue

open Acva.Llm Acva.Runs

/-! ## What one callback publishes -/

namespace Reply

variable {r r' : Reply}

/-- The sentences that `r'` has published beyond `r`. -/
def sentencesSince (r r' : Reply) : List LlmSentence :=
  sentencesOf (r'.published.drop r.published.length)

/-- The token callback has no sentence to publish: the cap is through, or the delta
completes none. -/
def CompletesNothing (delta : Bytes) (r : Reply) : Prop :=
  r.capState = .cancelled ∨ r.pastBackstop = true ∨ (r.splitter.push delta).2 = []

/-- The finish callback has none either: the cap is through, or only white space is left. -/
def LeavesNothing (r : Reply) : Prop :=
  r.pastBackstop = true ∨ trimLeading r.splitter.buf = []

instance (delta : Bytes) (r : Reply) : Decidable (r.CompletesNothing delta) :=
  inferInstanceAs (Decidable (_ ∨ _ ∨ _))

instance (r : Reply) : Decidable r.LeavesNothing := inferInstanceAs (Decidable (_ ∨ _))

theorem sentencesSince_of_published {es : List Event} (h : r'.published = r.published ++ es) :
    sentencesSince r r' = sentencesOf es := by
  rw [sentencesSince, h, List.drop_left]

theorem sentencesSince_of_same (h : r'.published = r.published) : sentencesSince r r' = [] := by
  rw [sentencesSince_of_published (h.trans (List.append_nil _).symm)]
  rfl

theorem sentencesSince_trans {r'' : Reply} (h : Continues r r') (h' : Continues r' r'') :
    sentencesSince r r'' = sentencesSince r r' ++ sentencesSince r' r'' := by
  obtain ⟨es, hes, -⟩ := h.published
  obtain ⟨es', hes', -⟩ := h'.published
  have hboth : r''.published = r.published ++ (es ++ es') := by
    rw [hes', hes, List.append_assoc]
  rw [sentencesSince_of_published hes, sentencesSince_of_published hes',
    sentencesSince_of_published hboth, sentencesOf_append]

theorem publishSentence_sentencesSince (s : Bytes) (r : Reply) :
    sentencesSince r (r.publishSentence s) ≠ [] := by
  have hone : (r.publishSentence s).published = r.published ++
      [.llmSentence { turn := r.turn, seq := r.seq.toNat, text := s, lang := r.lang }] := rfl
  rw [sentencesSince_of_published hone, sentencesOf_llmSentence]
  exact List.cons_ne_nil _ _

theorem emitSentence_sentencesSince (s : Bytes) (r : Reply) :
    sentencesSince r (r.emitSentence s) = [] ↔ r.pastBackstop = true := by
  unfold emitSentence
  split
  next hpast =>
    exact iff_of_true (sentencesSince_of_same rfl) hpast
  next hpast =>
    refine iff_of_false ?_ hpast
    have hone := publishSentence_sentencesSince s r
    dsimp only
    split
    · exact hone
    · split
      · exact hone
      · exact hone

theorem emitSentences_sentencesSince (ss : List Bytes) (r : Reply) :
    sentencesSince r (emitSentences ss r) = [] ↔ r.pastBackstop = true ∨ ss = [] := by
  cases ss with
  | nil => exact iff_of_true (sentencesSince_of_same rfl) (.inr rfl)
  | cons s ss =>
      have hone := emitSentence_sentencesSince s r
      simp only [emitSentences, List.cons_ne_nil, or_false]
      by_cases hstop : (r.emitSentence s).capState = .cancelled
      · rw [if_pos hstop]
        exact hone
      · rw [if_neg hstop, sentencesSince_trans (emitSentence_continues s r)
          (emitSentences_continues ss _), List.append_eq_nil_iff, hone]
        refine and_iff_left_of_imp fun hpast => ?_
        -- past the backstop the loop breaks at once
        rw [emitSentence, if_pos hpast] at hstop
        exact absurd rfl hstop

theorem flushSentences_sentencesSince (ss : List Bytes) (r : Reply) :
    sentencesSince r (flushSentences ss r) = [] ↔ r.pastBackstop = true ∨ ss = [] := by
  cases ss with
  | nil => exact iff_of_true (sentencesSince_of_same rfl) (.inr rfl)
  | cons s ss =>
      simp only [flushSentences, List.cons_ne_nil, or_false]
      by_cases hpast : r.pastBackstop = true
      · rw [if_pos hpast]
        exact iff_of_true (sentencesSince_of_same rfl) hpast
      · rw [if_neg hpast, sentencesSince_trans (publishSentence_continues s r)
          (flushSentences_continues ss _), List.append_eq_nil_iff]
        exact iff_of_false (fun h => publishSentence_sentencesSince s r h.1) hpast

theorem onToken_sentencesSince (delta : Bytes) (r : Reply) :
    sentencesSince r (r.onToken delta) = [] ↔ r.CompletesNothing delta := by
  unfold CompletesNothing
  by_cases hstop : r.capState = .cancelled
  · rw [onToken, if_pos hstop]
    exact iff_of_true (sentencesSince_of_same rfl) (.inl hstop)
  · let fed : Reply := { r with splitter := (r.splitter.push delta).1 }
    let looped : Reply := emitSentences (r.splitter.push delta).2 fed
    have hloop : sentencesSince r looped = [] ↔
        r.pastBackstop = true ∨ (r.splitter.push delta).2 = [] :=
      emitSentences_sentencesSince (r.splitter.push delta).2 fed
    obtain ⟨es, hes, -⟩ : ∃ es, looped.published = r.published ++ es ∧ _ :=
      (emitSentences_continues (r.splitter.push delta).2 fed).published
    have htoken : sentencesSince r (r.onToken delta) = sentencesSince r looped := by
      simp only [onToken, if_neg hstop]
      split
      next =>
        have hlast : (looped.publish (.llmToken { turn := looped.turn, token := delta })).published =
            r.published ++ (es ++ [.llmToken { turn := looped.turn, token := delta }]) := by
          rw [← List.append_assoc, ← hes]
          rfl
        rw [sentencesSince_of_published hes, sentencesSince_of_published hlast,
          sentencesOf_append, sentencesOf_llmToken, List.append_nil]
      next => rfl
    rw [htoken, hloop]
    exact (or_iff_right hstop).symm

theorem onFinished_sentencesSince (r : Reply) :
    sentencesSince r r.onFinished = [] ↔ r.LeavesNothing := by
  have hflush : sentencesSince r r.onFinished = [] ↔
      r.pastBackstop = true ∨ r.splitter.flush.2 = [] :=
    flushSentences_sentencesSince r.splitter.flush.2 { r with splitter := r.splitter.flush.1 }
  rw [hflush, r.splitter.flush_eq_nil_iff]
  rfl

end Reply

/-! ## The watch on the cancel -/

/-- Whether a cancel has hit the run's token, and the sentences published by callbacks that
started after that. -/
structure LateNotes where
  cancelled : Bool := false
  late : List LlmSentence := []
deriving DecidableEq, Repr

namespace ManagerHost

/-- The sentences that a step publishes. -/
def sentencesBy (s s' : ManagerHost) : List LlmSentence :=
  sentencesOf (s'.manager.published.drop s.manager.published.length)

def noteLate (readChunk : Bytes → Option SseChunk) (l : LateNotes) (s : ManagerHost)
    (a : ManagerAction) : LateNotes :=
  let late := match s.step readChunk a with
    | some s' => if l.cancelled = true then l.late ++ sentencesBy s s' else l.late
    | none => l.late
  match a with
  | .event i =>
      { cancelled := l.cancelled || (cancelTarget i.event).any fun t => s.manager.hitBy t
        late := late }
  -- a new context has a new token
  | .fixTurn _ => { cancelled := false, late := late }
  | _ => { l with late := late }

/-- A callback finds no sentence to publish. -/
def FindsNothing (s : ManagerHost) : ManagerAction → Prop
  | .token => ∀ r ∈ s.manager.reply, ∀ delta ∈ s.submit.nextDelta, r.CompletesNothing delta
  | .init false => ∀ r ∈ s.manager.reply, r.LeavesNothing
  | .finish => ∀ r ∈ s.manager.reply, r.LeavesNothing
  | _ => True

/-- The condition on one step: the callbacks of a cancelled run find nothing. -/
def FallsSilent (w : ManagerHost × LateNotes) (a : ManagerAction) : Prop :=
  w.2.cancelled = true → FindsNothing w.1 a

variable {s s' : ManagerHost}

theorem sentencesBy_of_published {es : List Event}
    (h : s'.manager.published = s.manager.published ++ es) : sentencesBy s s' = sentencesOf es := by
  rw [sentencesBy, h, List.drop_left]

theorem sentencesBy_of_same (h : s'.manager.published = s.manager.published) :
    sentencesBy s s' = [] :=
  sentencesBy_of_published (h.trans (List.append_nil _).symm)

/-- A callback puts on the bus what it does to the reply. -/
theorem setReply_published {r r' : Reply} (m : Manager) :
    (m.setReply r r').published = m.published ++ r'.published.drop r.published.length := rfl

theorem tokenCallback_published (delta : Bytes) (m : Manager) :
    ∃ es, (m.tokenCallback delta).published = m.published ++ es ∧
      (sentencesOf es = [] ↔ ∀ r ∈ m.reply, r.CompletesNothing delta) := by
  rw [m.tokenCallback_eq]
  cases m.reply with
  | none => exact ⟨[], (List.append_nil _).symm, iff_of_true rfl fun r hr => nomatch hr⟩
  | some r =>
      refine ⟨_, setReply_published m, ?_⟩
      exact (Reply.onToken_sentencesSince delta r).trans (by simp)

theorem finishCallback_published (m : Manager) :
    ∃ es, m.finishCallback.published = m.published ++ es ∧
      (sentencesOf es = [] ↔ ∀ r ∈ m.reply, r.LeavesNothing) := by
  rw [m.finishCallback_eq]
  cases m.reply with
  | none => exact ⟨[], (List.append_nil _).symm, iff_of_true rfl fun r hr => nomatch hr⟩
  | some r =>
      refine ⟨_, setReply_published m, ?_⟩
      exact (Reply.onFinished_sentencesSince r).trans (by simp)

theorem handle_published (i : ManagerInput) (m : Manager) :
    ∃ es, (m.handle i).published = m.published ++ es ∧ sentencesOf es = [] := by
  have hnone : ∃ es, m.published = m.published ++ es ∧ sentencesOf es = [] :=
    ⟨[], (List.append_nil _).symm, rfl⟩
  obtain ⟨now, gateOpen, e⟩ := i
  cases e with
  | finalTranscript e =>
      simp only [Manager.handle, Manager.onEvent, Manager.onFinalTranscript]
      split
      · exact ⟨_, rfl, rfl⟩
      · split
        · exact ⟨_, rfl, rfl⟩
        · exact hnone
  | userInterrupted e => exact (m.cancelActive_published e.turn).symm ▸ hnone
  | cancelGeneration e => exact (m.cancelActive_published e.turn).symm ▸ hnone
  | _ => exact hnone

/-- The callbacks alone publish sentences. -/
theorem sentencesBy_eq_nil_iff {readChunk : Bytes → Option SseChunk} {a : ManagerAction}
    (h : s.step readChunk a = some s') : sentencesBy s s' = [] ↔ FindsNothing s a := by
  cases step_eq_some h with
  | event i =>
      obtain ⟨es, hes, hnone⟩ := handle_published i s.manager
      exact iff_of_true ((sentencesBy_of_published hes).trans hnone) trivial
  | requestStop =>
      exact iff_of_true (sentencesBy_of_same (s.manager.cancelActive_published kNoTurn)) trivial
  | startStream job hio =>
      apply iff_of_true _ trivial
      rw [sentencesBy, Manager.publish, List.drop_left]
      exact sentencesOf_llmStarted _
  | initFail hsubmit =>
      obtain ⟨es, hes, hiff⟩ := finishCallback_published s.manager
      rw [sentencesBy_of_published hes]
      exact hiff
  | drain _ ha parser tokens hsubmit =>
      apply iff_of_true (sentencesBy_of_same rfl)
      rcases ha with rfl | rfl | ⟨chunk, rfl⟩ <;> exact trivial
  | token delta hnext =>
      obtain ⟨es, hes, hiff⟩ := tokenCallback_published delta s.manager
      rw [sentencesBy_of_published hes, hiff, FindsNothing, hnext]
      simp only [Option.mem_def, Option.some.injEq, forall_eq']
  | finish cancelled tokens hsubmit =>
      obtain ⟨es, hes, hiff⟩ := finishCallback_published s.manager
      have hmore : (s.manager.finishCallback.publish (.llmFinished
          { turn := s.manager.active.id, cancelled := cancelled,
            tokensGenerated := tokens })).published =
          s.manager.published ++ (es ++ [.llmFinished
            { turn := s.manager.active.id, cancelled := cancelled,
              tokensGenerated := tokens }]) := by
        rw [← List.append_assoc, ← hes]
        rfl
      rw [sentencesBy_of_published hmore, sentencesOf_append, sentencesOf_llmFinished,
        List.append_nil]
      exact hiff
  | _ => exact iff_of_true (sentencesBy_of_same rfl) trivial

theorem noteLate_late {readChunk : Bytes → Option SseChunk} {l : LateNotes} {a : ManagerAction}
    (h : s.step readChunk a = some s') :
    (noteLate readChunk l s a).late =
      l.late ++ if l.cancelled = true then sentencesBy s s' else [] := by
  have hone : (if l.cancelled = true then l.late ++ sentencesBy s s' else l.late) =
      l.late ++ if l.cancelled = true then sentencesBy s s' else [] := by
    split
    · rfl
    · exact (List.append_nil _).symm
  rw [← hone]
  cases a <;> simp only [noteLate, h]

/-- No callback that starts after the cancel publishes a sentence, exactly if none of them
finds one to publish. -/
theorem run_noneLate_iff {readChunk : Bytes → Option SseChunk} {s₀ : ManagerHost}
    {l : LateNotes} {acts : List ManagerAction}
    (hrun : run (watch (step readChunk) (noteLate readChunk)) (s₀, {}) acts = some (s, l)) :
    l.late = [] ↔
      Always (watch (step readChunk) (noteLate readChunk)) FallsSilent (s₀, {}) acts := by
  apply run_iff_always (fun _ => True) (fun w => w.2.late = []) (fun _ _ _ _ _ => trivial)
    ?_ ?_ hrun trivial rfl
  · intro w a w' _ hnone hstep
    obtain ⟨hs, hnote⟩ := watch_eq_some.mp hstep
    rw [hnote, noteLate_late hs, hnone, List.nil_append, FallsSilent, ← sentencesBy_eq_nil_iff hs]
    by_cases hc : w.2.cancelled = true
    · rw [if_pos hc]
      exact ⟨fun h _ => h, fun h => h hc⟩
    · rw [if_neg hc]
      exact iff_of_true rfl fun h => absurd h hc
  · intro w a w' _ hsome hstep
    obtain ⟨hs, hnote⟩ := watch_eq_some.mp hstep
    rw [hnote, noteLate_late hs]
    exact fun hnone => hsome (List.append_eq_nil_iff.mp hnone).1

/-! ## A reply that is interrupted after its first delta -/

def deltaPayload (text : Bytes) : Bytes :=
  ascii "\x7b\"choices\":[\x7b\"delta\":\x7b\"content\":\"" ++ text ++ ascii "\"\x7d\x7d]\x7d"

/-- The reader on one payload. -/
def readDelta (text payload : Bytes) : Option SseChunk :=
  if payload = deltaPayload text then some ⟨[some text]⟩ else none

def interruptedStream (text : Bytes) : List ManagerAction :=
  [.event ⟨0, true, .finalTranscript { text := ascii "hello" }⟩, .takeJob, .askProvider 1,
    .fixTurn {}, .runHook, .startStream, .init true,
    .write (ascii "data: " ++ deltaPayload text ++ ascii "\n\n"), .token,
    .event ⟨1, true, .userInterrupted { turn := 1 }⟩, .progress, .classify, .finish, .leave]

theorem run_noneLate_iff_wholeSentence : ∃ s l,
    run (watch (step (readDelta (ascii "Well. "))) (noteLate (readDelta (ascii "Well. "))))
        ({}, {}) (interruptedStream (ascii "Well. ")) = some (s, l) ∧ l.cancelled = true ∧
      sentencesOf s.manager.published = numbered 1 (ascii "en") [ascii "Well."] ∧
      (l.late = [] ↔
        Always (watch (step (readDelta (ascii "Well. "))) (noteLate (readDelta (ascii "Well. "))))
          FallsSilent ({}, {}) (interruptedStream (ascii "Well. "))) := by
  obtain ⟨⟨s, l⟩, hrun, hcancelled, hsentences⟩ : ∃ w,
      run (watch (step (readDelta (ascii "Well. "))) (noteLate (readDelta (ascii "Well. "))))
          ({}, {}) (interruptedStream (ascii "Well. ")) = some w ∧ w.2.cancelled = true ∧
        sentencesOf w.1.manager.published = numbered 1 (ascii "en") [ascii "Well."] := by
    refine ⟨(run (watch (step (readDelta (ascii "Well. "))) (noteLate (readDelta (ascii "Well. "))))
      ({}, {}) (interruptedStream (ascii "Well. "))).get (by decide +kernel), ?_,
      by decide +kernel, by decide +kernel⟩
    exact (Option.some_get _).symm
  exact ⟨s, l, hrun, hcancelled, hsentences, run_noneLate_iff hrun⟩

/-- The tail that the splitter holds is published after the cancel. -/
theorem unfinishedTail_published : ∃ s l,
    run (watch (step (readDelta (ascii "Well"))) (noteLate (readDelta (ascii "Well"))))
        ({}, {}) (interruptedStream (ascii "Well")) = some (s, l) ∧
      l.late = numbered 1 (ascii "en") [ascii "Well"] := by
  obtain ⟨⟨s, l⟩, hrun, hlate⟩ : ∃ w,
      run (watch (step (readDelta (ascii "Well"))) (noteLate (readDelta (ascii "Well"))))
          ({}, {}) (interruptedStream (ascii "Well")) = some w ∧
        w.2.late = numbered 1 (ascii "en") [ascii "Well"] := by
    refine ⟨(run (watch (step (readDelta (ascii "Well"))) (noteLate (readDelta (ascii "Well"))))
      ({}, {}) (interruptedStream (ascii "Well"))).get (by decide +kernel), ?_, by decide +kernel⟩
    exact (Option.some_get _).symm
  exact ⟨s, l, hrun, hlate⟩

end ManagerHost

end Acva.Dialogue
