import Acva.Dialogue.Manager.Submission

/-! # The client's submission is a run

`submit` as the client runs it, with the callbacks of `run_one` and with the events
that the subscription thread handles meanwhile, is one of the runs of the manager's
threads. So what holds of every run holds of every submission.
-/

namespace Acva.Dialogue

open Acva.Llm Acva.Runs

namespace Manager

/-! ## The turn of the context stays -/

theorem cancelActive_activeId (target : TurnId) (m : Manager) :
    (m.cancelActive target).active.id = m.active.id := by
  rw [cancelActive_eq]
  split <;> rfl

theorem handle_activeId (i : ManagerInput) (m : Manager) :
    (m.handle i).active.id = m.active.id := by
  obtain ⟨now, gateOpen, e⟩ := i
  cases e with
  | finalTranscript e => exact congrArg TurnContext.id (m.onFinalTranscript_active now gateOpen e)
  | userInterrupted e => exact cancelActive_activeId e.turn m
  | cancelGeneration e => exact cancelActive_activeId e.turn m
  | _ => rfl

theorem tokenCallback_activeId (delta : Bytes) (m : Manager) :
    (m.tokenCallback delta).active.id = m.active.id := by
  rw [tokenCallback_eq]
  cases m.reply with
  | none => rfl
  | some r =>
      simp only [setReply]
      split <;> rfl

theorem handOver_activeId (deltas : List Bytes) (m : Manager) :
    (LlmClient.handOver llmCallbacks deltas m).active.id = m.active.id := by
  induction deltas generalizing m with
  | nil => rfl
  | cons delta deltas ih => exact (ih _).trans (tokenCallback_activeId delta m)

theorem perform_activeId (readChunk : Bytes → Option SseChunk) (rc : CurlCode)
    (steps : List (TransferStep ManagerInput)) (st : Stream Manager) :
    (LlmClient.perform readChunk llmCallbacks rc steps st).2.state.active.id =
      st.state.active.id := by
  induction steps generalizing st with
  | nil => rfl
  | cons a steps ih =>
      cases a with
      | write chunk =>
          simp only [LlmClient.perform]
          split
          · rfl
          · exact (ih _).trans (handOver_activeId _ st.state)
      | progress =>
          simp only [LlmClient.perform]
          split
          · rfl
          · exact ih st
      | other i => exact (ih _).trans (handle_activeId i st.state)

end Manager

namespace ManagerHost

variable (readChunk : Bytes → Option SseChunk)

/-! ## The threads move the client -/

/-- `pc` holds the deltas that are left, and hands over the first of them. -/
def HandsOver (pc : List Bytes → Nat → SubmitPc) : Prop :=
  ∀ delta deltas tokens, (pc (delta :: deltas) tokens).nextDelta = some delta ∧
    (pc (delta :: deltas) tokens).popDelta = pc deltas (tokens + 1)

theorem handOver_run {pc : List Bytes → Nat → SubmitPc} (hpc : HandsOver pc)
    (deltas : List Bytes) (m : Manager) (tokens : Nat) :
    ∃ acts, run (step readChunk) ⟨m, pc deltas tokens⟩ acts =
      some ⟨LlmClient.handOver Manager.llmCallbacks deltas m,
        pc [] (tokens + deltas.length)⟩ := by
  induction deltas generalizing m tokens with
  | nil => exact ⟨[], rfl⟩
  | cons delta deltas ih =>
      obtain ⟨hnext, hpop⟩ := hpc delta deltas tokens
      have hone : step readChunk ⟨m, pc (delta :: deltas) tokens⟩ .token =
          some ⟨m.tokenCallback delta, pc deltas (tokens + 1)⟩ := by
        simp only [step, hnext, hpop, Option.map_some]
      obtain ⟨acts, hacts⟩ := ih (m.tokenCallback delta) (tokens + 1)
      refine ⟨.token :: acts, run_cons_eq_some.mpr ⟨_, hone, ?_⟩⟩
      rw [hacts, List.length_cons, Nat.add_right_comm, ← Nat.add_assoc]
      rfl

theorem handsOver_performing (parser : SseParser) : HandsOver (.performing parser) :=
  fun _ _ _ => ⟨rfl, rfl⟩

theorem handsOver_draining : HandsOver .draining := fun _ _ _ => ⟨rfl, rfl⟩

/-- The transfer runs until a callback or the network ends it. -/
theorem perform_run (rc : CurlCode) (steps : List (TransferStep ManagerInput))
    (st : Stream Manager) :
    let ended := (LlmClient.perform readChunk Manager.llmCallbacks rc steps st).2
    ∃ acts, run (step readChunk) ⟨st.state, .performing st.parser [] st.tokensGenerated⟩ acts =
      some ⟨ended.state, .drain readChunk ended.parser ended.tokensGenerated⟩ := by
  induction steps generalizing st with
  | nil => exact ⟨[.complete], rfl⟩
  | cons a steps ih =>
      cases a with
      | write chunk =>
          simp only [LlmClient.perform]
          split
          next hc =>
            have hc : st.state.tokenCancelled = true := hc
            exact ⟨[.write chunk], by simp [run, step, hc]⟩
          next hc =>
            have hc : ¬ st.state.tokenCancelled = true := hc
            let fed := st.parser.feed chunk
            have hone : step readChunk ⟨st.state, .performing st.parser [] st.tokensGenerated⟩
                (.write chunk) =
                some ⟨st.state, .performing fed.1 (deltasOf readChunk fed.2) st.tokensGenerated⟩ := by
              simp [step, hc, fed]
            obtain ⟨acts, hacts⟩ := handOver_run readChunk
              (handsOver_performing fed.1) (deltasOf readChunk fed.2) st.state st.tokensGenerated
            obtain ⟨acts', hacts'⟩ := ih
              (LlmClient.deliver readChunk Manager.llmCallbacks fed.1 fed.2 st)
            refine ⟨.write chunk :: (acts ++ acts'), run_cons_eq_some.mpr ⟨_, hone, ?_⟩⟩
            rw [run_append, hacts]
            exact hacts'
      | progress =>
          simp only [LlmClient.perform]
          split
          next hc =>
            have hc : st.state.tokenCancelled = true := hc
            exact ⟨[.progress], by simp [run, step, hc]⟩
          next hc =>
            have hc : ¬ st.state.tokenCancelled = true := hc
            obtain ⟨acts, hacts⟩ := ih st
            refine ⟨.progress :: acts, run_cons_eq_some.mpr ⟨_, ?_, hacts⟩⟩
            simp [step, hc]
      | other i =>
          obtain ⟨acts, hacts⟩ := ih { st with state := Manager.llmCallbacks.other i st.state }
          exact ⟨.event i :: acts, run_cons_eq_some.mpr ⟨_, rfl, hacts⟩⟩

/-- What a submission does to the manager, with all that happens meanwhile, its threads do
callback by callback. -/
theorem submit_run (tr : Transfer ManagerInput) (m : Manager) :
    let ended := LlmClient.submit readChunk Manager.llmCallbacks m.active.id tr m
    ∃ acts, run (step readChunk) ⟨m, .entered⟩ acts =
      some ⟨{ ended.1 with published := ended.1.published ++ ended.2 }, .returned⟩ := by
  by_cases hhandle : tr.handle = false
  · refine ⟨[.init false], ?_⟩
    simp [LlmClient.submit, hhandle, run, step, Manager.llmCallbacks]
  · let st := (LlmClient.perform readChunk Manager.llmCallbacks tr.rc tr.steps { state := m }).2
    let last := LlmClient.drained readChunk Manager.llmCallbacks tr m
    obtain ⟨acts, hacts⟩ := perform_run readChunk tr.rc tr.steps { state := m }
    obtain ⟨acts', hacts'⟩ := handOver_run readChunk handsOver_draining
      (deltasOf readChunk st.parser.finish.2) st.state st.tokensGenerated
    obtain ⟨finish, hsubmit⟩ := LlmClient.submit_of_handle readChunk Manager.llmCallbacks hhandle
      m.active.id m
    have hid : last.state.active.id = m.active.id :=
      (Manager.handOver_activeId _ st.state).trans (Manager.perform_activeId readChunk _ _ _)
    have hdrained : run (step readChunk) ⟨m, .entered⟩ (.init true :: (acts ++ acts')) =
        some ⟨last.state, .draining [] last.tokensGenerated⟩ := by
      refine run_cons_eq_some.mpr ⟨⟨m, .performing {} [] 0⟩, rfl, ?_⟩
      rw [run_append, hacts]
      exact hacts'
    refine ⟨(.init true :: (acts ++ acts')) ++ [.classify, .finish], ?_⟩
    rw [run_append, hdrained, hsubmit]
    simp only [Option.bind_some, run_cons, step, run_nil, hid]
    rfl

end ManagerHost

end Acva.Dialogue
