import Acva.Dialogue.Manager.Submission

/-! # Cancels that come too early

A cancel that is handled after a transcript was enqueued and before its stream has
ended is to cancel the run's token. It does once `run_one` has stored its context.
Before that, in the pending slot and after the take, `cancel_active` finds nothing
or another run's context, and the cancel is lost.
-/

namespace Acva.Dialogue

open Acva.Llm Acva.Runs

/-- The cancels handled, by where the transcript was that they are noted for. -/
structure CancelNotes where
  /-- Since the pending transcript was enqueued. -/
  waiting : List TurnId := []
  /-- Since the transcript in hand was enqueued, until its context was stored. -/
  missed : List TurnId := []
  /-- Since then; `stop` counts. -/
  hits : List TurnId := []
  /-- A state was reached in which a cancel was lost. -/
  lost : Bool := false
deriving DecidableEq, Repr

namespace Manager

/-- `run_one` has stored its context. -/
def contextStored (m : Manager) : Bool :=
  match m.io with
  | .building _ => true
  | .hooked _ => true
  | .streaming _ => true
  | _ => false

end Manager

namespace ManagerHost

def noteCancel (t : TurnId) (m : Manager) (l : CancelNotes) : CancelNotes :=
  if m.contextStored = true then
    { l with waiting := l.waiting ++ [t], hits := l.hits ++ [t] }
  else { l with waiting := l.waiting ++ [t], missed := l.missed ++ [t] }

def noteEvent (i : ManagerInput) (m : Manager) (l : CancelNotes) : CancelNotes :=
  match i.event with
  | .userInterrupted e => noteCancel e.turn m l
  | .cancelGeneration e => noteCancel e.turn m l
  -- a transcript that is not refused takes the slot
  | .finalTranscript e => if m.handle i = m.enqueueTurn e then { l with waiting := [] } else l
  | _ => l

def noteAction (l : CancelNotes) (s : ManagerHost) : ManagerAction → CancelNotes
  | .event i => noteEvent i s.manager l
  | .requestStop =>
      if s.manager.contextStored = true then { l with hits := l.hits ++ [kNoTurn] } else l
  | .takeJob => { l with waiting := [], missed := l.waiting, hits := [] }
  | _ => l

/-- Once a transcript is submitted, the cancels of its turn have cancelled its token. -/
def CancelTaken (s : ManagerHost) (l : CancelNotes) : Prop :=
  s.submit ≠ .outside → ∀ t ∈ l.missed ++ l.hits, s.manager.hitBy t = true →
    s.manager.tokenCancelled = true

instance (s : ManagerHost) (l : CancelNotes) : Decidable (CancelTaken s l) :=
  inferInstanceAs (Decidable (_ → _))

def noteLost (readChunk : Bytes → Option SseChunk) (l : CancelNotes) (s : ManagerHost)
    (a : ManagerAction) : CancelNotes :=
  let l := noteAction l s a
  match s.step readChunk a with
  | some s' => { l with lost := l.lost || !decide (CancelTaken s' l) }
  | none => l

/-- The condition on one step: a transcript is submitted only if no cancel of its turn was
handled before its context was stored, or another one since. -/
def NoneMissed (w : ManagerHost × CancelNotes) : ManagerAction → Prop
  | .startStream => (∃ t ∈ w.2.missed, w.1.manager.hitBy t = true) →
      ∃ t ∈ w.2.hits, w.1.manager.hitBy t = true
  | _ => True

/-! ## Cancels on a stored context -/

theorem hitBy_cancelActive (t target : TurnId) (m : Manager) :
    (m.cancelActive target).hitBy t = m.hitBy t := by
  rw [Manager.cancelActive_eq]
  split
  · show (m.active.cancelToken.valid && _) = _
    rw [TurnContext.cancelToken_valid]
    rfl
  · rfl

theorem cancelToken_cancelled {ctx : TurnContext} (h : ctx.valid = true) :
    (ctx.cancelToken.token.map CancellationToken.isCancelled).getD false = true := by
  simp only [TurnContext.valid, Bool.and_eq_true] at h
  obtain ⟨token, htoken⟩ := Option.isSome_iff_exists.mp h.2
  simp [TurnContext.cancelToken, htoken, CancellationToken.cancel, CancellationToken.isCancelled]

theorem cancelActive_tokenCancelled {target : TurnId} {m : Manager} :
    (m.cancelActive target).tokenCancelled = true ↔
      m.hitBy target = true ∨ m.tokenCancelled = true := by
  rw [Manager.cancelActive_eq]
  by_cases hhit : m.hitBy target = true
  · have hvalid : m.active.valid = true := by
      simp only [Manager.hitBy, Bool.and_eq_true] at hhit
      exact hhit.1
    rw [if_pos hhit]
    exact iff_of_true (cancelToken_cancelled hvalid) (.inl hhit)
  · rw [if_neg hhit]
    exact (or_iff_right hhit).symm

/-- The context of the run is still the same one, and its token no less cancelled. -/
structure SameRun (m m' : Manager) : Prop where
  hitBy : ∀ t, m'.hitBy t = m.hitBy t
  cancelled : m.tokenCancelled = true → m'.tokenCancelled = true

theorem SameRun.of_active {m m' : Manager} (h : m'.active = m.active) : SameRun m m' := by
  constructor
  · intro t
    simp only [Manager.hitBy, h]
  · intro hc
    rw [Manager.tokenCancelled, h]
    exact hc

theorem SameRun.setReply (r r' : Reply) (m : Manager) : SameRun m (m.setReply r r') := by
  by_cases hcap : r'.capState = .cancelled
  · have hactive : (m.setReply r r').active = m.active.cancelToken := if_pos hcap
    constructor
    · intro t
      rw [Manager.hitBy, hactive, TurnContext.cancelToken_valid]
      rfl
    · intro hc
      rw [Manager.tokenCancelled, hactive]
      rw [Manager.tokenCancelled] at hc
      cases htoken : m.active.token with
      | none => simp [htoken] at hc
      | some token =>
          simp [TurnContext.cancelToken, htoken, CancellationToken.cancel,
            CancellationToken.isCancelled]
  · exact .of_active (if_neg hcap)

theorem SameRun.tokenCallback (delta : Bytes) (m : Manager) :
    SameRun m (m.tokenCallback delta) := by
  unfold Manager.tokenCallback
  split
  · exact .setReply _ _ m
  · exact .of_active rfl

theorem SameRun.finishCallback (m : Manager) : SameRun m m.finishCallback := by
  unfold Manager.finishCallback
  split
  · exact .setReply _ _ m
  · exact .of_active rfl

theorem SameRun.publish {m m' : Manager} (h : SameRun m m') (e : Event) :
    SameRun m (m'.publish e) :=
  ⟨h.hitBy, h.cancelled⟩

/-! ## What the notes say of the token -/

structure CancelInv (s : ManagerHost) (l : CancelNotes) : Prop where
  submitting : s.submit ≠ .outside → ∃ r, s.manager.io = .streaming r
  fresh : (∃ job, s.manager.io = .took job) ∨ (∃ job id, s.manager.io = .asked job id) →
    l.hits = []
  hit : s.manager.contextStored = true → (∃ t ∈ l.hits, s.manager.hitBy t = true) →
    s.manager.tokenCancelled = true
  /-- Before the submission nothing else cancels the token. -/
  only : s.manager.contextStored = true → s.submit = .outside →
    s.manager.tokenCancelled = true → ∃ t ∈ l.hits, s.manager.hitBy t = true

variable {s s' : ManagerHost} {l : CancelNotes}

theorem CancelInv.outside (hi : CancelInv s l) (h : ∀ r, s.manager.io ≠ .streaming r) :
    s.submit = .outside := by
  by_contra hne
  obtain ⟨r, hr⟩ := hi.submitting hne
  exact h r hr

/-- The subscription thread hits the context, or has nothing to do with it. -/
theorem CancelInv.cancels (hi : CancelInv s l) {t : TurnId} {m : Manager} {l' : CancelNotes}
    (hio : m.io = s.manager.io) (hactive : m.active = (s.manager.cancelActive t).active)
    (hhits : l'.hits = if s.manager.contextStored = true then l.hits ++ [t] else l.hits) :
    CancelInv (s.onManager m) l' := by
  have hstored : m.contextStored = s.manager.contextStored := by
    simp only [Manager.contextStored, hio]
  have hhit : ∀ t', m.hitBy t' = s.manager.hitBy t' := fun t' =>
    ((SameRun.of_active hactive).hitBy t').trans (hitBy_cancelActive t' t s.manager)
  have hcancelled : m.tokenCancelled = true ↔
      s.manager.hitBy t = true ∨ s.manager.tokenCancelled = true := by
    rw [← cancelActive_tokenCancelled, Manager.tokenCancelled, hactive]
    rfl
  constructor
  · intro hsubmit
    obtain ⟨r, hr⟩ := hi.submitting hsubmit
    exact ⟨r, hio.trans hr⟩
  · intro hbefore
    have hbefore : (∃ job, s.manager.io = .took job) ∨ ∃ job id, s.manager.io = .asked job id := by
      rw [← hio]
      exact hbefore
    have hnot : ¬ s.manager.contextStored = true := by
      rcases hbefore with ⟨job, hjob⟩ | ⟨job, id, hjob⟩ <;>
        simp [Manager.contextStored, hjob]
    rw [hhits, if_neg hnot]
    exact hi.fresh hbefore
  · rintro hctx ⟨t', hmem, hone⟩
    have hctx : s.manager.contextStored = true := hstored ▸ hctx
    have hone : s.manager.hitBy t' = true := (hhit t').symm.trans hone
    rw [hhits, if_pos hctx] at hmem
    apply hcancelled.mpr
    rcases List.mem_append.mp hmem with hold | hnew
    · exact .inr (hi.hit hctx ⟨t', hold, hone⟩)
    · rw [List.mem_singleton.mp hnew] at hone
      exact .inl hone
  · intro hctx hsubmit hc
    have hctx : s.manager.contextStored = true := hstored ▸ hctx
    rw [hhits, if_pos hctx]
    rcases hcancelled.mp hc with hnow | hold
    · exact ⟨t, List.mem_append_right _ List.mem_cons_self, (hhit t).trans hnow⟩
    · obtain ⟨t', hmem, hone⟩ := hi.only hctx hsubmit hold
      exact ⟨t', List.mem_append_left _ hmem, (hhit t').trans hone⟩

/-- The subscription thread does something else. -/
theorem CancelInv.same (hi : CancelInv s l) {m : Manager} {l' : CancelNotes}
    (hio : m.io = s.manager.io) (hactive : m.active = s.manager.active)
    (hhits : l'.hits = l.hits) : CancelInv (s.onManager m) l' := by
  obtain ⟨hsubmitting, hfresh, hhit, honly⟩ := hi
  have hstored : m.contextStored = s.manager.contextStored := by
    simp only [Manager.contextStored, hio]
  have hsame : ∀ t, m.hitBy t = s.manager.hitBy t := (SameRun.of_active hactive).hitBy
  have hcancelled : m.tokenCancelled = s.manager.tokenCancelled := by
    simp only [Manager.tokenCancelled, hactive]
  constructor
  · show s.submit ≠ .outside → ∃ r, m.io = .streaming r
    rw [hio]
    exact hsubmitting
  · show (∃ job, m.io = .took job) ∨ (∃ job id, m.io = .asked job id) → _
    rw [hio, hhits]
    exact hfresh
  · show m.contextStored = true → (∃ t ∈ l'.hits, m.hitBy t = true) → m.tokenCancelled = true
    simp only [hstored, hsame, hcancelled, hhits]
    exact hhit
  · show m.contextStored = true → s.submit = .outside → m.tokenCancelled = true →
      ∃ t ∈ l'.hits, m.hitBy t = true
    simp only [hstored, hsame, hcancelled, hhits]
    exact honly

/-- Before a context is stored there is nothing to say. -/
theorem CancelInv.before (hsubmit : s'.submit = .outside)
    (hnot : s'.manager.contextStored = false)
    (hfresh : s'.manager.io = .idle ∨ s'.manager.io = .stopped ∨ l.hits = []) :
    CancelInv s' l := by
  constructor
  · exact fun hne => absurd hsubmit hne
  · intro hbefore
    rcases hfresh with hidle | hstopped | hhits
    · rw [hidle] at hbefore
      rcases hbefore with ⟨job, hjob⟩ | ⟨job, id, hjob⟩ <;> cases hjob
    · rw [hstopped] at hbefore
      rcases hbefore with ⟨job, hjob⟩ | ⟨job, id, hjob⟩ <;> cases hjob
    · exact hhits
  · intro hctx
    rw [hnot] at hctx
    cases hctx
  · intro hctx
    rw [hnot] at hctx
    cases hctx

/-- The I/O thread moves on with a context that is stored. -/
theorem CancelInv.moves (hi : CancelInv s l) {m : Manager} {pc : SubmitPc}
    (hctx : s.manager.contextStored = true) (hsame : SameRun s.manager m)
    (hsubmitting : pc ≠ .outside → ∃ r, m.io = .streaming r)
    (hnot : (∀ job, m.io ≠ .took job) ∧ ∀ job id, m.io ≠ .asked job id)
    (hbefore : pc = .outside → s.submit = .outside ∧ m.active = s.manager.active) :
    CancelInv ⟨m, pc⟩ l := by
  constructor
  · exact hsubmitting
  · rintro (⟨job, hjob⟩ | ⟨job, id, hjob⟩)
    · exact absurd hjob (hnot.1 job)
    · exact absurd hjob (hnot.2 job id)
  · rintro - ⟨t, hmem, hone⟩
    exact hsame.cancelled (hi.hit hctx ⟨t, hmem, (hsame.hitBy t).symm.trans hone⟩)
  · intro _ hsubmit hc
    obtain ⟨houtside, hactive⟩ := hbefore hsubmit
    have hc : s.manager.tokenCancelled = true := by
      rw [Manager.tokenCancelled, ← hactive]
      exact hc
    obtain ⟨t, hmem, hone⟩ := hi.only hctx houtside hc
    exact ⟨t, hmem, (hsame.hitBy t).trans hone⟩

/-- A step of `submit`. -/
theorem CancelInv.streams (hi : CancelInv s l) {m : Manager} {pc : SubmitPc}
    (hsubmit : s.submit ≠ .outside) (hsame : SameRun s.manager m)
    (hio : (∃ r, s.manager.io = .streaming r) → ∃ r, m.io = .streaming r)
    (hpc : pc ≠ .outside) : CancelInv ⟨m, pc⟩ l := by
  obtain ⟨r, hr⟩ := hi.submitting hsubmit
  obtain ⟨r', hr'⟩ := hio ⟨r, hr⟩
  refine hi.moves (by simp [Manager.contextStored, hr]) hsame (fun _ => ⟨r', hr'⟩) ?_
    (fun h => absurd h hpc)
  constructor
  · intro job hjob
    rw [hr'] at hjob
    cases hjob
  · intro job id hjob
    rw [hr'] at hjob
    cases hjob

theorem tokenCallback_streaming (delta : Bytes) {m : Manager} (h : ∃ r, m.io = .streaming r) :
    ∃ r, (m.tokenCallback delta).io = .streaming r := by
  obtain ⟨r, hr⟩ := h
  exact ⟨r.onToken delta, by simp only [Manager.tokenCallback, hr]; rfl⟩

theorem finishCallback_streaming {m : Manager} (h : ∃ r, m.io = .streaming r) :
    ∃ r, m.finishCallback.io = .streaming r := by
  obtain ⟨r, hr⟩ := h
  exact ⟨r.onFinished, by simp only [Manager.finishCallback, hr]; rfl⟩

theorem popDelta_ne_outside {pc : SubmitPc} {delta : Bytes} (h : pc.nextDelta = some delta) :
    pc ≠ .outside ∧ pc.popDelta ≠ .outside := by
  unfold SubmitPc.nextDelta at h
  split at h
  · exact ⟨by simp, by simp [SubmitPc.popDelta]⟩
  · exact ⟨by simp, by simp [SubmitPc.popDelta]⟩
  · cases h

theorem CancelInv.step {readChunk : Bytes → Option SseChunk} {a : ManagerAction}
    (hi : CancelInv s l) (h : s.step readChunk a = some s') : CancelInv s' (noteAction l s a) := by
  cases step_eq_some h with
  | event i =>
      obtain ⟨now, gateOpen, e⟩ := i
      have hcancels : ∀ t, CancelInv (s.onManager (s.manager.cancelActive t))
          (noteCancel t s.manager l) := by
        intro t
        apply hi.cancels (Manager.cancelActive_io t s.manager) rfl
        unfold noteCancel
        split <;> rfl
      cases e with
      | finalTranscript e =>
          apply hi.same
          · exact Manager.onEvent_io now gateOpen _ s.manager
          · exact Manager.onFinalTranscript_active now gateOpen e s.manager
          · simp only [noteAction, noteEvent]
            split <;> rfl
      | userInterrupted e => exact hcancels e.turn
      | cancelGeneration e => exact hcancels e.turn
      | _ => exact hi.same rfl rfl rfl
  | requestStop =>
      apply hi.cancels (t := kNoTurn)
      · exact Manager.cancelActive_io kNoTurn s.manager
      · rfl
      · simp only [noteAction]
        split <;> rfl
  | takeJob job hio hpending =>
      exact .before (hi.outside (by rw [hio]; simp)) rfl (.inr (.inr rfl))
  | exit hio hpending hstop =>
      exact .before (hi.outside (by rw [hio]; simp)) rfl (.inr (.inl rfl))
  | askProvider job id hio =>
      exact .before (hi.outside (by rw [hio]; simp)) rfl (.inr (.inr (hi.fresh (.inl ⟨job, hio⟩))))
  | fixTurn turns job id t hio =>
      have hhits : l.hits = [] := hi.fresh (.inr ⟨job, id, hio⟩)
      constructor
      · exact fun hsubmit => absurd (hi.outside (by rw [hio]; simp)) hsubmit
      · exact fun _ => hhits
      · rintro - ⟨t', hmem, -⟩
        rw [show (noteAction l s (.fixTurn turns)).hits = [] from hhits] at hmem
        cases hmem
      · intro _ _ hc
        cases hc
  | runHook job hio =>
      have houtside := hi.outside (by rw [hio]; simp)
      refine hi.moves (by simp [Manager.contextStored, hio]) (.of_active rfl) ?_ ?_ ?_
      · exact fun hsubmit => absurd houtside hsubmit
      · exact ⟨fun _ h => (by cases h), fun _ _ h => (by cases h)⟩
      · exact fun _ => ⟨houtside, rfl⟩
  | startStream job hio =>
      refine hi.moves (by simp [Manager.contextStored, hio]) (.of_active rfl) ?_ ?_ ?_
      · exact fun _ => ⟨_, rfl⟩
      · exact ⟨fun _ h => (by cases h), fun _ _ h => (by cases h)⟩
      · exact fun hsubmit => by cases hsubmit
  | initOk hsubmit =>
      exact hi.streams (ne_of_eq_of_ne hsubmit (by simp)) (.of_active rfl) id (by simp)
  | initFail hsubmit =>
      exact hi.streams (ne_of_eq_of_ne hsubmit (by simp)) (.finishCallback _)
        finishCallback_streaming (by simp)
  | feed chunk parser tokens hsubmit hlive =>
      exact hi.streams (ne_of_eq_of_ne hsubmit (by simp)) (.of_active rfl) id (by simp)
  | proceed hlive => exact hi
  | drain _ ha parser tokens hsubmit =>
      have hnote : noteAction l s a = l := by
        rcases ha with rfl | rfl | ⟨chunk, rfl⟩ <;> rfl
      rw [hnote]
      exact hi.streams (ne_of_eq_of_ne hsubmit (by simp)) (.of_active rfl) id
        (by simp [SubmitPc.drain])
  | token delta hnext =>
      obtain ⟨hsubmit, hpop⟩ := popDelta_ne_outside hnext
      exact hi.streams hsubmit (.tokenCallback _ _) (tokenCallback_streaming delta) hpop
  | classify tokens hsubmit =>
      exact hi.streams (ne_of_eq_of_ne hsubmit (by simp)) (.of_active rfl) id (by simp)
  | finish cancelled tokens hsubmit =>
      apply hi.streams (ne_of_eq_of_ne hsubmit (by simp)) ((SameRun.finishCallback _).publish _)
      · exact finishCallback_streaming
      · simp
  | leave hsubmit => exact .before rfl rfl (.inl rfl)

/-! ## Submitted transcripts -/

theorem CancelTaken.of_outside (h : s.submit = .outside) : CancelTaken s l :=
  fun hne => absurd h hne

/-- While a transcript is submitted its context stays, and its token is never revived. -/
theorem CancelTaken.same (hc : CancelTaken s l) (hsubmit : s.submit ≠ .outside)
    (hsame : SameRun s.manager s'.manager) : CancelTaken s' l := by
  intro _ t hmem hone
  rw [hsame.hitBy] at hone
  exact hsame.cancelled (hc hsubmit t hmem hone)

theorem CancelTaken.cancels (hc : CancelTaken s l) (hi : CancelInv s l) {t : TurnId}
    {m : Manager} {l' : CancelNotes} (hactive : m.active = (s.manager.cancelActive t).active)
    (hnotes : s.manager.contextStored = true → l'.missed = l.missed ∧ l'.hits = l.hits ++ [t]) :
    CancelTaken (s.onManager m) l' := by
  intro hsubmit t' hmem hone
  have hsubmit : s.submit ≠ .outside := hsubmit
  obtain ⟨r, hr⟩ := hi.submitting hsubmit
  obtain ⟨hmissed, hhits⟩ := hnotes (by simp [Manager.contextStored, hr])
  have hone : s.manager.hitBy t' = true := by
    rw [← hitBy_cancelActive t' t s.manager]
    exact ((SameRun.of_active hactive).hitBy t').symm.trans hone
  have hcancelled : (s.manager.cancelActive t).tokenCancelled = true := by
    rw [hmissed, hhits, ← List.append_assoc] at hmem
    apply cancelActive_tokenCancelled.mpr
    rcases List.mem_append.mp hmem with hold | hnew
    · exact .inr (hc hsubmit t' hold hone)
    · rw [List.mem_singleton.mp hnew] at hone
      exact .inl hone
  exact (SameRun.of_active hactive).cancelled hcancelled

/-- A cancel has effect from the submission on, or is late for this run and early for no
other. -/
theorem CancelTaken.step {readChunk : Bytes → Option SseChunk} {a : ManagerAction}
    (hi : CancelInv s l) (hc : CancelTaken s l) (ha : a ≠ .startStream)
    (h : s.step readChunk a = some s') : CancelTaken s' (noteAction l s a) := by
  cases step_eq_some h with
  | event i =>
      obtain ⟨now, gateOpen, e⟩ := i
      have hcancels : ∀ t, CancelTaken (s.onManager (s.manager.cancelActive t))
          (noteCancel t s.manager l) := by
        intro t
        apply hc.cancels hi rfl
        intro hctx
        rw [noteCancel, if_pos hctx]
        exact ⟨rfl, rfl⟩
      have hothers : ∀ m : Manager, m.active = s.manager.active →
          CancelTaken (s.onManager m) l := by
        intro m hactive hsubmit
        have hsame : SameRun s.manager (s.onManager m).manager := .of_active hactive
        exact hc.same hsubmit hsame hsubmit
      cases e with
      | finalTranscript e =>
          have hactive : (s.manager.handle ⟨now, gateOpen, .finalTranscript e⟩).active =
              s.manager.active := Manager.onFinalTranscript_active now gateOpen e s.manager
          simp only [noteAction, noteEvent]
          split
          · exact hothers _ hactive
          · exact hothers _ hactive
      | userInterrupted e => exact hcancels e.turn
      | cancelGeneration e => exact hcancels e.turn
      | _ => exact hothers _ rfl
  | requestStop =>
      apply hc.cancels hi (t := kNoTurn) rfl
      intro hctx
      rw [noteAction, if_pos hctx]
      exact ⟨rfl, rfl⟩
  | takeJob job hio hpending => exact .of_outside (hi.outside (by rw [hio]; simp))
  | exit hio hpending hstop => exact .of_outside (hi.outside (by rw [hio]; simp))
  | askProvider job id hio => exact .of_outside (hi.outside (by rw [hio]; simp))
  | fixTurn turns job id t hio => exact .of_outside (hi.outside (by rw [hio]; simp))
  | runHook job hio => exact .of_outside (hi.outside (by rw [hio]; simp))
  | startStream job hio => exact absurd rfl ha
  | initOk hsubmit => exact hc.same (ne_of_eq_of_ne hsubmit (by simp)) (.of_active rfl)
  | initFail hsubmit => exact hc.same (ne_of_eq_of_ne hsubmit (by simp)) (.finishCallback _)
  | feed chunk parser tokens hsubmit hlive =>
      exact hc.same (ne_of_eq_of_ne hsubmit (by simp)) (.of_active rfl)
  | proceed hlive => exact hc
  | drain _ ha parser tokens hsubmit =>
      have hnote : noteAction l s a = l := by
        rcases ha with rfl | rfl | ⟨chunk, rfl⟩ <;> rfl
      rw [hnote]
      exact hc.same (ne_of_eq_of_ne hsubmit (by simp)) (.of_active rfl)
  | token delta hnext => exact hc.same (popDelta_ne_outside hnext).1 (.tokenCallback _ _)
  | classify tokens hsubmit => exact hc.same (ne_of_eq_of_ne hsubmit (by simp)) (.of_active rfl)
  | finish cancelled tokens hsubmit =>
      exact hc.same (ne_of_eq_of_ne hsubmit (by simp)) ((SameRun.finishCallback _).publish _)
  | leave hsubmit => exact .of_outside rfl

/-- At the submission only the cancels that found no context can have been lost. -/
theorem CancelTaken.startStream_iff {readChunk : Bytes → Option SseChunk}
    (hi : CancelInv s l) (h : s.step readChunk .startStream = some s') :
    CancelTaken s' l ↔ NoneMissed (s, l) .startStream := by
  cases step_eq_some h with
  | drain _ ha parser tokens hsubmit =>
      rcases ha with ha | ha | ⟨chunk, ha⟩ <;> cases ha
  | startStream job hio =>
      have hctx : s.manager.contextStored = true := by simp [Manager.contextStored, hio]
      have houtside : s.submit = .outside := hi.outside (by rw [hio]; simp)
      constructor
      · rintro htaken ⟨t, hmem, hone⟩
        have hcancelled : s.manager.tokenCancelled = true :=
          htaken (by simp) t (List.mem_append_left _ hmem) hone
        exact hi.only hctx houtside hcancelled
      · intro hnone _ t hmem hone
        rcases List.mem_append.mp hmem with hmissed | hhit
        · exact hi.hit hctx (hnone ⟨t, hmissed, hone⟩)
        · exact hi.hit hctx ⟨t, hhit, hone⟩

theorem noteLost_of_step {readChunk : Bytes → Option SseChunk} {a : ManagerAction}
    (h : s.step readChunk a = some s') : noteLost readChunk l s a =
      { noteAction l s a with
        lost := (noteAction l s a).lost || !decide (CancelTaken s' (noteAction l s a)) } := by
  simp only [noteLost, h]

theorem noteAction_lost (l : CancelNotes) (s : ManagerHost) (a : ManagerAction) :
    (noteAction l s a).lost = l.lost := by
  have hcancel : ∀ t, (noteCancel t s.manager l).lost = l.lost := by
    intro t
    unfold noteCancel
    split <;> rfl
  cases a with
  | event i =>
      obtain ⟨now, gateOpen, e⟩ := i
      cases e with
      | finalTranscript e =>
          simp only [noteAction, noteEvent]
          split <;> rfl
      | userInterrupted e => exact hcancel e.turn
      | cancelGeneration e => exact hcancel e.turn
      | _ => rfl
  | requestStop =>
      simp only [noteAction]
      split <;> rfl
  | _ => rfl

theorem noteLost_lost_iff {readChunk : Bytes → Option SseChunk} {a : ManagerAction}
    (h : s.step readChunk a = some s') : (noteLost readChunk l s a).lost = false ↔
      l.lost = false ∧ CancelTaken s' (noteAction l s a) := by
  rw [noteLost_of_step h, noteAction_lost]
  simp only [Bool.or_eq_false_iff, Bool.not_eq_false', decide_eq_true_eq]

/-- No cancel is lost on the way, exactly if none of a submitted transcript's turn was
handled in vain. -/
theorem run_noneLost_iff {readChunk : Bytes → Option SseChunk} {cfg : ManagerConfig}
    {session : Nat} {acts : List ManagerAction}
    (hrun : run (watch (step readChunk) (noteLost readChunk))
      ({ manager := { cfg := cfg, session := session } }, {}) acts = some (s, l)) :
    l.lost = false ↔
      Always (watch (step readChunk) (noteLost readChunk)) NoneMissed
        ({ manager := { cfg := cfg, session := session } }, {}) acts := by
  apply run_iff_always (fun w => CancelInv w.1 w.2 ∧ (w.2.lost = false → CancelTaken w.1 w.2))
    (fun w => w.2.lost = false) ?_ ?_ ?_ hrun ?_ rfl
  · rintro ⟨s, l⟩ a ⟨s', l'⟩ ⟨hi, -⟩ hstep
    obtain ⟨hs, hl'⟩ := watch_eq_some.mp hstep
    have hi : CancelInv s' (noteAction l s a) := CancelInv.step hi hs
    show CancelInv s' l' ∧ (l'.lost = false → CancelTaken s' l')
    rw [show l' = _ from hl', noteLost_lost_iff hs, noteLost_of_step hs]
    constructor
    · exact ⟨hi.submitting, hi.fresh, hi.hit, hi.only⟩
    · exact fun hnone => hnone.2
  · rintro ⟨s, l⟩ a ⟨s', l'⟩ ⟨hi, htaken⟩ hgood hstep
    obtain ⟨hs, hl'⟩ := watch_eq_some.mp hstep
    have hgood : l.lost = false := hgood
    show l'.lost = false ↔ _
    rw [show l' = _ from hl', noteLost_lost_iff hs, and_iff_right hgood]
    by_cases ha : a = .startStream
    · subst ha
      exact CancelTaken.startStream_iff hi hs
    · have hok : NoneMissed (s, l) a := by
        cases a <;> first | exact absurd rfl ha | exact trivial
      exact iff_of_true ((htaken hgood).step hi ha hs) hok
  · rintro ⟨s, l⟩ a ⟨s', l'⟩ - hbad hstep
    obtain ⟨hs, hl'⟩ := watch_eq_some.mp hstep
    show ¬ l'.lost = false
    rw [show l' = _ from hl', noteLost_lost_iff hs]
    exact fun h => hbad h.1
  · exact ⟨.before rfl rfl (.inl rfl), fun _ => .of_outside rfl⟩

/-! ## A cancel before and a cancel after the context is stored -/

def fixedTurn : List ManagerAction := [.takeJob, .askProvider 1, .fixTurn {}, .runHook, .startStream]

def askedTranscript : ManagerAction := .event ⟨0, true, .finalTranscript { text := ascii "hello" }⟩

def cancelOfTurn : ManagerAction := .event ⟨1, true, .userInterrupted { turn := 1 }⟩

theorem run_noneLost_iff_whileStreaming : ∃ s l,
    run (watch (step fun _ => none) (noteLost fun _ => none)) ({}, {})
        (askedTranscript :: fixedTurn ++ [cancelOfTurn]) = some (s, l) ∧
      l.hits = [1] ∧ s.manager.tokenCancelled = true ∧
      (l.lost = false ↔
        Always (watch (step fun _ => none) (noteLost fun _ => none)) NoneMissed ({}, {})
          (askedTranscript :: fixedTurn ++ [cancelOfTurn])) := by
  obtain ⟨⟨s, l⟩, hrun, hhits, hcancelled⟩ : ∃ w,
      run (watch (step fun _ => none) (noteLost fun _ => none)) ({}, {})
          (askedTranscript :: fixedTurn ++ [cancelOfTurn]) = some w ∧
        w.2.hits = [1] ∧ w.1.manager.tokenCancelled = true := by
    refine ⟨(run (watch (step fun _ => none) (noteLost fun _ => none)) ({}, {})
      (askedTranscript :: fixedTurn ++ [cancelOfTurn])).get (by decide +kernel), ?_,
      by decide +kernel, by decide +kernel⟩
    exact (Option.some_get _).symm
  exact ⟨s, l, hrun, hhits, hcancelled, run_noneLost_iff hrun⟩

/-- A cancel that finds the transcript pending does nothing, and the stream runs. -/
theorem cancelWhilePending_lost : ∃ s l,
    run (watch (step fun _ => none) (noteLost fun _ => none)) ({}, {})
        (askedTranscript :: cancelOfTurn :: fixedTurn) = some (s, l) ∧
      l.missed = [1] ∧ s.manager.active.id = 1 ∧ s.submit = .entered ∧
      s.manager.tokenCancelled = false := by
  obtain ⟨⟨s, l⟩, hrun, hmissed, hid, hsubmit, hlive⟩ : ∃ w,
      run (watch (step fun _ => none) (noteLost fun _ => none)) ({}, {})
          (askedTranscript :: cancelOfTurn :: fixedTurn) = some w ∧
        w.2.missed = [1] ∧ w.1.manager.active.id = 1 ∧ w.1.submit = .entered ∧
        w.1.manager.tokenCancelled = false := by
    refine ⟨(run (watch (step fun _ => none) (noteLost fun _ => none)) ({}, {})
      (askedTranscript :: cancelOfTurn :: fixedTurn)).get (by decide +kernel), ?_,
      by decide +kernel, by decide +kernel, by decide +kernel, by decide +kernel⟩
    exact (Option.some_get _).symm
  exact ⟨s, l, hrun, hmissed, hid, hsubmit, hlive⟩

end ManagerHost

end Acva.Dialogue
