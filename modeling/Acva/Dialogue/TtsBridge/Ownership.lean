import Acva.Dialogue.TtsBridge.Calculus

/-! # Each token belongs to one turn

The bridge makes a token for one turn, and what holds the token afterwards is that
turn's entry of the map and jobs of the turn. So a token that is cancelled for a
turn does not hit the jobs of another one. The token in flight is the one of the
job that was taken last.
-/

namespace Acva.Dialogue

open Acva.Audio Acva.Playback

variable {ρ : Type}

/-- The turn of the job that the I/O thread took last, after its next step. -/
def nextTaken (taken : TurnId) (b : TtsBridge ρ) : TurnId :=
  match b.io, b.pending with
  | .idle, job :: _ => job.sentence.turn
  | _, _ => taken

/-- The token is held for the turn; the job taken last was of turn `taken`. -/
inductive Holds (taken : TurnId) (b : TtsBridge ρ) (tok : TokenRef) : TurnId → Prop
  | mapped {turn : TurnId} (h : b.tokens turn = some tok) : Holds taken b tok turn
  | pending {job : Job} (h : job ∈ b.pending) (htok : job.cancel = tok) :
      Holds taken b tok job.sentence.turn
  | inHand {job : Job} (h : b.io.job = some job) (htok : job.cancel = tok) :
      Holds taken b tok job.sentence.turn
  | inFlight (h : b.inFlight = some tok) : Holds taken b tok taken

/-- No token is held for two turns, and the next one is not held yet. -/
structure TokensApart (taken : TurnId) (b : TtsBridge ρ) : Prop where
  oneTurn : ∀ tok t t', Holds taken b tok t → Holds taken b tok t' → t = t'
  made : ∀ tok t, Holds taken b tok t → tok < b.pool.next

section
variable {taken taken' : TurnId} {b b' : TtsBridge ρ} {tok : TokenRef} {t : TurnId}

theorem Holds.moves (h : Holds taken b' tok t) (htokens : b'.tokens = b.tokens)
    (hpending : ∀ job ∈ b'.pending, job ∈ b.pending)
    (hjob : ∀ job, b'.io.job = some job → b.io.job = some job)
    (hinFlight : ∀ tok, b'.inFlight = some tok → b.inFlight = some tok) : Holds taken b tok t := by
  cases h with
  | mapped h => exact .mapped (htokens ▸ h)
  | pending h htok => exact .pending (hpending _ h) htok
  | inHand h htok => exact .inHand (hjob _ h) htok
  | inFlight h => exact .inFlight (hinFlight _ h)

theorem TokensApart.mono (ha : TokensApart taken b)
    (hholds : ∀ tok t, Holds taken' b' tok t → Holds taken b tok t)
    (hpool : b'.pool.next = b.pool.next) : TokensApart taken' b' := by
  constructor
  · intro tok t t' ht ht'
    exact ha.oneTurn tok t t' (hholds tok t ht) (hholds tok t' ht')
  · intro tok t ht
    rw [hpool]
    exact ha.made tok t (hholds tok t ht)

/-- The next token is made, and held for one turn only. -/
theorem TokensApart.mint (ha : TokensApart taken b) (turn : TurnId)
    (hholds : ∀ tok t, Holds taken b' tok t →
      Holds taken b tok t ∨ tok = b.pool.next ∧ t = turn)
    (hpool : b'.pool.next = b.pool.next + 1) : TokensApart taken b' := by
  have hnew : ∀ {t}, ¬ Holds taken b b.pool.next t := fun h =>
    absurd (ha.made _ _ h) (Nat.lt_irrefl _)
  constructor
  · intro tok t t' ht ht'
    rcases hholds tok t ht with hold | ⟨rfl, rfl⟩
    · rcases hholds tok t' ht' with hold' | ⟨rfl, rfl⟩
      · exact ha.oneTurn tok t t' hold hold'
      · exact absurd hold hnew
    · rcases hholds _ t' ht' with hold' | ⟨-, rfl⟩
      · exact absurd hold' hnew
      · rfl
  · intro tok t ht
    rw [hpool]
    rcases hholds tok t ht with hold | ⟨rfl, -⟩
    · exact Nat.lt_succ_of_lt (ha.made tok t hold)
    · exact Nat.lt_succ_self _

/-! ## The I/O thread -/

theorem TtsIoStep.holds {soxr : Soxr ρ} {q q' : PlaybackQueue} (h : TtsIoStep soxr q b b' q')
    (hh : Holds (nextTaken taken b) b' tok t) : Holds taken b tok t := by
  cases h with
  | take job rest hpc hpending =>
      have htaken : nextTaken taken b = job.sentence.turn := by
        simp only [nextTaken, hpc, hpending]
      have hmem : job ∈ b.pending := hpending ▸ List.mem_cons_self
      cases hh with
      | mapped h => exact .mapped h
      | pending h htok => exact .pending (hpending ▸ List.mem_cons_of_mem _ h) htok
      | inHand h htok =>
          cases h
          exact .pending hmem htok
      | inFlight h =>
          rw [htaken]
          exact .pending hmem (Option.some.inj h)
  | exit hpc hpending hstop =>
      have htaken : nextTaken taken b = taken := by simp only [nextTaken, hpc, hpending]
      rw [htaken] at hh
      exact hh.moves rfl (fun _ h => h) (fun _ h => by cases h) (fun _ h => h)
  | release hpc =>
      have htaken : nextTaken taken b = taken := by simp only [nextTaken, hpc]
      rw [htaken] at hh
      exact hh.moves rfl (fun _ h => h) (fun _ h => by cases h) (fun _ h => by cases h)
  | _ =>
      -- the job in hand stays, or `run_one` has returned
      have htaken : nextTaken taken b = taken := by simp only [nextTaken, *]
      rw [htaken] at hh
      refine hh.moves rfl (fun _ h => h) ?_ (fun _ h => h)
      intro job h
      simp only [TtsIoPc.job, reduceCtorEq] at h
      all_goals simp only [TtsIoPc.job, *]

namespace TtsBridge

theorem onSubmit_holds {soxr : Soxr ρ} {e : SubmitEvent} (h : b.onSubmit soxr e = some b')
    (hh : Holds taken b' tok t) : Holds taken b tok t := by
  have hmoves : ∀ {job : Job} {synth : Synth ρ} {pc : TtsIoPc ρ}, b.io = .submitting job synth →
      pc.job = some job → Holds taken { b with io := pc } tok t → Holds taken b tok t := by
    intro job synth pc hpc hpcJob hh
    have hjob : b.io.job = some job := by rw [hpc]; rfl
    refine hh.moves rfl (fun _ h => h) ?_ (fun _ h => h)
    intro job' h
    rw [hjob, ← hpcJob]
    exact h
  cases onSubmit_eq_some h with
  | formats rate job synth hpc => exact hmoves hpc rfl hh
  | ignores samples job synth hpc hskip => exact hh
  | holds samples job synth synth' hpc hheard hout => exact hmoves hpc rfl hh
  | speaks samples job synth synth' out hpc hheard hlive hout hsome => exact hmoves hpc rfl hh
  | finishes job synth hpc => exact hh
  | fails job synth hpc => exact hmoves hpc rfl hh
  | returns job synth hpc => exact hmoves hpc rfl hh

/-! ## The subscriber thread -/

theorem mintToken_holds {turn : TurnId} (hh : Holds taken (b.mintToken turn).2 tok t) :
    Holds taken b tok t ∨ tok = b.pool.next ∧ t = turn := by
  cases hh with
  | mapped h =>
      simp only [mintToken, Function.update_apply] at h
      split at h
      next hturn => exact .inr ⟨(Option.some.inj h).symm, hturn⟩
      next => exact .inl (.mapped h)
  | pending h htok => exact .inl (.pending h htok)
  | inHand h htok => exact .inl (.inHand h htok)
  | inFlight h => exact .inl (.inFlight h)

theorem tokensApart_mintToken (ha : TokensApart taken b) (turn : TurnId) :
    TokensApart taken (b.mintToken turn).2 :=
  ha.mint turn (fun _ _ => mintToken_holds) rfl

/-- The token of the turn, found or made. -/
theorem tokenFor_spec (ha : TokensApart taken b) (turn : TurnId) :
    TokensApart taken (b.tokenFor turn).2 ∧
      (b.tokenFor turn).2.tokens turn = some (b.tokenFor turn).1 := by
  unfold tokenFor
  split
  next h => exact ⟨tokensApart_mintToken ha turn, Function.update_self turn _ _⟩
  next tok h => exact ⟨ha, h⟩

theorem onLlmSentence_tokensApart (ha : TokensApart taken b) (e : LlmSentence) :
    TokensApart taken (b.onLlmSentence e) := by
  obtain ⟨hfound, htok⟩ := tokenFor_spec ha e.turn
  unfold onLlmSentence
  dsimp only
  split
  · exact hfound.mono (fun _ _ hh => hh.moves rfl (fun _ h => h) (fun _ h => h) fun _ h => h) rfl
  · refine hfound.mono ?_ rfl
    intro tok t hh
    cases hh with
    | mapped h => exact .mapped h
    | pending h hcancel =>
        rcases List.mem_append.mp h with hold | hnew
        · exact .pending hold hcancel
        · rw [List.mem_singleton.mp hnew] at hcancel ⊢
          exact .mapped (hcancel ▸ htok)
    | inHand h hcancel => exact .inHand h hcancel
    | inFlight h => exact .inFlight h

theorem onLlmFinished_tokensApart (ha : TokensApart taken b) (e : LlmFinished) :
    TokensApart taken (b.onLlmFinished e) := by
  refine ha.mono ?_ rfl
  intro tok t hh
  cases hh with
  | mapped h =>
      simp only [onLlmFinished, Function.update_apply] at h
      split at h
      · cases h
      · exact .mapped h
  | pending h htok => exact .pending h htok
  | inHand h htok => exact .inHand h htok
  | inFlight h => exact .inFlight h

theorem tokenToCancel_tokensApart (ha : TokensApart taken b) (turn : TurnId) :
    TokensApart taken (b.tokenToCancel turn).2 := by
  unfold tokenToCancel
  split
  · exact ha
  · exact (tokensApart_mintToken ha turn).mono
      (fun _ _ hh => hh.moves rfl (fun _ h => h) (fun _ h => h) fun _ h => h) rfl

theorem mem_tokenToCancel {turn : TurnId} (h : tok ∈ (b.tokenToCancel turn).1) :
    (b.tokenToCancel turn).2.tokens turn = some tok := by
  unfold tokenToCancel at h ⊢
  split at h
  next tok' htok =>
    rw [List.mem_singleton.mp h]
    exact htok
  next => cases h

theorem onUserInterrupted_tokensApart (ha : TokensApart taken b) (e : UserInterrupted) :
    TokensApart taken (b.onUserInterrupted e) := by
  refine (tokenToCancel_tokensApart ha e.turn).mono ?_ rfl
  intro tok t hh
  exact hh.moves rfl (fun _ h => List.mem_of_mem_filter h) (fun _ h => h) fun _ h => h

/-- What `on_user_interrupted` is about to cancel: the token of its turn, and the one in
flight. -/
theorem onUserInterrupted_toCancel (e : UserInterrupted) (b : TtsBridge ρ) :
    ∃ toCancel, (b.onUserInterrupted e).handler = .cancelling e.turn toCancel ∧
      ∀ tok ∈ toCancel, (b.onUserInterrupted e).tokens e.turn = some tok ∨
        (b.onUserInterrupted e).inFlight = some tok := by
  refine ⟨(b.tokenToCancel e.turn).1 ++ (b.tokenToCancel e.turn).2.inFlight.toList, rfl, ?_⟩
  intro tok hmem
  rcases List.mem_append.mp hmem with hown | hflight
  · exact .inl (mem_tokenToCancel hown)
  · exact .inr (Option.mem_toList.mp hflight)

theorem onUserInterrupted_inFlight (e : UserInterrupted) (b : TtsBridge ρ) :
    (b.onUserInterrupted e).inFlight = b.inFlight := by
  unfold onUserInterrupted tokenToCancel
  cases b.tokens e.turn <;> rfl

theorem onEvent_tokensApart {e : Event} (ha : TokensApart taken b) (h : b.onEvent e = some b') :
    TokensApart taken b' := by
  unfold onEvent at h
  split at h
  next =>
    cases e with
    | llmStarted e =>
        cases h
        exact tokensApart_mintToken ha e.turn
    | llmSentence e =>
        cases h
        exact onLlmSentence_tokensApart ha e
    | llmFinished e =>
        cases h
        exact onLlmFinished_tokensApart ha e
    | userInterrupted e =>
        cases h
        exact onUserInterrupted_tokensApart ha e
    | _ =>
        cases h
        exact ha
  next => cases h

/-- An event cancels no token that was made before. -/
theorem onEvent_isCancelled {e : Event} (h : b.onEvent e = some b') (hmade : tok < b.pool.next) :
    b'.pool.isCancelled tok = b.pool.isCancelled tok := by
  have hother : tok ≠ b.pool.next := Nat.ne_of_lt hmade
  unfold onEvent at h
  split at h
  next =>
    cases e with
    | llmSentence e =>
        cases h
        unfold onLlmSentence tokenFor
        cases b.tokens e.turn with
        | none =>
            dsimp only
            split <;> rfl
        | some tok' =>
            dsimp only
            split <;> rfl
    | userInterrupted e =>
        cases h
        unfold onUserInterrupted tokenToCancel
        cases b.tokens e.turn with
        | none => simp [mintToken, TokenPool.make, TokenPool.cancel, TokenPool.isCancelled, hother]
        | some tok' => rfl
    | _ =>
        cases h
        rfl
  next => cases h

end TtsBridge

end

theorem tokensApart_empty (deviceRate : Nat) (taken : TurnId) :
    TokensApart taken ({ deviceRate := deviceRate } : TtsBridge ρ) := by
  have hnone : ∀ {tok t}, ¬ Holds taken ({ deviceRate := deviceRate } : TtsBridge ρ) tok t := by
    intro tok t h
    cases h with
    | mapped h => cases h
    | pending h htok => cases h
    | inHand h htok => cases h
    | inFlight h => cases h
  constructor
  · exact fun tok t t' h => absurd h hnone
  · exact fun tok t h => absurd h hnone

end Acva.Dialogue
