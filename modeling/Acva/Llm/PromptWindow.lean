import Acva.Core.Window
import Acva.Llm.PromptBuilder

/-! # The history in a prompt

The query takes the last rows of the session, and the rows that are of no use are left
out afterwards. A row without use that stands among the last ones takes the place of a
usable one before it.
-/

namespace Acva.Llm

open Acva.Memory Acva.Window

/-- The last `n` usable turns of a session, all of them if there are fewer. -/
def lastUsableTurns (n : Nat) (session : SessionId) (t : TurnTable) : List TurnRow :=
  ((t.sessionRows session).filter usableTurn).rtake n

/-- The messages are the system message, the last usable turns and the current text. -/
def HoldsLastUsable (cfg : PromptConfig) (inputs : PromptInputs) (outcome : QueryOutcome)
    (repo : Repository) : Prop :=
  let snap := readSnapshot cfg inputs.sessionId outcome repo
  (chatRequest cfg inputs snap).messages =
    { role := ascii "system", content := assembleSystemContent cfg inputs.lang snap } ::
      (lastUsableTurns cfg.recentTurnsN.toNat inputs.sessionId repo.turns).map turnMessage ++
        [{ role := ascii "user", content := inputs.currentUserText }]

instance (cfg : PromptConfig) (inputs : PromptInputs) (outcome : QueryOutcome)
    (repo : Repository) : Decidable (HoldsLastUsable cfg inputs outcome repo) := by
  unfold HoldsLastUsable
  infer_instance

/-- Nothing without use stands among the last rows, or nothing usable before them. A limit
that is negative as an `int` is none, so the session must not have more usable rows than the
number asked for; and a query that fails finds no row. -/
def WindowUsable (cfg : PromptConfig) (session : SessionId) (outcome : QueryOutcome)
    (t : TurnTable) : Prop :=
  let rows := t.sessionRows session
  let n := cfg.recentTurnsN.toNat
  if outcome.turnsOk = false then n = 0 ∨ ∀ r ∈ rows, usableTurn r = false
  else if recentLimit cfg < 0 then (rows.filter usableTurn).length ≤ n
  else (∀ r ∈ rows.rtake n, usableTurn r = true) ∨ ∀ r ∈ rows.rdrop n, usableTurn r = false

instance (cfg : PromptConfig) (session : SessionId) (outcome : QueryOutcome) (t : TurnTable) :
    Decidable (WindowUsable cfg session outcome t) := by
  unfold WindowUsable
  infer_instance

theorem recentLimit_of_nonneg {cfg : PromptConfig} (h : ¬recentLimit cfg < 0) :
    (recentLimit cfg).toNat = cfg.recentTurnsN.toNat := by
  have hcond : recentLimit cfg =
      if 2 * cfg.recentTurnsN.toNat < 2 ^ 32 then (cfg.recentTurnsN.toNat : Int)
      else (cfg.recentTurnsN.toNat : Int) - (2 ^ 32 : Nat) :=
    BitVec.toInt_eq_toNat_cond cfg.recentTurnsN.toBitVec
  have hlt := cfg.recentTurnsN.toNat_lt
  rw [hcond] at h ⊢
  split at h
  · omega
  · omega

/-! ## What the snapshot holds -/

section
variable {cfg : PromptConfig} {session : SessionId} {outcome : QueryOutcome} {repo : Repository}

theorem snapshot_turns_failed (h : outcome.turnsOk = false) :
    (readSnapshot cfg session outcome repo).turns = [] := by
  simp [readSnapshot, h]

theorem snapshot_turns_unlimited (hok : outcome.turnsOk = true) (hlimit : recentLimit cfg < 0) :
    (readSnapshot cfg session outcome repo).turns =
      (repo.turns.sessionRows session).filter usableTurn := by
  simp only [readSnapshot, if_pos hok, TurnTable.recentTurns_of_neg hlimit]

theorem snapshot_turns_limited (hok : outcome.turnsOk = true) (hlimit : ¬recentLimit cfg < 0) :
    (readSnapshot cfg session outcome repo).turns =
      ((repo.turns.sessionRows session).rtake cfg.recentTurnsN.toNat).filter usableTurn := by
  simp only [readSnapshot, if_pos hok, TurnTable.recentTurns_of_nonneg hlimit,
    recentLimit_of_nonneg hlimit]

/-- The one is always a final part of the other. -/
theorem snapshot_turns_comparable :
    (readSnapshot cfg session outcome repo).turns <:+
        lastUsableTurns cfg.recentTurnsN.toNat session repo.turns ∨
      lastUsableTurns cfg.recentTurnsN.toNat session repo.turns <:+
        (readSnapshot cfg session outcome repo).turns := by
  cases hok : outcome.turnsOk with
  | false =>
      rw [snapshot_turns_failed hok]
      exact .inl List.nil_suffix
  | true =>
      by_cases hlimit : recentLimit cfg < 0
      · rw [snapshot_turns_unlimited hok hlimit]
        exact .inr (List.drop_suffix _ _)
      · rw [snapshot_turns_limited hok hlimit]
        exact .inl (filter_rtake_suffix _ _ _)

/-- The snapshot holds the last usable turns exactly if no row takes the place of one. -/
theorem snapshot_turns_eq_iff :
    (readSnapshot cfg session outcome repo).turns =
        lastUsableTurns cfg.recentTurnsN.toNat session repo.turns ↔
      WindowUsable cfg session outcome repo.turns := by
  have hwhole : ∀ (n : Nat) (rows : List TurnRow), rows = rows.rtake n ↔ rows.length ≤ n := by
    intro n rows
    have hsuffix : rows.rtake n <:+ rows := List.drop_suffix _ _
    have hlength := length_rtake n rows
    constructor
    · intro h
      rw [← h] at hlength
      omega
    · intro h
      exact (hsuffix.eq_of_length (by omega)).symm
  unfold WindowUsable lastUsableTurns
  cases hok : outcome.turnsOk with
  | false =>
      rw [snapshot_turns_failed hok]
      have hnone : ([] : List TurnRow) = ((repo.turns.sessionRows session).filter usableTurn).rtake
          cfg.recentTurnsN.toNat ↔ cfg.recentTurnsN.toNat = 0 ∨
            (repo.turns.sessionRows session).filter usableTurn = [] := by
        rw [eq_comm, ← List.length_eq_zero_iff, length_rtake, ← List.length_eq_zero_iff]
        omega
      rw [hnone, if_pos rfl, List.filter_eq_nil_iff]
      simp only [Bool.not_eq_true]
  | true =>
      simp only [Bool.true_eq_false, if_false]
      by_cases hlimit : recentLimit cfg < 0
      · rw [snapshot_turns_unlimited hok hlimit, if_pos hlimit]
        exact hwhole _ _
      · rw [snapshot_turns_limited hok hlimit, if_neg hlimit]
        exact filter_rtake_eq_iff _ _ _

end

/-! ## The messages -/

/-- The prompt holds the last usable turns exactly if no row without use has taken the place
of one. -/
theorem holdsLastUsable_iff (cfg : PromptConfig) {inputs : PromptInputs}
    (hsession : inputs.sessionId ≠ 0) (outcome : QueryOutcome) (repo : Repository) :
    HoldsLastUsable cfg inputs outcome repo ↔
      WindowUsable cfg inputs.sessionId outcome repo.turns := by
  rw [← snapshot_turns_eq_iff, ← map_eq_map_iff_of_suffix snapshot_turns_comparable]
  unfold HoldsLastUsable chatRequest assembleMessages
  simp only [if_neg hsession]
  rw [List.cons_append, List.cons_append, List.cons.injEq, and_iff_right rfl,
    List.append_left_inj]

/-- A turn of the first session is stored. -/
def stored (role : TurnRole) (text : String) (status : TurnStatus) (t : TurnTable) : TurnTable :=
  ({ session := 1, role := role, text := ascii text, lang := none, startedAt := 0,
     status := status, endedAt := none, interruptedAt := none } : InsertTurnJob).exec true true 0 t

def stillThere : PromptInputs where
  sessionId := 1
  lang := ascii "en"
  currentUserText := ascii "Still there?"

/-- An answer without text is older than the window. -/
theorem holdsLastUsable_iff_oldEmptyReply :
    HoldsLastUsable { recentTurnsN := 1 } stillThere {}
      { turns := stored .user "Hello?" .committed (stored .assistant "" .committed {}) } :=
  (holdsLastUsable_iff _ (by decide) _ _).mpr (by decide +kernel)

/-- A reply that fails is stored without text, and then it is all that the window holds. -/
theorem emptyReply_displaces_question :
    ¬HoldsLastUsable { recentTurnsN := 1 } stillThere {}
      { turns := stored .assistant "" .committed (stored .user "Hello?" .committed {}) } := by
  decide +kernel

end Acva.Llm
