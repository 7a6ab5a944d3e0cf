import Acva.Dialogue.Fsm.Accounting
import Acva.Pipeline.FakeDriver

/-! # The fake driver and the machine

What a made-up turn does to the machine, whatever the clock says at its events, and from it
what any run of the driver does.
-/

namespace Acva.Pipeline

open Acva.Dialogue Acva.Runs

/-! ## The states of a turn -/

/-- The turns that were drawn have ended, each as it was drawn, and the next one is minted at
the driver's count. -/
structure InStep (draws : List Bool) (h : FsmHost) : Prop where
  state : h.fsm.state = .listening
  next : h.turns.next = draws.length + 1
  outcomes : h.fsm.outcomeCalls = draws.map outcomeOf

/-- One turn more is going on, with that many sentences received and played. -/
structure Within (draws : List Bool) (state : State) (received played : Nat) (h : FsmHost) :
    Prop where
  state : h.fsm.state = state
  active : h.fsm.active.id = draws.length + 1
  next : h.turns.next = draws.length + 2
  received : h.fsm.sentencesReceived = UInt32.ofNat received
  played : h.fsm.sentencesPlayed = UInt32.ofNat played
  unfinished : h.fsm.llmFinishedSeen = false
  outcomes : h.fsm.outcomeCalls = draws.map outcomeOf

section
variable {draws : List Bool} {h : FsmHost} (now : TimePoint)

theorem InStep.speechStarted (hin : InStep draws h) (e : SpeechStarted) :
    Within draws .userSpeaking 0 0 (h.onEvent now (.speechStarted e)) := by
  have hstarts : h.fsm.startsTurn = true := by simp [Fsm.startsTurn, hin.state]
  rw [FsmHost.onEvent_speechStarted_of_startsTurn now e hstarts]
  exact ⟨rfl, hin.next, congrArg (· + 1) hin.next, rfl, rfl, rfl, hin.outcomes⟩

theorem Within.speechEnded (hin : Within draws .userSpeaking 0 0 h) (e : SpeechEnded) :
    Within draws .transcribing 0 0 (h.onEvent now (.speechEnded e)) := by
  show Within draws .transcribing 0 0 { h with fsm := h.fsm.handleSpeechEnded now }
  rw [Fsm.handleSpeechEnded, if_pos hin.state]
  exact ⟨rfl, hin.active, hin.next, hin.received, hin.played, hin.unfinished, hin.outcomes⟩

theorem Within.finalTranscript (hin : Within draws .transcribing 0 0 h) (e : FinalTranscript) :
    Within draws .thinking 0 0 (h.onEvent now (.finalTranscript e)) := by
  show Within draws .thinking 0 0 { h with fsm := h.fsm.handleFinalTranscript now }
  rw [Fsm.handleFinalTranscript, if_pos hin.state]
  exact ⟨rfl, hin.active, hin.next, hin.received, hin.played, hin.unfinished, hin.outcomes⟩

/-- While all that was received is played: thinking as long as there was nothing. -/
def replying (draws : List Bool) (n : Nat) : FsmHost → Prop :=
  Within draws (if n = 0 then .thinking else .speaking) n n

theorem replying_llmSentence {n : Nat} (hin : replying draws n h) (e : LlmSentence) :
    Within draws .speaking (n + 1) n (h.onEvent now (.llmSentence e)) := by
  show Within draws .speaking (n + 1) n { h with fsm := h.fsm.handleLlmSentence now }
  unfold replying at hin
  rw [Fsm.handleLlmSentence]
  by_cases hn : n = 0
  · subst hn
    have hstate : h.fsm.state = .thinking := hin.state
    rw [if_pos hstate]
    exact ⟨rfl, hin.active, hin.next, add_one_of_eq hin.received, hin.played, hin.unfinished,
      hin.outcomes⟩
  · rw [if_neg hn] at hin
    rw [if_neg (by rw [hin.state]; decide)]
    exact ⟨hin.state, hin.active, hin.next, add_one_of_eq hin.received, hin.played,
      hin.unfinished, hin.outcomes⟩

theorem Within.playbackFinished {n : Nat} (hin : Within draws .speaking (n + 1) n h)
    (seq : SequenceNo) :
    replying draws (n + 1)
      (h.onEvent now (.playbackFinished { turn := draws.length + 1, seq := seq })) := by
  show Within draws .speaking (n + 1) (n + 1)
    { h with fsm := Fsm.handlePlaybackFinished _ now h.fsm }
  have hmine : ¬(draws.length + 1 ≠ h.fsm.active.id) := not_not.mpr hin.active.symm
  have hopen : ¬h.fsm.llmFinishedSeen = true := by simp [hin.unfinished]
  rw [Fsm.handlePlaybackFinished, if_neg hmine]
  dsimp only
  rw [if_neg fun hclose => hopen hclose.2.1]
  exact ⟨hin.state, hin.active, hin.next, hin.received, add_one_of_eq hin.played,
    hin.unfinished, hin.outcomes⟩

/-- The reply ends when all of it is played. -/
theorem replying_llmFinished {n : Nat} (hin : replying draws n h) (e : LlmFinished) :
    InStep (draws ++ [false]) (h.onEvent now (.llmFinished e)) := by
  show InStep (draws ++ [false]) { h with fsm := h.fsm.handleLlmFinished now }
  unfold replying at hin
  have hdone : InStep (draws ++ [false])
      { h with fsm := ({ h.fsm with llmFinishedSeen := true } : Fsm).completeTurn now } := by
    refine ⟨rfl, hin.next.trans (by simp), ?_⟩
    show h.fsm.outcomeCalls ++ ["completed"] = _
    rw [hin.outcomes, List.map_append]
    rfl
  rw [Fsm.handleLlmFinished]
  by_cases hn : n = 0
  · subst hn
    rwa [if_pos ⟨hin.state, hin.received⟩]
  · rw [if_neg hn] at hin
    rwa [if_neg (by rw [hin.state]; simp), if_pos ⟨hin.state, hin.played.trans hin.received.symm⟩]

theorem replying_userInterrupted (hin : replying draws 1 h) (e : UserInterrupted) :
    InStep (draws ++ [true]) (h.onEvent now (.userInterrupted e)) := by
  show InStep (draws ++ [true]) { h with fsm := h.fsm.handleUserInterrupted now }
  have hstate : h.fsm.state = .speaking := hin.state
  have hplayed : 1 ≤ h.fsm.sentencesPlayed := by
    rw [hin.played]
    decide
  rw [Fsm.handleUserInterrupted, if_neg (by rw [hstate]; decide)]
  dsimp only
  rw [if_pos hplayed]
  refine ⟨rfl, hin.next.trans (by simp), ?_⟩
  show h.fsm.outcomeCalls ++ ["interrupted"] = _
  rw [hin.outcomes, List.map_append]
  rfl

end

/-! ## Late events -/

theorem onEvent_spoken (turn : TurnId) (seq : SequenceNo) :
    ∀ e ∈ FakeDriverOptions.spoken turn seq, ∀ (h : FsmHost) now, h.onEvent now e = h := by
  simp only [FakeDriverOptions.spoken, List.forall_mem_cons, List.not_mem_nil, IsEmpty.forall_iff,
    implies_true, and_true]
  exact ⟨fun _ _ => rfl, fun _ _ => rfl, fun _ _ => rfl, fun _ _ => rfl⟩

section
variable {draws : List Bool} {h : FsmHost} (now : TimePoint)

/-- Sentences and playbacks that are late are counted, and nothing comes of it. -/
theorem InStep.late (hin : InStep draws h) {e : Event}
    (he : e.kind = .llmSentence ∨ e.kind = .playbackFinished ∨ e.kind = .llmFinished) :
    InStep draws (h.onEvent now e) := by
  have hthinking : h.fsm.state ≠ .thinking := by rw [hin.state]; decide
  have hspeaking : h.fsm.state ≠ .speaking := by rw [hin.state]; decide
  cases e with
  | llmSentence e =>
      show InStep draws { h with fsm := h.fsm.handleLlmSentence now }
      rw [Fsm.handleLlmSentence, if_neg hthinking]
      exact ⟨hin.state, hin.next, hin.outcomes⟩
  | playbackFinished e =>
      show InStep draws { h with fsm := h.fsm.handlePlaybackFinished e now }
      rw [Fsm.handlePlaybackFinished]
      split
      · exact hin
      · dsimp only
        rw [if_neg fun hclose => hspeaking hclose.1]
        exact ⟨hin.state, hin.next, hin.outcomes⟩
  | llmFinished e =>
      show InStep draws { h with fsm := h.fsm.handleLlmFinished now }
      rw [Fsm.handleLlmFinished]
      rw [if_neg fun hclose => hthinking hclose.1, if_neg fun hclose => hspeaking hclose.1]
      exact ⟨hin.state, hin.next, hin.outcomes⟩
  | _ => simp [Event.kind] at he

end

/-! ## A turn -/

/-- From a host the steps lead to one in `Q`, whatever the times are. At the head of the loop
over the sentences all that was received is played, and so it is behind the loop. -/
def Leads (draws : List Bool) (Q : FsmHost → Prop) : List DriverStep → FsmHost → Prop
  | [], h => Q h
  | .publish e :: steps, h => ∀ now, Leads draws Q steps (h.onEvent now e)
  | .checkpoint :: steps, h => Leads draws Q steps h
  | .sentences _ :: steps, h =>
      (∃ n, replying draws n h) ∧ ∀ n h', replying draws n h' → Leads draws Q steps h'

section
variable {draws : List Bool} {Q R : FsmHost → Prop} {steps : List DriverStep} {h : FsmHost}

theorem Leads.append {steps' : List DriverStep} (hlead : Leads draws R steps h)
    (hrest : ∀ h', R h' → Leads draws Q steps' h') : Leads draws Q (steps ++ steps') h := by
  induction steps generalizing h with
  | nil => exact hrest h hlead
  | cons s steps ih =>
      cases s with
      | publish e => exact fun now => ih (hlead now)
      | checkpoint => exact ih hlead
      | sentences s => exact ⟨hlead.1, fun n h' hn => ih (hlead.2 n h' hn)⟩

/-- Events that keep `Q` one by one. -/
theorem leads_publish {evs : List Event} (hQ : Q h)
    (hkeeps : ∀ e ∈ evs, ∀ h now, Q h → Q (h.onEvent now e)) :
    Leads draws Q (evs.map .publish) h := by
  induction evs generalizing h with
  | nil => exact hQ
  | cons e evs ih =>
      obtain ⟨he, hevs⟩ := List.forall_mem_cons.mp hkeeps
      exact fun now => ih (he h now hQ) hevs

theorem leads_spoken (turn : TurnId) (seq : SequenceNo) (hQ : Q h) :
    Leads draws Q ((FakeDriverOptions.spoken turn seq).map .publish) h := by
  refine leads_publish hQ fun e he h now hQ => ?_
  rwa [onEvent_spoken turn seq e he]

theorem leads_sentence {n : Nat} (hin : replying draws n h) (seq : SequenceNo) :
    Leads draws (replying draws (n + 1)) (FakeDriverOptions.sentence (draws.length + 1) seq) h := by
  intro now
  refine Leads.append (leads_spoken _ seq (replying_llmSentence now hin _)) fun h' hin now => ?_
  exact hin.playbackFinished now seq

/-- A round of the loop, and the way out of it. -/
theorem Leads.round {s : UInt32} (hlead : Leads draws Q (.sentences s :: steps) h) (last : UInt32) :
    Leads draws Q (if s ≤ last then
        FakeDriverOptions.sentence (draws.length + 1) s.toNat ++ .sentences (s + 1) :: steps
      else steps) h := by
  obtain ⟨⟨n, hin⟩, hrest⟩ := hlead
  split
  · exact (leads_sentence hin s.toNat).append fun h' hin' => ⟨⟨n + 1, hin'⟩, hrest⟩
  · exact hrest n h hin

end

section
variable {opts : FakeDriverOptions} (hopts : opts.suppressSpeechEvents = false)
  {draws : List Bool} {h : FsmHost} (at' : Readings)

include hopts

theorem leads_question (text : Bytes) (turn : TurnId) (hin : InStep draws h) :
    Leads draws (replying draws 0) (opts.question at' text turn) h := by
  have hspeech : ∀ e, opts.speechEvent e = [.publish e] := by
    intro e
    rw [FakeDriverOptions.speechEvent, hopts]
    rfl
  rw [FakeDriverOptions.question, hspeech, hspeech]
  intro started ended transcribed _
  have hspoken := hin.speechStarted started { turn := turn, ts := at'.started }
  have hdone := hspoken.speechEnded ended { turn := turn, ts := at'.ended }
  exact hdone.finalTranscript transcribed { turn := turn, text := text, lang := ascii "en" }

/-- A turn is completed, however many sentences it has. -/
theorem leads_runOneTurn (hin : InStep draws h) :
    Leads draws (InStep (draws ++ [false])) (opts.runOneTurn at' (draws.length + 1)) h := by
  refine (leads_question hopts at' _ _ hin).append fun h' hin => ⟨⟨0, hin⟩, ?_⟩
  exact fun n h' hin now => replying_llmFinished now hin _

/-- A turn with a barge-in is interrupted, and what is late ends no turn. -/
theorem leads_runOneTurnWithBargeIn (hin : InStep draws h) :
    Leads draws (InStep (draws ++ [true])) (opts.runOneTurnWithBargeIn at' (draws.length + 1)) h := by
  refine (leads_question hopts at' _ _ hin).append fun h' hin sentence => ?_
  refine Leads.append (leads_spoken _ 1 (replying_llmSentence sentence hin _)) fun h' hin => ?_
  intro played interrupted late lateToo last
  have hcut := replying_userInterrupted interrupted (hin.playbackFinished played 1)
    { turn := draws.length + 1, ts := at'.interrupted }
  exact ((hcut.late late (.inl rfl)).late lateToo (.inr (.inl rfl))).late last (.inr (.inr rfl))

end

/-! ## What the machine reports -/

/-- The counters are those of the reports. -/
structure Tallied (h : FsmHost) : Prop where
  settled : h.fsm.Settled
  completed : h.fsm.turnsCompleted = h.fsm.outcomeCalls.count "completed"
  interrupted : h.fsm.turnsInterrupted = h.fsm.outcomeCalls.count "interrupted"
  discarded : h.fsm.turnsDiscarded = h.fsm.outcomeCalls.count "discarded"

theorem Tallied.onEvent {h : FsmHost} (ht : Tallied h) (now : TimePoint) (e : Event) :
    Tallied (h.onEvent now e) ∧ h.fsm.outcomeCalls <+: (h.onEvent now e).fsm.outcomeCalls := by
  have hsettled := FsmHost.onEvent_settled now e ht.settled
  have hsame : h.fsm.SameTally (h.onEvent now e).fsm →
      Tallied (h.onEvent now e) ∧ h.fsm.outcomeCalls <+: (h.onEvent now e).fsm.outcomeCalls := by
    rintro ⟨hcompleted, hinterrupted, hdiscarded, hobserved⟩
    refine ⟨⟨hsettled, ?_, ?_, ?_⟩, by rw [hobserved]⟩
    · rw [hcompleted, hobserved, ht.completed]
    · rw [hinterrupted, hobserved, ht.interrupted]
    · rw [hdiscarded, hobserved, ht.discarded]
  cases FsmHost.onEvent_turnStep now e ht.settled with
  | begins _ _ _ _ _ htally => exact hsame htally
  | goesOn _ _ htally => exact hsame htally
  | completes _ _ _ hcompleted hinterrupted hdiscarded hobserved =>
      refine ⟨⟨hsettled, ?_, ?_, ?_⟩, by rw [hobserved]; exact List.prefix_append _ _⟩
      · simp [hcompleted, hobserved, ht.completed]
      · simp [hinterrupted, hobserved, ht.interrupted]
      · simp [hdiscarded, hobserved, ht.discarded]
  | interrupts _ _ _ _ hcompleted hinterrupted hdiscarded hobserved =>
      refine ⟨⟨hsettled, ?_, ?_, ?_⟩, by rw [hobserved]; exact List.prefix_append _ _⟩
      · simp [hcompleted, hobserved, ht.completed]
      · simp [hinterrupted, hobserved, ht.interrupted]
      · simp [hdiscarded, hobserved, ht.discarded]
  | discards _ _ _ _ hcompleted hinterrupted hdiscarded hobserved =>
      refine ⟨⟨hsettled, ?_, ?_, ?_⟩, by rw [hobserved]; exact List.prefix_append _ _⟩
      · simp [hcompleted, hobserved, ht.completed]
      · simp [hinterrupted, hobserved, ht.interrupted]
      · simp [hdiscarded, hobserved, ht.discarded]

theorem Tallied.onEvents {h : FsmHost} (ht : Tallied h) (es : List FsmHost.Timed) :
    Tallied (h.onEvents es) ∧ h.fsm.outcomeCalls <+: (h.onEvents es).fsm.outcomeCalls := by
  induction es generalizing h with
  | nil => exact ⟨ht, List.prefix_refl _⟩
  | cons e es ih =>
      obtain ⟨hnext, hprefix⟩ := ht.onEvent e.1 e.2
      obtain ⟨hlast, hrest⟩ := ih hnext
      exact ⟨hlast, hprefix.trans hrest⟩

/-- On the way to a host in step nothing else is reported. -/
theorem Leads.reported {prev draws : List Bool} {steps : List DriverStep} {h : FsmHost}
    (ht : Tallied h) (hlead : Leads prev (InStep draws) steps h) :
    h.fsm.outcomeCalls <+: draws.map outcomeOf := by
  induction steps generalizing h with
  | nil => rw [InStep.outcomes hlead]
  | cons s steps ih =>
      cases s with
      | publish e =>
          obtain ⟨hnext, hmore⟩ := ht.onEvent 0 e
          exact hmore.trans (ih hnext (hlead 0))
      | checkpoint => exact ih ht hlead
      | sentences s =>
          obtain ⟨⟨n, hin⟩, hrest⟩ := hlead
          exact ih ht (hrest n h hin)

/-! ## A run of the driver -/

/-- How far the driver is, and the machine with it when all that was published is handled. -/
inductive DriverAt (hosts : FsmHost → Prop) (draws : List Bool) (d : FakeDriver) : Prop
  | top (hcall : d.call = none) (hfinished : d.finished = false)
      (hdraws : draws.length = d.turnsEmitted) (hstep : ∀ h, hosts h → InStep draws h)
  | within (prev : List Bool) (bargeIn : Bool) (todo : List DriverStep)
      (hcall : d.call = some todo) (hfinished : d.finished = false)
      (hdraws : draws = prev ++ [bargeIn]) (hprev : prev.length = d.turnsEmitted)
      (hlead : (∀ h, hosts h → Leads prev (InStep draws) todo h) ∨ d.running = false ∧ todo = [])
  | ended (hcall : d.call = none) (hfinished : d.finished = true)
      (hdraws : draws.length = d.turnsEmitted ∨ draws.length = d.turnsEmitted + 1)

/-- The hosts that have handled what was published, whatever the times are. -/
def Handled (h₀ : FsmHost) (published : List Event) (h : FsmHost) : Prop :=
  ∃ es : List FsmHost.Timed, es.map Prod.snd = published ∧ h = h₀.onEvents es

theorem Handled.tallied {h₀ h : FsmHost} {published : List Event} (ht : Tallied h₀)
    (hh : Handled h₀ published h) : Tallied h := by
  obtain ⟨es, -, rfl⟩ := hh
  exact (ht.onEvents es).1

theorem Handled.of_append {h₀ h : FsmHost} {published : List Event} {e : Event}
    (hh : Handled h₀ (published ++ [e]) h) :
    ∃ h' now, Handled h₀ published h' ∧ h = h'.onEvent now e := by
  obtain ⟨es, hes, rfl⟩ := hh
  obtain ⟨as, bs, rfl, has, hbs⟩ := List.map_eq_append_iff.mp hes
  obtain ⟨b, rfl, rfl⟩ := List.map_eq_singleton_iff.mp hbs
  rw [FsmHost.onEvents_append]
  exact ⟨h₀.onEvents as, b.1, ⟨as, has, rfl⟩, rfl⟩

/-- The machine has reported the turns that were counted, and none but those that were drawn. -/
structure DriverInv (h₀ : FsmHost) (d : FakeDriver) (draws : List Bool) : Prop where
  turn : d.turn = d.turnsEmitted + 1
  counted : ∀ h, Handled h₀ d.published h →
    (draws.take d.turnsEmitted).map outcomeOf <+: h.fsm.outcomeCalls
  reported : ∀ h, Handled h₀ d.published h → h.fsm.outcomeCalls <+: draws.map outcomeOf
  going : DriverAt (Handled h₀ d.published) draws d

section
variable {opts : FakeDriverOptions} {h₀ : FsmHost} {d d' : FakeDriver} {draws : List Bool}

theorem DriverInv.begin (hopts : opts.suppressSpeechEvents = false) (hinv : DriverInv h₀ d draws)
    (bargeIn : Bool) (at' : Readings) (hstep : d.step opts (.begin bargeIn at') = some d') :
    DriverInv h₀ d' (FakeDriver.noteDraw draws d (.begin bargeIn at')) := by
  obtain ⟨hturn, hcounted, hreported, hat⟩ := hinv
  simp only [FakeDriver.step] at hstep
  split at hstep
  next => cases hstep
  next hfree =>
    rw [not_or, not_not] at hfree
    cases hat with
    | top hcall hfinished hdraws hin =>
        split at hstep
        next hstopped =>
          cases hstep
          have hnote : FakeDriver.noteDraw draws d (.begin bargeIn at') = draws := by
            simp [FakeDriver.noteDraw, hstopped]
          rw [hnote]
          exact ⟨hturn, hcounted, hreported, .ended hcall rfl (.inl hdraws)⟩
        next hrunning =>
          cases hstep
          have hnote : FakeDriver.noteDraw draws d (.begin bargeIn at') = draws ++ [bargeIn] := by
            simpa [FakeDriver.noteDraw] using hrunning
          have hmine : d.turn = draws.length + 1 := by rw [hturn, hdraws]
          rw [hnote]
          refine ⟨hturn, fun h hh => ?_, fun h hh => ?_,
            .within draws bargeIn _ rfl hfinished rfl hdraws (.inl fun h hh => ?_)⟩
          · rw [List.take_append_of_le_length (Nat.le_of_eq hdraws.symm)]
            exact hcounted h hh
          · rw [List.map_append]
            exact (hreported h hh).trans (List.prefix_append _ _)
          · rw [hmine]
            cases bargeIn with
            | false => exact leads_runOneTurn hopts at' (hin h hh)
            | true => exact leads_runOneTurnWithBargeIn hopts at' (hin h hh)
    | within _ _ todo hcall => exact absurd hfree.2 (by simp [hcall])
    | ended hcall hfinished => exact absurd hfinished hfree.1

theorem DriverInv.advance (ht : Tallied h₀) (hinv : DriverInv h₀ d draws)
    (hstep : d.step opts .advance = some d') : DriverInv h₀ d' draws := by
  obtain ⟨hturn, hcounted, hreported, hat⟩ := hinv
  simp only [FakeDriver.step] at hstep
  cases hat with
  | top hcall => simp [hcall] at hstep
  | ended hcall => simp [hcall] at hstep
  | within prev bargeIn todo hcall hfinished hdraws hprev hlead =>
      have hlength : draws.length = d.turnsEmitted + 1 := by simp [hdraws, hprev]
      rw [hcall] at hstep
      cases todo with
      | nil =>
          simp only at hstep
          split at hstep
          next hstopped =>
            cases hstep
            exact ⟨hturn, hcounted, hreported, .ended rfl rfl (.inr hlength)⟩
          next hrunning =>
            cases hstep
            have hin : ∀ h, Handled h₀ d.published h → InStep draws h :=
              hlead.resolve_right fun h => hrunning h.1
            refine ⟨congrArg (· + 1) hturn, fun h hh => ?_, hreported,
              .top rfl hfinished hlength hin⟩
            have hall : draws.take (d.turnsEmitted + 1) = draws :=
              List.take_of_length_le (Nat.le_of_eq hlength)
            rw [hall, (hin h hh).outcomes]
      | cons s todo =>
          have hlead := hlead.resolve_right fun h => List.cons_ne_nil _ _ h.2
          cases s with
          | publish e =>
              cases hstep
              have hnext : ∀ h, Handled h₀ (d.published ++ [e]) h →
                  Leads prev (InStep draws) todo h := by
                intro h hh
                obtain ⟨h', now, hh', rfl⟩ := hh.of_append
                exact hlead h' hh' now
              refine ⟨hturn, fun h hh => ?_, fun h hh => (hnext h hh).reported (hh.tallied ht),
                .within prev bargeIn todo rfl hfinished hdraws hprev (.inl hnext)⟩
              obtain ⟨h', now, hh', rfl⟩ := hh.of_append
              exact (hcounted h' hh').trans ((hh'.tallied ht).onEvent now e).2
          | checkpoint =>
              cases hstep
              refine ⟨hturn, hcounted, hreported,
                .within prev bargeIn _ rfl hfinished hdraws hprev ?_⟩
              by_cases hrunning : d.running = true
              · rw [if_pos hrunning]
                exact .inl hlead
              · rw [if_neg hrunning]
                exact .inr ⟨by simpa using hrunning, rfl⟩
          | sentences s =>
              cases hstep
              have hmine : d.turn = prev.length + 1 := by rw [hturn, hprev]
              refine ⟨hturn, hcounted, hreported,
                .within prev bargeIn _ rfl hfinished hdraws hprev (.inl fun h hh => ?_)⟩
              rw [hmine]
              exact (hlead h hh).round opts.sentencesPerTurn

theorem driverInv_step (hopts : opts.suppressSpeechEvents = false) (ht : Tallied h₀)
    (hinv : DriverInv h₀ d draws) {a : DriverAction} (hstep : d.step opts a = some d') :
    DriverInv h₀ d' (FakeDriver.noteDraw draws d a) := by
  cases a with
  | begin bargeIn at' => exact hinv.begin hopts bargeIn at' hstep
  | advance => exact hinv.advance ht hstep
  | stop =>
      cases hstep
      obtain ⟨hturn, hcounted, hreported, hat⟩ := hinv
      refine ⟨hturn, hcounted, hreported, ?_⟩
      cases hat with
      | top hcall hfinished hdraws hin => exact .top hcall hfinished hdraws hin
      | within prev bargeIn todo hcall hfinished hdraws hprev hlead =>
          exact .within prev bargeIn todo hcall hfinished hdraws hprev
            (hlead.imp_right fun h => ⟨rfl, h.2⟩)
      | ended hcall hfinished hdraws => exact .ended hcall hfinished hdraws

end

/-- In every run of the driver, wherever it is stopped, and however far the machine's clock moves
between its events: each turn that the driver has counted has ended as it was drawn, at most one
more has, none was discarded, and between two turns the machine listens and mints next what the
driver is at. -/
theorem driver_in_step {opts : FakeDriverOptions} (hopts : opts.suppressSpeechEvents = false)
    {d : FakeDriver} {draws : List Bool} {as : List DriverAction}
    (hrun : run (watch (FakeDriver.step opts) FakeDriver.noteDraw) ({}, []) as = some (d, draws))
    (start : TimePoint) (es : List FsmHost.Timed) (hes : es.map Prod.snd = d.published) :
    let fsm := ((FsmHost.start start {}).onEvents es).fsm
    (draws.take d.turnsEmitted).map outcomeOf <+: fsm.outcomeCalls ∧
      fsm.outcomeCalls <+: draws.map outcomeOf ∧ draws.length ≤ d.turnsEmitted + 1 ∧
      fsm.turnsCompleted = fsm.outcomeCalls.count "completed" ∧
      fsm.turnsInterrupted = fsm.outcomeCalls.count "interrupted" ∧ fsm.turnsDiscarded = 0 ∧
      (d.call = none → d.finished = false → fsm.state = .listening ∧
        ((FsmHost.start start {}).onEvents es).turns.next = d.turn ∧
        fsm.outcomeCalls = draws.map outcomeOf) := by
  intro fsm
  have ht : Tallied (FsmHost.start start {}) :=
    ⟨Fsm.settled_transition (by decide) (by decide) start _, rfl, rfl, rfl⟩
  have hinit : DriverInv (FsmHost.start start {}) {} [] := by
    have hfirst : ∀ h, Handled (FsmHost.start start {}) [] h → InStep [] h := by
      rintro h ⟨es, hes, rfl⟩
      rw [List.map_eq_nil_iff.mp hes]
      exact ⟨rfl, rfl, rfl⟩
    refine ⟨rfl, fun h _ => List.nil_prefix, fun h hh => ?_, .top rfl rfl rfl hfirst⟩
    rw [(hfirst h hh).outcomes]
  have hinv : DriverInv (FsmHost.start start {}) d draws :=
    run_preserves (fun p : FakeDriver × List Bool => DriverInv (FsmHost.start start {}) p.1 p.2)
      (fun p a p' hp hs => by
        obtain ⟨hs, hnote⟩ := watch_eq_some.mp hs
        rw [hnote]
        exact driverInv_step hopts ht hp hs)
      hrun hinit
  obtain ⟨hturn, hcounted, hreported, hat⟩ := hinv
  have hh : Handled (FsmHost.start start {}) d.published ((FsmHost.start start {}).onEvents es) :=
    ⟨es, hes, rfl⟩
  obtain ⟨htallied, -⟩ := ht.onEvents es
  have hupper : fsm.outcomeCalls <+: draws.map outcomeOf := hreported _ hh
  have hnone : fsm.turnsDiscarded = 0 := by
    rw [htallied.discarded, List.count_eq_zero]
    intro hin
    obtain ⟨b, -, hb⟩ := List.mem_map.mp (hupper.subset hin)
    cases b <;> simp [outcomeOf] at hb
  refine ⟨hcounted _ hh, hupper, ?_, htallied.completed, htallied.interrupted, hnone,
    fun hcall hfinished => ?_⟩
  · cases hat with
    | top _ _ hdraws => omega
    | within prev _ _ _ _ hdraws hprev => simp [hdraws, hprev]
    | ended _ _ hdraws => omega
  · cases hat with
    | top _ _ hdraws hin =>
        have hin := hin _ hh
        exact ⟨hin.state, by rw [hin.next, hturn, hdraws], hin.outcomes⟩
    | within _ _ _ hsome => rw [hcall] at hsome; cases hsome
    | ended _ hover => rw [hfinished] at hover; cases hover

/-- A turn with a barge-in, and one that the driver is stopped in. -/
def stoppedInTurn : List DriverAction :=
  .begin true {} :: List.replicate 18 .advance ++
    .begin false {} :: List.replicate 3 .advance ++ [.stop, .advance]

theorem driver_in_step_stopped : ∃ d,
    run (watch (FakeDriver.step {}) FakeDriver.noteDraw) ({}, []) stoppedInTurn =
      some (d, [true, false]) ∧
    d.turnsEmitted = 1 ∧
    let fsm := ((FsmHost.start 0 {}).onEvents (d.published.map fun e => (1, e))).fsm
    ["interrupted"] <+: fsm.outcomeCalls ∧ fsm.outcomeCalls <+: ["interrupted", "completed"] ∧
      fsm.turnsDiscarded = 0 := by
  obtain ⟨d, hrun, hemitted⟩ : ∃ d, run (watch (FakeDriver.step {}) FakeDriver.noteDraw) ({}, [])
      stoppedInTurn = some (d, [true, false]) ∧ d.turnsEmitted = 1 := ⟨_, rfl, rfl⟩
  have hes : (d.published.map fun e => ((1 : TimePoint), e)).map Prod.snd = d.published := by
    rw [List.map_map]
    exact List.map_id _
  obtain ⟨hcounted, hupper, -, -, -, hdiscarded, -⟩ := driver_in_step rfl hrun 0 _ hes
  rw [hemitted] at hcounted
  exact ⟨d, hrun, hemitted, hcounted, hupper, hdiscarded⟩

end Acva.Pipeline
