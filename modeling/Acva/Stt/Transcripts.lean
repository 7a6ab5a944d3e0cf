import Acva.Core.Places
import Acva.Stt.RealtimeSession

/-! # Transcripts and their utterances

The client learns the item of an utterance from a `committed` event that does not
say which commit it answers, and gives it to the utterance that is active when it
arrives. As long as that is the utterance of the commit, every transcript goes to
the utterance it is of. A commit is at one place on its way: with the thread that
sends it, or with the server.
-/

namespace Acva.Stt

open Acva.Audio Acva.Dialogue Acva.Playback Acva.Runs Acva.Places

/-- The text of a callback is of an item that was given out for its utterance's commit: a
beginning of its deltas, or its transcript. -/
def TranscriptionServer.Produced (server : TranscriptionServer) : Callback → Prop
  | .onPartial owner ev =>
      ∃ itemId, (itemId, owner) ∈ server.items ∧ ev.text <+: server.textOf itemId
  | .onFinal owner ev =>
      ∃ itemId, (itemId, owner) ∈ server.items ∧ (itemId, ev.text) ∈ server.transcripts
  | .onError _ _ => True

/-! ## The server only adds -/

namespace TranscriptionServer

structure Grows (server server' : TranscriptionServer) : Prop where
  items : server.items ⊆ server'.items
  text : ∀ itemId, server.textOf itemId <+: server'.textOf itemId
  transcripts : server.transcripts ⊆ server'.transcripts

theorem Grows.refl (server : TranscriptionServer) : Grows server server :=
  ⟨List.Subset.refl _, fun _ => List.prefix_refl _, List.Subset.refl _⟩

theorem Produced.mono {server server' : TranscriptionServer} (h : Grows server server')
    {call : Callback} (hp : server.Produced call) : server'.Produced call := by
  cases call with
  | onPartial owner ev =>
      obtain ⟨itemId, hitem, htext⟩ := hp
      exact ⟨itemId, h.items hitem, htext.trans (h.text itemId)⟩
  | onFinal owner ev =>
      obtain ⟨itemId, hitem, htext⟩ := hp
      exact ⟨itemId, h.items hitem, h.transcripts htext⟩
  | onError owner err => trivial

theorem textOf_append (server : TranscriptionServer) (itemId delta i : Bytes) :
    textOf i { server with deltas := server.deltas ++ [(itemId, delta)] } =
      server.textOf i ++ if itemId = i then delta else [] := by
  simp only [textOf, List.filter_append, List.flatMap_append]
  by_cases h : itemId = i
  · simp [h]
  · simp [h]

/-- An item without deltas has no text. -/
theorem textOf_of_new {server : TranscriptionServer} {itemId : Bytes}
    (h : ∀ d ∈ server.deltas, d.1 ≠ itemId) : server.textOf itemId = [] := by
  have hnone : server.deltas.filter (fun d => decide (d.1 = itemId)) = [] := by
    rw [List.filter_eq_nil_iff]
    intro d hd
    simpa using h d hd
  rw [textOf, hnone]
  rfl

theorem report_grows {server server' : TranscriptionServer} {e : ServerEvent}
    (h : server.report e = some server') : Grows server server' := by
  cases e with
  | delta itemId delta =>
      simp only [report] at h
      split at h
      · cases h
        exact ⟨List.Subset.refl _, fun i => ⟨_, (server.textOf_append itemId delta i).symm⟩,
          List.Subset.refl _⟩
      · cases h
  | completed itemId transcript language =>
      simp only [report] at h
      split at h
      · cases h
        exact ⟨List.Subset.refl _, fun _ => List.prefix_refl _, List.subset_append_left _ _⟩
      · cases h
  | committed itemId =>
      simp only [report] at h
      split at h
      · split at h
        · cases h
          exact ⟨List.subset_append_left _ _, fun _ => List.prefix_refl _, List.Subset.refl _⟩
        · cases h
      · cases h
  | sessionUpdated =>
      cases h
      exact .refl server
  | error message =>
      cases h
      exact .refl server

end TranscriptionServer

/-! ## What a report does to the client -/

namespace RealtimeSttClient

variable {ρ : Type}

/-- By what comes of it. Past the first case the utterance is active. -/
inductive Dispatched (pool : TokenPool) (c : RealtimeSttClient ρ) :
    ServerEvent → RealtimeSttClient ρ × List AfterLock → Prop
  /-- The utterance stays as it is. -/
  | keeps {e : ServerEvent} {c' : RealtimeSttClient ρ} (h : SameUtterance c c')
      (hcommitted : ∀ itemId, e = .committed itemId → c.active = false ∨ itemId = [])
      (hdelta : ∀ itemId delta, e = .delta itemId delta → c.active = true →
        itemId = c.activeItemId → itemId = [] ∨ delta = [] ∨ c.cancelled pool = true) :
      Dispatched pool c e (c', [])
  | adopts {itemId : Bytes} (hactive : c.active = true) :
      Dispatched pool c (.committed itemId) ({ c with activeItemId := itemId }, [])
  | hears {itemId delta : Bytes} {after : List AfterLock} (hactive : c.active = true)
      (hitem : c.activeItemId = itemId) (hlive : c.cancelled pool = false)
      (hafter : after = [] ∨ ∃ ev : PartialTranscript, ev.text = c.partialText ++ delta ∧
        after = [.call (.onPartial c.activeCb.owner ev)]) :
      Dispatched pool c (.delta itemId delta)
        ({ c with
          partialText := c.partialText ++ delta
          partialSeq := c.partialSeq + 1 }, after)
  | ends {e : ServerEvent} {after : List AfterLock} (hactive : c.active = true)
      (hcommits : commitsIn after = [])
      (hcalls : ∀ call ∈ callsIn after, ∃ owner err, call = .onError owner err) :
      Dispatched pool c e (c.clearActive, after)
  | finishes {itemId transcript language : Bytes} (ev : FinalTranscript)
      (hactive : c.active = true) (hitem : c.activeItemId = itemId) (htext : ev.text = transcript) :
      Dispatched pool c (.completed itemId transcript language)
        (c.clearActive, [.call (.onFinal c.activeCb.owner ev)])

theorem dispatch_dispatched (pool : TokenPool) (e : ServerEvent) (c : RealtimeSttClient ρ) :
    Dispatched pool c e (c.dispatch pool e) := by
  cases e with
  | delta itemId delta =>
      simp only [dispatch, onPartial]
      split
      next hempty =>
        refine .keeps (.refl c) (fun _ h => by cases h) fun i d h _ _ => ?_
        cases h
        exact hempty.imp_right .inl
      · split
        next hother =>
          refine .keeps (.refl c) (fun _ h => by cases h) fun i d h hactive hitem => ?_
          cases h
          rcases hother with hidle | hne
          · rw [hactive] at hidle
            cases hidle
          · exact absurd hitem hne
        next hmine =>
          simp only [not_or, Bool.not_eq_false, ne_eq, not_not] at hmine
          split
          next hcancelled =>
            refine .keeps (.refl c) (fun _ h => by cases h) fun i d h _ _ => ?_
            cases h
            exact .inr (.inr hcancelled)
          next hlive =>
            refine .hears hmine.1 hmine.2.symm (by simpa using hlive) ?_
            split
            · exact .inr ⟨_, rfl, rfl⟩
            · exact .inl rfl
  | completed itemId transcript language =>
      have hkeeps : Dispatched pool c (.completed itemId transcript language) (c, []) :=
        .keeps (.refl c) (fun _ h => by cases h) (fun _ _ h => by cases h)
      simp only [dispatch, onFinal]
      split
      · exact hkeeps
      · split
        · exact hkeeps
        next hmine =>
          simp only [not_or, Bool.not_eq_false, ne_eq, not_not] at hmine
          split
          · exact .ends hmine.1 rfl (fun _ h => by cases h)
          · split
            · exact .finishes _ hmine.1 hmine.2.symm rfl
            · exact .ends hmine.1 rfl (fun _ h => by cases h)
  | committed itemId =>
      simp only [dispatch, onCommitted]
      split
      next hempty =>
        refine .keeps (.refl c) (fun i h => ?_) (fun _ _ h => by cases h)
        cases h
        exact .inr hempty
      · split
        next hactive => exact .adopts hactive
        next hidle =>
          refine .keeps (.refl c) (fun i h => ?_) (fun _ _ h => by cases h)
          cases h
          exact .inl (by simpa using hidle)
  | sessionUpdated =>
      simp only [dispatch, onSessionUpdated]
      split
      · exact .keeps ⟨rfl, rfl, rfl, rfl, rfl, rfl⟩ (fun _ h => by cases h)
          (fun _ _ h => by cases h)
      · exact .keeps (.refl c) (fun _ h => by cases h) (fun _ _ h => by cases h)
  | error message =>
      simp only [dispatch, onServerError]
      split
      next hactive =>
        refine .ends hactive ?_ ?_
        · split <;> rfl
        · split
          · intro call hcall
            simp only [callsIn_call, callsIn_nil, List.mem_singleton] at hcall
            exact ⟨_, _, hcall⟩
          · intro call hcall
            cases hcall
      · exact .keeps (.refl c) (fun _ h => by cases h) (fun _ _ h => by cases h)

end RealtimeSttClient

/-! ## The property and its condition -/

namespace RealtimeSession

variable {ρ : Type}

/-- No transcript crosses to another utterance, and no utterance gets two. -/
structure KeepsApart (s : RealtimeSession ρ) : Prop where
  own : ∀ call ∈ s.called, s.server.Produced call
  once : (s.called.filterMap Callback.finalOf).Nodup

/-- A `committed` event finds no other utterance active than the one whose commit it
answers. -/
def Timely (s : RealtimeSession ρ) : SessionAction → Prop
  | .report (.committed _) =>
      s.client.active = true → s.server.unanswered.head? = some s.client.activeCb.owner
  | _ => True

instance (s : RealtimeSession ρ) (a : SessionAction) : Decidable (s.Timely a) := by
  unfold Timely
  split <;> infer_instance

/-- The commits that are not answered: at the server, or with a thread. -/
def unansweredAt (s : RealtimeSession ρ) : Option Nat → List UtteranceId
  | none => s.server.unanswered
  | some thread => commitsIn (s.callers thread)

def Unanswered (s : RealtimeSession ρ) (owner : UtteranceId) : Prop :=
  Somewhere s.unansweredAt owner

/-- The calls that were made and the ones about to be made. -/
def calls (s : RealtimeSession ρ) : List Callback := s.called ++ callsIn s.dispatcher

/-- The active utterance has an item exactly when its commit has been answered. -/
structure ActiveInv (s : RealtimeSession ρ) : Prop where
  bound : s.client.activeCb.owner < s.nextUtterance
  uncommitted : s.client.resampler.isSome = true →
    ¬ s.Unanswered s.client.activeCb.owner ∧ s.client.activeItemId = []
  waiting : s.Unanswered s.client.activeCb.owner → s.client.activeItemId = []
  text : (s.client.activeItemId = [] ∧ s.client.partialText = []) ∨
    ((s.client.activeItemId, s.client.activeCb.owner) ∈ s.server.items ∧
      (s.client.cancelled s.pool = false →
        s.client.partialText = s.server.textOf s.client.activeItemId))
  unfinished : s.client.activeCb.owner ∉ s.calls.filterMap Callback.finalOf

structure SessionInv (s : RealtimeSession ρ) : Prop where
  errors : ∀ thread, ∀ call ∈ callsIn (s.callers thread), ∃ owner err, call = .onError owner err
  dispatcher : commitsIn s.dispatcher = []
  distinct : Distinct s.unansweredAt
  bound : ∀ owner, s.Unanswered owner → owner < s.nextUtterance
  items : ∀ item ∈ s.server.items, item.1 ≠ []
  deltas : ∀ d ∈ s.server.deltas, d.1 ∈ s.server.items.map Prod.fst
  active : s.client.active = true → s.ActiveInv
  own : ∀ call ∈ s.calls, s.server.Produced call
  once : (s.calls.filterMap Callback.finalOf).Nodup
  finals : ∀ owner ∈ s.calls.filterMap Callback.finalOf, owner < s.nextUtterance

theorem SessionInv.keepsApart {s : RealtimeSession ρ} (hi : s.SessionInv) : s.KeepsApart := by
  refine ⟨fun call hcall => hi.own call (List.mem_append_left _ hcall), ?_⟩
  have honce := hi.once
  rw [calls, List.filterMap_append] at honce
  exact honce.of_append_left

/-! ## One step -/

theorem cancelled_of_same {pool pool' : TokenPool} {c c' : RealtimeSttClient ρ}
    (hc : RealtimeSttClient.SameUtterance c c')
    (hpool : ∀ tok, pool.isCancelled tok = true → pool'.isCancelled tok = true)
    (h : c'.cancelled pool' = false) : c.cancelled pool = false := by
  simp only [RealtimeSttClient.cancelled, hc.cancel] at h ⊢
  cases hcancel : c.activeCancel with
  | none => rfl
  | some tok =>
      rw [hcancel] at h
      simp only [Option.any_some] at h ⊢
      by_contra hnot
      rw [hpool tok (by simpa using hnot)] at h
      cases h

/-- The active utterance is the same, and nothing has happened to it. -/
theorem ActiveInv.same {s s' : RealtimeSession ρ} (h : s.ActiveInv)
    (hc : RealtimeSttClient.SameUtterance s.client s'.client)
    (hpool : ∀ tok, s.pool.isCancelled tok = true → s'.pool.isCancelled tok = true)
    (hunanswered : ∀ owner, s'.Unanswered owner → s.Unanswered owner)
    (hitems : s.server.items ⊆ s'.server.items)
    (htext : s'.client.cancelled s'.pool = false →
      s'.server.textOf s.client.activeItemId = s.server.textOf s.client.activeItemId)
    (hfinals : s'.calls.filterMap Callback.finalOf = s.calls.filterMap Callback.finalOf)
    (hnext : s.nextUtterance ≤ s'.nextUtterance) : s'.ActiveInv := by
  constructor
  · rw [hc.cb]
    exact Nat.lt_of_lt_of_le h.bound hnext
  · intro hresampler
    rw [hc.resampler] at hresampler
    obtain ⟨hun, hitem⟩ := h.uncommitted hresampler
    rw [hc.cb, hc.itemId]
    exact ⟨fun hu => hun (hunanswered _ hu), hitem⟩
  · intro hu
    rw [hc.cb] at hu
    rw [hc.itemId]
    exact h.waiting (hunanswered _ hu)
  · rw [hc.itemId, hc.text, hc.cb]
    rcases h.text with hnone | ⟨hitem, hheard⟩
    · exact .inl hnone
    · refine .inr ⟨hitems hitem, fun hlive => ?_⟩
      rw [htext hlive]
      exact hheard (cancelled_of_same hc hpool hlive)
  · rw [hfinals, hc.cb]
    exact h.unfinished

/-- A step that leaves the active utterance, the server and the calls alone. -/
theorem SessionInv.same {s s' : RealtimeSession ρ} (hi : s.SessionInv)
    (hc : RealtimeSttClient.SameUtterance s.client s'.client)
    (hpool : ∀ tok, s.pool.isCancelled tok = true → s'.pool.isCancelled tok = true)
    (herrors : ∀ thread, ∀ call ∈ callsIn (s'.callers thread),
      ∃ owner err, call = .onError owner err)
    (hunanswered : s'.unansweredAt = s.unansweredAt) (hserver : s'.server.items = s.server.items)
    (hdeltas : s'.server.deltas = s.server.deltas)
    (htranscripts : s'.server.transcripts = s.server.transcripts)
    (hdispatcher : commitsIn s'.dispatcher = [])
    (hcalls : ∀ call ∈ s'.calls, call ∈ s.calls ∨ ∃ owner err, call = .onError owner err)
    (hfinals : s'.calls.filterMap Callback.finalOf = s.calls.filterMap Callback.finalOf)
    (hnext : s.nextUtterance ≤ s'.nextUtterance) : s'.SessionInv := by
  have hgone : ∀ owner, s'.Unanswered owner → s.Unanswered owner := by
    intro owner hu
    rw [Unanswered, hunanswered] at hu
    exact hu
  have hgrows : TranscriptionServer.Grows s.server s'.server := by
    refine ⟨by rw [hserver]; exact List.Subset.refl _, fun itemId => ?_, ?_⟩
    · simp only [TranscriptionServer.textOf, hdeltas]
      exact List.prefix_refl _
    · rw [htranscripts]
      exact List.Subset.refl _
  constructor
  · exact herrors
  · exact hdispatcher
  · rw [hunanswered]
    exact hi.distinct
  · intro owner hu
    exact Nat.lt_of_lt_of_le (hi.bound owner (hgone owner hu)) hnext
  · rw [hserver]
    exact hi.items
  · rw [hserver, hdeltas]
    exact hi.deltas
  · intro hactive
    rw [hc.active] at hactive
    refine (hi.active hactive).same hc hpool hgone hgrows.items (fun _ => ?_) hfinals hnext
    simp only [TranscriptionServer.textOf, hdeltas]
  · intro call hcall
    rcases hcalls call hcall with hold | ⟨owner, err, rfl⟩
    · exact (hi.own call hold).mono hgrows
    · trivial
  · rw [hfinals]
    exact hi.once
  · rw [hfinals]
    exact fun owner ho => Nat.lt_of_lt_of_le (hi.finals owner ho) hnext

/-- A call without a commit leaves every unanswered commit where it is. -/
theorem enter_unansweredAt {s s' : RealtimeSession ρ} {thread : Nat}
    {r : RealtimeSttClient ρ × List AfterLock} (h : s.enter thread r = some s') :
    s' = { s with client := r.1, callers := Function.update s.callers thread r.2 } ∧
      commitsIn (s.callers thread) = [] ∧
      s'.unansweredAt = Function.update s.unansweredAt (some thread) (commitsIn r.2) := by
  unfold enter at h
  split at h
  next hidle =>
    cases h
    refine ⟨rfl, by rw [hidle]; rfl, ?_⟩
    funext p
    cases p with
    | none => rfl
    | some t =>
        by_cases ht : t = thread
        · subst ht
          simp [unansweredAt]
        · have hne : (some t) ≠ some thread := fun he => ht (Option.some.inj he)
          simp only [unansweredAt, Function.update_of_ne ht, Function.update_of_ne hne]
  next => cases h

theorem enter_errors {s s' : RealtimeSession ρ} {thread : Nat}
    {r : RealtimeSttClient ρ × List AfterLock} (hi : s.SessionInv)
    (h : s.enter thread r = some s')
    (hcalls : ∀ call ∈ callsIn r.2, ∃ owner err, call = .onError owner err) :
    ∀ t, ∀ call ∈ callsIn (s'.callers t), ∃ owner err, call = .onError owner err := by
  obtain ⟨rfl, -, -⟩ := enter_unansweredAt h
  intro t call hcall
  by_cases ht : t = thread
  · subst ht
    simp only [Function.update_self] at hcall
    exact hcalls call hcall
  · simp only [Function.update_of_ne ht] at hcall
    exact hi.errors t call hcall

theorem update_eq_self_of_commits {s : RealtimeSession ρ} {thread : Nat}
    (h : commitsIn (s.callers thread) = []) :
    Function.update s.unansweredAt (some thread) [] = s.unansweredAt :=
  Function.update_eq_self_iff.mpr h.symm

theorem SessionInv.beginUtterance {soxr : Soxr ρ} {s s' : RealtimeSession ρ} {thread : Nat}
    {turn : TurnId} {cancel : Option TokenRef} {cb : UtteranceCallbacks} (hi : s.SessionInv)
    (h : s.step soxr (.beginUtterance thread turn cancel cb) = some s') : s'.SessionInv := by
  obtain ⟨hcommits, hcalls, hclient⟩ := RealtimeSttClient.beginUtterance_cases soxr turn cancel
    { cb with owner := s.nextUtterance } s.client
  have herrors := enter_errors (s := { s with nextUtterance := s.nextUtterance + 1 })
    { hi with
      bound := fun owner hu => Nat.lt_succ_of_lt (hi.bound owner hu)
      active := fun ha => (hi.active ha).same (.refl _) (fun _ => id) (fun _ => id)
        (List.Subset.refl _) (fun _ => rfl) rfl (Nat.le_succ _)
      finals := fun owner ho => Nat.lt_succ_of_lt (hi.finals owner ho) } h hcalls
  obtain ⟨rfl, hidle, hunanswered⟩ := enter_unansweredAt h
  rw [hcommits] at hunanswered
  have hkept : unansweredAt _ = s.unansweredAt :=
    hunanswered.trans (update_eq_self_of_commits (s := s) hidle)
  rcases hclient with hsame | ⟨hactive, hcb, hitem, htext, hresampler⟩
  · refine hi.same ?_ (fun _ => id) herrors hkept rfl rfl rfl hi.dispatcher
      (fun call hcall => .inl hcall) rfl (Nat.le_succ _)
    rw [hsame]
    exact .refl _
  · have hnew : ¬ s.Unanswered s.nextUtterance := fun hu => Nat.lt_irrefl _ (hi.bound _ hu)
    constructor
    · exact herrors
    · exact hi.dispatcher
    · rw [hkept]
      exact hi.distinct
    · intro owner hu
      rw [Unanswered, hkept] at hu
      exact Nat.lt_succ_of_lt (hi.bound owner hu)
    · exact hi.items
    · exact hi.deltas
    · intro _
      constructor
      · rw [hcb]
        exact Nat.lt_succ_self _
      · intro _
        refine ⟨?_, hitem⟩
        rw [Unanswered, hkept, hcb]
        exact hnew
      · exact fun _ => hitem
      · exact .inl ⟨hitem, htext⟩
      · rw [hcb]
        intro hfinal
        exact Nat.lt_irrefl _ (hi.finals _ hfinal)
    · exact hi.own
    · exact hi.once
    · exact fun owner ho => Nat.lt_succ_of_lt (hi.finals owner ho)

theorem SessionInv.pushAudio {soxr : Soxr ρ} {s s' : RealtimeSession ρ} {thread : Nat}
    {samples : List Sample} (hi : s.SessionInv)
    (h : s.step soxr (.pushAudio thread samples) = some s') : s'.SessionInv := by
  obtain ⟨hcommits, hcalls, hsame⟩ :=
    RealtimeSttClient.pushAudio_cases soxr s.pool samples s.client
  have herrors := enter_errors hi h (fun call hcall => by rw [hcalls] at hcall; cases hcall)
  obtain ⟨rfl, hidle, hunanswered⟩ := enter_unansweredAt h
  rw [hcommits, update_eq_self_of_commits hidle] at hunanswered
  exact hi.same hsame (fun _ => id) herrors hunanswered rfl rfl rfl hi.dispatcher
    (fun call hcall => .inl hcall) rfl (Nat.le_refl _)

theorem SessionInv.endUtterance {soxr : Soxr ρ} {s s' : RealtimeSession ρ} {thread : Nat}
    (hi : s.SessionInv) (h : s.step soxr (.endUtterance thread) = some s') : s'.SessionInv := by
  obtain ⟨hcalls, hclient⟩ := RealtimeSttClient.endUtterance_cases soxr s.client
  have herrors := enter_errors hi h (fun call hcall => by rw [hcalls] at hcall; cases hcall)
  obtain ⟨rfl, hidle, hunanswered⟩ := enter_unansweredAt h
  rcases hclient with hnone | ⟨hactive, hresampler, hclient, hcommits⟩
  · simp only [hnone, commitsIn_nil, update_eq_self_of_commits hidle] at hunanswered
    refine hi.same ?_ (fun _ => id) herrors ?_ rfl rfl rfl hi.dispatcher
      (fun call hcall => .inl hcall) rfl (Nat.le_refl _)
    · simp only [hnone]
      exact .refl _
    · simp only [hnone]
      exact hunanswered
  · have ha := hi.active hactive
    obtain ⟨hun, hitem⟩ := ha.uncommitted hresampler
    -- the commit is put where none of this utterance has been
    have hput : Distinct (Function.update s.unansweredAt (some thread)
        (commitsIn (s.client.endUtterance soxr).2)) ∧
        ∀ owner, Somewhere (Function.update s.unansweredAt (some thread)
          (commitsIn (s.client.endUtterance soxr).2)) owner →
          owner = s.client.activeCb.owner ∨ s.Unanswered owner := by
      rcases hcommits with hnone | hone
      · rw [hnone, update_eq_self_of_commits hidle]
        exact ⟨hi.distinct, fun owner hu => .inr hu⟩
      · have happend : [s.client.activeCb.owner] =
            s.unansweredAt (some thread) ++ [s.client.activeCb.owner] := by
          show _ = commitsIn (s.callers thread) ++ _
          rw [hidle]
          rfl
        rw [hone, happend]
        exact ⟨hi.distinct.put hun _, fun owner hu => somewhere_put.mp hu⟩
    constructor
    · exact herrors
    · exact hi.dispatcher
    · rw [hunanswered]
      exact hput.1
    · intro owner hu
      rw [Unanswered, hunanswered] at hu
      rcases hput.2 owner hu with rfl | hold
      · exact ha.bound
      · exact hi.bound owner hold
    · exact hi.items
    · exact hi.deltas
    · intro _
      simp only [hclient]
      constructor
      · exact ha.bound
      · intro hsome
        cases hsome
      · exact fun _ => hitem
      · exact ha.text
      · exact ha.unfinished
    · exact hi.own
    · exact hi.once
    · exact hi.finals

/-- A caller does something else than to send a commit. -/
theorem unansweredAt_of_kept {s s' : RealtimeSession ρ} {thread : Nat} {rest : List AfterLock}
    (hcallers : s'.callers = Function.update s.callers thread rest)
    (hserver : s'.server.unanswered = s.server.unanswered)
    (hkept : commitsIn rest = commitsIn (s.callers thread)) :
    s'.unansweredAt = s.unansweredAt := by
  funext p
  cases p with
  | none => exact hserver
  | some t =>
      by_cases ht : t = thread
      · subst ht
        simp only [unansweredAt, hcallers, Function.update_self, hkept]
      · simp only [unansweredAt, hcallers, Function.update_of_ne ht]

/-- A message sent moves a commit to the server and changes nothing else. -/
theorem unansweredAt_of_sent {s s' : RealtimeSession ρ} {thread : Nat} {m : ClientMessage}
    {rest : List AfterLock} (hthread : s.callers thread = .send m :: rest)
    (hs : s' = perform (.send m) { s with callers := Function.update s.callers thread rest }) :
    s'.unansweredAt = s.unansweredAt ∨ ∃ owner,
      s.unansweredAt (some thread) = owner :: commitsIn rest ∧
      s'.unansweredAt = Function.update
        (Function.update s.unansweredAt (some thread) (commitsIn rest)) none
        (Function.update s.unansweredAt (some thread) (commitsIn rest) none ++ [owner]) := by
  subst hs
  have hothers : ∀ t, commitsIn (Function.update s.callers thread rest t) =
      Function.update s.unansweredAt (some thread) (commitsIn rest) (some t) := by
    intro t
    by_cases ht : t = thread
    · subst ht
      simp
    · have hne : (some t) ≠ some thread := fun he => ht (Option.some.inj he)
      rw [Function.update_of_ne ht, Function.update_of_ne hne]
      rfl
  cases m with
  | commit owner =>
      refine .inr ⟨owner, ?_, ?_⟩
      · show commitsIn (s.callers thread) = _
        rw [hthread]
        rfl
      · funext p
        cases p with
        | none => rfl
        | some t =>
            rw [Function.update_of_ne (by simp)]
            exact hothers t
  | clear owner =>
      have hkept : commitsIn rest = commitsIn (s.callers thread) := by
        rw [hthread]
        rfl
      exact .inl (unansweredAt_of_kept rfl rfl hkept)
  | append samples =>
      have hkept : commitsIn rest = commitsIn (s.callers thread) := by
        rw [hthread]
        rfl
      exact .inl (unansweredAt_of_kept rfl rfl hkept)

theorem receive_kept (m : ClientMessage) (server : TranscriptionServer) :
    (server.receive m).items = server.items ∧ (server.receive m).deltas = server.deltas ∧
      (server.receive m).transcripts = server.transcripts := by
  cases m <;> exact ⟨rfl, rfl, rfl⟩

theorem callers_errors {s : RealtimeSession ρ} (hi : s.SessionInv) {thread : Nat}
    {x : AfterLock} {rest : List AfterLock} (hthread : s.callers thread = x :: rest) :
    ∀ t, ∀ call ∈ callsIn (Function.update s.callers thread rest t),
      ∃ owner err, call = .onError owner err := by
  intro t call hcall
  by_cases ht : t = thread
  · subst ht
    rw [Function.update_self] at hcall
    refine hi.errors t call ?_
    rw [hthread]
    cases x with
    | send m => exact hcall
    | call c => exact List.mem_cons_of_mem c hcall
  · rw [Function.update_of_ne ht] at hcall
    exact hi.errors t call hcall

theorem SessionInv.caller {soxr : Soxr ρ} {s s' : RealtimeSession ρ} {thread : Nat}
    (hi : s.SessionInv) (h : s.step soxr (.caller thread) = some s') : s'.SessionInv := by
  simp only [step] at h
  split at h
  next x rest hthread =>
    have herrors := callers_errors hi hthread
    cases x with
    | send m =>
        have hsent := Option.some.inj h
        obtain ⟨hitems, hdeltas, htranscripts⟩ := receive_kept m s.server
        rcases unansweredAt_of_sent hthread hsent.symm with hkept | ⟨owner, hfrom, hmoved⟩
        · subst hsent
          exact hi.same (.refl _) (fun _ => id) herrors hkept hitems hdeltas htranscripts
            hi.dispatcher (fun call hcall => .inl hcall) rfl (Nat.le_refl _)
        · obtain ⟨htaken, hnowhere⟩ := hi.distinct.take hfrom
          have hgone : ∀ u, s'.Unanswered u → s.Unanswered u := by
            intro u hu
            rw [Unanswered, hmoved] at hu
            rcases somewhere_put.mp hu with rfl | hold
            · exact ⟨some thread, hfrom ▸ List.mem_cons_self⟩
            · exact somewhere_of_take hfrom hold
          subst hsent
          constructor
          · exact herrors
          · exact hi.dispatcher
          · rw [hmoved]
            exact htaken.put hnowhere none
          · exact fun u hu => hi.bound u (hgone u hu)
          · exact fun item hitem => hi.items item (hitems ▸ hitem)
          · exact fun d hd => hitems ▸ hi.deltas d (hdeltas ▸ hd)
          · intro hactive
            refine (hi.active hactive).same (.refl _) (fun _ => id) hgone
              (fun _ hx => hitems ▸ hx) (fun _ => ?_) rfl (Nat.le_refl _)
            show ((s.server.receive m).deltas.filter _).flatMap _ = _
            rw [hdeltas]
            rfl
          · exact fun call hcall => (hi.own call hcall).mono
              ⟨fun _ hx => hitems ▸ hx, fun itemId => by
                show _ <+: ((s.server.receive m).deltas.filter _).flatMap _
                rw [hdeltas]
                exact List.prefix_refl _, fun _ hx => htranscripts ▸ hx⟩
          · exact hi.once
          · exact hi.finals
    | call c =>
        cases h
        obtain ⟨owner, err, rfl⟩ := hi.errors thread c (by rw [hthread]; exact List.mem_cons_self)
        have hkept : commitsIn rest = commitsIn (s.callers thread) := by
          rw [hthread]
          rfl
        refine hi.same (.refl _) (fun _ => id) herrors (unansweredAt_of_kept rfl rfl hkept) rfl rfl
          rfl hi.dispatcher ?_ ?_ (Nat.le_refl _)
        · intro call hcall
          simp only [calls, perform, List.append_assoc, List.singleton_append, List.mem_append,
            List.mem_cons] at hcall
          rcases hcall with hold | rfl | hnext
          · exact .inl (List.mem_append_left _ hold)
          · exact .inr ⟨owner, err, rfl⟩
          · exact .inl (List.mem_append_right _ hnext)
        · simp only [calls, perform, List.append_assoc, List.filterMap_append]
          rfl
  next => cases h

theorem report_committed {server server' : TranscriptionServer} {itemId : Bytes}
    (h : server.report (.committed itemId) = some server') :
    ∃ owner rest, server.unanswered = owner :: rest ∧ itemId ≠ [] ∧
      itemId ∉ server.items.map Prod.fst ∧
      server' = { server with unanswered := rest, items := server.items ++ [(itemId, owner)] } := by
  simp only [TranscriptionServer.report] at h
  split at h
  next owner rest hun =>
    split at h
    next hnew =>
      cases h
      exact ⟨owner, rest, hun, hnew.1, hnew.2, rfl⟩
    next => cases h
  next => cases h

theorem calls_of_idle {s : RealtimeSession ρ} (hidle : s.dispatcher = []) :
    s.calls = s.called := by
  rw [calls, hidle]
  exact List.append_nil _

theorem report_delta {server server' : TranscriptionServer} {itemId delta : Bytes}
    (h : server.report (.delta itemId delta) = some server') :
    itemId ∈ server.items.map Prod.fst ∧
      server' = { server with deltas := server.deltas ++ [(itemId, delta)] } := by
  simp only [TranscriptionServer.report] at h
  split at h
  next hworking =>
    cases h
    exact ⟨hworking.1, rfl⟩
  next => cases h

theorem report_completed {server server' : TranscriptionServer}
    {itemId transcript language : Bytes}
    (h : server.report (.completed itemId transcript language) = some server') :
    itemId ∈ server.items.map Prod.fst ∧
      server' = { server with
        completed := server.completed ++ [itemId]
        transcripts := server.transcripts ++ [(itemId, transcript)] } := by
  simp only [TranscriptionServer.report] at h
  split at h
  next hworking =>
    cases h
    exact ⟨hworking.1, rfl⟩
  next => cases h

theorem report_others {server server' : TranscriptionServer} {e : ServerEvent}
    (h : server.report e = some server') (he : ∀ itemId, e ≠ .committed itemId) :
    server'.unanswered = server.unanswered ∧ server'.items = server.items ∧
      ∀ d ∈ server'.deltas, d.1 ∈ server.items.map Prod.fst ∨ d ∈ server.deltas := by
  cases e with
  | committed itemId => exact absurd rfl (he itemId)
  | delta itemId delta =>
      obtain ⟨hworking, rfl⟩ := report_delta h
      refine ⟨rfl, rfl, fun d hd => ?_⟩
      rcases List.mem_append.mp hd with hold | hnew
      · exact .inr hold
      · rw [List.mem_singleton.mp hnew]
        exact .inl hworking
  | completed itemId transcript language =>
      obtain ⟨-, rfl⟩ := report_completed h
      exact ⟨rfl, rfl, fun d hd => .inr hd⟩
  | sessionUpdated =>
      cases h
      exact ⟨rfl, rfl, fun d hd => .inr hd⟩
  | error message =>
      cases h
      exact ⟨rfl, rfl, fun d hd => .inr hd⟩

/-- What a report changes besides the client: an answered commit is gone, and the items and
the deltas are still in order. -/
structure Reported (s : RealtimeSession ρ) (server : TranscriptionServer) : Prop where
  distinct : Distinct (unansweredAt { s with server := server })
  gone : ∀ owner, Unanswered { s with server := server } owner → s.Unanswered owner
  items : ∀ item ∈ server.items, item.1 ≠ []
  deltas : ∀ d ∈ server.deltas, d.1 ∈ server.items.map Prod.fst

theorem SessionInv.reported {s : RealtimeSession ρ} (hi : s.SessionInv) {e : ServerEvent}
    {server : TranscriptionServer} (h : s.server.report e = some server) : Reported s server := by
  by_cases he : ∃ itemId, e = .committed itemId
  · obtain ⟨itemId, rfl⟩ := he
    obtain ⟨owner, rest, hun, hid, hnew, rfl⟩ := report_committed h
    have htaken : unansweredAt { s with server := { s.server with
        unanswered := rest, items := s.server.items ++ [(itemId, owner)] } } =
        Function.update s.unansweredAt none rest := by
      funext p
      cases p with
      | none => rfl
      | some t => rfl
    constructor
    · rw [htaken]
      exact (hi.distinct.take (p := none) hun).1
    · intro u hu
      rw [Unanswered, htaken] at hu
      exact somewhere_of_take (p := none) hun hu
    · intro item hitem
      rcases List.mem_append.mp hitem with hold | hlast
      · exact hi.items item hold
      · rw [List.mem_singleton.mp hlast]
        exact hid
    · intro d hd
      rw [List.map_append]
      exact List.mem_append_left _ (hi.deltas d hd)
  · obtain ⟨hun, hitems, hdeltas⟩ := report_others h fun itemId hc => he ⟨itemId, hc⟩
    have hkept : unansweredAt { s with server := server } = s.unansweredAt := by
      funext p
      cases p with
      | none => exact hun
      | some t => rfl
    constructor
    · rw [hkept]
      exact hi.distinct
    · intro u hu
      rw [Unanswered, hkept] at hu
      exact hu
    · rw [hitems]
      exact hi.items
    · intro d hd
      rw [hitems]
      rcases hdeltas d hd with hin | hold
      · exact hin
      · exact hi.deltas d hold

/-- The rest of a report, once it is known what it does to the active utterance. -/
theorem SessionInv.dispatched {s : RealtimeSession ρ} (hi : s.SessionInv)
    {server : TranscriptionServer} {c : RealtimeSttClient ρ} {after : List AfterLock}
    (hidle : s.dispatcher = []) (hreported : Reported s server)
    (hgrows : TranscriptionServer.Grows s.server server) (hcommits : commitsIn after = [])
    (hactive : c.active = true →
      ActiveInv { s with server := server, client := c, dispatcher := after })
    (hown : ∀ call ∈ callsIn after, server.Produced call)
    (hnew : ∀ owner ∈ (callsIn after).filterMap Callback.finalOf,
      owner < s.nextUtterance ∧ owner ∉ s.calls.filterMap Callback.finalOf)
    (honce : ((callsIn after).filterMap Callback.finalOf).Nodup) :
    SessionInv { s with server := server, client := c, dispatcher := after } := by
  have hcalls := calls_of_idle hidle
  constructor
  · exact hi.errors
  · exact hcommits
  · exact hreported.distinct
  · exact fun owner hu => hi.bound owner (hreported.gone owner hu)
  · exact hreported.items
  · exact hreported.deltas
  · exact hactive
  · intro call hcall
    rcases List.mem_append.mp hcall with hold | hlast
    · exact (hi.own call (hcalls ▸ hold)).mono hgrows
    · exact hown call hlast
  · show ((s.called ++ callsIn after).filterMap Callback.finalOf).Nodup
    rw [List.filterMap_append]
    refine (hcalls ▸ hi.once).append honce ?_
    intro owner hold hlast
    exact (hnew owner hlast).2 (hcalls ▸ hold)
  · intro owner ho
    have ho : owner ∈ (s.called ++ callsIn after).filterMap Callback.finalOf := ho
    rw [List.filterMap_append] at ho
    rcases List.mem_append.mp ho with hold | hlast
    · exact hi.finals owner (hcalls ▸ hold)
    · exact (hnew owner hlast).1

/-- An item the server works on is the active utterance's, if the client takes it for that. -/
theorem SessionInv.owns {s : RealtimeSession ρ} (hi : s.SessionInv) (ha : s.ActiveInv)
    (hworking : s.client.activeItemId ∈ s.server.items.map Prod.fst) :
    (s.client.activeItemId, s.client.activeCb.owner) ∈ s.server.items ∧
      (s.client.cancelled s.pool = false →
        s.client.partialText = s.server.textOf s.client.activeItemId) := by
  obtain ⟨item, hin, hid⟩ := List.mem_map.mp hworking
  exact ha.text.resolve_left fun hnone => hi.items item hin (hid.trans hnone.1)

section Report

variable {s : RealtimeSession ρ} {server : TranscriptionServer}

/-- A report that the client lets pass has no delta for the active utterance. -/
theorem SessionInv.textOf_kept (hi : s.SessionInv) {e : ServerEvent}
    (hserver : s.server.report e = some server) (hactive : s.client.active = true)
    (hlive : s.client.cancelled s.pool = false)
    (hcommitted : ∀ itemId, e = .committed itemId → s.client.active = false ∨ itemId = [])
    (hdelta : ∀ itemId delta, e = .delta itemId delta → s.client.active = true →
      itemId = s.client.activeItemId →
        itemId = [] ∨ delta = [] ∨ s.client.cancelled s.pool = true) :
    server.textOf s.client.activeItemId = s.server.textOf s.client.activeItemId := by
  cases e with
  | delta itemId delta =>
      obtain ⟨hworking, rfl⟩ := report_delta hserver
      rw [s.server.textOf_append]
      by_cases hitem : itemId = s.client.activeItemId
      · rcases hdelta itemId delta rfl hactive hitem with hempty | hempty | hcancelled
        · obtain ⟨item, hin, hid⟩ := List.mem_map.mp hworking
          exact absurd (hid.trans hempty) (hi.items item hin)
        · rw [hempty, ite_self, List.append_nil]
        · rw [hlive] at hcancelled
          cases hcancelled
      · rw [if_neg hitem, List.append_nil]
  | completed itemId transcript language =>
      obtain ⟨-, rfl⟩ := report_completed hserver
      rfl
  | committed itemId =>
      obtain ⟨_, _, _, hid, _, _⟩ := report_committed hserver
      rcases hcommitted itemId rfl with hinactive | hempty
      · rw [hactive] at hinactive
        cases hinactive
      · exact absurd hempty hid
  | sessionUpdated =>
      cases hserver
      rfl
  | error message =>
      cases hserver
      rfl

/-- In time, the commit that is answered is the active utterance's. -/
theorem SessionInv.adopts (hi : s.SessionInv) (hidle : s.dispatcher = []) {itemId : Bytes}
    (hserver : s.server.report (.committed itemId) = some server)
    (hactive : s.client.active = true) (htimely : s.Timely (.report (.committed itemId))) :
    ActiveInv { s with
      server := server, client := { s.client with activeItemId := itemId }, dispatcher := [] } := by
  obtain ⟨owner, rest, hun, hid, hnew, rfl⟩ := report_committed hserver
  have hhead := htimely hactive
  rw [hun] at hhead
  have howner : owner = s.client.activeCb.owner := Option.some.inj hhead
  subst howner
  have ha := hi.active hactive
  have hwaits : s.Unanswered s.client.activeCb.owner :=
    ⟨none, by show _ ∈ s.server.unanswered; rw [hun]; exact List.mem_cons_self⟩
  have hanswered := (hi.distinct.take (p := none) hun).2
  have hitem := ha.waiting hwaits
  have hgone : ¬ Unanswered { s with server := { s.server with
      unanswered := rest
      items := s.server.items ++ [(itemId, s.client.activeCb.owner)] } }
      s.client.activeCb.owner := by
    intro ⟨p, hp⟩
    refine hanswered ⟨p, ?_⟩
    cases p with
    | none => exact hp
    | some t => exact hp
  constructor
  · exact ha.bound
  · intro hresampler
    exact absurd hwaits (ha.uncommitted hresampler).1
  · intro hu
    exact absurd hu hgone
  · refine .inr ⟨List.mem_append_right _ (List.mem_singleton.mpr rfl), fun _ => ?_⟩
    have htext : s.client.partialText = [] := by
      rcases ha.text with hnone | ⟨hin, -⟩
      · exact hnone.2
      · exact absurd hitem (hi.items _ hin)
    refine htext.trans (TranscriptionServer.textOf_of_new fun d hd he => ?_).symm
    have hin := hi.deltas d hd
    rw [he] at hin
    exact hnew hin
  · have hfinal := ha.unfinished
    rw [calls_of_idle hidle] at hfinal
    show _ ∉ (s.called ++ []).filterMap _
    rwa [List.append_nil]

/-- A delta of the active utterance is added on both sides. -/
theorem SessionInv.hears (hi : s.SessionInv) (hidle : s.dispatcher = []) {delta : Bytes}
    {after : List AfterLock}
    (hserver : s.server.report (.delta s.client.activeItemId delta) = some server)
    (hactive : s.client.active = true) (hlive : s.client.cancelled s.pool = false)
    (hafter : after = [] ∨ ∃ ev : PartialTranscript, ev.text = s.client.partialText ++ delta ∧
      after = [.call (.onPartial s.client.activeCb.owner ev)])
    (hreported : Reported s server) :
    SessionInv { s with
      server := server
      client := { s.client with
        partialText := s.client.partialText ++ delta
        partialSeq := s.client.partialSeq + 1 }
      dispatcher := after } := by
  have hgrows := TranscriptionServer.report_grows hserver
  have ha := hi.active hactive
  obtain ⟨hworking, rfl⟩ := report_delta hserver
  have htext := s.server.textOf_append s.client.activeItemId
  obtain ⟨hown, hheard⟩ := hi.owns ha hworking
  have hgrown := hheard hlive
  refine hi.dispatched hidle hreported hgrows ?_ ?_ ?_ ?_ ?_
  · rcases hafter with rfl | ⟨ev, -, rfl⟩
    · rfl
    · rfl
  · intro _
    constructor
    · exact ha.bound
    · exact ha.uncommitted
    · exact ha.waiting
    · refine .inr ⟨hown, fun _ => ?_⟩
      rw [htext, if_pos rfl, hgrown]
    · have hfinal := ha.unfinished
      rw [calls_of_idle hidle] at hfinal
      show _ ∉ (s.called ++ callsIn after).filterMap _
      rcases hafter with rfl | ⟨ev, -, rfl⟩
      · rwa [callsIn_nil, List.append_nil]
      · rw [List.filterMap_append, List.mem_append]
        rintro (hold | hlast)
        · exact hfinal hold
        · cases hlast
  · rcases hafter with rfl | ⟨ev, hev, rfl⟩
    · exact fun _ hc => by cases hc
    · intro call hcall
      rw [List.mem_singleton.mp hcall]
      refine ⟨_, hown, ?_⟩
      rewrite [htext, if_pos rfl, hev, hgrown]
      exact List.prefix_refl _
  · rcases hafter with rfl | ⟨ev, -, rfl⟩
    · exact fun _ ho => by cases ho
    · exact fun _ ho => by cases ho
  · rcases hafter with rfl | ⟨ev, -, rfl⟩
    · exact List.nodup_nil
    · exact List.nodup_nil

/-- Errors are reported for whatever utterance is active. -/
theorem SessionInv.ends (hi : s.SessionInv) (hidle : s.dispatcher = []) {after : List AfterLock}
    (hreported : Reported s server) (hgrows : TranscriptionServer.Grows s.server server)
    (hcommits : commitsIn after = [])
    (hcalls : ∀ call ∈ callsIn after, ∃ owner err, call = .onError owner err) :
    SessionInv { s with
      server := server, client := s.client.clearActive, dispatcher := after } := by
  have hnone : (callsIn after).filterMap Callback.finalOf = [] := by
    rw [List.filterMap_eq_nil_iff]
    intro call hcall
    obtain ⟨owner, err, rfl⟩ := hcalls call hcall
    rfl
  refine hi.dispatched hidle hreported hgrows hcommits (fun hc => by cases hc) ?_ ?_ ?_
  · intro call hcall
    obtain ⟨owner, err, rfl⟩ := hcalls call hcall
    trivial
  · rw [hnone]
    exact fun _ ho => by cases ho
  · rw [hnone]
    exact List.nodup_nil

/-- The transcript of the active utterance's item is its final. -/
theorem SessionInv.finishes (hi : s.SessionInv) (hidle : s.dispatcher = [])
    {transcript language : Bytes} (ev : FinalTranscript)
    (hserver : s.server.report (.completed s.client.activeItemId transcript language) =
      some server) (hactive : s.client.active = true) (htext : ev.text = transcript)
    (hreported : Reported s server) :
    SessionInv { s with
      server := server
      client := s.client.clearActive
      dispatcher := [.call (.onFinal s.client.activeCb.owner ev)] } := by
  have hgrows := TranscriptionServer.report_grows hserver
  have ha := hi.active hactive
  obtain ⟨hworking, rfl⟩ := report_completed hserver
  obtain ⟨hown, -⟩ := hi.owns ha hworking
  refine hi.dispatched hidle hreported hgrows rfl (fun hc => by cases hc) ?_ ?_
    (List.nodup_singleton _)
  · intro call hcall
    rw [List.mem_singleton.mp hcall]
    refine ⟨_, hown, List.mem_append_right _ ?_⟩
    rw [htext]
    exact List.mem_singleton.mpr rfl
  · intro owner ho
    rw [List.mem_singleton.mp ho]
    exact ⟨ha.bound, ha.unfinished⟩

end Report

theorem SessionInv.report {soxr : Soxr ρ} {s s' : RealtimeSession ρ} {e : ServerEvent}
    (hi : s.SessionInv) (htimely : s.Timely (.report e))
    (h : s.step soxr (.report e) = some s') : s'.SessionInv := by
  simp only [step] at h
  split at h
  next hidle =>
    obtain ⟨server, hserver, hs'⟩ := Option.map_eq_some_iff.mp h
    have hreported := hi.reported hserver
    have hgrows := TranscriptionServer.report_grows hserver
    have hdispatched := RealtimeSttClient.dispatch_dispatched s.pool e s.client
    cases hresult : s.client.dispatch s.pool e with
    | mk c after =>
        rw [hresult] at hdispatched hs'
        subst hs'
        cases hdispatched with
        | keeps hsame hcommitted hdelta =>
            refine hi.dispatched hidle hreported hgrows rfl ?_ (fun _ hc => by cases hc)
              (fun _ ho => by cases ho) List.nodup_nil
            intro hactive
            have ha : s.client.active = true := hsame.active ▸ hactive
            refine (hi.active ha).same hsame (fun _ => id) hreported.gone hgrows.items ?_ ?_
              (Nat.le_refl _)
            · intro hlive
              have hheeded := cancelled_of_same hsame (fun _ => id) hlive
              exact hi.textOf_kept hserver ha hheeded hcommitted hdelta
            · rw [calls_of_idle hidle]
              show (s.called ++ []).filterMap _ = _
              rw [List.append_nil]
        | adopts hactive =>
            exact hi.dispatched hidle hreported hgrows rfl
              (fun _ => hi.adopts hidle hserver hactive htimely) (fun _ hc => by cases hc)
              (fun _ ho => by cases ho) List.nodup_nil
        | hears hactive hitem hlive hafter =>
            subst hitem
            exact hi.hears hidle hserver hactive hlive hafter hreported
        | ends hactive hcommits hcalls => exact hi.ends hidle hreported hgrows hcommits hcalls
        | finishes ev hactive hitem htext =>
            subst hitem
            exact hi.finishes hidle ev hserver hactive htext hreported
  next => cases h

theorem SessionInv.dispatcher_step {soxr : Soxr ρ} {s s' : RealtimeSession ρ}
    (hi : s.SessionInv) (h : s.step soxr .dispatcher = some s') : s'.SessionInv := by
  simp only [step] at h
  split at h
  next x rest hrest =>
    have hcommits := hi.dispatcher
    rw [hrest] at hcommits
    cases x with
    | call c =>
        cases h
        have hcalls : s.called ++ [c] ++ callsIn rest = s.calls := by
          rw [calls, hrest, List.append_assoc]
          rfl
        refine hi.same (.refl _) (fun _ => id) hi.errors rfl rfl rfl rfl hcommits
          (fun call hcall => .inl ?_) ?_ (Nat.le_refl _)
        · rw [← hcalls]
          exact hcall
        · rw [← hcalls]
          rfl
    | send m =>
        cases h
        have hkept : (s.server.receive m).unanswered = s.server.unanswered := by
          cases m with
          | commit owner => cases hcommits
          | _ => rfl
        have hrestCommits : commitsIn rest = [] := by
          cases m with
          | commit owner => cases hcommits
          | _ => exact hcommits
        obtain ⟨hitems, hdeltas, htranscripts⟩ := receive_kept m s.server
        have hcalls : s.calls = s.called ++ callsIn rest := by
          rw [calls, hrest]
          rfl
        refine hi.same (.refl _) (fun _ => id) hi.errors ?_ hitems hdeltas htranscripts
          hrestCommits (fun call hcall => .inl ?_) ?_ (Nat.le_refl _)
        · funext p
          cases p with
          | none => exact hkept
          | some t => rfl
        · rw [hcalls]
          exact hcall
        · rw [hcalls]
          rfl
  next => cases h

theorem SessionInv.step {soxr : Soxr ρ} {s s' : RealtimeSession ρ} {a : SessionAction}
    (hi : s.SessionInv) (htimely : s.Timely a) (h : s.step soxr a = some s') :
    s'.SessionInv := by
  cases a with
  | beginUtterance thread turn cancel cb => exact hi.beginUtterance h
  | pushAudio thread samples => exact hi.pushAudio h
  | endUtterance thread => exact hi.endUtterance h
  | caller thread => exact hi.caller h
  | report e => exact hi.report htimely h
  | dispatcher => exact hi.dispatcher_step h
  | makeToken =>
      cases h
      exact hi.same (.refl _) (fun _ => id) hi.errors rfl rfl rfl rfl hi.dispatcher
        (fun call hcall => .inl hcall) rfl (Nat.le_refl _)
  | cancelToken tok =>
      cases h
      exact hi.same (.refl _) (fun _ hc => TokenPool.isCancelled_cancel.mpr (.inr hc)) hi.errors
        rfl rfl rfl rfl hi.dispatcher (fun call hcall => .inl hcall) rfl (Nat.le_refl _)
  | connectionLost =>
      cases h
      refine hi.same ?_ (fun _ => id) hi.errors rfl rfl rfl rfl hi.dispatcher
        (fun call hcall => .inl hcall) rfl (Nat.le_refl _)
      show RealtimeSttClient.SameUtterance _ (RealtimeSttClient.connectionLost _)
      unfold RealtimeSttClient.connectionLost
      split
      · exact ⟨rfl, rfl, rfl, rfl, rfl, rfl⟩
      · exact .refl _
  | stop =>
      cases h
      by_cases hstopped : s.client.state = .idle ∨ s.client.state = .closed
      · refine hi.same ?_ (fun _ => id) hi.errors rfl rfl rfl rfl hi.dispatcher
          (fun call hcall => .inl hcall) rfl (Nat.le_refl _)
        show RealtimeSttClient.SameUtterance _ (RealtimeSttClient.stop _)
        rw [RealtimeSttClient.stop, if_pos hstopped]
        exact .refl _
      · have hinactive : s.client.stop.active = false := by
          rw [RealtimeSttClient.stop, if_neg hstopped]
          rfl
        exact { hi with
          active := fun hactive => by
            rw [show s.client.stop.active = true from hactive] at hinactive
            cases hinactive }

/-! ## Runs -/

theorem initial_sessionInv (language : Bytes) :
    SessionInv ({ client := { cfgLanguage := language, state := .ready, channel := true } } :
      RealtimeSession ρ) where
  errors := fun _ _ hc => by cases hc
  dispatcher := rfl
  distinct := distinct_of_empty fun p => by cases p <;> rfl
  bound := by
    rintro owner ⟨p, hp⟩
    cases p with
    | none => cases hp
    | some t => cases hp
  items := fun _ h => by cases h
  deltas := fun _ h => by cases h
  active := fun h => by cases h
  own := fun _ h => by cases h
  once := List.nodup_nil
  finals := fun _ h => by cases h

/-- In a session whose commits are answered in time no transcript crosses. -/
theorem run_keepsApart {soxr : Soxr ρ} {language : Bytes} {s : RealtimeSession ρ}
    {acts : List SessionAction}
    (hrun : run (step soxr)
      { client := { cfgLanguage := language, state := .ready, channel := true } } acts = some s)
    (htimely : Always (step soxr) Timely
      { client := { cfgLanguage := language, state := .ready, channel := true } } acts) :
    s.KeepsApart :=
  (run_invariant (fun _ _ _ hi ht hs => hi.step ht hs) hrun htimely
    (initial_sessionInv language)).keepsApart

/-- A session that has just connected. -/
def connected : RealtimeSession Unit := { client := { state := .ready, channel := true } }

/-- An utterance from its begin to its commit, on two threads. -/
def speak : List SessionAction :=
  [.beginUtterance 0 kNoTurn none { onPartial := true, onFinal := true }, .caller 0,
    .pushAudio 2 [1, 2], .caller 2, .endUtterance 1, .caller 1]

/-- The server answers a commit and transcribes. -/
def transcribe (itemId text : Bytes) : List SessionAction :=
  [.report (.delta itemId text), .dispatcher, .report (.completed itemId text []), .dispatcher]

/-- Each commit is answered before the next utterance begins. -/
def oneByOne : List SessionAction :=
  speak ++ .report (.committed [1]) :: transcribe [1] [97] ++
    speak ++ .report (.committed [2]) :: transcribe [2] [98]

theorem oneByOne_run : ∃ s, run (step Soxr.passThrough) connected oneByOne = some s ∧
    s.called = [.onPartial 0 { text := [97], stablePrefixLen := 1, seq := 1 },
      .onFinal 0 { text := [97] },
      .onPartial 1 { text := [98], stablePrefixLen := 1, seq := 1 },
      .onFinal 1 { text := [98] }] := by
  refine ⟨(run (step Soxr.passThrough) connected oneByOne).get (by decide), ?_, by decide⟩
  exact (Option.some_get _).symm

theorem run_keepsApart_oneByOne : ∃ s, run (step Soxr.passThrough) connected oneByOne = some s ∧
    s.called.length = 4 ∧ s.KeepsApart := by
  obtain ⟨s, hrun, hcalled⟩ := oneByOne_run
  exact ⟨s, hrun, by rw [hcalled]; rfl, run_keepsApart hrun (by decide)⟩

/-- The first commit is answered after the second utterance has begun. -/
def answeredLate : List SessionAction :=
  speak ++ [.beginUtterance 0 kNoTurn none { onPartial := true, onFinal := true }, .caller 0,
    .report (.committed [1])] ++ transcribe [1] [97]

/-- The second utterance gets what was said in the first. -/
theorem answeredLate_crosses :
    ∃ s, run (step Soxr.passThrough) connected answeredLate = some s ∧
      s.called = [.onPartial 1 { text := [97], stablePrefixLen := 1, seq := 1 },
        .onFinal 1 { text := [97] }] ∧
      s.server.items = [([1], 0)] ∧ ¬ s.KeepsApart := by
  obtain ⟨s, hrun, hcalled, hitems⟩ : ∃ s,
      run (step Soxr.passThrough) connected answeredLate = some s ∧
        s.called = [.onPartial 1 { text := [97], stablePrefixLen := 1, seq := 1 },
          .onFinal 1 { text := [97] }] ∧ s.server.items = [([1], 0)] := by
    refine ⟨(run (step Soxr.passThrough) connected answeredLate).get (by decide), ?_,
      by decide, by decide⟩
    exact (Option.some_get _).symm
  refine ⟨s, hrun, hcalled, hitems, fun h => ?_⟩
  have hown := h.own (.onFinal 1 { text := [97] }) (by rw [hcalled]; simp)
  obtain ⟨itemId, hitem, -⟩ := hown
  rw [hitems] at hitem
  simp at hitem

end RealtimeSession

end Acva.Stt
