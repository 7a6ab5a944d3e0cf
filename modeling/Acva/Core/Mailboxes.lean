import Mathlib.Data.List.Basic
import Mathlib.Logic.Function.Basic

/-! # Mailboxes

Senders post a message to one box after the other, and other senders do so meanwhile. A box
may refuse a message or throw an old one away, and it hands out what it holds from the front.
What is handed out of a box comes, for each sender, in the order in which it was sent and each
message once; where a box has thrown nothing away, nothing is missing.
-/

namespace Acva.Mailboxes

variable {ο ι ε : Type*} [DecidableEq ο] [DecidableEq ι]

/-- A message as it was sent, and to whom. -/
structure Sending (ο ι ε : Type*) where
  sender : ο
  message : ε
  targets : List ι

/-- `inFlight` is the message a sender posts and the boxes that are still to come. -/
structure Mail (ο ι ε : Type*) where
  inFlight : ο → Option (ε × List ι)
  queued : ι → List (ο × ε) := fun _ => []
  handed : ι → List (ο × ε) := fun _ => []
  sent : List (Sending ο ι ε) := []

/-- What comes from one sender. -/
def fromSender (o : ο) (posts : List (ο × ε)) : List ε :=
  (posts.filter (·.1 = o)).map Prod.snd

theorem fromSender_append (o : ο) (ps qs : List (ο × ε)) :
    fromSender o (ps ++ qs) = fromSender o ps ++ fromSender o qs := by
  simp [fromSender]

theorem fromSender_self (o : ο) (e : ε) : fromSender o [(o, e)] = [e] := by
  simp [fromSender]

theorem fromSender_of_ne {o o' : ο} (h : o' ≠ o) (e : ε) : fromSender o [(o', e)] = [] := by
  simp [fromSender, h]

theorem fromSender_sublist {ps qs : List (ο × ε)} (o : ο) (h : ps.Sublist qs) :
    (fromSender o ps).Sublist (fromSender o qs) := (h.filter _).map _

namespace Mail

/-- What a sender has sent to a box. -/
def addressed (m : Mail ο ι ε) (o : ο) (i : ι) : List ε :=
  (m.sent.filter fun s => s.sender = o ∧ i ∈ s.targets).map Sending.message

/-- What a sender has still to post to a box. -/
def coming (m : Mail ο ι ε) (o : ο) (i : ι) : List ε :=
  (m.inFlight o).toList.filterMap fun (e, targets) => if i ∈ targets then some e else none

/-- What has come to a box from a sender and is not thrown away, and what is still to come. -/
def received (m : Mail ο ι ε) (o : ο) (i : ι) : List ε :=
  fromSender o (m.handed i ++ m.queued i) ++ m.coming o i

/-- What a step may do. A box keeps some of what it holds and of what is posted to it. -/
inductive Step (m : Mail ο ι ε) : Mail ο ι ε → Prop
  | idle : Step m m
  | send (o : ο) (e : ε) (targets : List ι) (hfree : m.inFlight o = none)
      (hnodup : targets.Nodup) :
      Step m
        { m with
          inFlight := Function.update m.inFlight o (some (e, targets))
          sent := m.sent ++ [⟨o, e, targets⟩] }
  | close (o : ο) (e : ε) (hdone : m.inFlight o = some (e, [])) :
      Step m { m with inFlight := Function.update m.inFlight o none }
  | post (o : ο) (e : ε) (i : ι) (rest : List ι) (box : List (ο × ε))
      (hnext : m.inFlight o = some (e, i :: rest))
      (hbox : box.Sublist (m.queued i ++ [(o, e)])) :
      Step m
        { m with
          inFlight := Function.update m.inFlight o (some (e, rest))
          queued := Function.update m.queued i box }
  | hand (i : ι) (x : ο × ε) (rest : List (ο × ε)) (hfront : m.queued i = x :: rest) :
      Step m
        { m with
          queued := Function.update m.queued i rest
          handed := Function.update m.handed i (m.handed i ++ [x]) }

/-- No step of the box `i` throws anything away. -/
def KeepsAll (i : ι) (m m' : Mail ο ι ε) : Prop :=
  ∀ o e rest, m.inFlight o = some (e, i :: rest) → m'.inFlight o = some (e, rest) →
    m'.queued i = m.queued i ++ [(o, e)]

/-- No sender posts twice to a box, and what was received was sent in the same order. -/
structure InOrder (m : Mail ο ι ε) : Prop where
  nodup : ∀ o e targets, m.inFlight o = some (e, targets) → targets.Nodup
  sublist : ∀ o i, (m.received o i).Sublist (m.addressed o i)

section Coming

omit [DecidableEq ο]

variable {m m' : Mail ο ι ε} {o : ο}

theorem coming_of_none (h : m.inFlight o = none) (i : ι) : m.coming o i = [] := by
  simp [coming, h]

theorem coming_of_some {e : ε} {targets : List ι} (h : m.inFlight o = some (e, targets)) (i : ι) :
    m.coming o i = if i ∈ targets then [e] else [] := by
  simp only [coming, h, Option.toList_some, List.filterMap_cons, List.filterMap_nil]
  split <;> simp_all

theorem coming_congr (h : m'.inFlight o = m.inFlight o) (i : ι) : m'.coming o i = m.coming o i := by
  simp only [coming, h]

end Coming

omit [DecidableEq ο] [DecidableEq ι] in
/-- No sender gets on with its message. -/
theorem keepsAll_of_same {m m' : Mail ο ι ε} (h : m'.inFlight = m.inFlight) (i : ι) : KeepsAll i m m' := by
  intro o e rest hold hnew
  rw [h, hold] at hnew
  exact absurd (congrArg List.length (Prod.mk.inj (Option.some.inj hnew)).2) (by simp)

variable {m m' : Mail ο ι ε}

omit [DecidableEq ι] in
/-- The only sender that may get on does not post to the box. -/
theorem keepsAll_of_update {o : ο} {v : Option (ε × List ι)} {i : ι}
    (h : m'.inFlight = Function.update m.inFlight o v)
    (hpost : ∀ e rest, m.inFlight o = some (e, i :: rest) → v = some (e, rest) →
      m'.queued i = m.queued i ++ [(o, e)]) : KeepsAll i m m' := by
  intro o' e rest hold hnew
  by_cases ho : o' = o
  · subst ho
    rw [h, Function.update_self] at hnew
    exact hpost e rest hold hnew
  · rw [h, Function.update_of_ne ho, hold] at hnew
    exact absurd (congrArg List.length (Prod.mk.inj (Option.some.inj hnew)).2) (by simp)

theorem addressed_send (m : Mail ο ι ε) (inFlight : ο → Option (ε × List ι)) (o o' : ο) (e : ε)
    (targets : List ι) (i : ι) :
    ({ m with inFlight := inFlight, sent := m.sent ++ [⟨o, e, targets⟩] } :
      Mail ο ι ε).addressed o' i =
        m.addressed o' i ++ if o = o' ∧ i ∈ targets then [e] else [] := by
  simp only [addressed, List.filter_append, List.map_append, List.filter_cons, List.filter_nil]
  split <;> simp_all

/-- What a step sends to a box and what the box receives by it. -/
theorem Step.receives (h : Step m m') (hi : m.InOrder) (o : ο) (i : ι) :
    ∃ more, m'.addressed o i = m.addressed o i ++ more ∧
      (m'.received o i).Sublist (m.received o i ++ more) ∧
      (KeepsAll i m m' → m'.received o i = m.received o i ++ more) := by
  have hsame : ∀ {u : Mail ο ι ε}, u.addressed o i = m.addressed o i →
      u.received o i = m.received o i → ∃ more, u.addressed o i = m.addressed o i ++ more ∧
        (u.received o i).Sublist (m.received o i ++ more) ∧
        (KeepsAll i m u → u.received o i = m.received o i ++ more) := by
    intro u haddressed hreceived
    refine ⟨[], by rw [haddressed, List.append_nil], ?_, fun _ => ?_⟩ <;>
      rw [hreceived, List.append_nil]
  cases h with
  | idle => exact hsame rfl rfl
  | send o' e targets hfree hnodup =>
      refine ⟨_, addressed_send m _ o' o e targets i, ?_⟩
      have hreceived : ({ m with
          inFlight := Function.update m.inFlight o' (some (e, targets))
          sent := m.sent ++ [⟨o', e, targets⟩] } : Mail ο ι ε).received o i =
            m.received o i ++ if o' = o ∧ i ∈ targets then [e] else [] := by
        by_cases ho : o' = o
        · subst ho
          rw [received, coming_of_some (Function.update_self _ _ _), received,
            coming_of_none hfree, List.append_nil]
          simp
        · rw [received, coming_congr (m := m) (Function.update_of_ne (Ne.symm ho) _ _), received,
            if_neg fun hboth => ho hboth.1, List.append_nil]
      exact ⟨hreceived ▸ List.Sublist.refl _, fun _ => hreceived⟩
  | close o' e hdone =>
      refine hsame rfl ?_
      by_cases ho : o' = o
      · subst ho
        rw [received, received, coming_of_none (Function.update_self _ _ _),
          coming_of_some hdone, if_neg List.not_mem_nil]
      · rw [received, received, coming_congr (m := m) (Function.update_of_ne (Ne.symm ho) _ _)]
  | post o' e j rest box hnext hbox =>
      have hnodup := hi.nodup o' e _ hnext
      have hcoming : ∀ i, i ≠ j → ({ m with
          inFlight := Function.update m.inFlight o' (some (e, rest))
          queued := Function.update m.queued j box } : Mail ο ι ε).coming o i = m.coming o i := by
        intro i hij
        by_cases ho : o' = o
        · subst ho
          rw [coming_of_some (Function.update_self _ _ _), coming_of_some hnext]
          simp [hij]
        · exact coming_congr (Function.update_of_ne (Ne.symm ho) _ _) i
      by_cases hij : i = j
      · subst hij
        -- What the box holds of the sender's, before it keeps only some.
        have hall : fromSender o (m.handed i ++ (m.queued i ++ [(o', e)])) ++
            ({ m with
              inFlight := Function.update m.inFlight o' (some (e, rest))
              queued := Function.update m.queued i box } : Mail ο ι ε).coming o i =
            m.received o i := by
          rw [← List.append_assoc, fromSender_append, received]
          by_cases ho : o' = o
          · subst ho
            rw [coming_of_some (Function.update_self _ _ _), coming_of_some hnext,
              if_neg (List.nodup_cons.mp hnodup).1, if_pos List.mem_cons_self, fromSender_self,
              List.append_nil]
          · rw [coming_congr (m := m) (Function.update_of_ne (Ne.symm ho) _ _),
              fromSender_of_ne ho, List.append_nil]
        refine ⟨[], (List.append_nil _).symm, ?_, fun hkeeps => ?_⟩
        · rw [List.append_nil, ← hall, received]
          refine List.Sublist.append (fromSender_sublist o ?_) (List.Sublist.refl _)
          dsimp only
          rw [Function.update_self]
          exact List.Sublist.append (List.Sublist.refl _) hbox
        · have hbox' := hkeeps o' e rest hnext (Function.update_self _ _ _)
          rw [List.append_nil, ← hall, received, hbox']
      · refine hsame rfl ?_
        rw [received, received, hcoming i hij]
        dsimp only
        rw [Function.update_of_ne hij]
  | hand j x rest hfront =>
      refine hsame rfl ?_
      by_cases hij : i = j
      · subst hij
        simp only [received, Function.update_self, hfront, List.append_assoc,
          List.singleton_append]
        rfl
      · simp only [received, Function.update_of_ne hij]
        rfl

omit [DecidableEq ι] in
theorem nodup_update {inFlight : ο → Option (ε × List ι)} {o' : ο} {v : Option (ε × List ι)}
    (hold : ∀ o e targets, inFlight o = some (e, targets) → targets.Nodup)
    (hnew : ∀ e targets, v = some (e, targets) → targets.Nodup) (o : ο) (e : ε)
    (targets : List ι) (h : Function.update inFlight o' v o = some (e, targets)) :
    targets.Nodup := by
  by_cases ho : o = o'
  · subst ho
    rw [Function.update_self] at h
    exact hnew e targets h
  · rw [Function.update_of_ne ho] at h
    exact hold o e targets h

theorem Step.inOrder (h : Step m m') (hi : m.InOrder) : m'.InOrder where
  nodup := by
    cases h with
    | idle => exact hi.nodup
    | send o e targets hfree hnodup =>
        refine nodup_update hi.nodup fun e' targets' hsome => ?_
        cases hsome
        exact hnodup
    | close o e hdone => exact nodup_update hi.nodup fun _ _ hnone => by cases hnone
    | post o e i rest box hnext hbox =>
        refine nodup_update hi.nodup fun e' targets' hsome => ?_
        cases hsome
        exact (List.nodup_cons.mp (hi.nodup o e _ hnext)).2
    | hand i x rest hfront => exact hi.nodup
  sublist o i := by
    obtain ⟨more, haddressed, hreceived, -⟩ := h.receives hi o i
    rw [haddressed]
    exact hreceived.trans (List.Sublist.append (hi.sublist o i) (List.Sublist.refl _))

/-- Nothing that was sent to the box is missing. -/
def Whole (i : ι) (m : Mail ο ι ε) : Prop := ∀ o, m.received o i = m.addressed o i

theorem Step.whole {i : ι} (h : Step m m') (hi : m.InOrder) (hkeeps : KeepsAll i m m')
    (hwhole : m.Whole i) : m'.Whole i := by
  intro o
  obtain ⟨more, haddressed, -, hreceived⟩ := h.receives hi o i
  rw [haddressed, hreceived hkeeps, hwhole o]

end Mail

end Acva.Mailboxes
