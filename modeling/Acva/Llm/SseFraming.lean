import Acva.Llm.SseParser

/-! # Framing of SSE streams

The parser is a function of the bytes it was fed, however they were cut. Where the
lines of the events are known, so are the callbacks.
-/

namespace Acva.Llm

/-! ## Cutting -/

/-- Bytes that arrive later do not move a boundary that is there. -/
theorem cutEvent_append {buffer event rest : Bytes} (h : cutEvent buffer = some (event, rest))
    (later : Bytes) : cutEvent (buffer ++ later) = some (event, rest ++ later) := by
  induction buffer generalizing event rest with
  | nil => simp [cutEvent] at h
  | cons c cs ih =>
      simp only [cutEvent] at h
      split at h
      next hc =>
        obtain ⟨hc, hcs⟩ := hc
        cases cs with
        | nil => simp at hcs
        | cons d ds =>
            simp only [List.head?_cons, List.tail_cons, Option.some.injEq, Prod.mk.injEq] at hcs h
            rw [← h.1, ← h.2, hc, hcs]
            simp [cutEvent]
      next hc =>
        obtain ⟨⟨event', rest'⟩, hcut, heq⟩ := Option.map_eq_some_iff.mp h
        simp only [Prod.mk.injEq] at heq
        have hlong := ih hcut
        have hne : cs ≠ [] := by
          intro hnil
          rw [hnil] at hcut
          simp [cutEvent] at hcut
        have hc' : ¬(c = byte '\n' ∧ (cs ++ later).head? = some (byte '\n')) := by
          rwa [List.head?_append_of_ne_nil cs hne]
        rw [List.cons_append, cutEvent, if_neg hc', hlong, ← heq.1, ← heq.2]
        rfl

/-- A line without line ends is passed over. -/
theorem cutEvent_line_append {line : Bytes} (h : byte '\n' ∉ line) (rest : Bytes) :
    cutEvent (line ++ rest) = (cutEvent rest).map fun (event, rest) => (line ++ event, rest) := by
  induction line with
  | nil => exact (Option.map_id' (x := cutEvent rest)).symm
  | cons c cs ih =>
      have hc : c ≠ byte '\n' := fun hc => h (hc ▸ List.mem_cons_self)
      have hcs : byte '\n' ∉ cs := fun hcs => h (List.mem_cons_of_mem _ hcs)
      rw [List.cons_append, cutEvent, if_neg (fun hboth => hc hboth.1), ih hcs, Option.map_map]
      rfl

theorem cutEvent_line {line : Bytes} (h : byte '\n' ∉ line) (rest : Bytes) :
    cutEvent (line ++ byte '\n' :: byte '\n' :: rest) = some (line, rest) := by
  rw [cutEvent_line_append h, cutEvent, if_pos ⟨rfl, rfl⟩]
  show some (line ++ [], rest) = some (line, rest)
  rw [List.append_nil]

theorem lines_line {line : Bytes} (h : byte '\n' ∉ line) : lines line = [line] :=
  List.splitOn_eq_singleton h

theorem lines_cons {line : Bytes} (h : byte '\n' ∉ line) (rest : Bytes) :
    lines (line ++ byte '\n' :: rest) = line :: lines rest :=
  List.splitOn_append_cons_self_of_not_mem h rest

namespace SseParser

/-! ## The loop without its fuel -/

/-- What `feed` does to a buffer. -/
def drainAll (buffer : Bytes) : SseParser × List SseCallback := drain buffer.length buffer

theorem drain_eq_drainAll {fuel : Nat} {buffer : Bytes} (h : buffer.length ≤ fuel) :
    drain fuel buffer = drainAll buffer := by
  unfold drainAll
  induction hn : buffer.length using Nat.strongRecOn generalizing fuel buffer with
  | _ n ih =>
      cases hcut : cutEvent buffer with
      | none =>
          have hstop : ∀ fuel, drain fuel buffer = ({ buffer := buffer }, []) := by
            intro fuel
            cases fuel with
            | zero => rfl
            | succ fuel => simp only [drain, hcut]
          rw [hstop, hstop]
      | some cut =>
          obtain ⟨event, rest⟩ := cut
          have hshort := cutEvent_length hcut
          obtain ⟨fuel, rfl⟩ : ∃ k, fuel = k + 1 := ⟨fuel - 1, by omega⟩
          obtain ⟨m, rfl⟩ : ∃ k, n = k + 1 := ⟨n - 1, by omega⟩
          have hboth : drain fuel rest = drain m rest :=
            (ih rest.length (by omega) (by omega) rfl).trans
              (ih rest.length (by omega) (by omega) rfl).symm
          simp only [drain, hcut, hboth]

theorem drainAll_none {buffer : Bytes} (h : cutEvent buffer = none) :
    drainAll buffer = ({ buffer := buffer }, []) := by
  unfold drainAll
  cases buffer with
  | nil => rfl
  | cons c cs => simp only [List.length_cons, drain, h]

theorem drainAll_some {buffer event rest : Bytes} (h : cutEvent buffer = some (event, rest)) :
    drainAll buffer =
      if (emitEvent event).2 = true then
        ({ buffer := [], doneSeen := true }, (emitEvent event).1)
      else ((drainAll rest).1, (emitEvent event).1 ++ (drainAll rest).2) := by
  have hshort := cutEvent_length h
  obtain ⟨fuel, hfuel⟩ : ∃ k, buffer.length = k + 1 := ⟨buffer.length - 1, by omega⟩
  rw [drainAll.eq_def buffer, hfuel]
  simp only [drain, h]
  rw [drain_eq_drainAll (by omega)]

theorem feed_eq_drainAll {p : SseParser} (h : p.doneSeen = false) (bytes : Bytes) :
    p.feed bytes = drainAll (p.buffer ++ bytes) := by
  rw [feed, if_neg (by simp [h])]
  rfl

theorem feed_of_done {p : SseParser} (h : p.doneSeen = true) (bytes : Bytes) :
    p.feed bytes = (p, []) := if_pos h

/-- Bytes that come in two parts. -/
theorem drainAll_append (buffer later : Bytes) :
    drainAll (buffer ++ later) =
      (((drainAll buffer).1.feed later).1,
        (drainAll buffer).2 ++ ((drainAll buffer).1.feed later).2) := by
  induction hn : buffer.length using Nat.strongRecOn generalizing buffer with
  | _ n ih =>
      cases hcut : cutEvent buffer with
      | none =>
          rw [drainAll_none hcut, feed_eq_drainAll rfl]
          rfl
      | some cut =>
          obtain ⟨event, rest⟩ := cut
          have hshort := cutEvent_length hcut
          rw [drainAll_some hcut, drainAll_some (cutEvent_append hcut later)]
          by_cases hdone : (emitEvent event).2 = true
          · simp only [if_pos hdone]
            rw [feed_of_done rfl, List.append_nil]
          · simp only [if_neg hdone]
            rw [ih rest.length (by omega) rest rfl, List.append_assoc]

theorem feed_append (p : SseParser) (bytes later : Bytes) :
    p.feed (bytes ++ later) =
      (((p.feed bytes).1.feed later).1, (p.feed bytes).2 ++ ((p.feed bytes).1.feed later).2) := by
  cases hdone : p.doneSeen with
  | true => simp only [feed_of_done hdone, List.append_nil]
  | false =>
      rw [feed_eq_drainAll hdone, feed_eq_drainAll hdone, ← List.append_assoc]
      exact drainAll_append _ _

/-- Nothing in the buffer is left to emit. -/
def Settled (p : SseParser) : Prop := p.doneSeen = true ∨ cutEvent p.buffer = none

theorem Settled.feed {p : SseParser} (h : p.Settled) (bytes : Bytes) :
    (p.feed bytes).1.Settled := by
  cases hdone : p.doneSeen with
  | true =>
      rw [feed_of_done hdone]
      exact h
  | false =>
      rw [feed_eq_drainAll hdone]
      exact drain_finishes (Nat.le_refl _)

theorem Settled.feed_nil {p : SseParser} (h : p.Settled) : p.feed [] = (p, []) := by
  cases hdone : p.doneSeen with
  | true => exact feed_of_done hdone []
  | false =>
      have hcut : cutEvent p.buffer = none := by
        rcases h with h | h
        · rw [hdone] at h
          cases h
        · exact h
      rw [feed_eq_drainAll hdone, List.append_nil, drainAll_none hcut, ← hdone]

/-- However the stream is cut, the parser and its callbacks are those of one feed. -/
theorem Settled.feedAll {p : SseParser} (h : p.Settled) (chunks : List Bytes) :
    p.feedAll chunks = p.feed chunks.flatten := by
  induction chunks generalizing p with
  | nil => exact h.feed_nil.symm
  | cons c cs ih =>
      rw [List.flatten_cons, feed_append, ← ih (h.feed c)]
      rfl

theorem settled_new : ({} : SseParser).Settled := Or.inr rfl

/-! ## Streams of data lines -/

/-- `data: p` and an empty line. -/
def dataEvent (payload : Bytes) : Bytes := ascii "data: " ++ payload ++ ascii "\n\n"

/-- The payloads one after the other, and the sentinel. -/
def dataStream (payloads : List Bytes) : Bytes :=
  (payloads.map dataEvent).flatten ++ dataEvent kDoneSentinel

theorem emitLines_data (payload : Bytes) :
    emitLines [ascii "data: " ++ payload] =
      if payload = kDoneSentinel then ([.done], true) else ([.data payload], false) := by
  have hdata : kDataPrefix.isPrefixOf (ascii "data: " ++ payload) = true :=
    List.isPrefixOf_iff_prefix.mpr ⟨ascii " " ++ payload, rfl⟩
  have hpayload : trimLeadingSpace ((ascii "data: " ++ payload).drop kDataPrefix.length) =
      payload := rfl
  have hhead : (ascii "data: " ++ payload).head? ≠ some (byte ':') := by
    show some (byte 'd') ≠ some (byte ':')
    decide
  have hne : ascii "data: " ++ payload ≠ [] := List.cons_ne_nil _ _
  simp only [emitLines, if_neg hne, if_neg hhead, hdata, if_true, hpayload]

theorem drainAll_dataEvent {payload : Bytes} (h : byte '\n' ∉ payload) (rest : Bytes) :
    drainAll (dataEvent payload ++ rest) =
      if payload = kDoneSentinel then ({ buffer := [], doneSeen := true }, [.done])
      else ((drainAll rest).1, .data payload :: (drainAll rest).2) := by
  have hline : byte '\n' ∉ ascii "data: " ++ payload := by
    rw [List.mem_append, not_or]
    exact ⟨by decide, h⟩
  have hcut : cutEvent (dataEvent payload ++ rest) = some (ascii "data: " ++ payload, rest) := by
    rw [dataEvent, List.append_assoc]
    exact cutEvent_line hline rest
  rw [drainAll_some hcut, emitEvent, lines_line hline, emitLines_data]
  split <;> rfl

theorem drainAll_dataStream {payloads : List Bytes}
    (h : ∀ payload ∈ payloads, byte '\n' ∉ payload ∧ payload ≠ kDoneSentinel) (rest : Bytes) :
    drainAll (dataStream payloads ++ rest) =
      ({ buffer := [], doneSeen := true }, payloads.map .data ++ [.done]) := by
  induction payloads with
  | nil => exact (drainAll_dataEvent (by decide) rest).trans (if_pos rfl)
  | cons payload payloads ih =>
      obtain ⟨hline, hdone⟩ := h payload List.mem_cons_self
      have hrest := ih fun p hp => h p (List.mem_cons_of_mem _ hp)
      have hsplit : dataStream (payload :: payloads) ++ rest =
          dataEvent payload ++ (dataStream payloads ++ rest) := by
        simp only [dataStream, List.map_cons, List.flatten_cons, List.append_assoc]
      rw [hsplit, drainAll_dataEvent hline, if_neg hdone, hrest]
      rfl

/-- Chunks make no difference, before the end of the stream and at it; and a stream of data
lines calls back its payloads, then `done`, and nothing for what is fed after the sentinel. -/
theorem framing :
    (∀ chunks : List Bytes,
      (feedAll chunks {}).2 = (feed chunks.flatten {}).2 ∧
        (feedAll chunks {}).1.finish.2 = (feed chunks.flatten {}).1.finish.2) ∧
    ∀ payloads : List Bytes,
      (∀ payload ∈ payloads, byte '\n' ∉ payload ∧ payload ≠ kDoneSentinel) →
      ∀ (chunks : List Bytes) (later : Bytes), chunks.flatten = dataStream payloads ++ later →
        (feedAll chunks {}).2 = payloads.map .data ++ [.done] ∧
          (feedAll chunks {}).1.finish.2 = [] := by
  refine ⟨fun chunks => ?_, fun payloads hpayloads chunks later hflat => ?_⟩
  · rw [settled_new.feedAll]
    exact ⟨rfl, rfl⟩
  · rw [settled_new.feedAll, feed_eq_drainAll rfl, List.nil_append, hflat,
      drainAll_dataStream hpayloads]
    exact ⟨rfl, rfl⟩

theorem framing_chunked :
    (feedAll [ascii "da", ascii "ta: hi\n\ndata: [DONE]\n\nda", ascii "ta: x\n\n"] {}).2 =
      [.data (ascii "hi"), .done] :=
  (framing.2 [ascii "hi"] (by decide) _ (ascii "data: x\n\n") (by decide)).1

end SseParser

end Acva.Llm
