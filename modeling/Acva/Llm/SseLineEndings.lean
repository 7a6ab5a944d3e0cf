import Acva.Llm.SseFraming

/-! # CRLF peers

The same events with other line ends. The boundary search knows one spelling of an
empty line only, so what a CRLF peer sends is one event without an end.
-/

namespace Acva.Llm

/-- One or more lines, each ended by LF, and an empty line. -/
structure LfEvent where
  lines : List Bytes
  lines_ne : lines ≠ []
  line_ne : ∀ line ∈ lines, line ≠ []
  line_lf : ∀ line ∈ lines, byte '\n' ∉ line

namespace LfEvent

/-- The lines, each with its line end. -/
def unlines (ls : List Bytes) : Bytes := ls.flatMap fun line => line ++ [byte '\n']

def text (e : LfEvent) : Bytes := unlines e.lines ++ [byte '\n']

/-- Events one after the other. -/
def stream (events : List LfEvent) : Bytes := events.flatMap text

end LfEvent

open LfEvent

/-- Every LF becomes CRLF. -/
def toCrlf (text : Bytes) : Bytes :=
  text.flatMap fun c => if c = byte '\n' then [byte '\r', byte '\n'] else [c]

/-- `on_data` and `on_done`, without the comments. -/
def payloadsAndDone (out : List SseCallback) : List SseCallback :=
  out.filter fun
    | .comment _ => false
    | _ => true

/-- At every event boundary a parser that was fed the CRLF spelling, in whatever chunks, has
called back what a parser of the LF spelling has. -/
def LineEndingsAgree (events : List LfEvent) : Prop :=
  ∀ k ≤ events.length, ∀ chunks : List Bytes,
    chunks.flatten = toCrlf (stream (events.take k)) →
      payloadsAndDone (SseParser.feedAll chunks {}).2 =
        payloadsAndDone (SseParser.feed (stream (events.take k)) {}).2

/-! ## The CRLF spelling -/

/-- No LF follows another, and none comes first. -/
theorem cutEvent_toCrlf (text : Bytes) : cutEvent (toCrlf text) = none := by
  induction text with
  | nil => rfl
  | cons c cs ih =>
      have hcons : toCrlf (c :: cs) =
          (if c = byte '\n' then [byte '\r', byte '\n'] else [c]) ++ toCrlf cs := rfl
      have hhead : (toCrlf cs).head? ≠ some (byte '\n') := by
        cases cs with
        | nil => exact fun h => by cases h
        | cons d ds =>
            rw [toCrlf, List.flatMap_cons]
            split
            next =>
              show some (byte '\r') ≠ some (byte '\n')
              decide
            next hd =>
              show some d ≠ some (byte '\n')
              exact fun h => hd (Option.some.inj h)
      rw [hcons]
      split
      next =>
        have hcr : ¬(byte '\r' = byte '\n' ∧ some (byte '\n') = some (byte '\n')) := by decide
        rw [List.cons_append, cutEvent, List.cons_append, List.head?_cons, if_neg hcr, cutEvent,
          List.nil_append, if_neg (fun h => hhead h.2), ih]
        rfl
      next hc =>
        rw [List.cons_append, cutEvent, if_neg (fun h => hc h.1), List.nil_append, ih]
        rfl

/-- A CRLF stream calls nothing back before it ends. -/
theorem feedAll_toCrlf {text : Bytes} {chunks : List Bytes} (h : chunks.flatten = toCrlf text) :
    (SseParser.feedAll chunks {}).2 = [] := by
  rw [SseParser.settled_new.feedAll, h, SseParser.feed_eq_drainAll rfl, List.nil_append,
    SseParser.drainAll_none (cutEvent_toCrlf text)]

/-! ## The LF spelling -/

/-- Lines follow each other until the sentinel. -/
theorem emitLines_append (ls ls' : List Bytes) :
    emitLines (ls ++ ls') =
      if (emitLines ls).2 = true then emitLines ls
      else ((emitLines ls).1 ++ (emitLines ls').1, (emitLines ls').2) := by
  induction ls with
  | nil => rfl
  | cons line ls ih =>
      simp only [List.cons_append, emitLines]
      split
      next => exact ih
      next =>
        split
        next =>
          rw [ih]
          split <;> simp_all
        next =>
          split
          next =>
            split
            next => rfl
            next =>
              rw [ih]
              split <;> simp_all
          next => exact ih

theorem unlines_append (line : Bytes) (ls : List Bytes) (rest : Bytes) :
    unlines (line :: ls) ++ rest = line ++ byte '\n' :: (unlines ls ++ rest) := by
  simp only [unlines, List.flatMap_cons, List.append_assoc, List.cons_append, List.nil_append]

/-- The event's text ends where its last line does. -/
theorem cutEvent_unlines {ls : List Bytes} (hls : ls ≠ []) (hne : ∀ line ∈ ls, line ≠ [])
    (hlf : ∀ line ∈ ls, byte '\n' ∉ line) (rest : Bytes) :
    ∃ event, cutEvent (unlines ls ++ byte '\n' :: rest) = some (event, rest) ∧
      lines event = ls := by
  induction ls with
  | nil => exact absurd rfl hls
  | cons line ls ih =>
      have hline := hlf line List.mem_cons_self
      rw [unlines_append]
      cases ls with
      | nil => exact ⟨line, cutEvent_line hline rest, lines_line hline⟩
      | cons next ls =>
          obtain ⟨event, hcut, hevent⟩ := ih (List.cons_ne_nil _ _)
            (fun l hl => hne l (List.mem_cons_of_mem _ hl))
            fun l hl => hlf l (List.mem_cons_of_mem _ hl)
          refine ⟨line ++ byte '\n' :: event, ?_, ?_⟩
          · -- the next line starts with something else than LF
            have hhead : (unlines (next :: ls) ++ byte '\n' :: rest).head? ≠
                some (byte '\n') := by
              have hmem : next ∈ line :: next :: ls := List.mem_cons_of_mem _ List.mem_cons_self
              rw [unlines_append, List.head?_append_of_ne_nil _ (hne next hmem)]
              exact fun h => hlf next hmem (List.mem_of_head? h)
            rw [cutEvent_line_append hline, cutEvent, if_neg (fun h => hhead h.2), hcut]
            rfl
          · rw [lines_cons hline, hevent]

/-- Whole events call back what their lines do, up to the sentinel. -/
theorem drainAll_stream (events : List LfEvent) :
    (SseParser.drainAll (stream events)).2 = (emitLines (events.flatMap LfEvent.lines)).1 := by
  induction events with
  | nil => rfl
  | cons e events ih =>
      obtain ⟨event, hcut, hevent⟩ :=
        cutEvent_unlines e.lines_ne e.line_ne e.line_lf (stream events)
      have hsplit : stream (e :: events) =
          unlines e.lines ++ byte '\n' :: stream events := by
        simp only [stream, text, List.flatMap_cons, List.append_assoc, List.cons_append,
          List.nil_append]
      rw [hsplit, SseParser.drainAll_some hcut, emitEvent, hevent, List.flatMap_cons,
        emitLines_append]
      split
      next => rfl
      next =>
        rw [← ih]

theorem feed_stream (events : List LfEvent) :
    (SseParser.feed (stream events) {}).2 = (emitLines (events.flatMap LfEvent.lines)).1 := by
  rw [SseParser.feed_eq_drainAll rfl, List.nil_append, drainAll_stream]

/-! ## Where they agree -/

def IsDataLine (line : Bytes) : Prop := kDataPrefix <+: line

/-- Only data lines call `on_data` or `on_done`, and the first of them does. -/
theorem payloadsAndDone_emitLines (ls : List Bytes) :
    payloadsAndDone (emitLines ls).1 = [] ↔ ∀ line ∈ ls, ¬IsDataLine line := by
  induction ls with
  | nil => exact ⟨fun _ _ h => absurd h List.not_mem_nil, fun _ => rfl⟩
  | cons line ls ih =>
      rw [List.forall_mem_cons]
      simp only [emitLines]
      split
      next hnil =>
        have hnot : ¬IsDataLine line := by
          rw [hnil]
          exact fun h => absurd (List.prefix_nil.mp h) (by decide)
        rw [ih]
        exact ⟨fun h => ⟨hnot, h⟩, And.right⟩
      next =>
        split
        next hcolon =>
          have hnot : ¬IsDataLine line := by
            rintro ⟨rest, rfl⟩
            have hd : some (byte 'd') = some (byte ':') := hcolon
            exact absurd hd (by decide)
          show payloadsAndDone (emitLines ls).1 = [] ↔ _
          rw [ih]
          exact ⟨fun h => ⟨hnot, h⟩, And.right⟩
        next =>
          split
          next hdata =>
            have hline : IsDataLine line := List.isPrefixOf_iff_prefix.mp hdata
            split
            · exact ⟨fun h => absurd h (List.cons_ne_nil _ _), fun h => absurd hline h.1⟩
            · exact ⟨fun h => absurd h (List.cons_ne_nil _ _), fun h => absurd hline h.1⟩
          next hdata =>
            have hnot : ¬IsDataLine line := fun h => hdata (List.isPrefixOf_iff_prefix.mpr h)
            rw [ih]
            exact ⟨fun h => ⟨hnot, h⟩, And.right⟩

/-- The CRLF spelling of a stream is as good as the LF spelling only where there is nothing
to read. -/
theorem lineEndingsAgree_iff (events : List LfEvent) :
    LineEndingsAgree events ↔ ∀ e ∈ events, ∀ line ∈ e.lines, ¬IsDataLine line := by
  have hall : (∀ e ∈ events, ∀ line ∈ e.lines, ¬IsDataLine line) ↔
      ∀ line ∈ events.flatMap LfEvent.lines, ¬IsDataLine line := by
    simp only [List.mem_flatMap]
    constructor
    · rintro h line ⟨e, he, hline⟩
      exact h e he line hline
    · intro h e he line hline
      exact h line ⟨e, he, hline⟩
  constructor
  · intro h
    have hwhole := h events.length (Nat.le_refl _) [toCrlf (stream events)]
    rw [List.take_length, List.flatten_singleton] at hwhole
    have hagree := hwhole rfl
    rw [feedAll_toCrlf (List.flatten_singleton ..), feed_stream] at hagree
    exact hall.mpr ((payloadsAndDone_emitLines _).mp hagree.symm)
  · intro h k _ chunks hchunks
    rw [feedAll_toCrlf hchunks, feed_stream]
    refine ((payloadsAndDone_emitLines _).mpr fun line hline => ?_).symm
    obtain ⟨e, he, hline⟩ := List.mem_flatMap.mp hline
    exact h e (List.mem_of_mem_take he) line hline

/-- One data event: the CRLF peer's payload does not come. -/
theorem lineEndings_disagree :
    ¬LineEndingsAgree [⟨[ascii "data: hi"], by decide, by decide, by decide⟩] := by
  intro h
  have hone := h 1 (by decide) [ascii "data: hi\r\n\r\n"] (by decide)
  exact absurd hone (by decide)

end Acva.Llm
