import Acva.Core.JsonText
import Acva.Core.Records
import Acva.Log.JsonEscape

/-! # The log

A call of the log makes a payload, the sink makes a line of it: an object, with the component
taken from the front of the payload. What `event` has made is put in as it is, which is known
by a marker.
-/

namespace Acva.Log

open Json Records

/-! ## Levels -/

inductive Level
  | trace
  | debug
  | info
  | warn
  | err
  | critical
  | off
deriving DecidableEq, Repr

def Level.rank : Level → Nat
  | .trace => 0
  | .debug => 1
  | .info => 2
  | .warn => 3
  | .err => 4
  | .critical => 5
  | .off => 6

/-- The build sets no `SPDLOG_ACTIVE_LEVEL`: a macro below this level compiles to nothing. -/
def activeLevel : Level := .info

def parseLevel (level : Bytes) : Level :=
  if level = ascii "trace" then .trace
  else if level = ascii "debug" then .debug
  else if level = ascii "info" then .info
  else if level = ascii "warn" then .warn
  else if level = ascii "error" then .err
  else if level = ascii "critical" then .critical
  else if level = ascii "off" then .off
  else .info

def levelName : Level → Bytes
  | .trace => ascii "trace"
  | .debug => ascii "debug"
  | .info => ascii "info"
  | .warn => ascii "warn"
  | .err => ascii "error"
  | .critical => ascii "critical"
  | .off => ascii "off"

/-! ## Time -/

/-- What `localtime_r` gives. -/
structure Tm where
  year : Int
  mon : Int
  mday : Int
  hour : Int
  min : Int
  sec : Int
  gmtoff : Int
deriving DecidableEq, Repr

/-- A number filled up with zeros behind its sign. -/
def padded (plus : Bool) (width : Nat) (v : Int) : Bytes :=
  let sign := if v < 0 then [byte '-'] else if plus = true then [byte '+'] else []
  let digits := decimal v.natAbs
  sign ++ List.replicate (width - (sign.length + digits.length)) (byte '0') ++ digits

def formatTimestamp (tm : Tm) (ms : Int) : Bytes :=
  padded false 4 (tm.year + 1900) ++ ascii "-" ++ padded false 2 (tm.mon + 1) ++ ascii "-" ++
    padded false 2 tm.mday ++ ascii "T" ++ padded false 2 tm.hour ++ ascii ":" ++
    padded false 2 tm.min ++ ascii ":" ++ padded false 2 tm.sec ++ ascii "." ++
    padded false 3 ms ++ padded true 3 (tm.gmtoff.tdiv 3600) ++
    padded false 2 ((tm.gmtoff.tmod 3600).natAbs / 60)

example : formatTimestamp ⟨126, 4, 3, 15, 3, 29, -12600⟩ 7 =
    ascii "2026-05-03T15:03:29.007-0330" := by decide +kernel

/-! ## The sink -/

def kEventMarker : Bytes := 0x01 :: (ascii "EVT" ++ [0x01])

/-- Up to the first bracket with a blank behind it, and what follows the two. -/
def cutAtClose : Bytes → Option (Bytes × Bytes)
  | [] => none
  | b :: rest =>
      if b = byte ']' ∧ rest.head? = some (byte ' ') then some ([], rest.tail)
      else (cutAtClose rest).map fun p => (b :: p.1, p.2)

def splitComponent : Bytes → Option (Bytes × Bytes)
  | [] => none
  | b :: rest => if b = byte '[' then cutAtClose rest else none

def sinkIt (tm : Tm) (ms : Int) (level : Level) (payload : Bytes) : Bytes :=
  let out := ascii "\x7b\"ts\":\"" ++ formatTimestamp tm ms ++ ascii "\",\"level\":\"" ++
    levelName level ++ ascii "\""
  let out :=
    match splitComponent payload with
    | some (component, rest) =>
        let out := escapeString (out ++ ascii ",\"component\":") component
        if kEventMarker.isPrefixOf rest = true then
          let inner := rest.drop kEventMarker.length
          if inner ≠ [] then out ++ ascii "," ++ inner else out
        else escapeString (out ++ ascii ",\"msg\":") rest
    | none => escapeString (out ++ ascii ",\"msg\":") payload
  out ++ ascii "\x7d\n"

/-! ## The calls -/

/-- The helpers that take a plain message. -/
inductive Helper
  | info
  | warn
  | error
  | debug
deriving DecidableEq, Repr

/-- The level of a helper's macro. -/
def Helper.level : Helper → Level
  | .info => .info
  | .warn => .warn
  | .error => .err
  | .debug => .debug

inductive LogCall
  | line (helper : Helper) (component message : Bytes)
  | event (component eventName : Bytes) (turn : TurnId) (kv : List (Bytes × Bytes))
deriving DecidableEq, Repr

namespace LogCall

def level : LogCall → Level
  | .line helper _ _ => helper.level
  | .event _ _ _ _ => .info

def component : LogCall → Bytes
  | .line _ component _ => component
  | .event component _ _ _ => component

def payload : LogCall → Bytes
  | .line _ component message => ascii "[" ++ component ++ ascii "] " ++ message
  | .event component eventName turn kv =>
      let payload := ascii "[" ++ component ++ ascii "] " ++ kEventMarker ++ ascii "\"event\":"
      let payload := escapeJsonString payload eventName
      let payload :=
        if turn ≠ kNoTurn then payload ++ ascii ",\"turn_id\":" ++ decimal turn else payload
      kv.foldl (fun payload p =>
        escapeJsonString (escapeJsonString (payload ++ ascii ",") p.1 ++ ascii ":") p.2) payload

end LogCall

/-- A call, and when it is made. -/
structure Entry where
  tm : Tm
  ms : Int
  call : LogCall
deriving DecidableEq, Repr

/-- The macro of the call is compiled in, and the logger's level lets it pass. -/
def LogCall.passes (level : Level) (call : LogCall) : Bool :=
  activeLevel.rank ≤ call.level.rank && level.rank ≤ call.level.rank

/-- What is written by a logger that has its level from the configuration. -/
def logged (level : Bytes) (entries : List Entry) : Bytes :=
  (entries.filter fun e => e.call.passes (parseLevel level)).flatMap fun e =>
    sinkIt e.tm e.ms e.call.level e.call.payload

/-! ## Reading the log -/

/-- The members that the call gives. -/
def LogCall.fields : LogCall → List (Bytes × Value)
  | .line _ _ message => [(ascii "msg", .string message)]
  | .event _ eventName turn kv =>
      (ascii "event", .string eventName) ::
        ((if turn ≠ kNoTurn then [(ascii "turn_id", .number (decimal turn))] else []) ++
          kv.map fun p => (p.1, .string p.2))

def Entry.record (e : Entry) : Value :=
  .object ((ascii "ts", .string (formatTimestamp e.tm e.ms)) ::
    (ascii "level", .string (levelName e.call.level)) ::
    (ascii "component", .string e.call.component) :: e.call.fields)

/-- Each line is a value. Behind the last line end there must be nothing. -/
def readLog (text : Bytes) : Option (List Value) :=
  let lines := text.splitOn (byte '\n')
  if lines.getLast? = some [] then lines.dropLast.mapM parse else none

/-- `debug` never writes; the other calls do unless the level is above theirs. -/
def LogCall.Writes (level : Level) : LogCall → Prop
  | .line .debug _ _ => False
  | .line .info _ _ => level.rank ≤ Level.info.rank
  | .line .warn _ _ => level.rank ≤ Level.warn.rank
  | .line .error _ _ => level.rank ≤ Level.err.rank
  | .event _ _ _ _ => level.rank ≤ Level.info.rank

instance (level : Level) : DecidablePred (LogCall.Writes level) := fun call => by
  cases call with
  | line helper _ _ => cases helper <;> unfold LogCall.Writes <;> infer_instance
  | event => unfold LogCall.Writes; infer_instance

/-- The component is not taken to end early, and a message is not taken for an event. -/
def LogCall.Unambiguous (call : LogCall) : Prop :=
  ¬ascii "] " <:+: call.component ∧
    match call with
    | .line _ _ message => ¬kEventMarker <+: message
    | .event _ _ _ _ => True

/-! ## Payloads -/

theorem escapeJsonString_quoted (out s : Bytes) :
    escapeJsonString out s = out ++ quoted jsonStringEscapes s := by
  rw [escapeJsonString, List.append_assoc, List.append_assoc, List.singleton_append]
  rfl

theorem cutAtClose_append {component : Bytes} (h : ¬ascii "] " <:+: component) (rest : Bytes) :
    cutAtClose (component ++ (ascii "] " ++ rest)) = some (component, rest) := by
  have hclose : ascii "] " = [byte ']', byte ' '] := by decide
  rw [hclose] at h ⊢
  induction component with
  | nil => simp [cutAtClose]
  | cons b component ih =>
      rw [List.cons_append, cutAtClose, ih fun hin => h (hin.trans (List.suffix_cons b _).isInfix)]
      refine if_neg ?_
      rintro ⟨rfl, hblank⟩
      cases component with
      | nil => exact absurd (Option.some.inj hblank) (by decide)
      | cons c component =>
          cases hblank
          exact h ⟨[], component, rfl⟩

theorem splitComponent_append {component : Bytes} (h : ¬ascii "] " <:+: component) (rest : Bytes) :
    splitComponent (ascii "[" ++ component ++ ascii "] " ++ rest) = some (component, rest) := by
  have hopen : ascii "[" = [byte '['] := by decide
  rw [hopen, List.append_assoc, List.append_assoc, List.singleton_append, splitComponent,
    if_pos rfl, cutAtClose_append h]

theorem foldl_fields (kv : List (Bytes × Bytes)) (payload : Bytes) :
    kv.foldl (fun payload p =>
        escapeJsonString (escapeJsonString (payload ++ ascii ",") p.1 ++ ascii ":") p.2) payload =
      payload ++ (kv.map fun p => (p.1, Value.string p.2)).flatMap fun m =>
        ','.toUInt8 :: (quoted jsonStringEscapes m.1 ++ ':'.toUInt8 ::
          render jsonStringEscapes m.2) := by
  have hcomma : ascii "," = [','.toUInt8] := by decide
  have hcolon : ascii ":" = [':'.toUInt8] := by decide
  induction kv generalizing payload with
  | nil => simp
  | cons p kv ih =>
      rw [List.foldl_cons, ih, escapeJsonString_quoted, escapeJsonString_quoted, hcomma, hcolon,
        List.map_cons, List.flatMap_cons, render]
      simp

/-- The members of an event stand behind the marker as they are written. -/
theorem payload_event (component eventName : Bytes) (turn : TurnId) (kv : List (Bytes × Bytes)) :
    (LogCall.event component eventName turn kv).payload =
      ascii "[" ++ component ++ ascii "] " ++ (kEventMarker ++
        renderMembers jsonStringEscapes (LogCall.event component eventName turn kv).fields) := by
  have hevent : ascii "\"event\":" = quoted jsonStringEscapes (ascii "event") ++ [':'.toUInt8] := by
    decide
  have hturn : ascii ",\"turn_id\":" =
      ','.toUInt8 :: (quoted jsonStringEscapes (ascii "turn_id") ++ [':'.toUInt8]) := by decide
  rw [LogCall.payload, foldl_fields, LogCall.fields, renderMembers_cons, escapeJsonString_quoted,
    hevent]
  by_cases hnone : turn = kNoTurn
  · simp [hnone, render]
  · simp [hnone, hturn, render]

/-! ## Lines -/

theorem sparing_jsonStringEscapes : jsonStringEscapes.Sparing := by
  intro row hrow
  simp only [jsonStringEscapes, List.mem_cons, List.not_mem_nil, or_false] at hrow
  rcases hrow with rfl | rfl | rfl | rfl | rfl | rfl | rfl <;> decide

theorem plain_of_isDigit {b : UInt8} (h : isDigit b = true) : Plain b := by
  simp only [isDigit, decide_eq_true_eq] at h
  refine ⟨UInt8.le_trans (by decide) h.1, ?_, ?_⟩
  · rintro rfl
    exact absurd h (by decide)
  · rintro rfl
    exact absurd h (by decide)

theorem plain_padded (plus : Bool) (width : Nat) (v : Int) :
    ∀ b ∈ padded plus width v, Plain b := by
  have hminus : Plain (byte '-') := by decide
  have hplus : Plain (byte '+') := by decide
  have hzero : Plain (byte '0') := by decide
  refine List.forall_mem_append.mpr ⟨List.forall_mem_append.mpr ⟨?_, fun b hb => ?_⟩,
    fun b hb => plain_of_isDigit (isDigit_of_mem_decimal b hb)⟩
  · split
    · exact List.forall_mem_singleton.mpr hminus
    · split
      · exact List.forall_mem_singleton.mpr hplus
      · exact fun b hb => absurd hb List.not_mem_nil
  · rw [List.eq_of_mem_replicate hb]
    exact hzero

theorem plain_formatTimestamp (tm : Tm) (ms : Int) : ∀ b ∈ formatTimestamp tm ms, Plain b := by
  have hseps : (∀ b ∈ ascii "-", Plain b) ∧ (∀ b ∈ ascii "T", Plain b) ∧
      (∀ b ∈ ascii ":", Plain b) ∧ ∀ b ∈ ascii ".", Plain b :=
    ⟨List.all_iff_forall_prop.mp (by decide), List.all_iff_forall_prop.mp (by decide),
      List.all_iff_forall_prop.mp (by decide), List.all_iff_forall_prop.mp (by decide)⟩
  obtain ⟨hdash, ht, hcolon, hpoint⟩ := hseps
  simp only [formatTimestamp, List.forall_mem_append]
  simp only [and_assoc]
  exact ⟨plain_padded _ _ _, hdash, plain_padded _ _ _, hdash, plain_padded _ _ _, ht,
    plain_padded _ _ _, hcolon, plain_padded _ _ _, hcolon, plain_padded _ _ _, hpoint,
    plain_padded _ _ _, plain_padded _ _ _, plain_padded _ _ _⟩

theorem plain_levelName (level : Level) : ∀ b ∈ levelName level, Plain b := by
  cases level <;> exact List.all_iff_forall_prop.mp (by decide)

/-- A helper is compiled in exactly if it is not `debug`. -/
theorem passes_iff (level : Level) (call : LogCall) :
    call.passes level = true ↔ call.Writes level := by
  have hdebug : ¬activeLevel.rank ≤ Level.debug.rank := by decide
  have hinfo : activeLevel.rank ≤ Level.info.rank := by decide
  have hwarn : activeLevel.rank ≤ Level.warn.rank := by decide
  have herr : activeLevel.rank ≤ Level.err.rank := by decide
  rw [LogCall.passes, Bool.and_eq_true, decide_eq_true_eq, decide_eq_true_eq]
  cases call with
  | line helper _ _ =>
      cases helper with
      | debug => exact iff_of_false (fun h => hdebug h.1) id
      | info => exact and_iff_right hinfo
      | warn => exact and_iff_right hwarn
      | error => exact and_iff_right herr
  | event => exact and_iff_right hinfo

theorem numeric_record (e : Entry) : e.record.numeric = true := by
  rw [Entry.record, Value.numeric, membersNumeric_iff]
  refine List.forall_mem_cons.mpr ⟨rfl, List.forall_mem_cons.mpr ⟨rfl, List.forall_mem_cons.mpr
    ⟨rfl, ?_⟩⟩⟩
  cases hcall : e.call with
  | line level component message => exact List.forall_mem_singleton.mpr rfl
  | event component eventName turn kv =>
      rw [LogCall.fields]
      refine List.forall_mem_cons.mpr ⟨rfl, List.forall_mem_append.mpr ⟨?_, fun m hm => ?_⟩⟩
      · split
        · exact List.forall_mem_singleton.mpr (isNumber_decimal turn)
        · exact fun m hm => absurd hm List.not_mem_nil
      · obtain ⟨p, -, rfl⟩ := List.mem_map.mp hm
        rfl

/-- What stands in front of the members of the call. -/
theorem render_record (e : Entry) :
    render jsonStringEscapes e.record =
      ascii "\x7b\"ts\":\"" ++ formatTimestamp e.tm e.ms ++ ascii "\",\"level\":\"" ++
        levelName e.call.level ++ ascii "\"" ++ ascii ",\"component\":" ++
        quoted jsonStringEscapes e.call.component ++ ascii "," ++
        renderMembers jsonStringEscapes e.call.fields ++ ['\x7d'.toUInt8] := by
  have hts : ascii "\x7b\"ts\":\"" =
      '\x7b'.toUInt8 :: (quoted jsonStringEscapes (ascii "ts") ++ [':'.toUInt8, quote]) := by decide
  have hlevel : ascii "\",\"level\":\"" =
      quote :: ','.toUInt8 :: (quoted jsonStringEscapes (ascii "level") ++
        [':'.toUInt8, quote]) := by decide
  have hcomponent : ascii ",\"component\":" =
      ','.toUInt8 :: (quoted jsonStringEscapes (ascii "component") ++ [':'.toUInt8]) := by decide
  have hquote : ascii "\"" = [quote] := by decide
  have hcomma : ascii "," = [','.toUInt8] := by decide
  obtain ⟨m, ms, hfields⟩ : ∃ m ms, e.call.fields = m :: ms := by
    cases e.call with
    | line level component message => exact ⟨_, _, rfl⟩
    | event component eventName turn kv => exact ⟨_, _, rfl⟩
  have hquotedTs : quoted jsonStringEscapes (formatTimestamp e.tm e.ms) =
      quote :: (formatTimestamp e.tm e.ms ++ [quote]) := by
    rw [quoted, ShortEscapes.escape_of_plain sparing_jsonStringEscapes (plain_formatTimestamp _ _)]
  have hquotedLevel : quoted jsonStringEscapes (levelName e.call.level) =
      quote :: (levelName e.call.level ++ [quote]) := by
    rw [quoted, ShortEscapes.escape_of_plain sparing_jsonStringEscapes (plain_levelName _)]
  rw [Entry.record, render, renderMembers_cons, hfields, hts, hlevel, hcomponent, hquote, hcomma,
    renderMembers_cons]
  simp only [List.flatMap_cons, render, hquotedTs, hquotedLevel]
  simp

/-- The line of a call is its record. -/
theorem sinkIt_payload (e : Entry) (h : e.call.Unambiguous) :
    sinkIt e.tm e.ms e.call.level e.call.payload =
      render jsonStringEscapes e.record ++ [byte '\n'] := by
  have hclose : ascii "\x7d\n" = ['\x7d'.toUInt8, byte '\n'] := by decide
  have hcomma : ascii "," = [','.toUInt8] := by decide
  obtain ⟨hcomponent, hmessage⟩ := h
  rw [render_record]
  cases hcall : e.call with
  | line level component message =>
      rw [hcall] at hcomponent hmessage
      replace hcomponent : ¬ascii "] " <:+: component := hcomponent
      have hmsg : ascii ",\"msg\":" =
          ','.toUInt8 :: (quoted jsonStringEscapes (ascii "msg") ++ [':'.toUInt8]) := by decide
      have hmarker : kEventMarker.isPrefixOf message = false := by
        rw [Bool.eq_false_iff, ne_eq, List.isPrefixOf_iff_prefix]
        exact hmessage
      rw [LogCall.payload, sinkIt, splitComponent_append hcomponent]
      simp only [hmarker, Bool.false_eq_true, ↓reduceIte, escapeString_eq, escapeJsonString_quoted,
        hclose, hmsg, hcomma, LogCall.fields, LogCall.component, LogCall.level, renderMembers,
        render]
      simp
  | event component eventName turn kv =>
      rw [hcall] at hcomponent
      replace hcomponent : ¬ascii "] " <:+: component := hcomponent
      have hmarker : ∀ inner, kEventMarker.isPrefixOf (kEventMarker ++ inner) = true :=
        fun inner => List.isPrefixOf_iff_prefix.mpr (List.prefix_append _ _)
      have hinner : renderMembers jsonStringEscapes
          (LogCall.event component eventName turn kv).fields ≠ [] := by
        rw [LogCall.fields, renderMembers_cons, quoted, List.cons_append]
        exact List.cons_ne_nil _ _
      rw [payload_event, sinkIt, splitComponent_append hcomponent]
      simp only [hmarker, ↓reduceIte, escapeString_eq, escapeJsonString_quoted, List.drop_left,
        ne_eq, hinner, not_false_eq_true, hclose, LogCall.component, LogCall.level]
      simp

/-! ## The file -/

/-- A message of two lines, one for debugging, and an event whose value looks like members. -/
def threeCalls : List Entry :=
  let tm : Tm := ⟨126, 4, 3, 15, 3, 29, 7200⟩
  [⟨tm, 7, .line .warn (ascii "llm") (ascii "bad\nbody\x7d")⟩,
    ⟨tm, 8, .line .debug (ascii "llm") []⟩,
    ⟨tm, 9, .event (ascii "trace") (ascii "llm_sentence") 4
      [(ascii "text", ascii "a\",\"level\":\"error")]⟩]

end Acva.Log
