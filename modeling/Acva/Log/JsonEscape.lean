import Acva.Core.JsonString
import Acva.Event.Event

/-! # The escapers of the log

A structured line is put together by the caller, and the sink writes each of its fields.
Each of the two has an escaper of its own, which appends a string with its quotes.
-/

namespace Acva.Log

open Json

/-- The cases of the switch in `log.cpp`. -/
def jsonStringEscapes : ShortEscapes where
  table :=
    [(byte '"', byte '"'), (byte '\\', byte '\\'), (byte '\n', byte 'n'), (byte '\r', byte 'r'),
      (byte '\t', byte 't'), (0x08, byte 'b'), (0x0c, byte 'f')]
  reads := List.all_iff_forall_prop.mp (by decide)
  quoted := by decide
  backslashed := by decide

/-- `escape_json_string` of `log.cpp`. -/
def escapeJsonString (out s : Bytes) : Bytes :=
  out ++ [byte '"'] ++ jsonStringEscapes.escape s ++ [byte '"']

/-- The cases of the switch in `json_sink.cpp`. -/
def stringEscapes : ShortEscapes where
  table :=
    [(byte '"', byte '"'), (byte '\\', byte '\\'), (byte '\n', byte 'n'), (byte '\r', byte 'r'),
      (byte '\t', byte 't'), (0x08, byte 'b'), (0x0c, byte 'f')]
  reads := List.all_iff_forall_prop.mp (by decide)
  quoted := by decide
  backslashed := by decide

/-- `escape_string` of `json_sink.cpp`. -/
def escapeString (out s : Bytes) : Bytes :=
  out ++ [byte '"'] ++ stringEscapes.escape s ++ [byte '"']

theorem escapeString_eq (out s : Bytes) : escapeString out s = escapeJsonString out s := rfl

example : escapeString [] (ascii "a\"\\\n\x1b") = ascii "\"a\\\"\\\\\\n\\u001b\"" := by decide

end Acva.Log
