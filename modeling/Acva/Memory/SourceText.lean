import Acva.Core.Records
import Acva.Memory.SourceHash

/-! # What a source text tells

The text that is hashed has one line a turn, the row id and the turn's text; nothing in the
text of a turn is escaped. A turn whose text has a line that looks like another row reads
like two turns, and one without a text like one with an empty text.
-/

namespace Acva.Memory

open Records

/-! ## Row ids -/

def idBytes (id : RowId) : Bytes := ascii (toString id)

def isDigit (b : UInt8) : Bool := byte '0' ≤ b ∧ b ≤ byte '9'

/-- The number that digits stand for. -/
def decimal (digits : Bytes) : Nat :=
  Nat.ofDigitChars 10 (digits.map fun b => Char.ofNat b.toNat) 0

theorem idBytes_eq (id : RowId) : idBytes id = (Nat.toDigits 10 id).map byte := by
  simp [idBytes, ascii]

theorem toNat_byte {c : Char} (h : c.isDigit = true) : (byte c).toNat = c.toNat := by
  have hle : c.toNat ≤ 57 := (Char.isDigit_iff_toNat.mp h).2
  show c.toNat % 256 = c.toNat
  omega

theorem isDigit_byte {c : Char} (h : c.isDigit = true) : isDigit (byte c) = true := by
  obtain ⟨hge, hle⟩ := Char.isDigit_iff_toNat.mp h
  rw [← toNat_byte h] at hge hle
  exact decide_eq_true ⟨hge, hle⟩

theorem isDigit_of_mem_idBytes {id : RowId} {b : UInt8} (h : b ∈ idBytes id) :
    isDigit b = true := by
  rw [idBytes_eq] at h
  obtain ⟨c, hc, rfl⟩ := List.mem_map.mp h
  exact isDigit_byte (Nat.isDigit_of_mem_toDigits (by decide) (by decide) hc)

theorem decimal_idBytes (id : RowId) : decimal (idBytes id) = id := by
  have hchars : ((Nat.toDigits 10 id).map byte).map (fun b => Char.ofNat b.toNat) =
      Nat.toDigits 10 id := by
    rw [List.map_map]
    refine (List.map_congr_left fun c hc => ?_).trans (List.map_id _)
    have hdigit := Nat.isDigit_of_mem_toDigits (by decide) (by decide) hc
    show Char.ofNat (byte c).toNat = c
    rw [toNat_byte hdigit, Char.ofNat_toNat]
  rw [decimal, idBytes_eq, hchars]
  exact Nat.ofDigitChars_ten_toDigits

/-! ## Rows -/

/-- The line of a row, without its end. -/
def rowLine (row : RowId × Bytes) : Bytes := idBytes row.1 ++ byte '|' :: row.2

/-- The row that a line is, if it is one. -/
def readRow (line : Bytes) : Option (RowId × Bytes) :=
  let id := decimal (line.takeWhile isDigit)
  if line.takeWhile isDigit = idBytes id then
    match line.dropWhile isDigit with
    | b :: text => if b = byte '|' then some (id, text) else none
    | [] => none
  else none

theorem readRow_rowLine (row : RowId × Bytes) : readRow (rowLine row) = some row := by
  have hdigits : (rowLine row).takeWhile isDigit = idBytes row.1 := by
    rw [rowLine, List.takeWhile_append_of_pos fun b hb => isDigit_of_mem_idBytes hb,
      List.takeWhile_cons_of_neg (by decide), List.append_nil]
  have hrest : (rowLine row).dropWhile isDigit = byte '|' :: row.2 := by
    rw [rowLine, List.dropWhile_append_of_pos fun b hb => isDigit_of_mem_idBytes hb,
      List.dropWhile_cons_of_neg (by decide)]
  simp [readRow, hdigits, hrest, decimal_idBytes]

theorem rowLine_readRow {line : Bytes} {row : RowId × Bytes} (h : readRow line = some row) :
    rowLine row = line := by
  unfold readRow at h
  dsimp only at h
  split at h
  next hdigits =>
    split at h
    next b text hrest =>
      split at h
      next hbar =>
        cases h
        calc rowLine (decimal (line.takeWhile isDigit), text)
            = line.takeWhile isDigit ++ byte '|' :: text := by rw [rowLine, ← hdigits]
          _ = line.takeWhile isDigit ++ line.dropWhile isDigit := by rw [hrest, hbar]
          _ = line := List.takeWhile_append_dropWhile
      next => cases h
    next => cases h
  next => cases h

/-- Whether a line begins like a row. -/
def opensRow (line : Bytes) : Bool := (readRow line).isSome

theorem opensRow_iff {line : Bytes} : opensRow line = true ↔ ∃ row, rowLine row = line := by
  constructor
  · intro h
    obtain ⟨row, hrow⟩ := Option.isSome_iff_exists.mp h
    exact ⟨row, rowLine_readRow hrow⟩
  · rintro ⟨row, rfl⟩
    rw [opensRow, readRow_rowLine]
    rfl

/-- Neither a digit nor the bar is the end of a line. -/
theorem opensRow_local : Local opensRow (byte '\n') := by
  intro xs ys
  rw [Bool.eq_iff_iff, opensRow_iff, opensRow_iff]
  constructor
  · rintro ⟨row, hrow⟩
    have hsplit : (idBytes row.1 ++ [byte '|']) ++ row.2 = xs ++ byte '\n' :: ys := by
      rw [← hrow, rowLine, List.append_assoc]
      rfl
    obtain ⟨text, hxs, -⟩ | ⟨beyond, hbeyond, hys⟩ := List.append_eq_append_iff.mp hsplit
    · exact ⟨(row.1, text), by rw [hxs, rowLine, List.append_assoc]; rfl⟩
    · cases beyond with
      | nil => exact ⟨(row.1, []), by rw [← List.append_nil xs, ← hbeyond]; rfl⟩
      | cons b beyond =>
          obtain ⟨rfl, -⟩ := List.cons_eq_cons.mp hys
          have hmem : byte '\n' ∈ idBytes row.1 ++ [byte '|'] := by
            rw [hbeyond]
            simp
          rcases List.mem_append.mp hmem with hdigit | hbar
          · exact absurd (isDigit_of_mem_idBytes hdigit) (by decide)
          · exact absurd (List.mem_singleton.mp hbar) (by decide)
  · rintro ⟨row, rfl⟩
    exact ⟨(row.1, row.2 ++ byte '\n' :: ys), by simp [rowLine]⟩

/-! ## Readings -/

/-- The rows whose ids and texts a range is made of. -/
def idTexts (rangeStart rangeEnd : Int) (turns : List TurnRow) : List (RowId × Option Bytes) :=
  (turns.filter fun t => ¬ ((t.id : Int) < rangeStart ∨ rangeEnd < t.id)).map fun t => (t.id, t.text)

/-- The rows that a turn reads like: its text, empty if there is none, is cut at each end of a line
that is followed by an id and a bar. -/
def readings (row : RowId × Option Bytes) : List (RowId × Bytes) :=
  (pieces opensRow (byte '\n') (rowLine (row.1, row.2.getD []))).filterMap readRow

theorem sourceText_eq_written (rangeStart rangeEnd : Int) (turns : List TurnRow) :
    sourceText rangeStart rangeEnd turns = written (byte '\n')
      ((idTexts rangeStart rangeEnd turns).map fun row => rowLine (row.1, row.2.getD [])) := by
  unfold sourceText written idTexts
  rw [List.flatMap_map, List.flatMap_map]
  refine List.flatMap_congr fun t _ => ?_
  simp [rowLine, idBytes, ascii]

/-- Lines that are all rows are told apart by the rows. -/
theorem map_rowLine_filterMap {lines : List Bytes} (h : ∀ l ∈ lines, opensRow l = true) :
    (lines.filterMap readRow).map rowLine = lines := by
  induction lines with
  | nil => rfl
  | cons l lines ih =>
      obtain ⟨row, rfl⟩ := opensRow_iff.mp (h l List.mem_cons_self)
      rw [List.filterMap_cons_some (readRow_rowLine row), List.map_cons,
        ih fun l hl => h l (List.mem_cons_of_mem _ hl)]

theorem flatMap_readings_eq (rows : List (RowId × Option Bytes)) :
    rows.flatMap readings = ((rows.map fun row => rowLine (row.1, row.2.getD [])).flatMap
      (pieces opensRow (byte '\n'))).filterMap readRow := by
  rw [List.filterMap_flatMap, List.flatMap_map]
  rfl

/-- Two ranges have one text exactly if they read like the same rows. -/
theorem sourceText_eq_iff (rangeStart rangeEnd : Int) (turns turns' : List TurnRow) :
    sourceText rangeStart rangeEnd turns = sourceText rangeStart rangeEnd turns' ↔
      (idTexts rangeStart rangeEnd turns).flatMap readings =
        (idTexts rangeStart rangeEnd turns').flatMap readings := by
  have hopens : ∀ rows : List (RowId × Option Bytes),
      ∀ l ∈ rows.map fun row => rowLine (row.1, row.2.getD []), opensRow l = true := by
    intro rows l hl
    obtain ⟨row, -, rfl⟩ := List.mem_map.mp hl
    exact opensRow_iff.mpr ⟨_, rfl⟩
  have hpieces : ∀ rows : List (RowId × Option Bytes),
      ∀ l ∈ (rows.map fun row => rowLine (row.1, row.2.getD [])).flatMap
        (pieces opensRow (byte '\n')), opensRow l = true := by
    intro rows l hl
    obtain ⟨line, hline, hl⟩ := List.mem_flatMap.mp hl
    exact opens_of_mem_pieces opensRow_local (hopens rows line hline) l hl
  rw [sourceText_eq_written, sourceText_eq_written,
    written_eq_iff opensRow_local (hopens _) (hopens _), flatMap_readings_eq, flatMap_readings_eq]
  constructor
  · exact congrArg (List.filterMap readRow)
  · intro h
    rw [← map_rowLine_filterMap (hpieces _), h, map_rowLine_filterMap (hpieces _)]

example : readings (1, some (ascii "a\n2|b")) = [(1, ascii "a"), (2, ascii "b")] := by decide

/-- Ranges that differ in an id or a text are told apart by what is hashed. -/
def ToldApart (rangeStart rangeEnd : Int) (turns turns' : List TurnRow) : Prop :=
  idTexts rangeStart rangeEnd turns ≠ idTexts rangeStart rangeEnd turns' →
    sourceText rangeStart rangeEnd turns ≠ sourceText rangeStart rangeEnd turns'

theorem toldApart_iff (rangeStart rangeEnd : Int) (turns turns' : List TurnRow) :
    ToldApart rangeStart rangeEnd turns turns' ↔
      idTexts rangeStart rangeEnd turns = idTexts rangeStart rangeEnd turns' ∨
        (idTexts rangeStart rangeEnd turns).flatMap readings ≠
          (idTexts rangeStart rangeEnd turns').flatMap readings := by
  rw [ToldApart, ne_eq, ne_eq, sourceText_eq_iff, ← or_iff_not_imp_left]

/-- One turn of two lines, and two turns of one. -/
def merged : List TurnRow :=
  [{ id := 1, sessionId := 1, role := .user, text := some (ascii "a\n2|b") }]

def apart : List TurnRow :=
  [{ id := 1, sessionId := 1, role := .user, text := some (ascii "a") },
   { id := 2, sessionId := 1, role := .assistant, text := some (ascii "b") }]

theorem merged_not_toldApart :
    merged.Pairwise (·.id < ·.id) ∧ apart.Pairwise (·.id < ·.id) ∧ ¬ToldApart 1 2 merged apart :=
  ⟨by decide, by decide, fun h => h (by decide) (by decide)⟩

end Acva.Memory
