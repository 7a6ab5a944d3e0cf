import Mathlib.Data.List.Basic

/-! # Records in a text

Records are written one after the other, each with a separator behind it. A record may hold
separators of its own, so that it can be taken for several: it is cut at each separator that
is followed by what looks like the opening of a record. Two lists of records have one text
exactly if they are cut into the same pieces.
-/

namespace Acva.Records

variable {α : Type*} {opens : List α → Bool} {sep : α}

/-- The text of a list of records. -/
def written (sep : α) (records : List (List α)) : List α := records.flatMap (· ++ [sep])

theorem written_eq_nil {records : List (List α)} (h : written sep records = []) : records = [] := by
  cases records with
  | nil => rfl
  | cons r records => simp [written] at h

/-- An opening does not reach past a separator. -/
def Local (opens : List α → Bool) (sep : α) : Prop := ∀ xs ys, opens (xs ++ sep :: ys) = opens xs

variable [DecidableEq α]

/-- Records without separators are split where they were written. -/
theorem splitOn_written {records : List (List α)} (h : ∀ r ∈ records, sep ∉ r) :
    (written sep records).splitOn sep = records ++ [[]] := by
  induction records with
  | nil => rfl
  | cons r records ih =>
      obtain ⟨hr, hrecords⟩ := List.forall_mem_cons.mp h
      have hwritten : written sep (r :: records) = r ++ sep :: written sep records := by
        simp [written]
      rw [hwritten, List.splitOn_append_cons_self_of_not_mem hr, ih hrecords, List.cons_append]

/-- Cut at each separator that an opening follows; the separator itself is dropped. -/
def pieces (opens : List α → Bool) (sep : α) : List α → List (List α)
  | [] => [[]]
  | x :: xs =>
      if x = sep ∧ opens xs = true then [] :: pieces opens sep xs
      else (pieces opens sep xs).modifyHead (x :: ·)

theorem pieces_ne_nil (opens : List α → Bool) (sep : α) (xs : List α) : pieces opens sep xs ≠ [] := by
  induction xs with
  | nil => exact List.cons_ne_nil _ _
  | cons x xs ih =>
      unfold pieces
      split
      next => exact List.cons_ne_nil _ _
      next =>
        intro h
        exact ih (List.modifyHead_eq_nil_iff.mp h)

/-- The pieces have the text that was cut. -/
theorem written_pieces (xs : List α) : written sep (pieces opens sep xs) = xs ++ [sep] := by
  induction xs with
  | nil => rfl
  | cons x xs ih =>
      unfold pieces
      split
      next hcut =>
        rw [hcut.1]
        exact congrArg (sep :: ·) ih
      next =>
        obtain ⟨p, ps, hps⟩ := List.exists_cons_of_ne_nil (pieces_ne_nil opens sep xs)
        rw [hps] at ih ⊢
        exact congrArg (x :: ·) ih

theorem written_flatMap (opens : List α → Bool) (sep : α) (records : List (List α)) :
    written sep (records.flatMap (pieces opens sep)) = written sep records := by
  unfold written
  rw [List.flatMap_assoc]
  exact congrArg (fun f => records.flatMap f) (funext fun r => written_pieces r)

/-- Between two records there is a cut, and none that was not there before. -/
theorem pieces_append (hlocal : Local opens sep) {xs ys : List α} (hys : opens ys = true) :
    pieces opens sep (xs ++ sep :: ys) = pieces opens sep xs ++ pieces opens sep ys := by
  induction xs with
  | nil => simp [pieces, hys]
  | cons x xs ih =>
      rw [List.cons_append, pieces, pieces, hlocal, ih]
      split
      next => rfl
      next =>
        obtain ⟨p, ps, hps⟩ := List.exists_cons_of_ne_nil (pieces_ne_nil opens sep xs)
        rw [hps]
        rfl

/-- The first piece begins the text, and the others begin with openings. -/
theorem pieces_eq_cons (hlocal : Local opens sep) {xs p : List α} {ps : List (List α)}
    (h : pieces opens sep xs = p :: ps) :
    (xs = p ∨ ∃ ys, xs = p ++ sep :: ys) ∧ ∀ q ∈ ps, opens q = true := by
  induction xs generalizing p ps with
  | nil =>
      cases h
      exact ⟨.inl rfl, fun q hq => absurd hq List.not_mem_nil⟩
  | cons x xs ih =>
      obtain ⟨p', ps', hps⟩ :=
        List.exists_cons_of_ne_nil (pieces_ne_nil opens sep xs)
      obtain ⟨hbegin, hrest⟩ := ih hps
      rw [pieces, hps] at h
      split at h
      next hcut =>
        cases h
        refine ⟨.inr ⟨xs, by rw [hcut.1, List.nil_append]⟩, ?_⟩
        rintro q (_ | ⟨_, hq⟩)
        · obtain rfl | ⟨ys, rfl⟩ := hbegin
          · exact hcut.2
          · exact (hlocal p' ys).symm.trans hcut.2
        · exact hrest q hq
      next =>
        cases h
        refine ⟨?_, hrest⟩
        obtain rfl | ⟨ys, rfl⟩ := hbegin
        · exact .inl rfl
        · exact .inr ⟨ys, rfl⟩

/-- All pieces open a record if the whole does. -/
theorem opens_of_mem_pieces (hlocal : Local opens sep) {xs : List α} (hxs : opens xs = true) :
    ∀ p ∈ pieces opens sep xs, opens p = true := by
  obtain ⟨p, ps, hps⟩ := List.exists_cons_of_ne_nil (pieces_ne_nil opens sep xs)
  obtain ⟨hbegin, hrest⟩ := pieces_eq_cons hlocal hps
  rw [hps]
  rintro q (_ | ⟨_, hq⟩)
  · obtain rfl | ⟨ys, rfl⟩ := hbegin
    · exact hxs
    · exact (hlocal p ys).symm.trans hxs
  · exact hrest q hq

/-- The text without its last separator is cut into the pieces of the records. -/
theorem exists_written_eq (hlocal : Local opens sep) (records : List (List α))
    (h : ∀ r ∈ records, opens r = true) (hne : records ≠ []) :
    ∃ xs, written sep records = xs ++ [sep] ∧ opens xs = true ∧
      pieces opens sep xs = records.flatMap (pieces opens sep) := by
  induction records with
  | nil => exact absurd rfl hne
  | cons r records ih =>
      have hr := h r List.mem_cons_self
      cases records with
      | nil => exact ⟨r, by simp [written], hr, by simp⟩
      | cons r' rest =>
          obtain ⟨xs, hxs, hopens, hpieces⟩ :=
            ih (fun r hr => h r (List.mem_cons_of_mem _ hr)) (List.cons_ne_nil _ _)
          refine ⟨r ++ sep :: xs, ?_, by rw [hlocal, hr], ?_⟩
          · show (r ++ [sep]) ++ written sep (r' :: rest) = _
            rw [hxs]
            simp
          · rw [pieces_append hlocal hopens, hpieces]
            rfl

/-- The text tells the pieces and nothing else. -/
theorem written_eq_iff (hlocal : Local opens sep) {as bs : List (List α)}
    (ha : ∀ a ∈ as, opens a = true) (hb : ∀ b ∈ bs, opens b = true) :
    written sep as = written sep bs ↔
      as.flatMap (pieces opens sep) = bs.flatMap (pieces opens sep) := by
  constructor
  · intro h
    by_cases has : as = []
    · subst has
      rw [written_eq_nil h.symm]
    · have hbs : bs ≠ [] := by
        rintro rfl
        exact has (written_eq_nil h)
      obtain ⟨xs, hxs, -, hpieces⟩ := exists_written_eq hlocal as ha has
      obtain ⟨ys, hys, -, hpieces'⟩ := exists_written_eq hlocal bs hb hbs
      rw [hxs, hys] at h
      rw [← hpieces, ← hpieces', List.append_cancel_right h]
  · intro h
    rw [← written_flatMap opens sep as, h, written_flatMap]

end Acva.Records
