import Mathlib.Data.List.Induction
import Mathlib.Logic.Function.Basic

/-! # Stopwatches

A watch is started, lapped and stopped by its name. The first lap since the start says how long
it has been running, and so does the stop. What a watch says can be read off the presses before,
without any watch. The first section is about what is said along a history, whatever it is.
-/

namespace Acva.Stopwatch

/-! ## Along a history -/

section Along

variable {α β : Type*}

/-- What `f` makes of each item and of all that came before it. -/
def alongFrom (f : List α → α → Option β) : List α → List α → List β
  | _, [] => []
  | past, a :: as => (f past a).toList ++ alongFrom f (past ++ [a]) as

def along (f : List α → α → Option β) (as : List α) : List β := alongFrom f [] as

theorem alongFrom_concat (f : List α → α → Option β) (past as : List α) (a : α) :
    alongFrom f past (as ++ [a]) = alongFrom f past as ++ (f (past ++ as) a).toList := by
  induction as generalizing past with
  | nil => simp [alongFrom]
  | cons b as ih =>
      rw [List.cons_append, alongFrom, ih, alongFrom]
      simp only [List.append_assoc, List.cons_append, List.nil_append]

theorem along_concat (f : List α → α → Option β) (as : List α) (a : α) :
    along f (as ++ [a]) = along f as ++ (f as a).toList :=
  alongFrom_concat f [] as a

end Along

/-! ## Watches -/

variable {κ ι : Type*}

inductive Mark (κ : Type*)
  | start (k : κ)
  | lap (k : κ)
  | stop (k : κ)
deriving DecidableEq, Repr

def Mark.key : Mark κ → κ
  | .start k => k
  | .lap k => k
  | .stop k => k

structure Press (κ : Type*) where
  time : Int
  mark : Mark κ
deriving DecidableEq, Repr

structure Watch where
  startedAt : Int
  lapped : Bool := false
deriving DecidableEq, Repr

/-- The watches that are running. -/
abbrev Watches (κ : Type*) := κ → Option Watch

variable [DecidableEq κ] [DecidableEq ι]

/-- What the watch says, and the watches behind it. -/
def press (p : Press κ) (ws : Watches κ) : Option Int × Watches κ :=
  match p.mark with
  | .start k => (none, Function.update ws k (some { startedAt := p.time }))
  | .lap k =>
      match ws k with
      | some { startedAt := t, lapped := false } =>
          (some (p.time - t), Function.update ws k (some { startedAt := t, lapped := true }))
      | _ => (none, ws)
  | .stop k => ((ws k).map fun w => p.time - w.startedAt, Function.update ws k none)

/-- The watches after some presses. -/
def watchesAfter (ps : List (Press κ)) : Watches κ :=
  ps.foldl (fun ws p => (press p ws).2) fun _ => none

theorem watchesAfter_concat (ps : List (Press κ)) (p : Press κ) :
    watchesAfter (ps ++ [p]) = (press p (watchesAfter ps)).2 := by
  rw [watchesAfter, List.foldl_append]
  rfl

/-! ## Read off the presses -/

def startTime (p : Press κ) : Option Int :=
  match p.mark with
  | .start _ => some p.time
  | _ => none

/-- When `k` was started, if it has not been stopped since. -/
def runningSince (k : κ) (ps : List (Press κ)) : Option Int :=
  (ps.filter fun p => p.mark = .start k ∨ p.mark = .stop k).getLast?.bind startTime

/-- When `k` was started, if nothing has been done to it since. -/
def freshSince (k : κ) (ps : List (Press κ)) : Option Int :=
  (ps.filter fun p => p.mark.key = k).getLast?.bind startTime

theorem runningSince_concat (k : κ) (ps : List (Press κ)) (p : Press κ) :
    runningSince k (ps ++ [p]) =
      if p.mark = .start k ∨ p.mark = .stop k then startTime p else runningSince k ps := by
  unfold runningSince
  rw [List.filter_append]
  by_cases h : p.mark = .start k ∨ p.mark = .stop k
  · rw [if_pos h, List.filter_cons_of_pos (by simpa using h), List.filter_nil,
      List.getLast?_append]
    rfl
  · rw [if_neg h, List.filter_cons_of_neg (by simpa using h), List.filter_nil, List.append_nil]

theorem freshSince_concat (k : κ) (ps : List (Press κ)) (p : Press κ) :
    freshSince k (ps ++ [p]) = if p.mark.key = k then startTime p else freshSince k ps := by
  unfold freshSince
  rw [List.filter_append]
  by_cases h : p.mark.key = k
  · rw [if_pos h, List.filter_cons_of_pos (by simpa using h), List.filter_nil,
      List.getLast?_append]
    rfl
  · rw [if_neg h, List.filter_cons_of_neg (by simpa using h), List.filter_nil, List.append_nil]

/-- The watch of `k`, read off the presses: it runs since the last start, and has been lapped if
that is not the last thing done to it. -/
def watchOf (k : κ) (ps : List (Press κ)) : Option Watch :=
  (runningSince k ps).map fun t => { startedAt := t, lapped := (freshSince k ps).isNone }

/-- The watches are what the presses say. -/
theorem watchesAfter_eq (k : κ) (ps : List (Press κ)) :
    (watchesAfter ps k = (runningSince k ps).map fun t =>
        { startedAt := t, lapped := (freshSince k ps).isNone }) ∧
      ∀ t, freshSince k ps = some t → runningSince k ps = some t := by
  induction ps using List.reverseRecOn with
  | nil => exact ⟨rfl, nofun⟩
  | append_singleton ps p ih =>
      obtain ⟨hwatch, hfresh⟩ := ih
      rw [watchesAfter_concat, runningSince_concat, freshSince_concat]
      obtain ⟨time, mark⟩ := p
      by_cases hkey : mark.key = k
      · cases mark with
        | start k' =>
            obtain rfl : k' = k := hkey
            simp [press, Mark.key, startTime]
        | lap k' =>
            obtain rfl : k' = k := hkey
            simp only [press, Mark.key, startTime, reduceCtorEq, or_self, ↓reduceIte]
            refine ⟨?_, nofun⟩
            cases hrunning : runningSince k' ps with
            | none =>
                rw [hrunning] at hwatch
                simp only [hwatch, Option.map_none]
            | some t =>
                rw [hrunning] at hwatch
                cases hsince : freshSince k' ps <;> simp [hwatch, hsince]
        | stop k' =>
            obtain rfl : k' = k := hkey
            simp [press, Mark.key, startTime]
      · -- another watch was pressed
        have hother : (press ⟨time, mark⟩ (watchesAfter ps)).2 k = watchesAfter ps k := by
          cases mark with
          | start k' => exact Function.update_of_ne (Ne.symm hkey) _ _
          | lap k' =>
              simp only [press]
              split
              · exact Function.update_of_ne (Ne.symm hkey) _ _
              · rfl
          | stop k' => exact Function.update_of_ne (Ne.symm hkey) _ _
        have hneither : ¬ (mark = .start k ∨ mark = .stop k) := by
          rintro (rfl | rfl) <;> exact hkey rfl
        rw [hother, if_neg hneither, if_neg hkey]
        exact ⟨hwatch, hfresh⟩

/-- What is said to have started was started. -/
theorem mem_of_runningSince {k : κ} {ps : List (Press κ)} {t : Int}
    (h : runningSince k ps = some t) : ∃ p ∈ ps, p.time = t := by
  obtain ⟨p, hlast, hstart⟩ := Option.bind_eq_some_iff.mp h
  refine ⟨p, (List.mem_filter.mp (List.mem_of_getLast? hlast)).1, ?_⟩
  obtain ⟨time, mark⟩ := p
  cases mark with
  | start k => exact Option.some.inj hstart
  | lap k => cases hstart
  | stop k => cases hstart

theorem mem_of_freshSince {k : κ} {ps : List (Press κ)} {t : Int}
    (h : freshSince k ps = some t) : ∃ p ∈ ps, p.time = t :=
  mem_of_runningSince ((watchesAfter_eq k ps).2 t h)

/-! ## Other names -/

def Mark.rename (f : κ → ι) : Mark κ → Mark ι
  | .start k => .start (f k)
  | .lap k => .lap (f k)
  | .stop k => .stop (f k)

def Press.rename (f : κ → ι) (p : Press κ) : Press ι := ⟨p.time, p.mark.rename f⟩

theorem rename_key (f : κ → ι) (p : Press κ) : (p.rename f).mark.key = f p.mark.key := by
  obtain ⟨time, mark⟩ := p
  cases mark <;> rfl

theorem startTime_rename (f : κ → ι) (p : Press κ) : startTime (p.rename f) = startTime p := by
  obtain ⟨time, mark⟩ := p
  cases mark <;> rfl

/-- Names that tell the watches apart are as good as others. -/
theorem freshSince_rename {f : κ → ι} {k : κ} {ps : List (Press κ)}
    (h : ∀ p ∈ ps, f p.mark.key = f k → p.mark.key = k) :
    freshSince (f k) (ps.map (Press.rename f)) = freshSince k ps := by
  have hsame : (ps.filter fun p => (p.rename f).mark.key = f k) =
      ps.filter fun p => p.mark.key = k := by
    refine List.filter_congr fun p hp => ?_
    rw [rename_key f p]
    exact decide_eq_decide.mpr ⟨h p hp, fun heq => congrArg f heq⟩
  unfold freshSince
  rw [List.filter_map, ← hsame, List.getLast?_map, Option.bind_map]
  exact congrArg (Option.bind _) (funext (startTime_rename f))

theorem runningSince_rename {f : κ → ι} {k : κ} {ps : List (Press κ)}
    (h : ∀ p ∈ ps, f p.mark.key = f k → p.mark.key = k) :
    runningSince (f k) (ps.map (Press.rename f)) = runningSince k ps := by
  have hsame : (ps.filter fun p =>
        (p.rename f).mark = .start (f k) ∨ (p.rename f).mark = .stop (f k)) =
      ps.filter fun p => p.mark = .start k ∨ p.mark = .stop k := by
    refine List.filter_congr fun p hp => decide_eq_decide.mpr ?_
    have hback := h p hp
    obtain ⟨time, mark⟩ := p
    cases mark with
    | start k' => simpa [Press.rename, Mark.rename] using ⟨hback, fun heq => congrArg f heq⟩
    | lap k' => simp [Press.rename, Mark.rename]
    | stop k' => simpa [Press.rename, Mark.rename] using ⟨hback, fun heq => congrArg f heq⟩
  unfold runningSince
  rw [List.filter_map, ← hsame, List.getLast?_map, Option.bind_map]
  exact congrArg (Option.bind _) (funext (startTime_rename f))

/-- The watches that are kept under other names. -/
theorem watchesAfter_rename {f : κ → ι} {k : κ} {ps : List (Press κ)}
    (h : ∀ p ∈ ps, f p.mark.key = f k → p.mark.key = k) :
    watchesAfter (ps.map (Press.rename f)) (f k) = watchOf k ps := by
  rw [(watchesAfter_eq (f k) _).1, runningSince_rename h, freshSince_rename h, watchOf]

/-- There is no watch that was never pressed. -/
theorem watchesAfter_of_unpressed {k : κ} {ps : List (Press κ)} (h : ∀ p ∈ ps, p.mark.key ≠ k) :
    watchesAfter ps k = none := by
  have hnone : (ps.filter fun p => p.mark = .start k ∨ p.mark = .stop k) = [] := by
    refine List.filter_eq_nil_iff.mpr fun p hp hmark => ?_
    rcases of_decide_eq_true hmark with hmark | hmark
    · exact h p hp (congrArg Mark.key hmark)
    · exact h p hp (congrArg Mark.key hmark)
  rw [(watchesAfter_eq k ps).1, runningSince, hnone]
  rfl

end Acva.Stopwatch
