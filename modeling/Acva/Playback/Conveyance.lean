import Acva.Playback.Rendering

/-! # What becomes of chunks

A chunk that is offered to the queue waits, is taken out by the callback or is lost. The engine
copies what it has taken out, and with the last sample of a chunk it posts the chunk's end. Here
the active turn changes as it likes, there may be a prefill target, and the queue may be full.
-/

namespace Acva.Playback

/-! ## The queue -/

/-- What was taken out and what waits are in the order of the offers, and every chunk that was
offered is taken out, waits or is lost. -/
structure Conveys (q : PlaybackQueue) (offered dequeued lost : List AudioChunk) : Prop where
  order : (dequeued ++ q.chunks).Sublist offered
  fates : offered.Perm (dequeued ++ q.chunks ++ lost)

namespace Conveys

variable {q q' : PlaybackQueue} {offered dequeued lost : List AudioChunk} {t : TurnId}

theorem keep (h : Conveys q offered dequeued lost) (hchunks : q'.chunks = q.chunks) :
    Conveys q' offered dequeued lost :=
  ⟨hchunks ▸ h.order, hchunks ▸ h.fates⟩

theorem offer (h : Conveys q offered dequeued lost) {chunk : AudioChunk}
    (hchunks : q'.chunks = q.chunks ++ [chunk]) :
    Conveys q' (offered ++ [chunk]) dequeued lost := by
  constructor
  · rw [hchunks, ← List.append_assoc]
    exact h.order.append_right [chunk]
  · rw [hchunks, ← List.append_assoc, List.append_assoc _ [chunk]]
    refine (h.fates.append_right [chunk]).trans ?_
    rw [List.append_assoc]
    exact List.perm_append_comm.append_left _

theorem reject (h : Conveys q offered dequeued lost) {chunk : AudioChunk}
    (hchunks : q'.chunks = q.chunks) :
    Conveys q' (offered ++ [chunk]) dequeued (lost ++ [chunk]) := by
  constructor
  · rw [hchunks]
    exact h.order.trans (List.sublist_append_left _ _)
  · rw [hchunks, ← List.append_assoc]
    exact h.fates.append_right [chunk]

/-- The head of the queue goes: its last chunk perhaps to the caller, the others are lost. -/
theorem dequeue (h : Conveys q offered dequeued lost) {stale found : List AudioChunk}
    (hchunks : q.chunks = stale ++ found ++ q'.chunks) :
    Conveys q' offered (dequeued ++ found) (lost ++ stale) := by
  obtain ⟨horder, hfates⟩ := h
  rw [hchunks] at horder hfates
  constructor
  · refine List.Sublist.trans ?_ horder
    rw [List.append_assoc, List.append_assoc]
    exact (List.Sublist.refl _).append (List.sublist_append_right _ _)
  · refine hfates.trans ?_
    rw [List.perm_iff_count]
    intro c
    simp only [List.count_append]
    omega

theorem discard (h : Conveys q offered dequeued lost) (p : AudioChunk → Bool)
    (hchunks : q'.chunks = q.chunks.filter fun c => !p c) :
    Conveys q' offered dequeued (lost ++ q.chunks.filter p) := by
  constructor
  · rw [hchunks]
    exact List.Sublist.trans ((List.Sublist.refl _).append List.filter_sublist) h.order
  · refine h.fates.trans ?_
    have hsplit := List.filter_append_perm p q.chunks
    rw [hchunks, List.perm_iff_count]
    intro c
    have hcount := hsplit.count_eq c
    simp only [List.count_append] at hcount ⊢
    omega

theorem clear (h : Conveys q offered dequeued lost) (hchunks : q'.chunks = []) :
    Conveys q' offered dequeued (lost ++ q.chunks) := by
  have hall : q.chunks = q.chunks ++ [] ++ q'.chunks := by simp [hchunks]
  simpa only [List.append_nil] using h.dequeue hall

/-- Of a turn that has lost nothing, nothing is missing. -/
theorem ofTurn_eq (h : Conveys q offered dequeued lost) (hkept : ∀ c ∈ lost, c.turn ≠ t) :
    ofTurn t offered = ofTurn t dequeued ++ q.ofTurn t := by
  have hnone : ofTurn t lost = [] :=
    List.filter_eq_nil_iff.mpr fun c hc => by simpa using hkept c hc
  have hsub : (ofTurn t (dequeued ++ q.chunks)).Sublist (ofTurn t offered) := h.order.filter _
  have hlength := (h.fates.filter fun c => c.turn = t).length_eq
  have hsame : (ofTurn t (dequeued ++ q.chunks)).length = (ofTurn t offered).length := by
    rw [List.filter_append, List.length_append] at hlength
    rw [ofTurn, ofTurn, hlength, ← ofTurn, ← ofTurn, hnone]
    rfl
  rw [← hsub.eq_of_length hsame]
  exact List.filter_append _ _

end Conveys

/-! ## The engine -/

/-- The samples of some chunks, with the turns. -/
def voiced (cs : List AudioChunk) : List (TurnId × Sample) :=
  cs.flatMap fun c => c.samples.map fun x => (c.turn, x)

theorem voiced_append (cs ds : List AudioChunk) : voiced (cs ++ ds) = voiced cs ++ voiced ds :=
  List.flatMap_append

/-- The chunks whose ends are posted. -/
def ofAnyTurn (cs : List AudioChunk) : List AudioChunk := cs.filter fun c => c.turn ≠ kNoTurn

theorem ofAnyTurn_append (cs ds : List AudioChunk) :
    ofAnyTurn (cs ++ ds) = ofAnyTurn cs ++ ofAnyTurn ds :=
  List.filter_append _ _

/-- The engine has written what was taken out up to where it stands in the current chunk, and
posted the ends up to the current chunk's. -/
structure Voices (e : PlaybackEngine) (dequeued : List AudioChunk) : Prop where
  sound : e.written.map (fun w => (w.turn, w.sample)) ++
    e.leftover.map (fun x => (e.current.turn, x)) = voiced dequeued
  posts : e.posted ++ e.currentMark = endsOf (ofAnyTurn dequeued)
  used : match e.pc with
    | .gate _ _ _ => e.leftover = [] ∧ e.currentMark = []
    | .pop _ _ _ => e.leftover = [] ∧ e.currentMark = []
    | _ => True

theorem endsOf_ofAnyTurn (chunk : AudioChunk) (pos : Nat) (e : PlaybackEngine) :
    endsOf (ofAnyTurn [chunk]) =
      PlaybackEngine.currentMark { e with current := chunk, pos := pos } := by
  by_cases hturn : chunk.turn = kNoTurn <;> by_cases hend : chunk.endOfSentence = true <;>
    simp [endsOf, ofAnyTurn, PlaybackEngine.currentMark, hturn, hend]

namespace Voices

variable {e e' : PlaybackEngine} {dequeued : List AudioChunk} {active : TurnId}
  {q q' : PlaybackQueue}

/-- The engine goes on elsewhere with the same chunk in hand. -/
theorem moves (h : Voices e dequeued) (pc : RenderPc) (hpc : match pc with
    | .gate _ _ _ => e.leftover = [] ∧ e.currentMark = []
    | .pop _ _ _ => e.leftover = [] ∧ e.currentMark = []
    | _ => True) (hpc' : e'.pc = pc) (hwritten : e'.written = e.written)
    (hcurrent : e'.current = e.current) (hpos : e'.pos = e.pos) (hposted : e'.posted = e.posted) :
    Voices e' dequeued := by
  have hleft : e'.leftover = e.leftover := by
    simp only [PlaybackEngine.leftover, hcurrent, hpos]
  have hmark : e'.currentMark = e.currentMark := by
    simp only [PlaybackEngine.currentMark, hcurrent]
  refine ⟨?_, ?_, ?_⟩
  · rw [hwritten, hleft, hcurrent]
    exact h.sound
  · rw [hposted, hmark]
    exact h.posts
  · rw [hpc', hleft, hmark]
    exact hpc

theorem retire (h : Voices e dequeued) (hend : e.leftover = []) (frames : Nat)
    (out : List Sample) : Voices { e.retire with pc := .gate frames out active } dequeued := by
  have hretired := e.retire_retired
  have hleft := hretired.leftover hend
  have hsound := h.sound
  rw [hend, List.map_nil, List.append_nil] at hsound
  refine ⟨?_, ?_, hleft, hretired.currentMark⟩
  · show e.retire.written.map _ ++ e.retire.leftover.map _ = _
    rw [hretired.written, hleft, List.map_nil, List.append_nil, hsound]
  · show e.retire.posted ++ e.retire.currentMark = _
    rw [hretired.posted, hretired.currentMark, List.append_nil]
    exact h.posts

theorem copy (h : Voices e dequeued) (frames : Nat) (out : List Sample) :
    Voices (e.copy frames out) dequeued := by
  refine ⟨?_, h.posts, trivial⟩
  rw [PlaybackEngine.copy_leftover, ← h.sound]
  show (e.written ++ _).map _ ++ (e.leftover.drop _).map (fun x => (e.current.turn, x)) = _
  rw [List.map_append, List.map_map, List.append_assoc]
  refine congrArg (e.written.map _ ++ ·) ?_
  show (e.leftover.take _).map (fun x => (e.current.turn, x)) ++ _ = _
  rw [← List.map_append, List.take_append_drop]

/-- The chunk before is used up, and its end is posted. -/
theorem take (h : Voices e dequeued) {frames : Nat} {out : List Sample} {turn : TurnId}
    (hpc : e.pc = .pop frames out turn) (chunk : AudioChunk) :
    Voices { e with current := chunk, pos := 0, pc := .loop frames out }
      (dequeued ++ [chunk]) := by
  have hused := h.used
  simp only [hpc] at hused
  obtain ⟨hleft, hmark⟩ := hused
  have hsound := h.sound
  have hposts := h.posts
  rw [hleft, List.map_nil, List.append_nil] at hsound
  rw [hmark, List.append_nil] at hposts
  refine ⟨?_, ?_, trivial⟩
  · show e.written.map _ ++ (chunk.samples.drop 0).map _ = _
    rw [hsound, voiced_append, List.drop_zero]
    simp [voiced]
  · show e.posted ++ PlaybackEngine.currentMark _ = _
    rw [hposts, ofAnyTurn_append, endsOf_append]
    exact congrArg (_ ++ ·) (endsOf_ofAnyTurn chunk 0 { e with pc := .loop frames out }).symm

end Voices

/-! ## The head of the queue -/

theorem takeWhile_of_skipStale {active : TurnId} {cs rest : List AudioChunk}
    {found : Option AudioChunk} {n : Nat}
    (h : PlaybackQueue.skipStale active cs = (found, rest, n)) :
    cs = cs.takeWhile (fun c => c.turn ≠ active) ++ found.toList ++ rest := by
  induction cs generalizing n with
  | nil =>
      cases h
      rfl
  | cons c cs ih =>
      simp only [PlaybackQueue.skipStale] at h
      split at h
      next hne =>
        cases hrec : PlaybackQueue.skipStale active cs with
        | mk found' tail =>
            rw [hrec] at h
            cases h
            rw [List.takeWhile_cons_of_pos (by simpa using hne)]
            exact congrArg (c :: ·) (ih hrec)
      next heq =>
        cases h
        rw [List.takeWhile_cons_of_neg (by simpa using heq)]
        rfl

theorem takeWhile_of_dequeueActive {active : TurnId} {q q' : PlaybackQueue}
    {found : Option AudioChunk} (h : q.dequeueActive active = (found, q')) :
    q.chunks = q.chunks.takeWhile (fun c => c.turn ≠ active) ++ found.toList ++ q'.chunks := by
  unfold PlaybackQueue.dequeueActive at h
  cases hskip : PlaybackQueue.skipStale active q.chunks with
  | mk found' tail =>
      rw [hskip] at h
      have hsplit := takeWhile_of_skipStale hskip
      cases found' with
      | none =>
          cases h
          exact hsplit
      | some chunk =>
          cases h
          exact hsplit

/-! ## One turn -/

theorem soundOf_ofTurn (t : TurnId) (cs : List AudioChunk) :
    ((voiced cs).filter fun x => x.1 = t).map Prod.snd = soundOf (ofTurn t cs) := by
  induction cs with
  | nil => rfl
  | cons c cs ih =>
      have hcons : voiced (c :: cs) = c.samples.map (fun x => (c.turn, x)) ++ voiced cs := rfl
      rw [hcons, List.filter_append, List.map_append, ih]
      by_cases hturn : c.turn = t <;>
        simp [ofTurn, soundOf, hturn, List.filter_map, Function.comp_def]

theorem endsOf_ofTurn {t : TurnId} (ht : t ≠ kNoTurn) (cs : List AudioChunk) :
    (endsOf (ofAnyTurn cs)).filter (fun p => p.turn = t) = endsOf (ofTurn t cs) := by
  induction cs with
  | nil => rfl
  | cons c cs ih =>
      have hone : (endsOf (ofAnyTurn [c])).filter (fun p => p.turn = t) = endsOf (ofTurn t [c]) := by
        by_cases hturn : c.turn = t
        · have hreal : c.turn ≠ kNoTurn := hturn ▸ ht
          by_cases hend : c.endOfSentence = true <;>
            simp [endsOf, ofAnyTurn, ofTurn, hturn, hend, ht]
        · by_cases hreal : c.turn = kNoTurn <;> by_cases hend : c.endOfSentence = true <;>
            simp [endsOf, ofAnyTurn, ofTurn, hturn, hreal, hend, Ne.symm ht]
      rw [← List.singleton_append, ofAnyTurn_append, endsOf_append, List.filter_append, hone, ih,
        ofTurn, ofTurn, ofTurn, List.filter_append, endsOf_append]

theorem Voices.soundOf_turn {e : PlaybackEngine} {dequeued : List AudioChunk}
    (h : Voices e dequeued) (t : TurnId) :
    (e.written.filter fun w => w.turn = t).map (·.sample) ++
      (if e.current.turn = t then e.leftover else []) = soundOf (ofTurn t dequeued) := by
  rw [← soundOf_ofTurn, ← h.sound, List.filter_append, List.map_append]
  congr 1
  · simp [List.filter_map, Function.comp_def]
  · by_cases hturn : e.current.turn = t <;> simp [List.filter_map, Function.comp_def, hturn]

end Acva.Playback
