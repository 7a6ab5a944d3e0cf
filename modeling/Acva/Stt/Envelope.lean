import Acva.Core.Assembly
import Acva.Stt.Base64
import Mathlib.Data.List.AList

/-! # The envelope reassembler

Server events come base64-encoded in envelopes, whole or in fragments. Fragments wait
under the event's id until as many have been counted as there are. The reader of the
JSON envelope is a parameter.
-/

namespace Acva.Stt

open Assembly

structure Envelope where
  id : Bytes := []
  type : Bytes := []
  data : Bytes := []
  fragmentIndex : Option Nat := none
  totalFragments : Option Nat := none
deriving DecidableEq, Repr

structure Pending where
  fragments : List Bytes
  received : Nat := 0
deriving DecidableEq, Repr

structure EnvelopeReassembler where
  pending : AList fun _ : Bytes => Pending := ∅

namespace EnvelopeReassembler

def pendingCount (r : EnvelopeReassembler) : Nat := r.pending.entries.length

/-- File a fragment under its event, and take the event out once all of it is there. -/
def storeFragment (id data : Bytes) (idx : Nat) (p : Pending) (r : EnvelopeReassembler) :
    Option Bytes × EnvelopeReassembler :=
  if p.fragments.getD idx [] ≠ [] then (none, r) -- duplicate fragment
  else
    let p := { fragments := p.fragments.set idx data, received := p.received + 1 }
    if p.received = p.fragments.length then
      (base64Decode p.fragments.flatten, { r with pending := r.pending.erase id })
    else (none, { r with pending := r.pending.insert id p })

def feed (readEnvelope : Bytes → Option Envelope) (raw : Bytes) (r : EnvelopeReassembler) :
    Option Bytes × EnvelopeReassembler :=
  match readEnvelope raw with
  | none => (none, r)
  | some env =>
      if env.type = ascii "full_message" then (base64Decode env.data, r)
      else if env.type ≠ ascii "partial_message" then (none, r)
      else
        match env.fragmentIndex, env.totalFragments with
        | some idx, some total =>
            if total = 0 ∨ total ≤ idx then (none, r)
            else
              match r.pending.lookup env.id with
              | none =>
                  r.storeFragment env.id env.data idx
                    { fragments := List.replicate total [] }
              | some p =>
                  if p.fragments.length ≠ total then
                    -- the server changed its mind about the total
                    (none, { r with pending := r.pending.erase env.id })
                  else r.storeFragment env.id env.data idx p
        | _, _ => (none, r)

/-! ## One event's slot -/

/-- What a fragment of a consistent server does to what is pending under its id. -/
def feedSlot (fragments : List Bytes) (idx : Nat) (slot : Option Pending) :
    Option Bytes × Option Pending :=
  let p := slot.getD { fragments := List.replicate fragments.length [] }
  if p.fragments.getD idx [] ≠ [] then (none, some p)
  else
    let p := { fragments := p.fragments.set idx (fragments.getD idx []),
               received := p.received + 1 }
    if p.received = p.fragments.length then (base64Decode p.fragments.flatten, none)
    else (none, some p)

/-- The envelope of a fragment. -/
def fragmentEnvelope (id : Bytes) (fragments : List Bytes) (idx : Nat) : Envelope where
  id := id
  type := ascii "partial_message"
  data := fragments.getD idx []
  fragmentIndex := some idx
  totalFragments := some fragments.length

theorem storeFragment_lookup (id data : Bytes) (idx : Nat) (p : Pending)
    (r : EnvelopeReassembler) {id' : Bytes} (h : id' ≠ id) :
    (r.storeFragment id data idx p).2.pending.lookup id' = r.pending.lookup id' := by
  unfold storeFragment
  split
  next => rfl
  next =>
    simp only
    split
    next => exact AList.lookup_erase_ne h
    next => exact AList.lookup_insert_ne h

section
variable {readEnvelope : Bytes → Option Envelope} {raw id : Bytes} {fragments : List Bytes}
  {idx : Nat} (hread : readEnvelope raw = some (fragmentEnvelope id fragments idx))
  (hidx : idx < fragments.length)

include hread hidx

theorem feed_fragment (r : EnvelopeReassembler) :
    r.feed readEnvelope raw =
      match r.pending.lookup id with
      | none => r.storeFragment id (fragments.getD idx []) idx
          { fragments := List.replicate fragments.length [] }
      | some p =>
          if p.fragments.length ≠ fragments.length then
            (none, { r with pending := r.pending.erase id })
          else r.storeFragment id (fragments.getD idx []) idx p := by
  have hfull : (ascii "partial_message" : Bytes) ≠ ascii "full_message" := by decide
  have hbounds : ¬(fragments.length = 0 ∨ fragments.length ≤ idx) := by omega
  unfold feed
  rw [hread]
  simp only [fragmentEnvelope, if_neg hfull, ne_eq, not_true_eq_false, if_false,
    if_neg hbounds]

/-- The other events are left alone. -/
theorem feed_lookup_ne (r : EnvelopeReassembler) {id' : Bytes} (h : id' ≠ id) :
    (r.feed readEnvelope raw).2.pending.lookup id' = r.pending.lookup id' := by
  rw [feed_fragment hread hidx]
  split
  next => exact storeFragment_lookup _ _ _ _ _ h
  next =>
    split
    next => exact AList.lookup_erase_ne h
    next => exact storeFragment_lookup _ _ _ _ _ h

/-- The event itself goes through its slot. -/
theorem feed_lookup (r : EnvelopeReassembler)
    (htotal : ∀ p ∈ r.pending.lookup id, p.fragments.length = fragments.length) :
    ((r.feed readEnvelope raw).1, (r.feed readEnvelope raw).2.pending.lookup id) =
      feedSlot fragments idx (r.pending.lookup id) := by
  rw [feed_fragment hread hidx]
  cases hslot : r.pending.lookup id with
  | none =>
      have hempty : (List.replicate fragments.length ([] : Bytes)).getD idx [] = [] :=
        List.getD_replicate _ hidx
      simp only [storeFragment, feedSlot, Option.getD_none, hempty, ne_eq, not_true_eq_false,
        if_false]
      split
      next => rw [AList.lookup_erase]
      next => rw [AList.lookup_insert]
  | some p =>
      have hlen := htotal p hslot
      simp only [hlen, ne_eq, not_true_eq_false, if_false, storeFragment, feedSlot,
        Option.getD_some]
      split
      next => rw [hslot]
      next =>
        split
        next => rw [AList.lookup_erase]
        next => rw [AList.lookup_insert]

end

/-! ## Deliveries -/

end EnvelopeReassembler

/-- The events that a server sends in fragments. -/
structure ServerEvents where
  ids : List Bytes
  fragments : Bytes → List Bytes
  fragments_ne : ∀ id ∈ ids, fragments id ≠ []

/-- A message on the data channel that carries a fragment of an event. -/
structure Delivery (readEnvelope : Bytes → Option Envelope) (m : ServerEvents) where
  raw : Bytes
  id : Bytes
  idx : Nat
  id_mem : id ∈ m.ids
  idx_lt : idx < (m.fragments id).length
  read : readEnvelope raw =
    some (EnvelopeReassembler.fragmentEnvelope id (m.fragments id) idx)

namespace Delivery

open EnvelopeReassembler

variable {readEnvelope : Bytes → Option Envelope} {m : ServerEvents}

/-- One delivery after the other, with the results and the events they are of. -/
def feedAll (ds : List (Delivery readEnvelope m)) : EnvelopeReassembler × List (Bytes × Bytes) :=
  ds.foldl (fun (r, results) d =>
    let (result, r) := r.feed readEnvelope d.raw
    (r, results ++ result.toList.map (d.id, ·))) ({}, [])

def resultsFor (id : Bytes) (results : List (Bytes × Bytes)) : List Bytes :=
  (results.filter (·.1 = id)).map Prod.snd

/-- Whether a fragment was delivered. -/
def seen (ds : List (Delivery readEnvelope m)) (id : Bytes) (i : Nat) : Bool :=
  ds.any fun d => decide (d.id = id ∧ d.idx = i)

def Started (ds : List (Delivery readEnvelope m)) (id : Bytes) : Prop := ∃ d ∈ ds, d.id = id

/-- Every fragment of the event was delivered. -/
def Complete (ds : List (Delivery readEnvelope m)) (id : Bytes) : Prop :=
  ∀ i < (m.fragments id).length, seen ds id i = true

instance (ds : List (Delivery readEnvelope m)) (id : Bytes) : Decidable (Complete ds id) :=
  inferInstanceAs (Decidable (∀ i < _, _))

/-- What the event decodes to. -/
def content (m : ServerEvents) (id : Bytes) : Option Bytes :=
  base64Decode (m.fragments id).flatten

/-- The event still has fragments to come, and the fragment is not an empty one again. -/
def Fresh (before : List (Delivery readEnvelope m)) (d : Delivery readEnvelope m) : Prop :=
  ¬Complete before d.id ∧
    (seen before d.id d.idx = true → (m.fragments d.id).getD d.idx [] ≠ [])

inductive FreshRun : List (Delivery readEnvelope m) → Prop
  | nil : FreshRun []
  | append {ds : List (Delivery readEnvelope m)} {d : Delivery readEnvelope m} :
      FreshRun ds → Fresh ds d → FreshRun (ds ++ [d])

/-- Every event has come out exactly once, and nothing waits. -/
def ReassembledOnce (ds : List (Delivery readEnvelope m)) : Prop :=
  (∀ id ∈ m.ids, resultsFor id (feedAll ds).2 = (content m id).toList) ∧
    (feedAll ds).1.pendingCount = 0

/-! ## What is pending and what has come out -/

/-- A slot and the results of its event, as far as the event was delivered. -/
structure Tracks (ds : List (Delivery readEnvelope m)) (id : Bytes) (slot : Option Pending)
    (out : List Bytes) : Prop where
  results : out = if Complete ds id then (content m id).toList else []
  isSome_iff : slot.isSome = true ↔ Started ds id ∧ ¬Complete ds id
  pending : ∀ p ∈ slot, p = { fragments := partly [] (seen ds id) (m.fragments id),
                              received := count (seen ds id) (m.fragments id).length }

variable {ds : List (Delivery readEnvelope m)} {d : Delivery readEnvelope m} {id : Bytes}

theorem feedAll_append (ds : List (Delivery readEnvelope m)) (d : Delivery readEnvelope m) :
    feedAll (ds ++ [d]) =
      (((feedAll ds).1.feed readEnvelope d.raw).2,
        (feedAll ds).2 ++ ((feedAll ds).1.feed readEnvelope d.raw).1.toList.map (d.id, ·)) := by
  rw [feedAll, List.foldl_append]
  rfl

theorem resultsFor_append (id : Bytes) (results : List (Bytes × Bytes)) (id' : Bytes)
    (result : Option Bytes) :
    resultsFor id (results ++ result.toList.map (id', ·)) =
      resultsFor id results ++ if id' = id then result.toList else [] := by
  rw [resultsFor, List.filter_append, List.map_append]
  cases result with
  | none => split <;> rfl
  | some x =>
      simp only [Option.toList_some, List.map_cons, List.map_nil, List.filter_cons,
        List.filter_nil, decide_eq_true_eq]
      split <;> rfl

theorem seen_append_self (ds : List (Delivery readEnvelope m)) (d : Delivery readEnvelope m) :
    seen (ds ++ [d]) d.id = mark d.idx (seen ds d.id) := by
  funext i
  simp only [seen, mark, List.any_append, List.any_cons, List.any_nil, Bool.or_false, true_and]
  congr 1
  simp only [eq_comm]

theorem seen_append_ne (ds : List (Delivery readEnvelope m)) (h : d.id ≠ id) :
    seen (ds ++ [d]) id = seen ds id := by
  funext i
  simp [seen, h]

theorem complete_append_ne (ds : List (Delivery readEnvelope m)) (h : d.id ≠ id) :
    Complete (ds ++ [d]) id ↔ Complete ds id := by
  rw [Complete, Complete, seen_append_ne ds h]

theorem started_append (ds : List (Delivery readEnvelope m)) :
    Started (ds ++ [d]) id ↔ Started ds id ∨ d.id = id := by
  simp [Started, or_and_right, exists_or]

/-- A delivery for another event. -/
theorem Tracks.append_ne {slot : Option Pending} {out : List Bytes}
    (h : Tracks ds id slot out) (hid : d.id ≠ id) : Tracks (ds ++ [d]) id slot out where
  results := by
    simp only [complete_append_ne ds hid]
    exact h.results
  isSome_iff := by
    simp only [complete_append_ne ds hid, started_append, hid, or_false]
    exact h.isSome_iff
  pending := by
    rw [seen_append_ne ds hid]
    exact h.pending

/-- What an event that is not complete has pending, also where nothing is yet. -/
theorem Tracks.slot_getD {slot : Option Pending} {out : List Bytes} (h : Tracks ds id slot out)
    (hopen : ¬Complete ds id) :
    slot.getD { fragments := List.replicate (m.fragments id).length [] } =
      { fragments := partly [] (seen ds id) (m.fragments id),
        received := count (seen ds id) (m.fragments id).length } := by
  cases slot with
  | some p => exact h.pending p rfl
  | none =>
      have hnot : ¬Started ds id := fun hs => by
        have hsome := h.isSome_iff.mpr ⟨hs, hopen⟩
        cases hsome
      have hunseen : ∀ i, seen ds id i = false := by
        intro i
        rw [seen, List.any_eq_false]
        intro d hd hboth
        exact hnot ⟨d, hd, (of_decide_eq_true hboth).1⟩
      rw [partly_of_none fun i _ => hunseen i, count_of_none fun i _ => hunseen i]
      rfl

/-- A fresh delivery for the event. -/
theorem Tracks.append_self {slot : Option Pending} {out : List Bytes}
    (h : Tracks ds d.id slot out) (hfresh : Fresh ds d) :
    Tracks (ds ++ [d]) d.id (feedSlot (m.fragments d.id) d.idx slot).2
      (out ++ (feedSlot (m.fragments d.id) d.idx slot).1.toList) := by
  obtain ⟨hopen, hagain⟩ := hfresh
  have hidx := d.idx_lt
  have hout : out = [] := by
    rw [h.results, if_neg hopen]
  have hstarted : Started (ds ++ [d]) d.id := (started_append ds).mpr (Or.inr rfl)
  rw [hout, List.nil_append]
  unfold feedSlot
  rw [h.slot_getD hopen]
  simp only [getD_partly hidx]
  by_cases hseen : seen ds d.id d.idx = true
  · -- a duplicate: the slot stays as it is
    have hsame : seen (ds ++ [d]) d.id = seen ds d.id := by
      rw [seen_append_self, mark_of_seen hseen]
    have hopen' : ¬Complete (ds ++ [d]) d.id := by
      rwa [Complete, hsame]
    rw [if_pos hseen, if_pos (hagain hseen)]
    refine ⟨(if_neg hopen').symm, ⟨fun _ => ⟨hstarted, hopen'⟩, fun _ => rfl⟩, ?_⟩
    rintro p ⟨⟩
    rw [hsame]
  · have hnew : seen ds d.id d.idx = false := Bool.not_eq_true _ ▸ hseen
    rw [if_neg hseen]
    simp only [ne_eq, not_true_eq_false, if_false, set_partly hidx, ← count_mark hidx hnew,
      ← seen_append_self, length_partly]
    by_cases hlast : Complete (ds ++ [d]) d.id
    · rw [if_pos (count_eq_iff.mpr hlast), partly_of_all hlast]
      refine ⟨(if_pos hlast).symm, ⟨fun hs => ?_, fun hs => absurd hlast hs.2⟩, ?_⟩
      · cases hs
      · rintro p ⟨⟩
    · rw [if_neg (fun hcount => hlast (count_eq_iff.mp hcount))]
      refine ⟨(if_neg hlast).symm, ⟨fun _ => ⟨hstarted, hlast⟩, fun _ => rfl⟩, ?_⟩
      rintro p ⟨⟩
      rfl

/-! ## Runs of fresh deliveries -/

/-- Every event is tracked, and there is nothing under other ids. -/
structure Tracked (ds : List (Delivery readEnvelope m)) : Prop where
  event : ∀ id ∈ m.ids,
    Tracks ds id ((feedAll ds).1.pending.lookup id) (resultsFor id (feedAll ds).2)
  other : ∀ id, id ∉ m.ids → (feedAll ds).1.pending.lookup id = none

theorem tracked_nil : Tracked ([] : List (Delivery readEnvelope m)) where
  event := by
    intro id hid
    have hopen : ¬Complete ([] : List (Delivery readEnvelope m)) id := by
      intro hall
      have hpos := List.length_pos_iff.mpr (m.fragments_ne id hid)
      have hzero := hall 0 hpos
      cases hzero
    refine ⟨(if_neg hopen).symm, ⟨fun hs => ?_, fun hs => ?_⟩, ?_⟩
    · cases hs
    · obtain ⟨⟨d, hd, -⟩, -⟩ := hs
      cases hd
    · rintro p ⟨⟩
  other := fun _ _ => rfl

theorem Tracked.append (h : Tracked ds) (hfresh : Fresh ds d) : Tracked (ds ++ [d]) where
  event := by
    intro id hid
    have hold := h.event id hid
    rw [feedAll_append, resultsFor_append]
    by_cases hself : d.id = id
    · subst hself
      have htotal : ∀ p ∈ (feedAll ds).1.pending.lookup d.id,
          p.fragments.length = (m.fragments d.id).length := by
        intro p hp
        rw [hold.pending p hp]
        exact length_partly
      have hslot := feed_lookup d.read d.idx_lt _ htotal
      have hnew := hold.append_self hfresh
      rw [← hslot] at hnew
      rw [if_pos rfl]
      exact hnew
    · simp only [feed_lookup_ne d.read d.idx_lt _ (fun heq => hself heq.symm), if_neg hself,
        List.append_nil]
      exact hold.append_ne hself
  other := by
    intro id hid
    have hne : id ≠ d.id := fun heq => hid (heq ▸ d.id_mem)
    rw [feedAll_append, feed_lookup_ne d.read d.idx_lt _ hne]
    exact h.other id hid

theorem tracked_of_freshRun (h : FreshRun ds) : Tracked ds := by
  induction h with
  | nil => exact tracked_nil
  | append _ hfresh ih => exact ih.append hfresh

/-- In a run of fresh deliveries, in any order, an event comes out when its last fragment is
there, decoded from its fragments in their own order, and only the events in between wait. -/
theorem reassembled_of_freshRun (readEnvelope : Bytes → Option Envelope) (m : ServerEvents)
    (ds : List (Delivery readEnvelope m)) (hfresh : FreshRun ds) :
    (∀ id ∈ m.ids, resultsFor id (feedAll ds).2 =
      if Complete ds id then (content m id).toList else []) ∧
    (∀ id, id ∈ (feedAll ds).1.pending ↔ Started ds id ∧ ¬Complete ds id) ∧
    ((∀ id ∈ m.ids, Complete ds id) → ReassembledOnce ds) := by
  have htracked := tracked_of_freshRun hfresh
  have hresults : ∀ id ∈ m.ids, resultsFor id (feedAll ds).2 =
      if Complete ds id then (content m id).toList else [] :=
    fun id hid => (htracked.event id hid).results
  have hpending : ∀ id, id ∈ (feedAll ds).1.pending ↔ Started ds id ∧ ¬Complete ds id := by
    intro id
    rw [← AList.lookup_isSome]
    by_cases hid : id ∈ m.ids
    · exact (htracked.event id hid).isSome_iff
    · rw [htracked.other id hid]
      refine ⟨fun hs => ?_, fun hs => ?_⟩
      · cases hs
      · obtain ⟨⟨d, _, rfl⟩, -⟩ := hs
        exact absurd d.id_mem hid
  refine ⟨hresults, hpending, fun hall => ⟨fun id hid => ?_, ?_⟩⟩
  · rw [hresults id hid, if_pos (hall id hid)]
  · have hkeys : (feedAll ds).1.pending.keys = [] := by
      refine List.eq_nil_iff_forall_not_mem.mpr fun id hid => ?_
      obtain ⟨⟨d, _, rfl⟩, hopen⟩ := (hpending id).mp hid
      exact hopen (hall d.id d.id_mem)
    rw [pendingCount, ← List.length_map (f := Sigma.fst)]
    exact congrArg List.length hkeys

/-- An event in one fragment, and one in two of which the first is empty. -/
def sampleEvents : ServerEvents where
  ids := [ascii "A", ascii "B"]
  fragments id := if id = ascii "A" then [ascii "QQ=="] else [[], ascii "QUI="]
  fragments_ne := by decide

/-- The three envelopes as they come over the channel. -/
def sampleRaw (id : Bytes) (idx : Nat) : Bytes :=
  let fragments := sampleEvents.fragments id
  ascii "\x7b\"id\":\"" ++ id ++ ascii "\",\"type\":\"partial_message\",\"data\":\"" ++
    fragments.getD idx [] ++ ascii "\",\"fragment_index\":" ++ ascii (toString idx) ++
    ascii ",\"total_fragments\":" ++ ascii (toString fragments.length) ++ ascii "\x7d"

def sampleReader (raw : Bytes) : Option Envelope :=
  ([(ascii "A", 0), (ascii "B", 0), (ascii "B", 1)].find? fun d =>
    sampleRaw d.1 d.2 = raw).map fun d =>
      fragmentEnvelope d.1 (sampleEvents.fragments d.1) d.2

def sampleDelivery (id : Bytes) (idx : Nat) (hid : id ∈ sampleEvents.ids)
    (hidx : idx < (sampleEvents.fragments id).length)
    (hread : sampleReader (sampleRaw id idx) =
      some (fragmentEnvelope id (sampleEvents.fragments id) idx)) :
    Delivery sampleReader sampleEvents where
  raw := sampleRaw id idx
  id := id
  idx := idx
  id_mem := hid
  idx_lt := hidx
  read := hread

def deliveryA : Delivery sampleReader sampleEvents :=
  sampleDelivery (ascii "A") 0 (by decide) (by decide) (by decide +kernel)

def deliveryB0 : Delivery sampleReader sampleEvents :=
  sampleDelivery (ascii "B") 0 (by decide) (by decide) (by decide +kernel)

def deliveryB1 : Delivery sampleReader sampleEvents :=
  sampleDelivery (ascii "B") 1 (by decide) (by decide) (by decide +kernel)

/-- The last fragment comes first, and twice. -/
theorem reassembled_sample :
    ReassembledOnce [deliveryB1, deliveryB1, deliveryA, deliveryB0] := by
  have hone : FreshRun ([] ++ [deliveryB1]) := .append .nil ⟨by decide +kernel, by decide +kernel⟩
  have htwice : FreshRun [deliveryB1, deliveryB1] :=
    .append hone ⟨by decide +kernel, by decide +kernel⟩
  have hthree : FreshRun [deliveryB1, deliveryB1, deliveryA] :=
    .append htwice ⟨by decide +kernel, by decide +kernel⟩
  exact (reassembled_of_freshRun sampleReader sampleEvents _
    (.append hthree ⟨by decide +kernel, by decide +kernel⟩)).2.2 (by decide +kernel)

/-- A duplicate behind the event's end starts it again, and an empty fragment counts as often
as it comes. -/
theorem not_reassembledOnce :
    ((∀ id ∈ sampleEvents.ids, Complete [deliveryB0, deliveryB1, deliveryA, deliveryA] id) ∧
      ¬ReassembledOnce [deliveryB0, deliveryB1, deliveryA, deliveryA]) ∧
    ((∀ id ∈ sampleEvents.ids, Complete [deliveryA, deliveryB0, deliveryB0, deliveryB1] id) ∧
      ¬ReassembledOnce [deliveryA, deliveryB0, deliveryB0, deliveryB1]) := by
  unfold ReassembledOnce
  decide +kernel

end Delivery

end Acva.Stt
