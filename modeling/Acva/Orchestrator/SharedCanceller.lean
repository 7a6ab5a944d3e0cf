import Mathlib.Data.List.Nodup
import Acva.Core.Runs
import Acva.Orchestrator.SystemAec

/-! # What comes of the canceller's modules

Any number of acva processes share one sound server, which changes by itself as well. Where a
module comes from is told by what is there after a step and was not before.
-/

namespace Acva.Orchestrator.SystemAec

open Acva.Memory (idBytes)

/-! ## What becomes of the modules -/

section Changes

variable {σ ε : Type} {server : SoundServer σ ε} {loaded : σ → List ServerModule}
  {issued : σ → Nat → Prop} {s s' : σ} {kept new : List ServerModule}

/-- The modules that are there after a step and were not before. -/
def came (loaded : σ → List ServerModule) (s s' : σ) : List ServerModule :=
  (loaded s').filter fun m => m ∉ loaded s

theorem Changes.mem (h : Changes loaded issued s s' kept new) {m : ServerModule}
    (hm : m ∈ loaded s') : m ∈ loaded s ∨ ¬issued s m.index := by
  rw [h.after] at hm
  exact (List.mem_append.mp hm).imp (fun hkept => h.sublist.subset hkept) (h.fresh m)

/-- Where no module goes, those that come are the new ones. -/
theorem came_eq (hserves : server.Serves loaded issued)
    (h : Changes loaded issued s s' (loaded s) new) : came loaded s s' = new := by
  have hold : (loaded s).filter (fun m => m ∉ loaded s) = [] :=
    List.filter_eq_nil_iff.mpr fun m hm hnot => of_decide_eq_true hnot hm
  have hnew : new.filter (fun m => m ∉ loaded s) = new :=
    List.filter_eq_self.mpr fun m hm =>
      decide_eq_true fun hmem => h.fresh m hm (hserves.given s m hmem)
  rw [came, h.after, List.filter_append, hold, hnew, List.nil_append]

/-- An index has one module. -/
theorem SoundServer.Serves.eq_of_index (hserves : server.Serves loaded issued)
    {m o : ServerModule} (hm : m ∈ loaded s) (ho : o ∈ loaded s) (hindex : o.index = m.index) :
    o = m :=
  List.inj_on_of_nodup_map (hserves.apart s) ho hm hindex

/-- What the process finds in the listing. -/
theorem SoundServer.Serves.find_eq (hserves : server.Serves loaded issued) {out : Bytes}
    (hlists : server.listShort s = some out) :
    findExistingEchoCancel (some out) = (loaded s).findSome? ServerModule.echo := by
  rw [hserves.lists s out hlists]
  exact findExistingEchoCancel_written (loaded s)

end Changes

/-! ## What a constructor leaves -/

/-- The object, beside the modules that are loaded. -/
structure Settled (modules : List ServerModule) (issued : Nat → Prop) (useSystemAec : Bool)
    (aec : SystemAec) : Prop where
  unused : useSystemAec = false → aec = {}
  /-- Where the canceller was asked for and is not there, an error says so. -/
  reports : useSystemAec = true → (aec.active = false ↔ aec.startupError ≠ none)
  idle : aec.active = false → aec.owned = false ∧ aec.pulse = none
  routes : aec.active = true →
    aec.pulse = some (aec.sinkName, aec.sourceName) ∧ aec.sinkName ≠ [] ∧ aec.sourceName ≠ []
  owns : aec.owned = true ↔
    aec.active = true ∧ aec.sourceName = kAcvaSource ∧ aec.sinkName = kAcvaSink
  given : aec.active = true → ∃ index, issued index ∧ aec.moduleId = idBytes index
  /-- As long as its module is loaded, the object has the module's own names. -/
  names : aec.active = true → ∀ m ∈ modules, idBytes m.index = aec.moduleId →
    m.echo = some { id := aec.moduleId, sourceName := aec.sourceName, sinkName := aec.sinkName }

namespace Settled

variable {modules modules' : List ServerModule} {issued issued' : Nat → Prop}
  {useSystemAec : Bool} {aec : SystemAec}

/-- Modules go, and those that come have new indexes. -/
theorem mono (h : Settled modules issued useSystemAec aec)
    (hissued : ∀ index, issued index → issued' index)
    (hmodules : ∀ m ∈ modules', m ∈ modules ∨ ¬issued m.index) :
    Settled modules' issued' useSystemAec aec where
  unused := h.unused
  reports := h.reports
  idle := h.idle
  routes := h.routes
  owns := h.owns
  given hactive := by
    obtain ⟨index, hindex, hid⟩ := h.given hactive
    exact ⟨index, hissued index hindex, hid⟩
  names hactive m hm hid := by
    rcases hmodules m hm with hold | hnew
    · exact h.names hactive m hold hid
    · obtain ⟨index, hissued, hindex⟩ := h.given hactive
      have heq : m.index = index := idBytes_injective (hid.trans hindex)
      exact absurd (heq ▸ hissued) hnew

theorem ofUnused : Settled modules issued false {} where
  unused _ := rfl
  reports h := by cases h
  idle _ := ⟨rfl, rfl⟩
  routes h := by cases h
  owns := ⟨fun h => (by cases h), fun h => (by cases h.1)⟩
  given h := by cases h
  names h := by cases h

theorem ofError (error : Bytes) : Settled modules issued true { startupError := some error } where
  unused h := by cases h
  reports _ := ⟨fun _ => Option.some_ne_none _, fun _ => rfl⟩
  idle _ := ⟨rfl, rfl⟩
  routes h := by cases h
  owns := ⟨fun h => (by cases h), fun h => (by cases h.1)⟩
  given h := by cases h
  names h := by cases h

theorem ofRouted {owned : Bool} {existing : EchoCancelModule} {m : ServerModule}
    (hecho : m.echo = some existing) (hissued : issued m.index)
    (hapart : ∀ o ∈ modules, o.index = m.index → o = m)
    (hsource : existing.sourceName ≠ []) (hsink : existing.sinkName ≠ [])
    (howned : owned = true ↔
      existing.sourceName = kAcvaSource ∧ existing.sinkName = kAcvaSink) :
    Settled modules issued true (routed owned existing) where
  unused h := by cases h
  reports _ := ⟨fun h => (by cases h), fun h => absurd rfl h⟩
  idle h := by cases h
  routes _ := ⟨rfl, hsink, hsource⟩
  owns := howned.trans ⟨fun h => ⟨rfl, h⟩, fun h => h.2⟩
  given _ := ⟨m.index, hissued, ServerModule.echo_id hecho⟩
  names _ o ho hid := by
    have hindex : o.index = m.index :=
      idBytes_injective (hid.trans (ServerModule.echo_id hecho))
    rw [hapart o ho hindex, hecho]
    rfl

end Settled

section Constructors

variable {σ ε : Type} {server : SoundServer σ ε} {loaded : σ → List ServerModule}
  {issued : σ → Nat → Prop} {s : σ}

/-- What is listed is taken over, or refused with an error. -/
theorem settled_construct (hserves : server.Serves loaded issued) {useSystemAec : Bool}
    {useSystemAec' : Bool} {aec : SystemAec}
    (hi : construct useSystemAec (server.listShort s) = .constructed useSystemAec' aec) :
    Settled (loaded s) (issued s) useSystemAec' aec := by
  unfold construct at hi
  split at hi
  next =>
    split at hi
    next existing hfind =>
      obtain ⟨rfl, rfl⟩ : true = useSystemAec' ∧ reuse existing = aec := by simpa using hi
      obtain ⟨out, hlists⟩ : ∃ out, server.listShort s = some out := by
        cases hlists : server.listShort s with
        | none =>
            rw [hlists] at hfind
            cases hfind
        | some out => exact ⟨out, rfl⟩
      rw [hlists, hserves.find_eq hlists] at hfind
      obtain ⟨m, hm, hecho⟩ := List.exists_of_findSome?_eq_some hfind
      unfold reuse
      split
      next => exact Settled.ofError _
      next hnamed =>
        obtain ⟨hsource, hsink⟩ := not_or.mp hnamed
        exact Settled.ofRouted hecho (hserves.given s m hm)
          (fun o ho => hserves.eq_of_index hm ho) hsource hsink decide_eq_true_iff
    next => cases hi
  next =>
    obtain ⟨rfl, rfl⟩ : false = useSystemAec' ∧ {} = aec := by simpa using hi
    exact Settled.ofUnused

/-- What is loaded is acva's own. -/
theorem settled_ofLoaded (hserves : server.Serves loaded issued) (s : σ) :
    Settled (loaded (server.loadModule s).2) (issued (server.loadModule s).2) true
      (ofLoaded (server.loadModule s).1) := by
  cases hout : (server.loadModule s).1 with
  | none => exact Settled.ofError loadError
  | some out =>
      obtain ⟨m, hown, rfl, hchanges⟩ := hserves.loads s out hout
      have hnew : m ∈ loaded (server.loadModule s).2 := by
        rw [hchanges.after]
        exact List.mem_append_right _ List.mem_cons_self
      have hsource : (ownModule m.index).sourceName ≠ [] := show kAcvaSource ≠ [] by decide
      have hsink : (ownModule m.index).sinkName ≠ [] := show kAcvaSink ≠ [] by decide
      have howned : true = true ↔ (ownModule m.index).sourceName = kAcvaSource ∧
          (ownModule m.index).sinkName = kAcvaSink := iff_of_true rfl ⟨rfl, rfl⟩
      rw [ofLoaded_idBytes]
      exact Settled.ofRouted (ServerModule.echo_own hown) (hserves.given _ m hnew)
        (fun o ho => hserves.eq_of_index hnew ho) hsource hsink howned

end Constructors

/-! ## What comes of the modules -/

structure History where
  /-- The modules that acva has loaded. -/
  own : List ServerModule := []
  /-- The modules that destructors have unloaded. -/
  unloaded : List ServerModule := []
  /-- A module may be left: its owner was killed, or failed to unload it, and nobody has got the
  listing since. -/
  lost : Bool := false

section History

variable {σ ε : Type} (server : SoundServer σ ε) (loaded : σ → List ServerModule)

def noteLoad (h : History) (w : World σ) : History :=
  { h with own := h.own ++ came loaded w.server (w.loadOwn server).server }

def note (h : History) (w : World σ) : Action ε → History
  | .construct _ useSystemAec =>
      { h with lost := h.lost && !(useSystemAec && (server.listShort w.server).isSome) }
  | .load pid =>
      match w.instances pid with
      | some .loading => noteLoad server loaded h w
      | _ => h
  | .destroy pid =>
      match w.instances pid with
      | some (.constructed _ aec) =>
          if aec.owned = true then
            { h with
              unloaded :=
                h.unloaded ++ came loaded (w.unloadOwn server aec.moduleId).server w.server
              lost := h.lost || !(server.unloadModule aec.moduleId w.server).1 }
          else h
      | _ => h
  | .kill pid loads =>
      match w.instances pid with
      | some .loading =>
          if loads = true then { noteLoad server loaded h w with lost := true } else h
      | some (.constructed _ aec) => { h with lost := h.lost || aec.owned }
      | none => h
  | .others _ => h

/-- Where the server loads a module for acva, there is no canceller. -/
def Alone (w : World σ) : Prop :=
  (server.loadModule w.server).1.isSome = true → ∀ m ∈ loaded w.server, m.echo = none

instance (w : World σ) : Decidable (Alone server loaded w) :=
  inferInstanceAs (Decidable (_ → _))

/-- No canceller has come between the listing, in which there was none, and the loading. -/
def Orderly (w : World σ) : Action ε → Prop
  | .load _ => Alone server loaded w
  | .kill pid true => w.instances pid = some .loading → Alone server loaded w
  | _ => True

instance (w : World σ) : ∀ a : Action ε, Decidable (Orderly server loaded w a)
  | .load _ => inferInstanceAs (Decidable (Alone server loaded w))
  | .kill pid true =>
      inferInstanceAs (Decidable (w.instances pid = some .loading → Alone server loaded w))
  | .kill _ false => isTrue trivial
  | .others _ => isTrue trivial
  | .construct _ _ => isTrue trivial
  | .destroy _ => isTrue trivial

end History

section Runs

variable {σ ε : Type} {server : SoundServer σ ε} {loaded : σ → List ServerModule}
  {issued : σ → Nat → Prop} {w w' : World σ} {h : History}

/-- What a step does to the world, and what is noted of it. -/
inductive Steps (server : SoundServer σ ε) (loaded : σ → List ServerModule) (w : World σ)
    (h : History) : Action ε → World σ → History → Prop
  | others (e : ε) :
      Steps server loaded w h (.others e) { w with server := server.others e w.server } h
  | starts (pid : Nat) (useSystemAec : Bool) (hpid : w.instances pid = none) :
      Steps server loaded w h (.construct pid useSystemAec)
        (w.put pid (some (construct useSystemAec (server.listShort w.server))))
        { h with lost := h.lost && !(useSystemAec && (server.listShort w.server).isSome) }
  | loads (pid : Nat) (hpid : w.instances pid = some .loading) :
      Steps server loaded w h (.load pid)
        ((w.loadOwn server).put pid
          (some (.constructed true (ofLoaded (server.loadModule w.server).1))))
        (noteLoad server loaded h w)
  | unloads (pid : Nat) (useSystemAec : Bool) (aec : SystemAec)
      (hpid : w.instances pid = some (.constructed useSystemAec aec)) (howned : aec.owned = true) :
      Steps server loaded w h (.destroy pid) ((w.unloadOwn server aec.moduleId).put pid none)
        { h with
          unloaded :=
            h.unloaded ++ came loaded (w.unloadOwn server aec.moduleId).server w.server
          lost := h.lost || !(server.unloadModule aec.moduleId w.server).1 }
  | leaves (pid : Nat) (useSystemAec : Bool) (aec : SystemAec)
      (hpid : w.instances pid = some (.constructed useSystemAec aec)) (howned : aec.owned ≠ true) :
      Steps server loaded w h (.destroy pid) (w.put pid none) h
  /-- It was killed between the listing and the loading; the module is loaded. -/
  | killedLoading (pid : Nat) (hpid : w.instances pid = some .loading) :
      Steps server loaded w h (.kill pid true) ((w.loadOwn server).put pid none)
        { noteLoad server loaded h w with lost := true }
  | killedBefore (pid : Nat) (hpid : w.instances pid = some .loading) :
      Steps server loaded w h (.kill pid false) (w.put pid none) h
  | killed (pid : Nat) (loads useSystemAec : Bool) (aec : SystemAec)
      (hpid : w.instances pid = some (.constructed useSystemAec aec)) :
      Steps server loaded w h (.kill pid loads) (w.put pid none)
        { h with lost := h.lost || aec.owned }

theorem steps_of_step {a : Action ε} (hs : step server w a = some w') :
    Steps server loaded w h a w' (note server loaded h w a) := by
  cases a with
  | others e =>
      obtain rfl := Option.some.inj hs
      exact .others e
  | construct pid useSystemAec =>
      simp only [step] at hs
      split at hs
      next hpid =>
        obtain rfl := Option.some.inj hs
        exact .starts pid useSystemAec hpid
      next => cases hs
  | load pid =>
      simp only [step] at hs
      split at hs
      next hpid =>
        obtain rfl := Option.some.inj hs
        simp only [note, hpid]
        exact .loads pid hpid
      next => cases hs
  | destroy pid =>
      simp only [step] at hs
      split at hs
      next useSystemAec aec hpid =>
        obtain rfl := Option.some.inj hs
        simp only [note, hpid]
        by_cases howned : aec.owned = true
        · rw [if_pos howned, if_pos howned]
          exact .unloads pid useSystemAec aec hpid howned
        · rw [if_neg howned, if_neg howned]
          exact .leaves pid useSystemAec aec hpid howned
      next => cases hs
  | kill pid loads =>
      simp only [step] at hs
      split at hs
      next => cases hs
      next hpid =>
        obtain rfl := Option.some.inj hs
        simp only [note, hpid]
        cases loads with
        | true => exact .killedLoading pid hpid
        | false => exact .killedBefore pid hpid
      next useSystemAec aec hpid =>
        obtain rfl := Option.some.inj hs
        simp only [note, hpid]
        exact .killed pid loads useSystemAec aec hpid

/-- Nothing is loaded, or a module of acva's behind the others. -/
theorem loadOwn_cases (hserves : server.Serves loaded issued) (w : World σ) (h : History) :
    ((server.loadModule w.server).1 = none ∧ noteLoad server loaded h w = h ∧
        Changes loaded issued w.server (w.loadOwn server).server (loaded w.server) []) ∨
      ∃ m, m.IsOwn ∧ (server.loadModule w.server).1 = some (idBytes m.index ++ [byte '\n']) ∧
        noteLoad server loaded h w = { h with own := h.own ++ [m] } ∧
        Changes loaded issued w.server (w.loadOwn server).server (loaded w.server) [m] := by
  cases hout : (server.loadModule w.server).1 with
  | none =>
      have hchanges : Changes loaded issued w.server (w.loadOwn server).server
          (loaded w.server) [] := hserves.loadFails w.server hout
      refine .inl ⟨rfl, ?_, hchanges⟩
      rw [noteLoad, came_eq hserves hchanges, List.append_nil]
  | some out =>
      obtain ⟨m, hown, rfl, hloaded⟩ := hserves.loads w.server out hout
      have hchanges : Changes loaded issued w.server (w.loadOwn server).server
          (loaded w.server) [m] := hloaded
      refine .inr ⟨m, hown, rfl, ?_, hchanges⟩
      rw [noteLoad, came_eq hserves hchanges]

structure AecInv (loaded : σ → List ServerModule) (issued : σ → Nat → Prop)
    (p : World σ × History) : Prop where
  settled : ∀ pid useSystemAec aec, p.1.instances pid = some (.constructed useSystemAec aec) →
    Settled (loaded p.1.server) (issued p.1.server) useSystemAec aec
  own : ∀ m ∈ p.2.own, m.IsOwn ∧ issued p.1.server m.index
  unloaded : ∀ m ∈ p.2.unloaded, m.echo = some (ownModule m.index)

namespace AecInv

theorem changes (hi : AecInv loaded issued (w, h)) {s' : σ} {kept new : List ServerModule}
    (hchanges : Changes loaded issued w.server s' kept new) :
    AecInv loaded issued ({ w with server := s' }, h) where
  settled pid useSystemAec aec hpid :=
    (hi.settled pid useSystemAec aec hpid).mono hchanges.remembered fun _ hm => hchanges.mem hm
  own m hm := (hi.own m hm).imp_right (hchanges.remembered m.index)
  unloaded := hi.unloaded

theorem put (hi : AecInv loaded issued (w, h)) (pid : Nat) {i : Option Instance}
    (hsettled : ∀ useSystemAec aec, i = some (.constructed useSystemAec aec) →
      Settled (loaded w.server) (issued w.server) useSystemAec aec) :
    AecInv loaded issued (w.put pid i, h) where
  settled q useSystemAec aec hq := by
    by_cases hpid : q = pid
    · subst hpid
      exact hsettled useSystemAec aec (by simpa [World.put] using hq)
    · exact hi.settled q useSystemAec aec (by simpa [World.put, hpid] using hq)
  own := hi.own
  unloaded := hi.unloaded

theorem lose (hi : AecInv loaded issued (w, h)) (lost : Bool) :
    AecInv loaded issued (w, { h with lost := lost }) :=
  ⟨hi.settled, hi.own, hi.unloaded⟩

/-- What comes when acva has a module loaded is acva's own. -/
theorem loadOwn (hserves : server.Serves loaded issued) (hi : AecInv loaded issued (w, h)) :
    AecInv loaded issued (w.loadOwn server, noteLoad server loaded h w) := by
  rcases loadOwn_cases hserves w h with ⟨-, hnote, hchanges⟩ | ⟨m, hown, -, hnote, hchanges⟩
  · rw [hnote]
    exact hi.changes hchanges
  · have hafter := hi.changes hchanges
    have hnew : m ∈ loaded (w.loadOwn server).server := by
      rw [hchanges.after]
      exact List.mem_append_right _ List.mem_cons_self
    rw [hnote]
    refine ⟨hafter.settled, fun o ho => ?_, hafter.unloaded⟩
    rcases List.mem_append.mp ho with hold | hlast
    · exact hafter.own o hold
    · rw [List.mem_singleton.mp hlast]
      exact ⟨hown, hserves.given _ m hnew⟩

/-- An owner unloads a module that has acva's names, or none. -/
theorem unloadOwn (hserves : server.Serves loaded issued) (hi : AecInv loaded issued (w, h))
    {pid : Nat} {useSystemAec : Bool} {aec : SystemAec}
    (hpid : w.instances pid = some (.constructed useSystemAec aec)) (howned : aec.owned = true) :
    ∃ kept, Changes loaded issued w.server (w.unloadOwn server aec.moduleId).server kept [] ∧
      ∀ m ∈ came loaded (w.unloadOwn server aec.moduleId).server w.server,
        m.echo = some (ownModule m.index) := by
  have hsettled := hi.settled pid useSystemAec aec hpid
  obtain ⟨hactive, hsource, hsink⟩ := hsettled.owns.mp howned
  obtain ⟨index, -, hid⟩ := hsettled.given hactive
  rw [hid]
  cases hok : (server.unloadModule (idBytes index) w.server).1 with
  | false =>
      have hchanges := hserves.unloadFails w.server index hok
      refine ⟨_, hchanges, fun m hm => ?_⟩
      obtain ⟨hbefore, hgone⟩ := List.mem_filter.mp hm
      refine absurd ?_ (of_decide_eq_true hgone)
      show m ∈ loaded (server.unloadModule (idBytes index) w.server).2
      rw [hchanges.after, List.append_nil]
      exact hbefore
  | true =>
      have hchanges := hserves.unloads w.server index hok
      refine ⟨_, hchanges, fun m hm => ?_⟩
      obtain ⟨hbefore, hgone⟩ := List.mem_filter.mp hm
      have hindex : m.index = index := by
        by_contra hne
        refine absurd ?_ (of_decide_eq_true hgone)
        show m ∈ loaded (server.unloadModule (idBytes index) w.server).2
        rw [hchanges.after, List.append_nil]
        exact List.mem_filter.mpr ⟨hbefore, decide_eq_true hne⟩
      have hown : idBytes m.index = aec.moduleId := hindex ▸ hid.symm
      rw [hsettled.names hactive m hbefore hown, hsource, hsink, ← hown]
      rfl

end AecInv

theorem AecInv.step (hserves : server.Serves loaded issued) (hi : AecInv loaded issued (w, h))
    {a : Action ε} (hs : step server w a = some w') :
    AecInv loaded issued (w', note server loaded h w a) := by
  have hsteps : Steps server loaded w h a w' (note server loaded h w a) := steps_of_step hs
  generalize note server loaded h w a = h' at hsteps ⊢
  cases hsteps with
  | others e =>
      obtain ⟨kept, new, hchanges⟩ := hserves.others e w.server
      exact hi.changes hchanges
  | starts pid useSystemAec hpid =>
      refine (hi.lose _).put pid fun _ _ hsome => ?_
      exact settled_construct hserves (Option.some.inj hsome)
  | loads pid hpid =>
      refine (hi.loadOwn hserves).put pid fun _ _ hsome => ?_
      cases hsome
      exact settled_ofLoaded hserves w.server
  | unloads pid useSystemAec aec hpid howned =>
      obtain ⟨kept, hchanges, hgone⟩ := hi.unloadOwn hserves hpid howned
      have hafter := (hi.changes hchanges).put pid (i := none) fun _ _ hsome => (by cases hsome)
      refine ⟨hafter.settled, hafter.own, fun m hm => ?_⟩
      exact (List.mem_append.mp hm).elim (hi.unloaded m) (hgone m)
  | leaves pid useSystemAec aec hpid howned =>
      exact hi.put pid fun _ _ hsome => (by cases hsome)
  | killedLoading pid hpid =>
      exact ((hi.loadOwn hserves).lose true).put pid fun _ _ hsome => (by cases hsome)
  | killedBefore pid hpid => exact hi.put pid fun _ _ hsome => (by cases hsome)
  | killed pid loads useSystemAec aec hpid =>
      exact (hi.lose _).put pid fun _ _ hsome => (by cases hsome)

end Runs

/-! ## Who owns a module -/

def HasOwner {σ : Type} (w : World σ) (m : ServerModule) : Prop :=
  ∃ pid aec, w.instances pid = some (.constructed true aec) ∧ aec.owned = true ∧
    aec.moduleId = idBytes m.index

section Owners

variable {σ : Type} {w : World σ} {m : ServerModule}

/-- An owner is left by what happens to another process. -/
theorem HasOwner.put {pid : Nat} (h : HasOwner w m)
    (hother : ∀ useSystemAec aec, w.instances pid = some (.constructed useSystemAec aec) →
      aec.owned = true → aec.moduleId ≠ idBytes m.index) (i : Option Instance) :
    HasOwner (w.put pid i) m := by
  obtain ⟨q, aec, hq, howned, hid⟩ := h
  have hne : q ≠ pid := by
    rintro rfl
    exact hother true aec hq howned hid
  exact ⟨q, aec, (Function.update_of_ne hne _ _).trans hq, howned, hid⟩

theorem hasOwner_put {aec : SystemAec} (pid : Nat) (howned : aec.owned = true)
    (hid : aec.moduleId = idBytes m.index) :
    HasOwner (w.put pid (some (.constructed true aec))) m :=
  ⟨pid, aec, Function.update_self _ _ _, howned, hid⟩

end Owners

section Foremost

variable {modules own : List ServerModule}

/-- The listing leads to the module that acva has loaded. -/
theorem findSome?_of_foremost (h : modules.Pairwise fun a b => b ∈ own → a.echo = none)
    {m : ServerModule} (hm : m ∈ modules) (hmem : m ∈ own) (hown : m.IsOwn) :
    modules.findSome? ServerModule.echo = some (ownModule m.index) := by
  induction h with
  | nil => cases hm
  | cons hfirst _ ih =>
      rename_i a rest _
      rcases List.mem_cons.mp hm with rfl | hlater
      · rw [List.findSome?_cons, ServerModule.echo_own hown]
      · rw [List.findSome?_cons, hfirst m hlater hmem]
        exact ih hlater

/-- There is one at most, since its own line is that of a canceller. -/
theorem length_own_le (h : modules.Pairwise fun a b => b ∈ own → a.echo = none)
    (hown : ∀ m ∈ own, m.IsOwn) : (modules.filter fun m => m ∈ own).length ≤ 1 := by
  induction h with
  | nil => exact Nat.zero_le 1
  | cons hfirst _ ih =>
      rename_i a rest _
      by_cases ha : a ∈ own
      · have hnone : rest.filter (fun m => m ∈ own) = [] := by
          refine List.filter_eq_nil_iff.mpr fun m hm hmem => ?_
          have hecho := ServerModule.echo_own (hown a ha)
          rw [hfirst m hm (of_decide_eq_true hmem)] at hecho
          cases hecho
        rw [List.filter_cons, if_pos (decide_eq_true ha), hnone]
        exact Nat.le_refl 1
      · rw [List.filter_cons_of_neg (by simpa using ha)]
        exact ih

end Foremost

structure Managed {σ : Type} (loaded : σ → List ServerModule) (p : World σ × History) :
    Prop where
  /-- In front of a module that acva has loaded there is no canceller. -/
  foremost : (loaded p.1.server).Pairwise fun a b => b ∈ p.2.own → a.echo = none
  hasOwner : p.2.lost = false → ∀ m ∈ loaded p.1.server, m ∈ p.2.own → HasOwner p.1 m

namespace Managed

variable {σ ε : Type} {server : SoundServer σ ε} {loaded : σ → List ServerModule}
  {issued : σ → Nat → Prop} {w w' : World σ} {h : History}

/-- What comes by itself is not acva's. -/
theorem changes (hi : AecInv loaded issued (w, h)) (hm : Managed loaded (w, h)) {s' : σ}
    {kept new : List ServerModule} (hchanges : Changes loaded issued w.server s' kept new) :
    Managed loaded ({ w with server := s' }, h) where
  foremost := by
    show (loaded s').Pairwise _
    rw [hchanges.after]
    refine List.pairwise_append.mpr ⟨hm.foremost.sublist hchanges.sublist, ?_, ?_⟩
    · refine List.pairwise_of_forall_mem_list fun a _ b hb hmem => ?_
      exact absurd (hi.own b hmem).2 (hchanges.fresh b hb)
    · intro a _ b hb hmem
      exact absurd (hi.own b hmem).2 (hchanges.fresh b hb)
  hasOwner hlost m hmem hown := by
    rcases hchanges.mem hmem with hold | hnew
    · exact hm.hasOwner hlost m hold hown
    · exact absurd (hi.own m hown).2 hnew

/-- A process comes or goes that owned nothing. -/
theorem put (hm : Managed loaded (w, h)) {pid : Nat} (lost : Bool)
    (hlost : lost = false → h.lost = false)
    (hother : ∀ useSystemAec aec, w.instances pid = some (.constructed useSystemAec aec) →
      aec.owned ≠ true) (i : Option Instance) :
    Managed loaded (w.put pid i, { h with lost := lost }) where
  foremost := hm.foremost
  hasOwner hl m hmem hown :=
    (hm.hasOwner (hlost hl) m hmem hown).put
      (fun useSystemAec aec hpid howned => absurd howned (hother useSystemAec aec hpid)) i

/-- What is lost is not looked for. -/
theorem ofLost (hm : (loaded w.server).Pairwise fun a b => b ∈ h.own → a.echo = none)
    (hlost : h.lost = true) : Managed loaded (w, h) where
  foremost := hm
  hasOwner hl := by
    rw [hlost] at hl
    cases hl

/-- A process that starts and gets the listing takes acva's module over. -/
theorem construct (hserves : server.Serves loaded issued) (hi : AecInv loaded issued (w, h))
    (hm : Managed loaded (w, h)) {pid : Nat} (hpid : w.instances pid = none)
    (useSystemAec : Bool) :
    Managed loaded
      (w.put pid (some (SystemAec.construct useSystemAec (server.listShort w.server))),
        { h with lost := h.lost && !(useSystemAec && (server.listShort w.server).isSome) }) where
  foremost := hm.foremost
  hasOwner hl m hmem hown := by
    by_cases hasks : useSystemAec = true ∧ (server.listShort w.server).isSome = true
    · obtain ⟨rfl, hsome⟩ := hasks
      obtain ⟨out, hlists⟩ := Option.isSome_iff_exists.mp hsome
      have hfind : findExistingEchoCancel (some out) = some (ownModule m.index) := by
        rw [hserves.find_eq hlists]
        exact findSome?_of_foremost hm.foremost hmem hown (hi.own m hown).1
      have hreuse : reuse (ownModule m.index) = routed true (ownModule m.index) := by
        unfold reuse
        rw [if_neg (by simp [ownModule, kAcvaSource, kAcvaSink, ascii])]
        congr 1
      have hconstruct : SystemAec.construct true (some out) =
          .constructed true (routed true (ownModule m.index)) := by
        rw [SystemAec.construct, if_pos rfl, hfind]
        exact congrArg (Instance.constructed true) hreuse
      rw [hlists, hconstruct]
      exact hasOwner_put pid rfl rfl
    · have hlost : h.lost = false := by
        revert hl hasks
        cases h.lost <;> cases useSystemAec <;> cases (server.listShort w.server).isSome <;> simp
      refine (hm.hasOwner hlost m hmem hown).put (fun _ _ hsome => ?_) _
      rw [hpid] at hsome
      cases hsome

/-- Where there is no canceller, no module is left that acva has loaded. -/
theorem not_mem_own (hi : AecInv loaded issued (w, h))
    (hnone : ∀ m ∈ loaded w.server, m.echo = none) {m : ServerModule}
    (hmem : m ∈ loaded w.server) : m ∉ h.own := by
  intro hown
  have hecho := ServerModule.echo_own (hi.own m hown).1
  rw [hnone m hmem] at hecho
  cases hecho

/-- A module that comes where there was no canceller is the foremost. -/
theorem foremost_loadOwn (hserves : server.Serves loaded issued) (hi : AecInv loaded issued (w, h))
    (hm : Managed loaded (w, h)) (halone : Alone server loaded w) :
    (loaded (w.loadOwn server).server).Pairwise
      fun a b => b ∈ (noteLoad server loaded h w).own → a.echo = none := by
  rcases loadOwn_cases hserves w h with ⟨-, hnote, hchanges⟩ | ⟨m, -, hout, -, hchanges⟩
  · rw [hnote]
    exact (hm.changes hi hchanges).foremost
  · have hnone := halone (by rw [hout]; rfl)
    rw [hchanges.after]
    refine List.pairwise_append.mpr ⟨?_, List.pairwise_singleton _ _, ?_⟩
    · exact List.pairwise_of_forall_mem_list fun a ha _ _ _ => hnone a ha
    · exact fun a ha _ _ _ => hnone a ha

/-- The module is loaded for a process that is there to own it. -/
theorem load (hserves : server.Serves loaded issued) (hi : AecInv loaded issued (w, h))
    (hm : Managed loaded (w, h)) {pid : Nat} (hpid : w.instances pid = some .loading)
    (halone : Alone server loaded w) :
    Managed loaded
      ((w.loadOwn server).put pid
          (some (.constructed true (ofLoaded (server.loadModule w.server).1))),
        noteLoad server loaded h w) := by
  refine ⟨foremost_loadOwn hserves hi hm halone, fun hlost m hmem hown => ?_⟩
  have hfree : ∀ useSystemAec aec,
      w.instances pid = some (.constructed useSystemAec aec) → aec.owned ≠ true := by
    intro _ _ hsome
    rw [hpid] at hsome
    cases hsome
  rcases loadOwn_cases hserves w h with ⟨-, hnote, hchanges⟩ | ⟨o, -, hout, hnote, hchanges⟩
  · rw [hnote] at hlost hown
    exact ((hm.changes hi hchanges).put h.lost id hfree _).hasOwner hlost m hmem hown
  · have hnone := halone (by rw [hout]; rfl)
    have hlast : m = o := by
      have hafter : m ∈ loaded (w.loadOwn server).server := hmem
      rw [hchanges.after] at hafter
      rw [hnote] at hown
      refine (List.mem_append.mp hafter).elim (fun hold => ?_) List.mem_singleton.mp
      exact (List.mem_append.mp hown).elim
        (fun hbefore => absurd hbefore (not_mem_own hi hnone hold)) List.mem_singleton.mp
    rw [hlast, hout, ofLoaded_idBytes]
    exact hasOwner_put pid rfl rfl

/-- An owner unloads its module, and is not missed. -/
theorem destroy (hserves : server.Serves loaded issued) (hi : AecInv loaded issued (w, h))
    (hm : Managed loaded (w, h)) {pid : Nat} {useSystemAec : Bool} {aec : SystemAec}
    (hpid : w.instances pid = some (.constructed useSystemAec aec)) (howned : aec.owned = true)
    (unloaded : List ServerModule) :
    Managed loaded ((w.unloadOwn server aec.moduleId).put pid none,
      { h with
        unloaded := unloaded
        lost := h.lost || !(server.unloadModule aec.moduleId w.server).1 }) := by
  have hsettled := hi.settled pid useSystemAec aec hpid
  obtain ⟨index, -, hid⟩ := hsettled.given (hsettled.owns.mp howned).1
  rw [hid]
  cases hok : (server.unloadModule (idBytes index) w.server).1 with
  | false =>
      have hchanges := hserves.unloadFails w.server index hok
      exact ofLost (w := (w.unloadOwn server (idBytes index)).put pid none)
        (hm.changes hi hchanges).foremost (Bool.or_true _)
  | true =>
      have hchanges := hserves.unloads w.server index hok
      have hafter := hm.changes hi hchanges
      refine ⟨hafter.foremost, fun hlost m hmem hown => ?_⟩
      have hlost : h.lost = false := (Bool.or_false h.lost).symm.trans hlost
      have howner : HasOwner (w.unloadOwn server (idBytes index)) m :=
        hafter.hasOwner hlost m hmem hown
      refine HasOwner.put howner (fun _ _ hsome _ hother => ?_) none
      obtain ⟨-, rfl⟩ : _ = useSystemAec ∧ _ = aec := by
        simpa using Option.some.inj (hsome.symm.trans hpid)
      have hkept : m ∈ loaded (server.unloadModule (idBytes index) w.server).2 := hmem
      rw [hchanges.after, List.append_nil] at hkept
      exact of_decide_eq_true (List.mem_filter.mp hkept).2
        (idBytes_injective (hother.symm.trans hid))

theorem step (hserves : server.Serves loaded issued) (hi : AecInv loaded issued (w, h))
    (hm : Managed loaded (w, h)) {a : Action ε} (hok : Orderly server loaded w a)
    (hs : SystemAec.step server w a = some w') :
    Managed loaded (w', note server loaded h w a) := by
  have hsteps : Steps server loaded w h a w' (note server loaded h w a) := steps_of_step hs
  generalize note server loaded h w a = h' at hsteps ⊢
  cases hsteps with
  | others e =>
      obtain ⟨kept, new, hchanges⟩ := hserves.others e w.server
      exact hm.changes hi hchanges
  | starts pid useSystemAec hpid => exact construct hserves hi hm hpid useSystemAec
  | loads pid hpid => exact load hserves hi hm hpid hok
  | unloads pid useSystemAec aec hpid howned => exact destroy hserves hi hm hpid howned _
  | leaves pid useSystemAec aec hpid howned =>
      refine hm.put h.lost id (fun _ _ hsome => ?_) none
      rw [hpid] at hsome
      cases hsome
      exact howned
  | killedLoading pid hpid =>
      exact ofLost (w := (w.loadOwn server).put pid none)
        (foremost_loadOwn hserves hi hm (hok hpid)) rfl
  | killedBefore pid hpid =>
      refine hm.put h.lost id (fun _ _ hsome => ?_) none
      rw [hpid] at hsome
      cases hsome
  | killed pid loads useSystemAec aec hpid =>
      cases howned : aec.owned with
      | true => exact ofLost (w := w.put pid none) hm.foremost (Bool.or_true _)
      | false =>
          refine hm.put _ (fun hl => by simpa using hl) (fun _ _ hsome => ?_) none
          rw [hpid] at hsome
          cases hsome
          rw [howned]
          decide

end Managed

/-! ## Any run -/

section Main

variable {σ ε : Type} {server : SoundServer σ ε} {loaded : σ → List ServerModule}
  {issued : σ → Nat → Prop}

end Main

/-! ## A server -/

/-- A server that counts its indexes up. It may be out of reach. -/
structure ModuleTable where
  modules : List ServerModule := []
  nextIndex : Nat := 0
  reachable : Bool := true
  below : ∀ m ∈ modules, m.index < nextIndex
  apart : (modules.map ServerModule.index).Nodup

namespace ModuleTable

def empty : ModuleTable where
  modules := []
  below _ hm := by cases hm
  apart := List.nodup_nil

def push (t : ModuleTable) (text : Bytes) (oneLine : byte '\n' ∉ text) : ModuleTable where
  modules := t.modules ++ [{ index := t.nextIndex, text := text, oneLine := oneLine }]
  nextIndex := t.nextIndex + 1
  reachable := t.reachable
  below m hm := by
    rcases List.mem_append.mp hm with hold | hnew
    · exact Nat.lt_succ_of_lt (t.below m hold)
    · rw [List.mem_singleton.mp hnew]
      exact Nat.lt_succ_self _
  apart := by
    have hnew : t.nextIndex ∉ t.modules.map ServerModule.index := by
      intro hmem
      obtain ⟨m, hm, hindex⟩ := List.mem_map.mp hmem
      exact absurd hindex (t.below m hm).ne
    rw [List.map_append]
    exact t.apart.append (List.nodup_singleton _) (List.disjoint_singleton.mpr hnew)

def keep (t : ModuleTable) (p : ServerModule → Bool) : ModuleTable where
  modules := t.modules.filter p
  nextIndex := t.nextIndex
  reachable := t.reachable
  below m hm := t.below m (List.mem_of_mem_filter hm)
  apart := t.apart.sublist (List.filter_sublist.map _)

inductive Change
  | load (text : Bytes)
  | unload (index : Nat)
  | reach (reachable : Bool)

def change (t : ModuleTable) : Change → ModuleTable
  | .load text => if oneLine : byte '\n' ∉ text then t.push text oneLine else t
  | .unload index => t.keep fun m => m.index ≠ index
  | .reach reachable => { t with reachable := reachable }

/-- The line of acva's module. -/
def ownLine : Bytes :=
  ownText ++ ascii "aec_args=analog_gain_control=0 digital_gain_control=1 " ++
    ascii "noise_suppression=1 high_pass_filter=1"

theorem oneLine_ownLine : byte '\n' ∉ ownLine := by decide +kernel

theorem ownText_prefix : ownText <+: ownLine := by
  rw [ownLine, List.append_assoc]
  exact List.prefix_append _ _

def server : SoundServer ModuleTable Change where
  listShort t :=
    if t.reachable = true then
      some (Records.written (byte '\n') (t.modules.map ServerModule.line))
    else none
  loadModule t :=
    if t.reachable = true then
      (some (idBytes t.nextIndex ++ [byte '\n']), t.push ownLine oneLine_ownLine)
    else (none, t)
  unloadModule id t :=
    if t.reachable = true ∧ ∃ m ∈ t.modules, idBytes m.index = id then
      (true, t.keep fun m => idBytes m.index ≠ id)
    else (false, t)
  others e t := t.change e

def Issued (t : ModuleTable) (index : Nat) : Prop := index < t.nextIndex

variable {t : ModuleTable}

theorem changes_push (text : Bytes) (oneLine : byte '\n' ∉ text) :
    Changes modules Issued t (t.push text oneLine) t.modules
      [{ index := t.nextIndex, text := text, oneLine := oneLine }] where
  after := rfl
  sublist := List.Sublist.refl _
  fresh m hm := by
    rw [List.mem_singleton.mp hm]
    exact Nat.lt_irrefl _
  remembered _ := Nat.lt_succ_of_lt

theorem changes_keep (p : ServerModule → Bool) :
    Changes modules Issued t (t.keep p) (t.modules.filter p) [] where
  after := (List.append_nil _).symm
  sublist := List.filter_sublist
  fresh m hm := by cases hm
  remembered _ := id

theorem changes_none {t' : ModuleTable} (hmodules : t'.modules = t.modules)
    (hnext : t'.nextIndex = t.nextIndex) : Changes modules Issued t t' t.modules [] where
  after := hmodules.trans (List.append_nil _).symm
  sublist := List.Sublist.refl _
  fresh m hm := by cases hm
  remembered index h := by
    show index < t'.nextIndex
    rw [hnext]
    exact h

theorem server_serves : server.Serves modules Issued where
  apart t := t.apart
  given t m hm := t.below m hm
  lists t out h := by
    simp only [server] at h
    split at h
    next => exact (Option.some.inj h).symm
    next => cases h
  loads t out h := by
    simp only [server] at h ⊢
    split at h
    next hreach =>
      rw [if_pos hreach]
      exact ⟨{ index := t.nextIndex, text := ownLine, oneLine := oneLine_ownLine },
        ownText_prefix, (Option.some.inj h).symm, changes_push ownLine oneLine_ownLine⟩
    next => cases h
  loadFails t h := by
    simp only [server] at h ⊢
    split at h
    next => cases h
    next hnot =>
      rw [if_neg hnot]
      exact changes_none rfl rfl
  unloads t index h := by
    simp only [server] at h ⊢
    split at h
    next hthere =>
      rw [if_pos hthere]
      have hsame : (fun m : ServerModule => decide (idBytes m.index ≠ idBytes index)) =
          fun m => decide (m.index ≠ index) := by
        funext m
        exact decide_eq_decide.mpr (not_congr ⟨idBytes_injective, congrArg idBytes⟩)
      rw [← hsame]
      exact changes_keep _
    next => cases h
  unloadFails t index h := by
    simp only [server] at h ⊢
    split at h
    next => cases h
    next hnot =>
      rw [if_neg hnot]
      exact changes_none rfl rfl
  others e t := by
    cases e with
    | load text =>
        simp only [server, change]
        split
        next oneLine => exact ⟨_, _, changes_push text oneLine⟩
        next => exact ⟨_, _, changes_none rfl rfl⟩
    | unload index => exact ⟨_, _, changes_keep _⟩
    | reach reachable => exact ⟨_, _, changes_none rfl rfl⟩

end ModuleTable

/-- The owner is killed, and the next process takes its module over. -/
def takenOver : List (Action ModuleTable.Change) :=
  [.others (.load (ascii "module-null-sink")), .construct 1 true, .load 1, .kill 1 false,
    .construct 2 true]

/-- A process that starts beside another takes its module over as well, and unloads it under it. -/
example : ∃ w, Runs.run (step ModuleTable.server) { server := ModuleTable.empty }
      [.construct 1 true, .load 1, .construct 2 true, .destroy 2] = some w ∧
    w.server.modules.length = 0 ∧
    w.instances 1 = some (.constructed true (routed true (ownModule 0))) := by
  refine ⟨(Runs.run (step ModuleTable.server) { server := ModuleTable.empty }
    [.construct 1 true, .load 1, .construct 2 true, .destroy 2]).get (by decide +kernel), ?_,
    by decide +kernel, by decide +kernel⟩
  exact (Option.some_get _).symm

end Acva.Orchestrator.SystemAec
