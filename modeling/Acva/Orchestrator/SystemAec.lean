import Acva.Core.Records
import Acva.Core.Substring
import Acva.Memory.SourceText

/-! # The echo canceller of the sound server

acva drives a module of the sound server from outside: it lists the modules, takes over the one
that is there or loads its own, and its destructor unloads what it owns. The server outlives the
process, which can be killed at any point, and it has other clients.
-/

namespace Acva.Orchestrator

open Acva.Memory (idBytes isDigit decimal_idBytes isDigit_of_mem_idBytes)

structure SystemAec where
  active : Bool := false
  owned : Bool := false
  moduleId : Bytes := []
  sourceName : Bytes := []
  sinkName : Bytes := []
  startupError : Option Bytes := none
  /-- What the process has put into `PULSE_SINK` and `PULSE_SOURCE`. -/
  pulse : Option (Bytes × Bytes) := none
deriving DecidableEq, Repr

namespace SystemAec

/-! ## A line of the listing -/

structure EchoCancelModule where
  id : Bytes
  sourceName : Bytes
  sinkName : Bytes
deriving DecidableEq, Repr

def isBlank (b : UInt8) : Bool := b = byte ' ' || b = byte '\t'

/-- The value of `key=`, empty where there is none. -/
def extractKv (args key : Bytes) : Bytes :=
  match Substring.find key args with
  | none => []
  | some pos => (args.drop (pos + key.length)).takeWhile fun b => !(isBlank b || b = byte '\n')

def kName : Bytes := ascii "module-echo-cancel"

def parseEchoCancelModuleLine (line : Bytes) : Option EchoCancelModule :=
  match Substring.find kName line with
  | none => none
  | some namePos =>
      let id := line.takeWhile fun b => !isBlank b
      -- There is no blank, or nothing in front of the first.
      if id = line ∨ id = [] then none
      else if id.all isDigit = true then
        let args := (line.drop (namePos + kName.length)).dropWhile fun b => !isBlank b
        some
          { id := id
            sourceName := extractKv args (ascii "source_name=")
            sinkName := extractKv args (ascii "sink_name=") }
      else none

/-- The walk over the output, with the line as far as it has been read. -/
def tryLines (line : Bytes) : Bytes → Option EchoCancelModule
  | [] => parseEchoCancelModuleLine line
  | c :: out =>
      if c = byte '\n' then
        match parseEchoCancelModuleLine line with
        | some m => some m
        | none => tryLines [] out
      else tryLines (line ++ [c]) out

/-- The output of `pactl`, `none` where it has failed. -/
def findExistingEchoCancel (out : Option Bytes) : Option EchoCancelModule := out.bind (tryLines [])

/-! ## The constructor -/

def isTrimmed (b : UInt8) : Bool := isBlank b || b = byte '\n' || b = byte '\r'

def trim (s : Bytes) : Bytes := ((s.dropWhile isTrimmed).reverse.dropWhile isTrimmed).reverse

/-- The id of the module that was loaded, empty where none was. -/
def loadModule (out : Option Bytes) : Bytes :=
  match out with
  | none => []
  | some out => if (trim out).all isDigit = true then trim out else []

def kAcvaSource : Bytes := ascii "acva-echo-source"

def kAcvaSink : Bytes := ascii "acva-echo-sink"

def unnamedError (id : Bytes) : Bytes :=
  ascii "module-echo-cancel id=" ++ id ++
    ascii " is loaded but its arguments lack source_name= and/or sink_name= (see " ++
    ascii "`pactl list short modules`). acva can't reliably route audio through it. " ++
    ascii "Either unload it (`pactl unload-module " ++ id ++
    ascii "`) and let acva load its own, or set cfg.apm.use_system_aec: false."

def loadError : Bytes :=
  ascii "use_system_aec=true but `pactl load-module module-echo-cancel` failed. " ++
    ascii "Is pactl installed and PulseAudio/PipeWire running? " ++
    ascii "Set cfg.apm.use_system_aec: false to disable system AEC (note: the in-process APM " ++
    ascii "path is known to be ineffective on the dev workstation's laptop codec " ++
    [0xE2, 0x80, 0x94] ++ ascii " see docs/aec_report.md)."

def routed (owned : Bool) (existing : EchoCancelModule) : SystemAec :=
  { active := true
    owned := owned
    moduleId := existing.id
    sourceName := existing.sourceName
    sinkName := existing.sinkName
    pulse := some (existing.sinkName, existing.sourceName) }

/-- A module is there. It is acva's own if it has acva's names, most likely that of a run that was
killed. -/
def reuse (existing : EchoCancelModule) : SystemAec :=
  if existing.sourceName = [] ∨ existing.sinkName = [] then
    { startupError := some (unnamedError existing.id) }
  else
    routed (existing.sourceName = kAcvaSource ∧ existing.sinkName = kAcvaSink) existing

/-- None was there, and `pactl` has been asked to load one. -/
def ofLoaded (out : Option Bytes) : SystemAec :=
  let id := loadModule out
  if id = [] then { startupError := some loadError }
  else routed true { id := id, sourceName := kAcvaSource, sinkName := kAcvaSink }

/-- The constructor up to `load_module`, and after it. -/
inductive Instance
  | loading
  | constructed (useSystemAec : Bool) (aec : SystemAec)
deriving DecidableEq, Repr

def construct (useSystemAec : Bool) (listing : Option Bytes) : Instance :=
  if useSystemAec = true then
    match findExistingEchoCancel listing with
    | some existing => .constructed true (reuse existing)
    | none => .loading
  else .constructed false {}

/-! ## The server

acva knows the server by what `pactl` prints. What the server is stays open: `Serves` is what is
relied on.
-/

structure ServerModule where
  index : Nat
  /-- Its line in the listing, behind the index. -/
  text : Bytes
  oneLine : byte '\n' ∉ text
deriving DecidableEq

/-- The arguments that `load_module` gives, up to the quoted ones. -/
def ownArgs : Bytes :=
  ascii "source_name=acva-echo-source sink_name=acva-echo-sink aec_method=webrtc "

def ownText : Bytes := kName ++ byte '\t' :: ownArgs

namespace ServerModule

def line (m : ServerModule) : Bytes := idBytes m.index ++ byte '\t' :: m.text

/-- What acva takes the module for. -/
def echo (m : ServerModule) : Option EchoCancelModule := parseEchoCancelModuleLine m.line

/-- It was loaded as `load_module` asks for it. -/
def IsOwn (m : ServerModule) : Prop := ownText <+: m.text

end ServerModule

/-- The server behind `pactl`, and what becomes of it besides. -/
structure SoundServer (σ ε : Type) where
  /-- `pactl list short modules`; no result where it fails. -/
  listShort : σ → Option Bytes
  /-- `pactl load-module` with the arguments of `load_module`. -/
  loadModule : σ → Option Bytes × σ
  /-- `pactl unload-module`, and whether it succeeds. -/
  unloadModule : Bytes → σ → Bool × σ
  others : ε → σ → σ

section Server

variable {σ ε : Type} (server : SoundServer σ ε) (loaded : σ → List ServerModule)
  (issued : σ → Nat → Prop)

/-- Of the modules some are kept. New ones come behind them, and no index comes a second time. -/
structure Changes (s s' : σ) (kept new : List ServerModule) : Prop where
  after : loaded s' = kept ++ new
  sublist : kept.Sublist (loaded s)
  fresh : ∀ m ∈ new, ¬issued s m.index
  remembered : ∀ index, issued s index → issued s' index

/-- What `pactl` promises. The modules that are loaded are listed in the order of their loading,
each in a line of its own; `load-module` prints the new index. -/
structure SoundServer.Serves : Prop where
  apart : ∀ s, ((loaded s).map ServerModule.index).Nodup
  given : ∀ s, ∀ m ∈ loaded s, issued s m.index
  lists : ∀ s out, server.listShort s = some out →
    out = Records.written (byte '\n') ((loaded s).map ServerModule.line)
  loads : ∀ s out, (server.loadModule s).1 = some out →
    ∃ m, m.IsOwn ∧ out = idBytes m.index ++ [byte '\n'] ∧
      Changes loaded issued s (server.loadModule s).2 (loaded s) [m]
  loadFails : ∀ s, (server.loadModule s).1 = none →
    Changes loaded issued s (server.loadModule s).2 (loaded s) []
  unloads : ∀ s index, (server.unloadModule (idBytes index) s).1 = true →
    Changes loaded issued s (server.unloadModule (idBytes index) s).2
      ((loaded s).filter fun m => m.index ≠ index) []
  unloadFails : ∀ s index, (server.unloadModule (idBytes index) s).1 = false →
    Changes loaded issued s (server.unloadModule (idBytes index) s).2 (loaded s) []
  others : ∀ e s, ∃ kept new, Changes loaded issued s (server.others e s) kept new

end Server

/-! ## Processes and the server -/

structure World (σ : Type) where
  server : σ
  instances : Nat → Option Instance := fun _ => none

inductive Action (ε : Type)
  | others (e : ε)
  /-- A process starts, and asks for the listing if it is to use the canceller. -/
  | construct (pid : Nat) (useSystemAec : Bool)
  | load (pid : Nat)
  | destroy (pid : Nat)
  /-- A process is killed. A `pactl` it has started may go on to load the module. -/
  | kill (pid : Nat) (loads : Bool)

section Step

variable {σ ε : Type} (server : SoundServer σ ε)

namespace World

def put (w : World σ) (pid : Nat) (i : Option Instance) : World σ :=
  { w with instances := Function.update w.instances pid i }

/-- `pactl load-module` has been run. -/
def loadOwn (w : World σ) : World σ := { w with server := (server.loadModule w.server).2 }

/-- `unload_module`. -/
def unloadOwn (w : World σ) (id : Bytes) : World σ :=
  { w with server := (server.unloadModule id w.server).2 }

end World

def step (w : World σ) : Action ε → Option (World σ)
  | .others e => some { w with server := server.others e w.server }
  | .construct pid useSystemAec =>
      match w.instances pid with
      | none => some (w.put pid (some (construct useSystemAec (server.listShort w.server))))
      | some _ => none
  | .load pid =>
      match w.instances pid with
      | some .loading =>
          let aec := ofLoaded (server.loadModule w.server).1
          some ((w.loadOwn server).put pid (some (.constructed true aec)))
      | _ => none
  | .destroy pid =>
      match w.instances pid with
      | some (.constructed _ aec) =>
          let w' := if aec.owned = true then w.unloadOwn server aec.moduleId else w
          some (w'.put pid none)
      | _ => none
  | .kill pid loads =>
      match w.instances pid with
      | none => none
      | some .loading =>
          let w' := if loads = true then w.loadOwn server else w
          some (w'.put pid none)
      | some (.constructed _ _) => some (w.put pid none)

end Step

/-! ## Reading a line -/

/-- What a process makes of a module that acva has loaded. -/
def ownModule (index : Nat) : EchoCancelModule :=
  { id := idBytes index, sourceName := kAcvaSource, sinkName := kAcvaSink }

theorem not_isBlank_of_isDigit {b : UInt8} (h : isDigit b = true) : isBlank b = false := by
  by_contra hblank
  have hcases : b = byte ' ' ∨ b = byte '\t' := by
    simpa only [isBlank, Bool.or_eq_true, decide_eq_true_eq, Bool.not_eq_false] using hblank
  rcases hcases with rfl | rfl
  · revert h
    decide
  · revert h
    decide

theorem not_isTrimmed_of_isDigit {b : UInt8} (h : isDigit b = true) : isTrimmed b = false := by
  by_contra htrimmed
  have hcases : (isBlank b = true ∨ b = byte '\n') ∨ b = byte '\r' := by
    simpa only [isTrimmed, Bool.or_eq_true, decide_eq_true_eq, Bool.not_eq_false] using htrimmed
  rcases hcases with (hblank | rfl) | rfl
  · rw [not_isBlank_of_isDigit h] at hblank
    cases hblank
  · revert h
    decide
  · revert h
    decide

theorem idBytes_ne_nil (n : Nat) : idBytes n ≠ [] := by
  rw [Memory.idBytes_eq]
  exact fun h => Nat.toDigits_ne_nil (List.map_eq_nil_iff.mp h)

theorem idBytes_injective {m n : Nat} (h : idBytes m = idBytes n) : m = n := by
  rw [← decimal_idBytes m, h, decimal_idBytes]

/-- The id is what stands in front of the first blank. -/
theorem takeWhile_line (n : Nat) (rest : Bytes) :
    ((idBytes n ++ byte '\t' :: rest).takeWhile fun b => !isBlank b) = idBytes n := by
  rw [List.takeWhile_append_of_pos fun b hb => by
      simp [not_isBlank_of_isDigit (isDigit_of_mem_idBytes hb)],
    List.takeWhile_cons_of_neg (by decide), List.append_nil]

namespace ServerModule

variable {m : ServerModule}

theorem takeWhile_eq (m : ServerModule) :
    (m.line.takeWhile fun b => !isBlank b) = idBytes m.index :=
  takeWhile_line m.index m.text

/-- acva takes a module for one with the index it has. -/
theorem echo_id {e : EchoCancelModule} (h : m.echo = some e) : e.id = idBytes m.index := by
  unfold echo parseEchoCancelModuleLine at h
  split at h
  next => cases h
  next =>
    simp only [takeWhile_eq] at h
    split at h
    next => cases h
    next =>
      split at h
      next =>
        cases h
        rfl
      next => cases h

theorem not_mem_line (m : ServerModule) : byte '\n' ∉ m.line := by
  intro h
  have hcases : byte '\n' ∈ idBytes m.index ∨ byte '\n' ∈ m.text := by
    simpa [line, show byte '\n' ≠ byte '\t' by decide] using h
  rcases hcases with hid | htext
  · have hdigit := isDigit_of_mem_idBytes hid
    revert hdigit
    decide
  · exact m.oneLine htext

/-- acva's own line is read as it was meant. -/
theorem echo_own (h : m.IsOwn) : m.echo = some (ownModule m.index) := by
  obtain ⟨rest, hrest⟩ := h
  have hline : m.line = (idBytes m.index ++ [byte '\t']) ++
      (kName ++ (byte '\t' :: ownArgs ++ rest)) := by
    simp [line, ← hrest, ownText]
  have hskip : ∀ b ∈ idBytes m.index ++ [byte '\t'], kName.head? ≠ some b := by
    intro b hb hhead
    have hm : b = byte 'm' := (Option.some.inj hhead).symm
    subst hm
    rcases List.mem_append.mp hb with hid | htab
    · have hdigit := isDigit_of_mem_idBytes hid
      revert hdigit
      decide
    · revert htab
      decide
  have hname : Substring.find kName m.line = some ((idBytes m.index).length + 1) := by
    rw [hline, Substring.find_skip (by decide) hskip, Substring.find_append]
    simp
  have hnotall : idBytes m.index ≠ m.line := by
    intro hall
    have hlen := congrArg List.length hall
    simp [line] at hlen
  have hdrop : m.line.drop ((idBytes m.index).length + 1 + kName.length) =
      byte '\t' :: ownArgs ++ rest := by
    rw [hline, ← List.append_assoc]
    exact List.drop_left' (by simp only [List.length_append, List.length_singleton])
  have hdigits : (idBytes m.index).all isDigit = true :=
    List.all_eq_true.mpr fun b hb => isDigit_of_mem_idBytes hb
  have hargs : ((byte '\t' :: ownArgs ++ rest).dropWhile fun b => !isBlank b) =
      byte '\t' :: ownArgs ++ rest := List.dropWhile_cons_of_neg (by decide)
  unfold echo parseEchoCancelModuleLine
  simp only [hname, takeWhile_eq, hdrop, hargs, hdigits, hnotall, idBytes_ne_nil, or_self,
    if_false, if_true]
  rfl

end ServerModule

/-! ## Walking over the listing -/

theorem tryLines_line {text : Bytes} (h : byte '\n' ∉ text) (line rest : Bytes) :
    tryLines line (text ++ byte '\n' :: rest) =
      (parseEchoCancelModuleLine (line ++ text)).or (tryLines [] rest) := by
  induction text generalizing line with
  | nil =>
      rw [List.nil_append, List.append_nil, tryLines, if_pos rfl]
      cases parseEchoCancelModuleLine line <;> rfl
  | cons c text ih =>
      have hc : c ≠ byte '\n' := fun hc => h (hc ▸ List.mem_cons_self)
      rw [List.cons_append, tryLines, if_neg hc, ih fun hmem => h (List.mem_cons_of_mem c hmem),
        List.append_assoc, List.singleton_append]

/-- The walk finds the first module that is taken for an echo canceller. -/
theorem findExistingEchoCancel_written (modules : List ServerModule) :
    findExistingEchoCancel (some (Records.written (byte '\n') (modules.map ServerModule.line))) =
      modules.findSome? ServerModule.echo := by
  have hwalk : tryLines [] (Records.written (byte '\n') (modules.map ServerModule.line)) =
      modules.findSome? ServerModule.echo := by
    induction modules with
    | nil => decide
    | cons m modules ih =>
        have hlist : Records.written (byte '\n') ((m :: modules).map ServerModule.line) =
            m.line ++ byte '\n' ::
              Records.written (byte '\n') (modules.map ServerModule.line) := by
          simp [Records.written]
        rw [hlist, tryLines_line m.not_mem_line, List.nil_append, ih, List.findSome?_cons]
        show m.echo.or _ = _
        cases m.echo <;> rfl
  exact hwalk

/-- What `load_module` returns is the index that the server has given. -/
theorem loadModule_idBytes (n : Nat) :
    loadModule (some (idBytes n ++ [byte '\n'])) = idBytes n := by
  have hplain : ∀ b ∈ idBytes n, isTrimmed b = false := fun b hb =>
    not_isTrimmed_of_isDigit (isDigit_of_mem_idBytes hb)
  obtain ⟨b, rest, hcons⟩ := List.exists_cons_of_ne_nil (idBytes_ne_nil n)
  have hfront : (idBytes n ++ [byte '\n']).dropWhile isTrimmed = idBytes n ++ [byte '\n'] := by
    have hb : ¬ isTrimmed b = true := by
      rw [hplain b (hcons ▸ List.mem_cons_self)]
      decide
    rw [hcons, List.cons_append, List.dropWhile_cons_of_neg hb]
  have hback : (idBytes n).reverse.dropWhile isTrimmed = (idBytes n).reverse := by
    obtain ⟨c, front, hrev⟩ := List.exists_cons_of_ne_nil
      (fun h => idBytes_ne_nil n (List.reverse_eq_nil_iff.mp h))
    have hc : ¬ isTrimmed c = true := by
      rw [hplain c (List.mem_reverse.mp (hrev ▸ List.mem_cons_self))]
      decide
    rw [hrev, List.dropWhile_cons_of_neg hc]
  have htrim : trim (idBytes n ++ [byte '\n']) = idBytes n := by
    rw [trim, hfront, List.reverse_append, List.reverse_singleton, List.singleton_append,
      List.dropWhile_cons_of_pos (by decide), hback, List.reverse_reverse]
  simp only [loadModule, htrim]
  exact if_pos (List.all_eq_true.mpr fun b hb => isDigit_of_mem_idBytes hb)

/-- The module that the server has loaded is acva's. -/
theorem ofLoaded_idBytes (n : Nat) :
    ofLoaded (some (idBytes n ++ [byte '\n'])) = routed true (ownModule n) := by
  simp only [ofLoaded, loadModule_idBytes, if_neg (idBytes_ne_nil n)]
  rfl

end SystemAec

end Acva.Orchestrator
