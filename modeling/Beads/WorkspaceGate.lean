import Mathlib.Data.List.Sort
import Mathlib.Data.String.Basic
import Mathlib.Logic.Function.Basic
import Mathlib.Logic.Relation

/-! The gates of a workspace (`internal/workspacegate/gate.go`), as processes that take them, hold
them and release them step by step. A gate file is identified by the key of its path. -/
namespace Beads

/-- `Mode`. -/
inductive GateMode where
  | shared
  | exclusive
  deriving DecidableEq

/-- `gateKey`; where file names ignore case, the key is the lowered path. -/
def gateKey (lower : Option (String → String)) (path : String) : String :=
  match lower with
  | some toLower => toLower path
  | none => path

section
variable (lower : Option (String → String))

/-- `uniq[gateKey(g.path)] = g`. -/
def putGate (uniq : List String) (path : String) : List String :=
  uniq.filter (gateKey lower · ≠ gateKey lower path) ++ [path]

/-- `AcquireAll`, before the first gate is taken: each file once, sorted by key. A gate without a
path is refused. -/
def orderGates (gates : List String) : Option (List String) :=
  if "" ∈ gates then none
  else some ((gates.foldl (putGate lower) []).insertionSort (gateKey lower · ≤ gateKey lower ·))

end

/-- Where a process is in the code. A held gate has the flag that its sidecar has been written;
the gate that was taken last comes first. -/
inductive GatePhase where
  | idle
  /-- In the loop of `AcquireAll`: the gates that it was called with, those it has and those to
  come. -/
  | acquiring (gates : List String) (mode : GateMode) (held : List (String × Bool)) (rest : List String)
  /-- In `Acquire`, with the lock, before `writeInfo`. -/
  | sealing (gates : List String) (held : List (String × Bool)) (gate : String) (rest : List String)
  | holding (gates : List String) (mode : GateMode) (held : List (String × Bool))
  /-- In the loop of `MultiHandle.Release`. -/
  | releasing (mode : GateMode) (held : List (String × Bool))
  /-- In `Handle.Release`, with the sidecar removed, before the unlock. -/
  | unlocking (gate : String) (held : List (String × Bool))
  /-- In `ExclusiveHolder`, with the lock. -/
  | probing (gate : String)
  deriving DecidableEq

namespace GatePhase

/-- The gates that a process in the phase has locked. -/
def locked : GatePhase → List String
  | .idle => []
  | .acquiring _ _ held _ => held.map Prod.fst
  | .sealing _ held gate _ => gate :: held.map Prod.fst
  | .holding _ _ held => held.map Prod.fst
  | .releasing _ held => held.map Prod.fst
  | .unlocking gate held => gate :: held.map Prod.fst
  | .probing gate => [gate]

/-- The mode of its locks. -/
def mode : GatePhase → GateMode
  | .idle => .shared
  | .acquiring _ mode _ _ => mode
  | .sealing .. => .exclusive
  | .holding _ mode _ => mode
  | .releasing mode _ => mode
  | .unlocking .. => .exclusive
  | .probing _ => .shared

/-- The gates that it has written a sidecar for. -/
def sealed : GatePhase → List String
  | .acquiring _ _ held _ => (held.filter Prod.snd).map Prod.fst
  | .sealing _ held _ _ => (held.filter Prod.snd).map Prod.fst
  | .holding _ _ held => (held.filter Prod.snd).map Prod.fst
  | .releasing _ held => (held.filter Prod.snd).map Prod.fst
  | .unlocking _ held => (held.filter Prod.snd).map Prod.fst
  | _ => []

end GatePhase

/-- The processes, the locks of the operating system and the sidecars with who has written them. -/
structure GateState (ι : Type) where
  phase : ι → GatePhase
  lock : String → ι → Option GateMode
  info : String → Option ι

namespace GateState
variable {ι : Type} [DecidableEq ι]

/-- No process has started. -/
def initial (info : String → Option ι) : GateState ι := ⟨fun _ => .idle, fun _ _ => none, info⟩

def enter (s : GateState ι) (p : ι) (phase : GatePhase) : GateState ι :=
  { s with phase := Function.update s.phase p phase }

def setLock (s : GateState ι) (k : String) (p : ι) (mode : Option GateMode) : GateState ι :=
  { s with lock := Function.update s.lock k (Function.update (s.lock k) p mode) }

def setInfo (s : GateState ι) (k : String) (writer : Option ι) : GateState ι :=
  { s with info := Function.update s.info k writer }

/-- `FlockSharedNonBlock` and `FlockExclusiveNonBlock` get the lock. -/
def Free (s : GateState ι) (k : String) : GateMode → Prop
  | .shared => ∀ q, s.lock k q ≠ some .exclusive
  | .exclusive => ∀ q, s.lock k q = none

end GateState

/-- What a process does. -/
inductive GateAction where
  | start
  | lock
  | write
  | acquired
  | giveUp
  | release
  | remove
  | unlock
  | released
  | crash
  | probe
  | probed
  deriving DecidableEq

section
variable (lower : Option (String → String)) {ι : Type} [DecidableEq ι]

/-- One step of one process. -/
inductive GateStep : GateAction → ι → GateState ι → GateState ι → Prop
  | start {s p gates order} (mode) (idle : s.phase p = .idle) (valid : orderGates lower gates = some order) :
    GateStep .start p s (s.enter p (.acquiring gates mode [] order))
  | lockShared {s p gates held gate rest} (phase : s.phase p = .acquiring gates .shared held (gate :: rest))
      (free : s.Free (gateKey lower gate) .shared) :
    GateStep .lock p s ((s.setLock (gateKey lower gate) p (some .shared)).enter p
      (.acquiring gates .shared ((gate, false) :: held) rest))
  | lockExclusive {s p gates held gate rest} (phase : s.phase p = .acquiring gates .exclusive held (gate :: rest))
      (free : s.Free (gateKey lower gate) .exclusive) :
    GateStep .lock p s ((s.setLock (gateKey lower gate) p (some .exclusive)).enter p
      (.sealing gates held gate rest))
  -- `writeInfo` swallows its failures, and may then have removed the old sidecar
  | wrote {s p gates held gate rest} (phase : s.phase p = .sealing gates held gate rest) :
    GateStep .write p s ((s.setInfo (gateKey lower gate) (some p)).enter p
      (.acquiring gates .exclusive ((gate, true) :: held) rest))
  | wroteNothing {s p gates held gate rest} (phase : s.phase p = .sealing gates held gate rest)
      (kept : Bool) :
    GateStep .write p s ((s.setInfo (gateKey lower gate)
      (if kept then s.info (gateKey lower gate) else none)).enter p
        (.acquiring gates .exclusive ((gate, false) :: held) rest))
  | acquired {s p gates mode held} (phase : s.phase p = .acquiring gates mode held []) :
    GateStep .acquired p s (s.enter p (.holding gates mode held))
  -- the wait is over, the context is done, or the file cannot be opened or locked
  | giveUp {s p gates mode held gate rest} (phase : s.phase p = .acquiring gates mode held (gate :: rest)) :
    GateStep .giveUp p s (s.enter p (.releasing mode held))
  | release {s p gates mode held} (phase : s.phase p = .holding gates mode held) :
    GateStep .release p s (s.enter p (.releasing mode held))
  -- the removal of the sidecar is best effort
  | remove {s p gate flag held} (phase : s.phase p = .releasing .exclusive ((gate, flag) :: held)) (kept : Bool) :
    GateStep .remove p s ((s.setInfo (gateKey lower gate)
      (if kept then s.info (gateKey lower gate) else none)).enter p (.unlocking gate held))
  | unlockExclusive {s p gate held} (phase : s.phase p = .unlocking gate held) :
    GateStep .unlock p s ((s.setLock (gateKey lower gate) p none).enter p (.releasing .exclusive held))
  | unlockShared {s p gate flag held} (phase : s.phase p = .releasing .shared ((gate, flag) :: held)) :
    GateStep .unlock p s ((s.setLock (gateKey lower gate) p none).enter p (.releasing .shared held))
  | released {s p mode} (phase : s.phase p = .releasing mode []) : GateStep .released p s (s.enter p .idle)
  -- the operating system drops the locks of a process that ends
  | crash {s p} : GateStep .crash p s
      ({ s with lock := fun k => Function.update (s.lock k) p none }.enter p .idle)
  | probe {s p} (gate : String) (idle : s.phase p = .idle) (free : s.Free (gateKey lower gate) .shared) :
    GateStep .probe p s ((s.setLock (gateKey lower gate) p (some .shared)).enter p (.probing gate))
  | probed {s p gate} (phase : s.phase p = .probing gate) :
    GateStep .probed p s ((s.setLock (gateKey lower gate) p none).enter p .idle)

/-- The states that the processes come to, in whatever order they run. -/
def GateReachable (s : GateState ι) : Prop :=
  ∃ info, Relation.ReflTransGen (fun s s' => ∃ a p, GateStep lower a p s s') (.initial info) s

/-- A step on the way to the end of what a process has begun. -/
def GateProgress (s s' : GateState ι) : Prop :=
  ∃ a p, a ∉ [GateAction.start, .giveUp, .crash, .probe] ∧ GateStep lower a p s s'

end
end Beads
