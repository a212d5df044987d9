import Treecast.Sorted
import Treecast.Message
import Treecast.Routing.Settings

/-!
# Meters

What the service counts: two levels that rise and fall, and counters that only rise.
-/

set_option autoImplicit false

namespace Treecast

/-- Why a holder did not load. -/
inductive LoadFailure where
  | timeout
  | store
  | closed
  deriving DecidableEq, Repr

def LoadFailure.word : LoadFailure → String
  | .timeout => "timeout"
  | .store => "store"
  | .closed => "closed"

/-- Why a session sends a full section again. -/
inductive ResyncCause where
  | lagged
  | structural
  deriving DecidableEq, Repr

def ResyncCause.word : ResyncCause → String
  | .lagged => "lagged"
  | .structural => "structural"

/-- A routing inconsistency that hijacking notices. -/
inductive Diagnostic where
  /-- The requested clusters are not served by exactly one cluster. -/
  | unstable
  /-- The requested clusters are served by another cluster than the intent. -/
  | mismatch
  deriving DecidableEq, Repr

/-- The word for a diagnostic. -/
def Diagnostic.word : Diagnostic → String
  | .unstable => "unstable"
  | .mismatch => "mismatch"

/-- How a declaration of a consumer ended. -/
inductive DeclarationOutcome where
  | recorded
  | present
  | missing
  | malformed
  | conflict
  | failed
  deriving DecidableEq, Repr

def DeclarationOutcome.word : DeclarationOutcome → String
  | .recorded => "recorded"
  | .present => "present"
  | .missing => "missing"
  | .malformed => "malformed"
  | .conflict => "conflict"
  | .failed => "failed"

/-- What is counted. -/
inductive Meter where
  /-- The registered holders. -/
  | holders
  /-- The sessions that run. -/
  | watchers
  | initSamples
  | initFailures (why : LoadFailure)
  | messages (kind : MessageKind)
  | resyncs (cause : ResyncCause)
  | hijack (diagnostic : Diagnostic) (mode : Routing.HijackMode)
  | forceRouted
  | evictions
  | sweepFailures
  | declarations (outcome : DeclarationOutcome)
  deriving DecidableEq, Repr

/-- The name of a meter. -/
def Meter.name : Meter → String
  | .holders => "holders"
  | .watchers => "watchers"
  | .initSamples => "init_samples"
  | .initFailures why => "init_failures." ++ why.word
  | .messages kind => "messages." ++ kind.name
  | .resyncs cause => "resyncs." ++ cause.word
  | .hijack diagnostic mode => "hijack." ++ diagnostic.word ++ "." ++ mode.name
  | .forceRouted => "force_routed"
  | .evictions => "evictions"
  | .sweepFailures => "sweep_failures"
  | .declarations outcome => "dependency." ++ outcome.word

/-- The readings of all meters, by name; a meter that is not listed reads zero. -/
structure Meters where
  readings : SortedMap String Nat
  deriving DecidableEq

namespace Meters

def zero : Meters := ⟨SortedMap.empty⟩

instance : Inhabited Meters := ⟨zero⟩

def get (m : Meters) (meter : Meter) : Nat := (m.readings.find? meter.name).getD 0

def set (m : Meters) (meter : Meter) (reading : Nat) : Meters :=
  ⟨m.readings.insert meter.name reading⟩

def count (m : Meters) (meter : Meter) : Meters := m.set meter (m.get meter + 1)

def discount (m : Meters) (meter : Meter) : Meters := m.set meter (m.get meter - 1)

/-- The names and readings of the meters that are not at zero. -/
def nonzero (m : Meters) : List (String × Nat) := m.readings.toList.filter fun e => e.2 ≠ 0

end Meters

end Treecast
