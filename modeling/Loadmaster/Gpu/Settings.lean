/-
What the other threads tell a worker (`gpu/worker.h`): the busy budget of the
next tick, and the share of other processes. Both are atomics; the worker
reads each once a tick.
-/
import Loadmaster.Constants
import Loadmaster.Lib.Round

set_option autoImplicit false

namespace Loadmaster.Gpu

/-- `load_set_` and `others_percent_`; a worker starts alone. -/
structure Settings where
  load_set : ℤ := 0
  others_percent : ℤ := -1
deriving DecidableEq, Repr

namespace Settings

/-- `SetLoadSet`. -/
def setLoadSet (s : Settings) (load_ms : ℤ) : Settings := { s with load_set := load_ms }

/-- What `SetOthers` stores: the percentage, or -1 for "ours alone". -/
def encodeOthers : Option ℤ → ℤ
  | some percent => Round.clamp percent 0 kGpuMaxLoadPerDevice
  | none => -1

/-- `SetOthers`. -/
def setOthers (s : Settings) (percent : Option ℤ) : Settings :=
  { s with others_percent := encodeOthers percent }

/-- `Sharing`. -/
def sharing (s : Settings) : Bool := 0 ≤ s.others_percent

end Settings

end Loadmaster.Gpu
