import BridgeNotifier.Record.Deposit
import BridgeNotifier.Word
set_option autoImplicit false

namespace BridgeNotifier
open Word

/-- `(newest - oldest) / intervals`, a half rounded up; zero for no interval. None means that the
sum to be divided does not fit, on which the caller breaks down. -/
def averageInterval (newest oldest intervals : UInt64) : Option UInt64 :=
  if intervals = 0 then some 0
  else (add? (subFloored newest oldest) (intervals / 2)).map (· / intervals)

/-- The minutes left of an average after some seconds, a half rounded up, at most a 32-bit word.
None means that the sum to be divided does not fit, on which the caller breaks down. -/
def remainingMinutes (average elapsed : UInt64) : Option UInt32 :=
  (add? (subFloored average elapsed) 30).map fun secs => narrowCapped (secs / 60)

structure WindowConfig where
  capacity : UInt64
  minSecs : UInt64
  maxSecs : UInt64
  defaultSecs : UInt64
  deriving DecidableEq, Repr

namespace WindowConfig

def commitDefault : WindowConfig := ⟨5, 300, 600, 600⟩
def verifyDefault : WindowConfig := ⟨100, 180, 600, 600⟩

def accepts (w : WindowConfig) (average : UInt64) : Bool :=
  w.minSecs ≤ average && average ≤ w.maxSecs

end WindowConfig

structure EstimateConfig where
  /-- Minutes of a network; the last entry of a network counts. -/
  defaults : List (UInt32 × UInt32)
  fallback : UInt32
  deriving DecidableEq, Repr

namespace EstimateConfig

def minutesFor (e : EstimateConfig) (network : UInt32) : UInt32 :=
  (e.defaults.reverse.lookup network).getD e.fallback

/-- The estimate of a deposit. One that leaves a rollup waits for a batch commit: the average
commit interval less the time that passed. Every other one has the flat estimate of its network. -/
def minutes (e : EstimateConfig) (d : Deposit) (commitAverage nowMillis : UInt64) :
    Option UInt32 :=
  if d.fromMain then some (e.minutesFor d.network)
  else remainingMinutes commitAverage (subFloored nowMillis d.createdMillis / 1000)

end EstimateConfig
end BridgeNotifier
