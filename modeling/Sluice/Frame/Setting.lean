import Sluice.Options

namespace Sluice.Frame

inductive Domain
  | signed
  | unsigned
  | strategy
  | flag
  deriving DecidableEq, Repr

def domain : Parameter → Domain
  | .level => .signed
  | .strategy => .strategy
  | .longDistance | .contentSize | .checksum | .dictionaryId => .flag
  | _ => .unsigned

namespace Domain

/-- The value as the parameter represents it, if it can. -/
def represent? : Domain → Int32 → Option Int32
  | signed, v => some v
  | unsigned, v => if 0 ≤ v then some v else none
  | strategy, v => if 1 ≤ v && v ≤ 9 then some v else none
  | flag, v => some (flagValue (v != 0))

end Domain

structure Setting where
  parameter : Parameter
  value : Int32
  deriving DecidableEq, Repr

def Setting.ofRaw (id value : Int32) : Except ErrorNumber Setting :=
  match Parameter.ofId? id with
  | none => .error .parameterUnsupported
  | some p =>
    match (domain p).represent? value with
    | none => .error .parameterOutOfBound
    | some v => .ok ⟨p, v⟩

/-- The values a compressor accepts for a parameter besides 0, which leaves the choice to it. -/
def bounds : Parameter → Option (Int × Int)
  | .windowLog => some (10, 31)
  | .hashLog | .chainLog => some (6, 30)
  | .searchLog => some (1, 30)
  | .minMatch => some (3, 7)
  | .targetLength => some (0, 131072)
  | .strategy => some (1, 9)
  | .longHashLog => some (6, 30)
  | .longMinMatch => some (4, 4096)
  | .longBucketLog => some (1, 8)
  | .longRateLog => some (0, 25)
  | .level | .longDistance | .contentSize | .checksum | .dictionaryId => none

/-- Parameters that may change while a frame is open. -/
def isLive : Parameter → Bool
  | .level | .hashLog | .chainLog | .searchLog | .minMatch | .targetLength | .strategy => true
  | _ => false

end Sluice.Frame
