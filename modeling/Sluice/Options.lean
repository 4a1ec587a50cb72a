import Sluice.Fault

namespace Sluice

inductive Parameter
  | level
  | windowLog
  | hashLog
  | chainLog
  | searchLog
  | minMatch
  | targetLength
  | strategy
  | longDistance
  | longHashLog
  | longMinMatch
  | longBucketLog
  | longRateLog
  | contentSize
  | checksum
  | dictionaryId
  deriving DecidableEq, Repr

namespace Parameter

def all : List Parameter :=
  [level, windowLog, hashLog, chainLog, searchLog, minMatch, targetLength, strategy,
   longDistance, longHashLog, longMinMatch, longBucketLog, longRateLog,
   contentSize, checksum, dictionaryId]

def id : Parameter → Int32
  | level => 100
  | windowLog => 101
  | hashLog => 102
  | chainLog => 103
  | searchLog => 104
  | minMatch => 105
  | targetLength => 106
  | strategy => 107
  | longDistance => 160
  | longHashLog => 161
  | longMinMatch => 162
  | longBucketLog => 163
  | longRateLog => 164
  | contentSize => 200
  | checksum => 201
  | dictionaryId => 202

def ofId? (n : Int32) : Option Parameter := all.find? (·.id == n)

end Parameter

def defaultLevel : Int32 := 3

structure Options where
  level : Int32 := defaultLevel
  checksum : Bool := false
  /-- Record the content size in the frame header when it is known. -/
  contentSize : Bool := true
  /-- `none` leaves the window to the level. -/
  windowLog : Option UInt32 := none
  longDistance : Bool := false
  deriving DecidableEq, Repr

def flagValue (b : Bool) : Int32 := if b then 1 else 0

/-- An unsigned number as a parameter value, the largest one where it does not fit. -/
def clampValue (n : UInt32) : Int32 := Int32.ofNat (min n.toNat 0x7fffffff)

namespace Options

/-- The parameters to set, with their values, in the order they are applied. -/
def settings (o : Options) : List (Parameter × Int32) :=
  [(.level, o.level), (.checksum, flagValue o.checksum), (.contentSize, flagValue o.contentSize)]
    ++ (o.windowLog.map fun w => (.windowLog, clampValue w)).toList
    ++ if o.longDistance then [(.longDistance, 1)] else []

def parameters (o : Options) : List (Int32 × Int32) := o.settings.map fun (p, v) => (p.id, v)

def render (o : Options) : String :=
  let window := match o.windowLog with
    | none => "None"
    | some w => s!"Some({w})"
  s!"CompressOptions \x7b level: {o.level}, checksum: {o.checksum}, content_size: {o.contentSize}, "
    ++ s!"window_log: {window}, long_distance_matching: {o.longDistance} \x7d"

end Options

end Sluice
