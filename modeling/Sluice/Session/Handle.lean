namespace Sluice

structure Handle where
  index : UInt32
  generation : UInt32
  deriving DecidableEq, Repr

def Handle.render (h : Handle) : String := s!"#{h.index}v{h.generation}"

end Sluice
