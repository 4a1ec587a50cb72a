namespace Sluice.Text

/-- The number a nonempty run of digits stands for. -/
def digits? : List Char → Option Nat
  | [] => none
  | ds =>
    if ds.all Char.isDigit then some (ds.foldl (fun n d => 10 * n + (d.toNat - '0'.toNat)) 0)
    else none

def natural? (s : String) : Option Nat :=
  match s.toList with
  | '+' :: ds => digits? ds
  | ds => digits? ds

def integer? (s : String) : Option Int :=
  match s.toList with
  | '-' :: ds => (digits? ds).map fun n => -(n : Int)
  | '+' :: ds => (digits? ds).map Int.ofNat
  | ds => (digits? ds).map Int.ofNat

end Sluice.Text
