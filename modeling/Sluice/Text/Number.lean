namespace Sluice.Text

/-- The quotient rounded to the nearest integer, a tie to the even one. -/
def roundDiv (num den : Nat) : Nat :=
  let q := num / den
  let r := num % den
  if den < 2 * r || (den == 2 * r && q % 2 == 1) then q + 1 else q

def scaled (num den : Nat) (s : Int) : Nat × Nat := (num <<< s.toNat, den <<< (-s).toNat)

/-- The fraction next to `num / den` among those of 53 significant bits, as the division gives it in
binary. -/
def binaryQuotient (num den : Nat) : Nat × Nat :=
  let s : Int := 52 + Nat.log2 den - Nat.log2 num
  let quotient (s : Int) := let (n, d) := scaled num den s; n / d
  let s := if quotient s < 1 <<< 52 then s + 1 else s
  let (n, d) := scaled num den s
  scaled (roundDiv n d) 1 (-s)

def fixed (places num den : Nat) : String :=
  let unit := Nat.pow 10 places
  let q := roundDiv (num * unit) den
  let digits := toString (q % unit)
  s!"{q / unit}." ++ "".pushn '0' (places - digits.length) ++ digits

def ratio (num den : Nat) : String :=
  let (n, d) := binaryQuotient num den
  fixed 2 n d

/-- The largest of the units above bytes that is at most the fraction `num / den`, counted in
powers of 1024 from the first. -/
def unitPower (num den : Nat) : List String → Nat → Nat × String
  | [], k => (k, "TB")
  | unit :: units, k =>
    if num < den <<< (10 * (k + 1)) then (k, unit) else unitPower num den units (k + 1)

/-- A size in the largest unit that leaves at least one, with two decimals above bytes. -/
def sizeInUnits (n : Nat) : String :=
  let (num, den) := binaryQuotient n 1
  match unitPower num den ["B", "KB", "MB", "GB"] 0 with
  | (0, unit) => s!"{n} {unit}"
  | (k, unit) => s!"{fixed 2 num (den <<< (10 * k))} {unit}"

def rate (bytes : UInt64) (secs : Float) : String :=
  if secs > 0 then sizeInUnits (bytes.toFloat / secs).toUInt64.toNat ++ "/s" else "n/a"

def hex16 (n : UInt64) : String :=
  let digits := String.ofList (Nat.toDigits 16 n.toNat)
  "".pushn '0' (16 - digits.length) ++ digits

end Sluice.Text
