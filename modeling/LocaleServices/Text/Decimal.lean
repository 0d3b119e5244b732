/-!
  Decimal text of a floating-point number that is not negative.

  A finite number is `m · 2 ^ q`. The text has the fewest decimal places among those that lie
  closer to the number than to its neighbours, at least one place, and of two such decimals
  the nearer one.
-/

namespace LocaleServices.Text

def twoTo (n : Nat) : Nat := Nat.pow 2 n

def tenTo (n : Nat) : Nat := Nat.pow 10 n

/-- A finite number that is not negative, as `significand · 2 ^ (exponent - 1075)`. -/
structure Binary where
  significand : Nat
  exponent : Nat

namespace Binary

def ofFloat (x : Float) : Binary :=
  let bits := x.toBits.toNat % twoTo 63
  let e := bits / twoTo 52
  if e = 0 then ⟨bits, 1⟩ else ⟨bits % twoTo 52 + twoTo 52, e⟩

/-- Whether the number is a power of two, below which the neighbours stand closer. -/
def isPower (b : Binary) : Bool := b.significand = twoTo 52 && 1 < b.exponent

/-- Whether `n / 10 ^ places` reads back as the number: it lies within half a unit, the ends
    included when the significand is even. -/
def readsBack (b : Binary) (places n : Nat) : Bool :=
  let value := 4 * n * twoTo 1075
  let unit := twoTo b.exponent * tenTo places
  let low := (4 * b.significand - if b.isPower then 1 else 2) * unit
  let high := (4 * b.significand + 2) * unit
  if b.significand % 2 = 0 then low ≤ value && value ≤ high else low < value && value < high

/-- The number times `10 ^ places`, rounded to the nearest whole, ties to even. -/
def scaled (b : Binary) (places : Nat) : Nat :=
  let top := b.significand * twoTo b.exponent * tenTo places
  let n := top / twoTo 1075
  let rest := top % twoTo 1075
  if rest * 2 < twoTo 1075 ∨ (rest * 2 = twoTo 1075 ∧ n % 2 = 0) then n else n + 1

/-- The least number of places at which the nearest decimal reads back. -/
def places (b : Binary) : Nat :=
  ((List.range 1075).find? fun d => b.readsBack d (b.scaled d)).getD 1075

end Binary

/-- `n / 10 ^ places` with a decimal point. -/
def pointed (n places : Nat) : String :=
  let part := toString (n % tenTo places)
  toString (n / tenTo places) ++ "." ++ "".pushn '0' (places - part.length) ++ part

/-- The number in decimal notation. -/
def decimal (x : Float) : String :=
  let b := Binary.ofFloat x
  let d := max 1 b.places
  pointed (b.scaled d) d

end LocaleServices.Text
