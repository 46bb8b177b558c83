import Mathlib.Algebra.Group.Nat.Basic

/-!
# Numbers of the language and their decimal text

`JSON.parse` reads a JSON number as a value of the language's Number type, an
IEEE 754 binary64 double, the one nearest the literal. `traceValueFromJSON`
renders it with `String`, that is `Number::toString` in radix 10: the fewest
decimal digits that read back as the same double, the nearest such digits when
two qualify, written positionally for decimal exponents from `-5` to `21` and in
exponent form otherwise. So an integer above `2 ^ 53` may come back as another
integer. A double is modelled by its 64-bit encoding, and a finite one by the
significand and exponent its fields give, so that every comparison the text
needs is one between natural numbers.
-/

namespace TraceAdapter

/-- A number of the language: an IEEE 754 binary64 double, by its 64-bit encoding. -/
structure JsNumber where
  bits : UInt64
  deriving DecidableEq

namespace JsNumber

/-- The sign bit. -/
def negative (x : JsNumber) : Bool := decide (2 ^ 63 ≤ x.bits.toNat)

/-- The biased exponent field. -/
def biasedExponent (x : JsNumber) : Nat := x.bits.toNat / 2 ^ 52 % 2 ^ 11

/-- The fraction field. -/
def fraction (x : JsNumber) : Nat := x.bits.toNat % 2 ^ 52

/-- The significand of a finite double, with the hidden bit of a normal one. -/
def significand (x : JsNumber) : Nat :=
  if x.biasedExponent = 0 then x.fraction else 2 ^ 52 + x.fraction

/-- The exponent of a finite double: its magnitude is `significand * 2 ^ exponent`. -/
def exponent (x : JsNumber) : Int :=
  if x.biasedExponent = 0 then -1074 else (x.biasedExponent : Int) - 1075

/-- The positive double of magnitude `m * 2 ^ e`, for a significand `m < 2 ^ 53` that is normal
(`2 ^ 52 ≤ m`) or subnormal (`e = -1074`); past the largest exponent, positive infinity. -/
def ofSignificand (m : Nat) (e : Int) : JsNumber :=
  if 971 < e then ⟨(2047 * 2 ^ 52 : Nat).toUInt64⟩
  else ⟨((e + 1074).toNat * 2 ^ 52 + m).toUInt64⟩

/-- The number of binary digits of `n`. -/
def bitLength (n : Nat) : Nat := (Nat.toDigits 2 n).length

/-- `𝔽(n)`, the Number value for a natural number `n`: the double nearest `n`, a tie going to
the even significand, and infinity from `2 ^ 1024 - 2 ^ 970` on. `JSON.parse` reads the
literal of `n` as this double. -/
def ofNat (n : Nat) : JsNumber :=
  if n = 0 then ⟨0⟩
  else if bitLength n ≤ 53 then ofSignificand (n * 2 ^ (53 - bitLength n)) (bitLength n - 53)
  else
    -- `n = q * 2 ^ shift + r` with a 53-bit `q`, rounded to nearest, ties to even
    let shift := bitLength n - 53
    let q := n / 2 ^ shift
    let r := n % 2 ^ shift
    let m := if 2 ^ shift < 2 * r ∨ (2 * r = 2 ^ shift ∧ q % 2 = 1) then q + 1 else q
    if m = 2 ^ 53 then ofSignificand (2 ^ 52) (shift + 1) else ofSignificand m shift

end JsNumber

/-! ## `Number::toString` -/

/-- The decimal `s * 10 ^ t` and the dyadic `b * 2 ^ q` scaled to natural numbers in the same
ratio. -/
def scaled (s : Nat) (t : Int) (b : Nat) (q : Int) : Nat × Nat :=
  (s * 10 ^ t.toNat * 2 ^ (-q).toNat, b * 2 ^ q.toNat * 10 ^ (-t).toNat)

/-- `𝔽(s * 10 ^ t)` is the positive double `m * 2 ^ e`: the decimal is nearer the double than
both its neighbours, or as near as one of them when `m` is even, since a tie goes to the even
significand. The neighbours lie a gap `2 ^ e` above and below, and half a gap below the bottom
of a binade, so the midpoints are counted in quarters of the gap. -/
def roundsTo (m : Nat) (e : Int) (s : Nat) (t : Int) : Bool :=
  let below := scaled s t (4 * m - (if m = 2 ^ 52 ∧ -1074 < e then 1 else 2)) (e - 2)
  let above := scaled s t (4 * m + 2) (e - 2)
  if m % 2 = 0 then decide (below.2 ≤ below.1) && decide (above.1 ≤ above.2)
  else decide (below.2 < below.1) && decide (above.1 < above.2)

/-- The decimal digits of `n`. -/
def decimalDigits (n : Nat) : List Char := Nat.toDigits 10 n

/-- The exact decimal expansion `N * 10 ^ -L` of the double `m * 2 ^ e`. -/
def exactDecimal (m : Nat) (e : Int) : Nat × Nat :=
  if 0 ≤ e then (m * 2 ^ e.toNat, 0) else (m * 5 ^ (-e).toNat, (-e).toNat)

/-- A candidate of step 5 of `Number::toString` for the double `m * 2 ^ e` of exact expansion
`N * 10 ^ -L`: with `j` digits fewer than `N`, the decimal `s * 10 ^ (j - L)` for `s` the
quotient `N / 10 ^ j` rounded down or up, such that `𝔽(s * 10 ^ (j - L))` is the double; the
nearer one when both qualify, and the even one when both are as near. -/
def decimalCandidate (m : Nat) (e : Int) (N L j : Nat) : Option (Nat × Int) :=
  let down := N / 10 ^ j
  let up := if N % 10 ^ j = 0 then down else down + 1
  let t : Int := (j : Int) - L
  let s? : Option Nat :=
    match roundsTo m e down t, roundsTo m e up t with
    | true, true =>
      if N - down * 10 ^ j < up * 10 ^ j - N then some down
      else if up * 10 ^ j - N < N - down * 10 ^ j then some up
      else if down % 2 = 0 then some down else some up
    | true, false => some down
    | false, true => some up
    | false, false => none
  -- rounding up to a power of ten gives one digit more: the same value one decade up
  s?.map fun s => if s = 10 ^ ((decimalDigits N).length - j) then (s / 10, t + 1) else (s, t)

/-- Step 5 of `Number::toString` for the positive double `m * 2 ^ e`: the decimal `s * 10 ^ t`
with the fewest digits such that `𝔽(s * 10 ^ t)` is the double, tried from one digit up; with
as many digits as the exact expansion (`j = 0`), the candidate is the double itself. -/
def shortestDecimal (m : Nat) (e : Int) : Nat × Int :=
  let N := (exactDecimal m e).1
  let L := (exactDecimal m e).2
  ((List.range (decimalDigits N).length).reverse.findSome? (decimalCandidate m e N L)).getD
    (N, -(L : Int))

/-- Steps 6 to 12 of `Number::toString`: the text of `s * 10 ^ t`, with `k` the number of digits
of `s` and `n = t + k`, positional for `-5 ≤ n ≤ 21` and in exponent form otherwise. -/
def decimalText (s : Nat) (t : Int) : String :=
  let digits := decimalDigits s
  let k := digits.length
  let n : Int := t + k
  if -5 ≤ n ∧ n ≤ 21 then
    if k ≤ n then String.mk (digits ++ List.replicate (n - k).toNat '0')
    else if 0 < n then String.mk (digits.take n.toNat ++ '.' :: digits.drop n.toNat)
    else String.mk ('0' :: '.' :: List.replicate (-n).toNat '0' ++ digits)
  else
    let exponent := String.mk ('e' :: (if n < 0 then '-' else '+') :: decimalDigits (n - 1).natAbs)
    if k = 1 then String.mk digits ++ exponent
    else String.mk (digits.take 1 ++ '.' :: digits.drop 1) ++ exponent

/-- `Number::toString(x)` in radix 10, the text `String(x)` gives. -/
def numberToString (x : JsNumber) : String :=
  if x.biasedExponent = 2047 then
    if x.fraction ≠ 0 then "NaN" else if x.negative then "-Infinity" else "Infinity"
  else if x.significand = 0 then "0"
  else
    let decimal := shortestDecimal x.significand x.exponent
    (if x.negative then "-" else "") ++ decimalText decimal.1 decimal.2

end TraceAdapter
