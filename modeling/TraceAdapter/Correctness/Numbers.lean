import Mathlib.Data.Nat.Digits
import TraceAdapter.Native.Value

/-!
# Integers read back

The pcs, indices and values a trace carries are integer literals. `JSON.parse` reads each as
the double nearest it, and `traceValueFromJSON` renders a value's number with
`Number::toString`. Below `2 ^ 53` every integer is a double, and its text is its own digits
(`traceValueFromJSON_ofNat_safe`). The proof follows the rendering: the exact expansion of the
double is the integer followed by zeros; a decimal with no fractional digits reads back as the
double only when it is the integer, so the fewest digits are those of the integer without its
trailing zeros; and the text puts the zeros back. From `2 ^ 53` on this fails: `2 ^ 53 + 1`
reads as `2 ^ 53`.
-/

namespace TraceAdapter

open JsNumber

/-! ## Decimal digits -/

theorem toDigitsCore_append (b f n : Nat) (ds : List Char) :
    Nat.toDigitsCore b f n ds = Nat.toDigitsCore b f n [] ++ ds := by
  induction f generalizing n ds with
  | zero => rfl
  | succ f ih =>
    simp only [Nat.toDigitsCore]
    split
    · rfl
    · rw [ih _ (_ :: ds), ih _ [_]]; simp

/-- The digit loop only needs more fuel than the number. -/
theorem toDigitsCore_fuel {b : Nat} (hb : 1 < b) {f g n : Nat} (hf : n < f) (hg : n < g)
    (ds : List Char) : Nat.toDigitsCore b f n ds = Nat.toDigitsCore b g n ds := by
  induction f generalizing g n ds with
  | zero => omega
  | succ f ih =>
    obtain ⟨g, rfl⟩ : ∃ g', g = g' + 1 := ⟨g - 1, by omega⟩
    simp only [Nat.toDigitsCore]
    split
    · rfl
    · have hn : 0 < n := Nat.pos_of_ne_zero (by rintro rfl; simp_all)
      have := Nat.div_lt_self hn hb
      exact ih (by omega) (by omega) _

/-- `Nat.toDigits` emits the digits of `n / b`, then the last digit. -/
theorem toDigits_eq {b : Nat} (hb : 1 < b) (n : Nat) :
    Nat.toDigits b n =
      (if n < b then [] else Nat.toDigits b (n / b)) ++ [Nat.digitChar (n % b)] := by
  show Nat.toDigitsCore b (n + 1) n [] = _
  rw [Nat.toDigitsCore]
  by_cases h : n < b
  · simp [Nat.div_eq_of_lt h, h]
  · have hn : 0 < n / b := Nat.div_pos (by omega) (by omega)
    have := Nat.div_lt_self (by omega : 0 < n) hb
    rw [if_neg (by omega), if_neg h, toDigitsCore_append,
      @toDigitsCore_fuel b hb n (n / b + 1) (n / b) (by omega) (by omega)]
    rfl

theorem length_toDigits_pos {b : Nat} (hb : 1 < b) (n : Nat) : 0 < (Nat.toDigits b n).length := by
  rw [toDigits_eq hb]; simp

/-- A number of `ℓ` digits lies between `b ^ (ℓ - 1)` and `b ^ ℓ`. -/
theorem pow_length_toDigits {b : Nat} (hb : 1 < b) {n : Nat} (hn : 0 < n) :
    b ^ ((Nat.toDigits b n).length - 1) ≤ n ∧ n < b ^ (Nat.toDigits b n).length := by
  induction n using Nat.strong_induction_on with
  | _ n ih =>
    rw [toDigits_eq hb]
    split_ifs with h
    · simp [h]; omega
    · have hq : 0 < n / b := Nat.div_pos (by omega) (by omega)
      obtain ⟨hlo, hhi⟩ := ih (n / b) (Nat.div_lt_self hn hb) hq
      simp only [List.length_append, List.length_singleton, Nat.add_sub_cancel, pow_succ]
      constructor
      · calc b ^ (Nat.toDigits b (n / b)).length
            = b ^ ((Nat.toDigits b (n / b)).length - 1) * b := by
              rw [← pow_succ, Nat.sub_add_cancel (length_toDigits_pos hb _)]
          _ ≤ n / b * b := Nat.mul_le_mul_right b hlo
          _ ≤ n := Nat.div_mul_le_self n b
      · calc n < (n / b + 1) * b := by
              have := Nat.div_add_mod' n b
              have := Nat.mod_lt n (by omega : 0 < b)
              rw [Nat.add_mul, Nat.one_mul]; omega
          _ ≤ _ := Nat.mul_le_mul_right b hhi

theorem decimalDigits_mul_pow_ten {s : Nat} (hs : 0 < s) (tz : Nat) :
    decimalDigits (s * 10 ^ tz) = decimalDigits s ++ List.replicate tz '0' := by
  induction tz with
  | zero => simp
  | succ tz ih =>
    have hpos : 0 < s * 10 ^ tz := Nat.mul_pos hs (Nat.pos_pow_of_pos tz (by decide))
    simp only [decimalDigits] at ih ⊢
    rw [pow_succ, ← Nat.mul_assoc, toDigits_eq (by decide), if_neg (by omega),
      Nat.mul_div_cancel _ (by decide), Nat.mul_mod_left, ih, List.replicate_succ',
      List.append_assoc]
    rfl

/-! ## Doubles of integers -/

theorem toNat_bits_ofSignificand {m : Nat} {e : Int} (hm : m < 2 ^ 53)
    (he : -1074 ≤ e ∧ e ≤ 971) :
    (ofSignificand m e).bits.toNat = (e + 1074).toNat * 2 ^ 52 + m := by
  rw [ofSignificand, if_neg (by omega)]
  exact UInt64.toNat_ofNat_of_lt (by simp only [Nat.reducePow, UInt64.size] at hm ⊢; omega)

/-- A normal double of finite exponent is read back from its encoding. -/
theorem ofSignificand_fields {m : Nat} {e : Int} (hm : 2 ^ 52 ≤ m ∧ m < 2 ^ 53)
    (he : -1074 ≤ e ∧ e ≤ 971) :
    (ofSignificand m e).biasedExponent ≠ 2047 ∧ (ofSignificand m e).significand = m ∧
      (ofSignificand m e).exponent = e ∧ (ofSignificand m e).negative = false := by
  have hbits := toNat_bits_ofSignificand hm.2 he
  have hE : (ofSignificand m e).biasedExponent = (e + 1075).toNat := by
    rw [biasedExponent, hbits]; simp only [Nat.reducePow] at hm ⊢; omega
  have hF : (ofSignificand m e).fraction = m - 2 ^ 52 := by
    rw [fraction, hbits]; simp only [Nat.reducePow] at hm ⊢; omega
  refine ⟨by omega, ?_, ?_, ?_⟩
  · rw [significand, if_neg (by omega), hF]; simp only [Nat.reducePow] at hm ⊢; omega
  · rw [exponent, if_neg (by omega), hE]; omega
  · rw [negative, hbits, decide_eq_false_iff_not]; simp only [Nat.reducePow] at hm ⊢; omega

theorem bitLength_le {n : Nat} (h0 : 0 < n) (h : n < 2 ^ 53) :
    0 < bitLength n ∧ bitLength n ≤ 53 := by
  obtain ⟨hlo, hhi⟩ := pow_length_toDigits (by decide : 1 < 2) h0
  rw [← bitLength] at hlo hhi
  refine ⟨Nat.pos_of_ne_zero fun h1 => by rw [h1] at hhi; omega, ?_⟩
  by_contra h1
  have := Nat.pow_le_pow_right (by decide : 0 < 2) (show 53 ≤ bitLength n - 1 by omega)
  omega

/-- Below `2 ^ 53` an integer is a double: its significand is the integer shifted to 53 bits. -/
theorem normal_of_lt {n : Nat} (h0 : 0 < n) (h : n < 2 ^ 53) :
    2 ^ 52 ≤ n * 2 ^ (53 - bitLength n) ∧ n * 2 ^ (53 - bitLength n) < 2 ^ 53 := by
  obtain ⟨hlo, hhi⟩ := pow_length_toDigits (by decide : 1 < 2) h0
  rw [← bitLength] at hlo hhi
  have hb := bitLength_le h0 h
  constructor
  · calc 2 ^ 52 = 2 ^ (bitLength n - 1) * 2 ^ (53 - bitLength n) := by
          rw [← pow_add]; congr 1; omega
      _ ≤ _ := Nat.mul_le_mul_right _ hlo
  · calc n * 2 ^ (53 - bitLength n) < 2 ^ bitLength n * 2 ^ (53 - bitLength n) :=
          Nat.mul_lt_mul_of_pos_right hhi (Nat.pos_pow_of_pos _ (by decide))
      _ = 2 ^ 53 := by rw [← pow_add]; congr 1; omega

/-- Below `2 ^ 53`, `𝔽(n)` is exact. -/
theorem ofNat_of_lt {n : Nat} (h0 : 0 < n) (h : n < 2 ^ 53) :
    ofNat n = ofSignificand (n * 2 ^ (53 - bitLength n)) (-((53 - bitLength n : Nat) : Int)) := by
  rw [ofNat, if_neg (by omega), if_pos (bitLength_le h0 h).2]
  congr 1; have := (bitLength_le h0 h).2; omega

/-! ## The shortest decimal of an integer -/

/-- Between the midpoints `n * P - c` and `n * P + 2` of a gap `P ≥ 4` lies one multiple of `P`,
`n * P`, whether the ends count or not. -/
theorem eq_of_near {D n P c : Nat} (hn : 0 < n) (hP : 4 ≤ P) (hc : 1 ≤ c ∧ c ≤ 2) :
    (n * P - c ≤ D * P ∧ D * P ≤ n * P + 2 ↔ D = n) ∧
      (n * P - c < D * P ∧ D * P < n * P + 2 ↔ D = n) := by
  rcases Nat.lt_trichotomy D n with h | rfl | h
  · have := Nat.mul_le_mul_right P (Nat.succ_le_of_lt h); rw [Nat.succ_mul] at this; omega
  · have := Nat.mul_le_mul_right P hn; omega
  · have := Nat.mul_le_mul_right P (Nat.succ_le_of_lt h); rw [Nat.succ_mul] at this; omega

/-- A decimal with no fractional digits reads back as the double of an integer exactly when it is
that integer. -/
theorem roundsTo_integer {n : Nat} (hn : 0 < n) (k s t : Nat) :
    roundsTo (n * 2 ^ k) (-(k : Int)) s t = decide (s * 10 ^ t = n) := by
  have h4 : 4 * (n * 2 ^ k) = n * 2 ^ (k + 2) := by rw [pow_add]; show _ = n * (2 ^ k * 4); ac_rfl
  have hP : 4 ≤ 2 ^ (k + 2) := by
    rw [pow_add]; exact Nat.le_mul_of_pos_left 4 (Nat.pos_pow_of_pos _ (by decide))
  have hq : (-(-(k : Int) - 2)).toNat = k + 2 := by omega
  have hq' : (-(k : Int) - 2).toNat = 0 := by omega
  simp only [roundsTo, scaled, Int.toNat_ofNat, hq, hq', Int.toNat_neg_nat, pow_zero, Nat.mul_one,
    h4]
  have hc := eq_of_near (D := s * 10 ^ t)
    (c := if n * 2 ^ k = 2 ^ 52 ∧ -1074 < -(k : Int) then 1 else 2) hn hP (by split <;> omega)
  split <;> rw [← Bool.decide_and, decide_eq_decide]
  exacts [hc.1, hc.2]

/-- The exact expansion of the double of an integer is the integer followed by zeros. -/
theorem exactDecimal_integer (n k : Nat) :
    exactDecimal (n * 2 ^ k) (-(k : Int)) = (n * 10 ^ k, k) := by
  rcases Nat.eq_zero_or_pos k with rfl | hk
  · simp [exactDecimal]
  · rw [exactDecimal, if_neg (by omega), show (-(-(k : Int))).toNat = k by omega, Nat.mul_assoc,
      ← Nat.mul_pow]

/-- The candidate with `t` digits dropped from the exact expansion of an integer: the integer
without them, when they are zeros. -/
theorem decimalCandidate_integer {n : Nat} (hn : 0 < n) (k t : Nat)
    (ht : t < (decimalDigits n).length) :
    decimalCandidate (n * 2 ^ k) (-(k : Int)) (n * 10 ^ k) k (k + t) =
      if n % 10 ^ t = 0 then some (n / 10 ^ t, (t : Int)) else none := by
  have hpow : 10 ^ (k + t) = 10 ^ t * 10 ^ k := by rw [pow_add, Nat.mul_comm]
  have hk : 0 < 10 ^ k := Nat.pos_pow_of_pos _ (by decide)
  have hdown : n * 10 ^ k / 10 ^ (k + t) = n / 10 ^ t := by
    rw [hpow, Nat.mul_div_mul_right _ _ hk]
  have hmod : n * 10 ^ k % 10 ^ (k + t) = n % 10 ^ t * 10 ^ k := by
    rw [hpow, Nat.mul_mod_mul_right]
  have hlen : (decimalDigits (n * 10 ^ k)).length = (decimalDigits n).length + k := by
    rw [decimalDigits_mul_pow_ten hn]; simp
  have htInt : ((k + t : Nat) : Int) - k = t := by omega
  simp only [decimalCandidate, hdown, hmod, hlen, htInt, roundsTo_integer hn]
  have ht0 : 0 < 10 ^ t := Nat.pos_pow_of_pos t (by decide)
  have hdiv := Nat.div_add_mod' n (10 ^ t)
  have hlt := Nat.mod_lt n ht0
  by_cases h : n % 10 ^ t = 0
  · have hd : n / 10 ^ t * 10 ^ t = n := by omega
    have hsmall : n / 10 ^ t < 10 ^ ((decimalDigits n).length + k - (k + t)) := by
      rw [Nat.div_lt_iff_lt_mul ht0, ← pow_add,
        show (decimalDigits n).length + k - (k + t) + t = (decimalDigits n).length by omega]
      exact (pow_length_toDigits (by decide) hn).2
    simp [h, hd, hsmall.ne]
  · have hd : n / 10 ^ t * 10 ^ t ≠ n := by omega
    have hup : (n / 10 ^ t + 1) * 10 ^ t ≠ n := by rw [Nat.succ_mul]; omega
    simp [h, hd, hup, Nat.mul_ne_zero h hk.ne']

/-- Searching `d - 1, …, 0` finds the first `j` that gives a value. -/
theorem findSome?_range_reverse {α : Type} {f : Nat → Option α} {a d : Nat} {v : α}
    (ha : a < d) (hv : f a = some v) (hnone : ∀ j, a < j → j < d → f j = none) :
    (List.range d).reverse.findSome? f = some v := by
  induction d with
  | zero => omega
  | succ d ih =>
    rw [List.range_succ, List.reverse_append, List.reverse_singleton, List.singleton_append,
      List.findSome?_cons]
    rcases Nat.lt_succ_iff_lt_or_eq.1 ha with ha | rfl
    · rw [hnone d ha (by omega)]
      exact ih ha fun j h1 h2 => hnone j h1 (by omega)
    · rw [hv]

/-- Every positive integer is `s * 10 ^ tz` with `s` not a multiple of ten. -/
theorem exists_trailing_zeros {n : Nat} (hn : 0 < n) :
    ∃ s tz, n = s * 10 ^ tz ∧ s % 10 ≠ 0 := by
  induction n using Nat.strong_induction_on with
  | _ n ih =>
    by_cases h : n % 10 = 0
    · obtain ⟨s, tz, hs, h10⟩ := ih (n / 10) (by omega) (by omega)
      exact ⟨s, tz + 1, by rw [pow_succ, ← Nat.mul_assoc, ← hs]; omega, h10⟩
    · exact ⟨n, 0, by simp, h⟩

/-- With `s` not a multiple of ten, `10 ^ t` divides `s * 10 ^ tz` only up to `tz`. -/
theorem mod_pow_ten_ne_zero {s tz t : Nat} (h10 : s % 10 ≠ 0) (ht : tz < t) :
    s * 10 ^ tz % 10 ^ t ≠ 0 := by
  intro h
  have h1 : 10 ^ tz * 10 ^ (t - tz) ∣ s * 10 ^ tz := by
    rw [← pow_add, show tz + (t - tz) = t by omega]; exact Nat.dvd_of_mod_eq_zero h
  rw [Nat.mul_comm s] at h1
  have h2 := Nat.dvd_of_mul_dvd_mul_left (Nat.pos_pow_of_pos tz (by decide)) h1
  exact h10 (Nat.mod_eq_zero_of_dvd
    (Nat.dvd_trans (Nat.pow_dvd_pow 10 (by omega : 1 ≤ t - tz)) h2))

/-- An integer `s * 10 ^ tz` is a double whose shortest decimal is `s` digits shifted by `tz`:
a decimal reads back as it only when it is the integer itself, so the fewest digits drop its
trailing zeros. -/
theorem shortestDecimal_integer {s tz : Nat} (h10 : s % 10 ≠ 0) (k : Nat) :
    shortestDecimal (s * 10 ^ tz * 2 ^ k) (-(k : Int)) = (s, (tz : Int)) := by
  have hn : 0 < s * 10 ^ tz := Nat.mul_pos (by omega) (Nat.pos_pow_of_pos tz (by decide))
  have hlen : (decimalDigits (s * 10 ^ tz * 10 ^ k)).length =
      (decimalDigits (s * 10 ^ tz)).length + k := by
    rw [decimalDigits_mul_pow_ten hn]; simp
  have htz : tz < (decimalDigits (s * 10 ^ tz)).length := by
    rw [decimalDigits_mul_pow_ten (by omega)]; simp [decimalDigits, length_toDigits_pos]
  have hv : decimalCandidate (s * 10 ^ tz * 2 ^ k) (-(k : Int)) (s * 10 ^ tz * 10 ^ k) k
      (k + tz) = some (s, (tz : Int)) := by
    rw [decimalCandidate_integer hn k tz htz, if_pos (Nat.mul_mod_left _ _),
      Nat.mul_div_cancel _ (Nat.pos_pow_of_pos tz (by decide))]
  simp only [shortestDecimal, exactDecimal_integer, hlen]
  rw [findSome?_range_reverse (by omega) hv, Option.getD_some]
  intro j h1 h2
  obtain ⟨t, rfl⟩ := Nat.exists_eq_add_of_le (show k ≤ j by omega)
  rw [decimalCandidate_integer hn k t (by omega), if_neg (mod_pow_ten_ne_zero h10 (by omega))]

/-- Up to 21 digits, the text of an integer is positional: its digits. -/
theorem decimalText_integer {s tz : Nat} (hs : 0 < s)
    (h : (decimalDigits (s * 10 ^ tz)).length ≤ 21) :
    decimalText s tz = String.mk (decimalDigits (s * 10 ^ tz)) := by
  rw [decimalDigits_mul_pow_ten hs] at h ⊢
  simp only [List.length_append, List.length_replicate] at h
  rw [decimalText, if_pos (by omega), if_pos (by omega)]
  congr; omega

/-- An integer below `2 ^ 53` has at most 16 digits. -/
theorem length_decimalDigits_le {n : Nat} (hn : 0 < n) (h : n < 2 ^ 53) :
    (decimalDigits n).length ≤ 16 := by
  by_contra h1
  have h2 := Nat.pow_le_pow_right (by decide : 0 < 10)
    (show 16 ≤ (decimalDigits n).length - 1 by omega)
  have h3 := (pow_length_toDigits (by decide : 1 < 10) hn).1
  rw [← decimalDigits] at h3
  simp only [Nat.reducePow] at h h2; omega

/-- An integer below `2 ^ 53`, read by `JSON.parse` as a trace value, decodes to the text of its
own digits. -/
theorem traceValueFromJSON_ofNat_safe (n : Nat) (h : n < 2 ^ 53) :
    traceValueFromJSON (.number (ofNat n)) = .string (toString n) := by
  rcases Nat.eq_zero_or_pos n with rfl | hn
  · rfl
  obtain ⟨hlo, hhi⟩ := normal_of_lt hn h
  obtain ⟨hE, hm, he, hneg⟩ :=
    ofSignificand_fields (e := -((53 - bitLength n : Nat) : Int)) ⟨hlo, hhi⟩ (by omega)
  have hdigits := length_decimalDigits_le hn h
  obtain ⟨s, tz, rfl, h10⟩ := exists_trailing_zeros hn
  rw [traceValueFromJSON, ofNat_of_lt hn h, numberToString, if_neg hE, hm, if_neg (by omega), he,
    hneg, shortestDecimal_integer h10]
  simp only [Bool.false_eq_true, if_false]
  rw [decimalText_integer (by omega) (by omega)]
  rfl

/-- The largest such integer, `2 ^ 53 - 1`, keeps its digits. -/
theorem traceValueFromJSON_ofNat_largest_safe :
    2 ^ 53 - 1 < 2 ^ 53 ∧
      traceValueFromJSON (.number (ofNat (2 ^ 53 - 1))) = .string (toString (2 ^ 53 - 1)) :=
  ⟨by decide, traceValueFromJSON_ofNat_safe _ (by decide)⟩

/-! Past `2 ^ 53`, integers are no longer all doubles. -/

example : traceValueFromJSON (.number (ofNat (2 ^ 53 + 1))) = .string "9007199254740992" :=
  congrArg RuntimeValueType.string (by decide)
example : traceValueFromJSON (.number (ofNat (2 ^ 60))) = .string "1152921504606847000" :=
  congrArg RuntimeValueType.string (by decide)

end TraceAdapter
