import Mathlib.Data.Int.Log
import Mathlib.Data.Rat.Floor
import Mathlib.Tactic.Linarith
import Mathlib.Tactic.Positivity

/-!
# Numbers in double precision

`nearest` rounds a number that is not negative to the nearest double, of two the one with the even significand, and
`rounded` any number.  Numbers too large for a double are not considered.

What is used of it is how it behaves at whole numbers below `2 ^ 53`, which are doubles: rounding never crosses
one, and a quotient that is not whole stays off it when the divisor is small, so that rounding a quotient up is
not disturbed (`ceil_nearest_div`).
-/

namespace Doubles

/-! ## Whole numbers -/

/-- The nearest whole number, of two the even one. -/
def roundHalfEven (x : ℚ) : ℤ :=
  if x - ⌊x⌋ < 1 / 2 then ⌊x⌋
  else if 1 / 2 < x - ⌊x⌋ then ⌊x⌋ + 1
  else if Even ⌊x⌋ then ⌊x⌋ else ⌊x⌋ + 1

lemma floor_le_roundHalfEven (x : ℚ) : ⌊x⌋ ≤ roundHalfEven x := by
  rw [roundHalfEven]
  split_ifs <;> omega

lemma roundHalfEven_intCast (m : ℤ) : roundHalfEven m = m := by
  rw [roundHalfEven, Int.floor_intCast, sub_self]
  norm_num

lemma le_roundHalfEven {x : ℚ} {m : ℤ} (h : (m : ℚ) ≤ x) : m ≤ roundHalfEven x :=
  (Int.le_floor.mpr h).trans (floor_le_roundHalfEven x)

lemma roundHalfEven_le {x : ℚ} {m : ℤ} (h : x ≤ m) : roundHalfEven x ≤ m := by
  obtain rfl | hlt := h.eq_or_lt
  · exact (roundHalfEven_intCast m).le
  · have hfloor : ⌊x⌋ < m := Int.floor_lt.mpr hlt
    rw [roundHalfEven]
    split_ifs <;> omega

/-- More than half above a whole number is not rounded down to it. -/
lemma lt_roundHalfEven {x : ℚ} {m : ℤ} (h : m + 1 / 2 < x) : m < roundHalfEven x := by
  have hle : m ≤ ⌊x⌋ := Int.le_floor.mpr (by linarith)
  obtain rfl | hlt := hle.eq_or_lt
  · have hover : 1 / 2 < x - ⌊x⌋ := by linarith
    rw [roundHalfEven, if_neg hover.not_gt, if_pos hover]
    exact Int.lt_succ _
  · exact hlt.trans_le (floor_le_roundHalfEven x)

/-! ## Doubles -/

/-- The exponent of the last bit. -/
def exponent (q : ℚ) : ℤ := max (Int.log 2 q - 52) (-1074)

def nearest (q : ℚ) : ℚ := roundHalfEven (q / 2 ^ exponent q) * 2 ^ exponent q

/-- The same on both sides of zero. -/
def rounded (q : ℚ) : ℚ := if q < 0 then -nearest (-q) else nearest q

variable {q : ℚ} {n k : ℕ}

lemma exponent_le (pos : 0 < q) (lt : q < 2 ^ k) : exponent q ≤ k - 53 := by
  have hlog : Int.log 2 q < (k : ℤ) := (Int.lt_zpow_iff_log_lt (by decide) pos).mp (by exact_mod_cast lt)
  rw [exponent]
  omega

/-- Where the last bit is worth at most one, a whole number is a whole number of last bits. -/
lemma natCast_div_zpow (n : ℕ) {e : ℤ} (le : e ≤ 0) : ∃ m : ℤ, (n : ℚ) / 2 ^ e = m := by
  obtain ⟨d, rfl⟩ := Int.exists_eq_neg_ofNat le
  refine ⟨n * 2 ^ d, ?_⟩
  rw [zpow_neg, div_inv_eq_mul, zpow_natCast]
  push_cast
  rfl

lemma nearest_zero : nearest 0 = 0 := by
  have hzero : roundHalfEven 0 = 0 := roundHalfEven_intCast 0
  rw [nearest, zero_div, hzero, Int.cast_zero, zero_mul]

/-- Rounding does not cross a whole number from below. -/
theorem nearest_le (nonneg : 0 ≤ q) (small : q < 2 ^ 53) (le : q ≤ n) : nearest q ≤ n := by
  obtain rfl | pos := nonneg.eq_or_lt
  · rw [nearest_zero]
    exact le
  · have he : exponent q ≤ 0 := exponent_le pos small
    have hulp : (0 : ℚ) < 2 ^ exponent q := zpow_pos (by norm_num) _
    obtain ⟨m, hm⟩ := natCast_div_zpow n he
    have hround : roundHalfEven (q / 2 ^ exponent q) ≤ m := by
      apply roundHalfEven_le
      rw [← hm]
      gcongr
    have hcast : (roundHalfEven (q / 2 ^ exponent q) : ℚ) ≤ n / 2 ^ exponent q := by
      rw [hm]
      exact_mod_cast hround
    rw [nearest]
    exact (le_div_iff₀ hulp).mp hcast

/-- Nor from above, and what is more than half a last bit above it stays above. -/
theorem lt_nearest (pos : 0 < q) (lt : q < 2 ^ k) (small : k ≤ 53) (above : n + 2 ^ ((k : ℤ) - 54) < q) :
    n < nearest q := by
  have hexp := exponent_le pos lt
  have he : exponent q ≤ 0 := by omega
  have hulp : (0 : ℚ) < 2 ^ exponent q := zpow_pos (by norm_num) _
  obtain ⟨m, hm⟩ := natCast_div_zpow n he
  have hhalf : (2 : ℚ) ^ exponent q / 2 ≤ 2 ^ ((k : ℤ) - 54) := by
    have hsucc : (k : ℤ) - 53 = (k - 54) + 1 := by omega
    have hle : (2 : ℚ) ^ exponent q ≤ 2 ^ ((k : ℤ) - 53) := zpow_le_zpow_right₀ (by norm_num) hexp
    rw [hsucc, zpow_add_one₀ (by norm_num)] at hle
    linarith
  have hround : m < roundHalfEven (q / 2 ^ exponent q) := by
    apply lt_roundHalfEven
    rw [← hm, lt_div_iff₀ hulp, add_mul, div_mul_cancel₀ _ hulp.ne']
    linarith
  have hcast : (n : ℚ) / 2 ^ exponent q < roundHalfEven (q / 2 ^ exponent q) := by
    rw [hm]
    exact_mod_cast hround
  rw [nearest]
  exact (div_lt_iff₀ hulp).mp hcast

/-- **Rounding up a quotient.**  Where the divisor is small enough for the size of the quotient, its rounding does
not disturb the rounding up. -/
theorem ceil_nearest_div {d : ℕ} (pos : 0 < d) (lt : n < d * 2 ^ k) (small : k ≤ 53) (fine : d * 2 ^ k < 2 ^ 54) :
    ⌈nearest (n / d)⌉ = ((n + (d - 1)) / d : ℕ) := by
  have hd : (0 : ℚ) < d := by exact_mod_cast pos
  have hlt : (n : ℚ) / d < 2 ^ k := by
    rw [div_lt_iff₀ hd, mul_comm]
    exact_mod_cast lt
  have hsmall : (n : ℚ) / d < 2 ^ 53 := hlt.trans_le (pow_le_pow_right₀ (by norm_num) small)
  obtain hzero | ⟨m, hm⟩ : n = 0 ∨ ∃ m, n = m + 1 := by
    cases n with
    | zero => exact .inl rfl
    | succ m => exact .inr ⟨m, rfl⟩
  · have hdiv : (d - 1) / d = 0 := Nat.div_eq_of_lt (by omega)
    rw [hzero, Nat.cast_zero, zero_div, nearest_zero, Nat.zero_add, hdiv, Int.ceil_zero, Nat.cast_zero]
  · have hup : (n + (d - 1)) / d = m / d + 1 := by
      have hsum : n + (d - 1) = m + d := by omega
      rw [hsum, Nat.add_div_right _ pos]
    have hpos : (0 : ℚ) < n / d := by
      rw [hm]
      positivity
    rw [hup, Int.ceil_eq_iff]
    constructor
    · have hfine : (2 : ℚ) ^ ((k : ℤ) - 54) < 1 / d := by
        rw [zpow_sub₀ (by norm_num), lt_div_iff₀ hd, div_mul_eq_mul_div, div_lt_one (by norm_num), mul_comm]
        exact_mod_cast fine
      have hge : ((m / d : ℕ) : ℚ) + 1 / d ≤ n / d := by
        rw [le_div_iff₀ hd, add_mul, one_div, inv_mul_cancel₀ hd.ne']
        have hdown := Nat.div_mul_le_self m d
        rw [hm]
        exact_mod_cast Nat.succ_le_succ hdown
      have hnearest : ((m / d : ℕ) : ℚ) < nearest (n / d) := lt_nearest hpos hlt small (by linarith)
      rw [Int.cast_natCast, Nat.cast_succ, add_sub_cancel_right]
      exact hnearest
    · have hle : (n : ℚ) / d ≤ ((m / d + 1 : ℕ) : ℚ) := by
        rw [div_le_iff₀ hd]
        have hup := Nat.lt_div_mul_add (a := m) pos
        have hmul : (m / d + 1) * d = m / d * d + d := Nat.succ_mul _ _
        have hn : n ≤ (m / d + 1) * d := by omega
        exact_mod_cast hn
      have hnearest := nearest_le hpos.le hsmall hle
      exact_mod_cast hnearest

/-! ## Differences -/

lemma nearest_nonneg (nonneg : 0 ≤ q) : 0 ≤ nearest q := by
  have hulp : (0 : ℚ) < 2 ^ exponent q := zpow_pos (by norm_num) _
  have hround : 0 ≤ roundHalfEven (q / 2 ^ exponent q) := by
    apply le_roundHalfEven
    rw [Int.cast_zero]
    positivity
  unfold nearest
  have hcast : (0 : ℚ) ≤ roundHalfEven (q / 2 ^ exponent q) := by exact_mod_cast hround
  positivity

/-- What is a whole number of last bits is a double. -/
lemma nearest_eq_self {m : ℤ} (h : q / 2 ^ exponent q = m) : nearest q = q := by
  have hulp : (2 : ℚ) ^ exponent q ≠ 0 := zpow_ne_zero _ (by norm_num)
  rw [nearest, h, roundHalfEven_intCast, ← h, div_mul_cancel₀ _ hulp]

lemma nearest_natCast (h : n < 2 ^ 53) : nearest n = n := by
  obtain rfl | pos := Nat.eq_zero_or_pos n
  · rw [Nat.cast_zero, nearest_zero]
  · have hsmall : (n : ℚ) < 2 ^ 53 := by exact_mod_cast h
    have he : exponent n ≤ 0 := exponent_le (by exact_mod_cast pos) hsmall
    obtain ⟨m, hm⟩ := natCast_div_zpow n he
    exact nearest_eq_self hm

/-- A whole number is taken off a larger double without rounding. -/
theorem nearest_sub_natCast (small : q < 2 ^ 53) (double : nearest q = q) (le : (n : ℚ) ≤ q) :
    nearest (q - n) = q - n := by
  obtain heq | hlt := le.eq_or_lt
  · rw [heq, sub_self, nearest_zero]
  · have hdiff : 0 < q - n := by linarith
    have hnonneg : (0 : ℚ) ≤ n := Nat.cast_nonneg n
    have hpos : 0 < q := by linarith
    have he : exponent q ≤ 0 := exponent_le hpos small
    have hlog : Int.log 2 (q - n) ≤ Int.log 2 q := Int.log_mono_right hdiff (by linarith)
    have hfiner : exponent (q - n) ≤ exponent q := by
      unfold exponent
      omega
    obtain ⟨d, hd⟩ : ∃ d : ℕ, exponent q = exponent (q - n) + d := Int.le.dest hfiner |>.imp fun _ h => h.symm
    obtain ⟨m, hm⟩ := natCast_div_zpow n he
    have htwo : (2 : ℚ) ≠ 0 := by norm_num
    have hbits : q = roundHalfEven (q / 2 ^ exponent q) * 2 ^ exponent q := double.symm
    have hn : (n : ℚ) = m * 2 ^ exponent q := by
      rw [← hm, div_mul_cancel₀ _ (zpow_ne_zero _ htwo)]
    apply nearest_eq_self (m := (roundHalfEven (q / 2 ^ exponent q) - m) * 2 ^ d)
    have hulp : (2 : ℚ) ^ exponent (q - n) ≠ 0 := zpow_ne_zero _ htwo
    rw [div_eq_iff hulp]
    calc q - n = roundHalfEven (q / 2 ^ exponent q) * 2 ^ exponent q - m * 2 ^ exponent q := by rw [← hbits, ← hn]
      _ = (roundHalfEven (q / 2 ^ exponent q) - m) * 2 ^ exponent q := by rw [sub_mul]
      _ = (roundHalfEven (q / 2 ^ exponent q) - m) * (2 ^ d * 2 ^ exponent (q - n)) := by
        rw [hd, zpow_add₀ htwo, zpow_natCast, mul_comm (2 ^ exponent (q - n))]
      _ = _ := by
        push_cast
        rw [mul_assoc]

/-- **A difference against a whole number.**  Its rounding does not take it across. -/
theorem lt_rounded_sub_iff (small : q < 2 ^ 53) (double : nearest q = q) {m : ℤ} (nonneg : 0 ≤ m) :
    (m : ℚ) < rounded (q - n) ↔ (m : ℚ) < q - n := by
  have hm : (0 : ℚ) ≤ m := by exact_mod_cast nonneg
  rcases lt_or_ge q n with hlt | hle
  · have hneg : q - n < 0 := by linarith
    have hnearest := nearest_nonneg (q := -(q - n)) (by linarith)
    rw [rounded, if_pos hneg]
    constructor
    · intro h
      linarith
    · intro h
      linarith
  · rw [rounded, if_neg (by linarith), nearest_sub_natCast small double hle]

/-! ## Order -/

lemma roundHalfEven_mono {x y : ℚ} (le : x ≤ y) : roundHalfEven x ≤ roundHalfEven y := by
  obtain hlt | heq := (Int.floor_mono le).lt_or_eq
  · have hx : roundHalfEven x ≤ ⌊x⌋ + 1 := by
      apply roundHalfEven_le
      push_cast
      exact (Int.lt_floor_add_one x).le
    exact hx.trans (hlt.trans_le (floor_le_roundHalfEven y))
  · rw [roundHalfEven, roundHalfEven, heq]
    split_ifs <;> first | omega | linarith

/-- **Rounding keeps the order.** -/
theorem nearest_mono {p : ℚ} (nonneg : 0 ≤ p) (le : p ≤ q) : nearest p ≤ nearest q := by
  obtain rfl | pos := nonneg.eq_or_lt
  · rw [nearest_zero]
    exact nearest_nonneg le
  have hstep : ∀ e : ℤ, (0 : ℚ) < 2 ^ e := fun e => zpow_pos (by norm_num) e
  have hlog : Int.log 2 p ≤ Int.log 2 q := Int.log_mono_right pos le
  obtain hexponent | hexponent : exponent p = exponent q ∨ exponent p < exponent q := by
    unfold exponent
    omega
  · have hround := roundHalfEven_mono (div_le_div_of_nonneg_right le (hstep (exponent q)).le)
    have hcast : (roundHalfEven (p / 2 ^ exponent q) : ℚ) ≤ roundHalfEven (q / 2 ^ exponent q) := by
      exact_mod_cast hround
    rw [nearest, nearest, hexponent]
    exact mul_le_mul_of_nonneg_right hcast (hstep _).le
  -- a power of two lies between the two numbers, and neither is rounded across it
  · have hhigh : exponent q = Int.log 2 q - 52 := by
      unfold exponent at hexponent ⊢
      omega
    have hlow : Int.log 2 p + 1 ≤ exponent p + 53 := by
      unfold exponent
      omega
    have hbelow : p / 2 ^ exponent p ≤ ((2 ^ 53 : ℤ) : ℚ) := by
      rw [div_le_iff₀ (hstep _)]
      calc
        p ≤ 2 ^ (Int.log 2 p + 1) := (Int.lt_zpow_succ_log_self (by decide) p).le
        _ ≤ 2 ^ (exponent p + 53) := zpow_le_zpow_right₀ (by norm_num) hlow
        _ = ((2 ^ 53 : ℤ) : ℚ) * 2 ^ exponent p := by
          rw [zpow_add₀ (by norm_num), mul_comm]
          norm_num
    have habove : ((2 ^ 52 : ℤ) : ℚ) ≤ q / 2 ^ exponent q := by
      rw [le_div_iff₀ (hstep _)]
      calc
        ((2 ^ 52 : ℤ) : ℚ) * 2 ^ exponent q = 2 ^ Int.log 2 q := by
          rw [show Int.log 2 q = exponent q + 52 by omega, zpow_add₀ (by norm_num), mul_comm]
          norm_num
        _ ≤ q := Int.zpow_log_le_self (by decide) (pos.trans_le le)
    have hp : (roundHalfEven (p / 2 ^ exponent p) : ℚ) ≤ 2 ^ 53 := by
      exact_mod_cast roundHalfEven_le hbelow
    have hq : (2 : ℚ) ^ 52 ≤ roundHalfEven (q / 2 ^ exponent q) := by
      exact_mod_cast le_roundHalfEven habove
    have hpower : (2 : ℚ) ^ 53 * 2 ^ exponent p ≤ 2 ^ 52 * 2 ^ exponent q := by
      calc
        (2 : ℚ) ^ 53 * 2 ^ exponent p = 2 ^ 52 * 2 ^ (exponent p + 1) := by
          rw [zpow_add₀ (by norm_num)]
          ring
        _ ≤ 2 ^ 52 * 2 ^ exponent q := by
          gcongr
          · norm_num
          · omega
    calc
      nearest p ≤ 2 ^ 53 * 2 ^ exponent p := mul_le_mul_of_nonneg_right hp (hstep _).le
      _ ≤ 2 ^ 52 * 2 ^ exponent q := hpower
      _ ≤ nearest q := mul_le_mul_of_nonneg_right hq (hstep _).le

/-! ## Single precision -/

/-- The exponent of the last bit of a number in single precision. -/
def exponent32 (q : ℚ) : ℤ := max (Int.log 2 q - 23) (-149)

/-- The nearest number in single precision. -/
def nearest32 (q : ℚ) : ℚ := roundHalfEven (q / 2 ^ exponent32 q) * 2 ^ exponent32 q

lemma abs_roundHalfEven_sub_le (x : ℚ) : |(roundHalfEven x : ℚ) - x| ≤ 1 / 2 := by
  have hfloor := Int.floor_le x
  have hnext := Int.lt_floor_add_one x
  rw [abs_le, roundHalfEven]
  split_ifs with hbelow habove heven
  · constructor <;> linarith
  · push_cast
    constructor <;> linarith
  · constructor <;> linarith
  · push_cast
    constructor <;> linarith

/-- Below two, rounding moves a number by half of a last bit at most. -/
lemma abs_nearest32_sub_le (pos : 0 < q) (lt : q < 2) : |nearest32 q - q| ≤ 1 / 2 ^ 24 := by
  have hlog : Int.log 2 q < 1 := (Int.lt_zpow_iff_log_lt (by decide) pos).mp (by simpa using lt)
  have hle : exponent32 q ≤ -23 := by
    rw [exponent32]
    omega
  have hstep : (0 : ℚ) < 2 ^ exponent32 q := zpow_pos (by norm_num) _
  have hbit : (2 : ℚ) ^ exponent32 q ≤ 2 ^ (-23 : ℤ) := zpow_le_zpow_right₀ (by norm_num) hle
  have hround := abs_roundHalfEven_sub_le (q / 2 ^ exponent32 q)
  have hscale : nearest32 q - q =
      (roundHalfEven (q / 2 ^ exponent32 q) - q / 2 ^ exponent32 q) * 2 ^ exponent32 q := by
    rw [nearest32, sub_mul, div_mul_cancel₀ _ hstep.ne']
  have hsmall : (1 / 2 : ℚ) * 2 ^ (-23 : ℤ) = 1 / 2 ^ 24 := by norm_num
  rw [hscale, abs_mul, abs_of_pos hstep, ← hsmall]
  exact mul_le_mul hround hbit hstep.le (by norm_num)

lemma nearest32_zero : nearest32 0 = 0 := by
  have hzero : roundHalfEven 0 = 0 := roundHalfEven_intCast 0
  rw [nearest32, zero_div, hzero, Int.cast_zero, zero_mul]

/-- Below two, numbers that are further apart than a last bit keep their order. -/
theorem nearest32_lt {p : ℚ} (nonneg : 0 ≤ p) (apart : p + 1 / 2 ^ 22 < q) (lt : q < 2) :
    nearest32 p < nearest32 q := by
  have hsmall : (0 : ℚ) < 1 / 2 ^ 22 := by norm_num
  have hq := abs_le.mp (abs_nearest32_sub_le (q := q) (by linarith) lt)
  obtain rfl | pos := nonneg.eq_or_lt
  · rw [nearest32_zero]
    norm_num at *
    linarith
  · have hp := abs_le.mp (abs_nearest32_sub_le pos (by linarith))
    norm_num at *
    linarith

end Doubles
