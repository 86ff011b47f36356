import Mathlib.Data.Int.Log
import Mathlib.Data.Rat.Floor

/-!
# Rounding to `float64`

A `float64` has 53 significant bits. An operation on such numbers gives the nearest one to the exact
result, the one with an even last bit when two are equally near. Subnormal numbers and overflow are
left out: the numbers are times and counts.
-/

namespace Lib.Float64

/-- The integer nearest to a number, the even one of two. -/
def roundEven (q : ℚ) : ℤ :=
  if q - ⌊q⌋ < 1 / 2 then ⌊q⌋
  else if 1 / 2 < q - ⌊q⌋ then ⌊q⌋ + 1
  else if Even ⌊q⌋ then ⌊q⌋ else ⌊q⌋ + 1

/-- The weight of the last of the 53 bits of a number. -/
def ulp (x : ℚ) : ℚ := 2 ^ (Int.log 2 |x| - 52)

def round (x : ℚ) : ℚ := roundEven (x / ulp x) * ulp x

variable {q r x : ℚ}

@[simp] lemma roundEven_intCast (n : ℤ) : roundEven n = n := by
  simp [roundEven]

lemma floor_le_roundEven (q : ℚ) : ⌊q⌋ ≤ roundEven q := by
  unfold roundEven
  split_ifs <;> omega

lemma roundEven_le_floor_add_one (q : ℚ) : roundEven q ≤ ⌊q⌋ + 1 := by
  unfold roundEven
  split_ifs <;> omega

lemma roundEven_mono (h : q ≤ r) : roundEven q ≤ roundEven r := by
  rcases (Int.floor_mono h).lt_or_eq with hlt | heq
  · calc roundEven q ≤ ⌊q⌋ + 1 := roundEven_le_floor_add_one q
      _ ≤ ⌊r⌋ := hlt
      _ ≤ roundEven r := floor_le_roundEven r
  · -- in one interval between integers the distance to the lower end decides
    unfold roundEven
    rw [← heq]
    split_ifs <;> first | omega | (exfalso; linarith)

variable {n : ℤ}

lemma roundEven_le (h : q ≤ n) : roundEven q ≤ n := by
  rw [← roundEven_intCast n]
  exact roundEven_mono h

lemma le_roundEven (h : (n : ℚ) ≤ q) : n ≤ roundEven q := by
  rw [← roundEven_intCast n]
  exact roundEven_mono h

lemma ulp_pos (x : ℚ) : 0 < ulp x := zpow_pos two_pos _

/-- Below `2 ^ 53` the integers are floats. -/
lemma exists_mul_ulp (h : |x| < 2 ^ 53) (n : ℤ) : ∃ m : ℤ, (n : ℚ) = m * ulp x := by
  have hlog : Int.log 2 |x| ≤ 52 := by
    rcases (abs_nonneg x).eq_or_lt with h0 | h0
    · rw [← h0]
      norm_num
    · have hlt : Int.log 2 |x| < 53 := by
        rw [← Int.lt_zpow_iff_log_lt one_lt_two h0]
        exact_mod_cast h
      omega
  obtain ⟨k, hk⟩ := Int.eq_ofNat_of_zero_le (sub_nonneg.mpr hlog)
  refine ⟨n * 2 ^ k, ?_⟩
  have hone : (2 : ℚ) ^ k * ulp x = 1 := by
    rw [ulp, ← zpow_natCast, ← zpow_add₀ two_ne_zero, ← hk]
    norm_num
  push_cast
  rw [mul_assoc, hone, mul_one]

lemma round_le_intCast (hx : |x| < 2 ^ 53) (h : x ≤ n) : round x ≤ n := by
  obtain ⟨m, hm⟩ := exists_mul_ulp hx n
  rw [hm] at h ⊢
  refine mul_le_mul_of_nonneg_right ?_ (ulp_pos x).le
  exact_mod_cast roundEven_le ((div_le_iff₀ (ulp_pos x)).mpr h)

lemma intCast_le_round (hx : |x| < 2 ^ 53) (h : (n : ℚ) ≤ x) : (n : ℚ) ≤ round x := by
  obtain ⟨m, hm⟩ := exists_mul_ulp hx n
  rw [hm] at h ⊢
  refine mul_le_mul_of_nonneg_right ?_ (ulp_pos x).le
  exact_mod_cast le_roundEven ((le_div_iff₀ (ulp_pos x)).mpr h)

lemma round_intCast (h : |(n : ℚ)| < 2 ^ 53) : round n = n :=
  le_antisymm (round_le_intCast h le_rfl) (intCast_le_round h le_rfl)

end Lib.Float64

/-!
## Durations of Go

A time and a duration are numbers of nanoseconds; a duration is an `int64`. `Seconds` computes with
`float64` numbers: the whole seconds and the rest are converted and added.
-/

namespace Lib.GoTime

def second : Int := 1000000000

/-- `time.Time.Sub`, cut to the largest or the smallest duration. -/
def sub (t u : Int) : Int := max (-2 ^ 63) (min (2 ^ 63 - 1) (t - u))

def seconds (d : Int) : ℚ :=
  Float64.round (d.tdiv second + Float64.round (d.tmod second / second))

/-- The conversion of a whole `float64` to `int32`. The language leaves open what becomes of a
number that does not fit; this is what amd64 makes of it. -/
def int32 (n : Int) : Int32 := if -2 ^ 31 ≤ n ∧ n < 2 ^ 31 then Int32.ofInt n else Int32.minValue

lemma sub_eq {t u : Int} (hl : -2 ^ 63 ≤ t - u) (hu : t - u < 2 ^ 63) : sub t u = t - u := by
  unfold sub
  omega

lemma seconds_mul_second {n : Int} (h : |(n : ℚ)| < 2 ^ 53) : seconds (n * second) = n := by
  have hrest : Float64.round (((n * second).tmod second : Int) / second) = 0 := by
    rw [Int.mul_tmod_left, Int.cast_zero]
    exact_mod_cast Float64.round_intCast (n := 0) (by norm_num)
  rw [seconds, hrest, add_zero, Int.mul_tdiv_cancel _ (by decide)]
  exact Float64.round_intCast h

section Rest

variable {r : Int}

lemma second_pos : (0 : ℚ) < second := by
  unfold second
  norm_num

section

variable (h : |r| < second)
include h

lemma abs_rest_le_one : |(r : ℚ) / second| ≤ 1 := by
  rw [abs_div, abs_of_pos second_pos, div_le_one second_pos]
  exact_mod_cast h.le

lemma abs_rest_lt : |(r : ℚ) / second| < 2 ^ 53 :=
  (abs_rest_le_one h).trans_lt (by norm_num)

/-- A part of a second is not rounded beyond a whole number of seconds. -/
lemma round_rest_le {c : Int} (hc : r ≤ c * second) : Float64.round ((r : ℚ) / second) ≤ c := by
  refine Float64.round_le_intCast (abs_rest_lt h) ?_
  rw [div_le_iff₀ second_pos]
  exact_mod_cast hc

lemma neg_one_le_round_rest : -1 ≤ Float64.round ((r : ℚ) / second) := by
  have hlow := (abs_le.mp (abs_rest_le_one h)).1
  exact_mod_cast Float64.intCast_le_round (abs_rest_lt h) (n := -1) (by exact_mod_cast hlow)

end

end Rest

/-- A duration of some whole seconds at most is not rounded up beyond them. -/
lemma seconds_le {d n : Int} (hl : -2 ^ 63 ≤ d) (hu : d < 2 ^ 63) (h : d ≤ n * second) :
    seconds d ≤ n := by
  unfold seconds
  have hd := Int.mul_tdiv_add_tmod d second
  have hrest : |d.tmod second| < second := by
    rw [abs_lt]
    exact ⟨Int.lt_tmod_of_pos d (by decide), Int.tmod_lt_of_pos d (by decide)⟩
  generalize d.tdiv second = q at hd ⊢
  generalize d.tmod second = r at hd hrest ⊢
  -- the rest counts as a second only if it is positive
  obtain ⟨c, hc, hle, hq⟩ : ∃ c : Int, r ≤ c * second ∧ c ≤ 1 ∧ q + c ≤ n := by
    rw [abs_lt] at hrest
    by_cases hr : r ≤ 0
    · refine ⟨0, ?_, zero_le_one, ?_⟩ <;> simp only [second] at * <;> omega
    · refine ⟨1, ?_, le_rfl, ?_⟩ <;> simp only [second] at * <;> omega
  have hbounds : -2 ^ 34 ≤ q ∧ q ≤ 2 ^ 34 := by
    rw [abs_lt] at hrest
    simp only [second] at *
    omega
  have hlow := neg_one_le_round_rest hrest
  have hup := round_rest_le hrest hc
  have hle' : (c : ℚ) ≤ 1 := by exact_mod_cast hle
  have hq' : (q : ℚ) + c ≤ n := by exact_mod_cast hq
  have hbounds' : (-2 ^ 34 : ℚ) ≤ q ∧ (q : ℚ) ≤ 2 ^ 34 := by exact_mod_cast hbounds
  refine Float64.round_le_intCast ?_ (by linarith)
  rw [abs_lt]
  constructor <;> linarith [hbounds'.1, hbounds'.2]

end Lib.GoTime
