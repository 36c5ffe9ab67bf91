import Mathlib.Tactic.Linarith
import Mathlib.Tactic.FieldSimp
import Mathlib.Tactic.NormNum
import Jetski.Analytics

/-!
# Rounding

A number is rounded to the nearest one with 53 significant bits, so that it moves by
less than its size over `2^53`. Fractions of small numbers are further apart than this,
and only the whole percentages have to be rounded one by one.
-/

set_option autoImplicit false

namespace Jetski.Rounding

open Analytics

/-! ## The error -/

theorem roundEven_error (x : ℚ) : |(roundEven x : ℚ)-x| ≤ 1/2 := by
  have hlow := Int.floor_le x
  have hhigh := Int.lt_floor_add_one x
  rw [roundEven, abs_le]
  by_cases hbelow : x-⌊x⌋ < 1/2
  · rw [if_pos hbelow]
    constructor <;> linarith
  · rw [if_neg hbelow]
    by_cases habove : 1/2 < x-⌊x⌋
    · rw [if_pos habove]
      push_cast
      constructor <;> linarith
    · rw [if_neg habove]
      by_cases heven : ⌊x⌋ % 2 = 0
      · rw [if_pos heven]
        constructor <;> linarith
      · rw [if_neg heven]
        push_cast
        constructor <;> linarith

/-- A nearest integer is unique, if the distance to it is less than a half. -/
theorem roundEven_near (x : ℚ) (m : ℤ) (h : |x-m| < 1/2) : roundEven x = m := by
  have herror := roundEven_error x
  rw [abs_le] at herror
  rw [abs_lt] at h
  have hlow : ((roundEven x-1 : ℤ) : ℚ) < m := by
    push_cast
    linarith
  have hhigh : (m : ℚ) < ((roundEven x+1 : ℤ) : ℚ) := by
    push_cast
    linarith
  have hlow' := Int.cast_lt.mp hlow
  have hhigh' := Int.cast_lt.mp hhigh
  omega

theorem roundEven_tie (x : ℚ) (m : ℤ) (h : |x-m| = 1/2) (heven : m % 2 = 0) :
    roundEven x = m := by
  rcases (abs_eq (by norm_num)).mp h with hx | hx
  · have hfloor : ⌊x⌋ = m := by
      rw [Int.floor_eq_iff]
      constructor <;> linarith
    rw [roundEven, hfloor, if_neg (by linarith), if_neg (by linarith), if_pos heven]
  · have hfloor : ⌊x⌋ = m-1 := by
      rw [Int.floor_eq_iff]
      push_cast
      constructor <;> linarith
    have hodd : ¬ (m-1) % 2 = 0 := by omega
    rw [roundEven, hfloor, if_neg (by push_cast; linarith), if_neg (by push_cast; linarith),
      if_neg hodd, sub_add_cancel]

theorem roundEven_eq (x : ℚ) (m : ℤ) (h : |x-m| ≤ 1/2) (heven : |x-m| = 1/2 → m % 2 = 0) :
    roundEven x = m := by
  rcases lt_or_eq_of_le h with hlt | heq
  · exact roundEven_near x m hlt
  · exact roundEven_tie x m heq (heven heq)

theorem float64_zero : float64 0 = 0 := if_pos rfl

def unit (q : ℚ) : ℚ := 2^(Int.log 2 |q|-52)

theorem unit_pos (q : ℚ) : 0 < unit q := zpow_pos (by norm_num) _

theorem float64_unit (q : ℚ) (hq : q ≠ 0) : float64 q = roundEven (q/unit q)*unit q := if_neg hq

theorem unit_le (q : ℚ) (hq : q ≠ 0) : unit q ≤ |q|/2^52 := by
  have hlog := Int.zpow_log_le_self (b := 2) (by norm_num) (abs_pos.mpr hq)
  rw [unit, zpow_sub₀ (by norm_num)]
  exact div_le_div_of_nonneg_right hlog (by norm_num)

theorem float64_error (q : ℚ) : |float64 q-q| ≤ |q|/2^53 := by
  by_cases hq : q = 0
  · simp [hq, float64_zero]
  · have hpos := unit_pos q
    have hscaled : float64 q-q = (roundEven (q/unit q)-q/unit q)*unit q := by
      rw [float64_unit q hq, sub_mul, div_mul_cancel₀ _ hpos.ne']
    calc |float64 q-q| = |roundEven (q/unit q)-q/unit q| * unit q := by
          rw [hscaled, abs_mul, abs_of_pos hpos]
      _ ≤ 1/2*unit q := mul_le_mul_of_nonneg_right (roundEven_error _) hpos.le
      _ ≤ 1/2*(|q|/2^52) := mul_le_mul_of_nonneg_left (unit_le q hq) (by norm_num)
      _ = |q|/2^53 := by ring

/-- Numbers with few bits stay as they are. -/
theorem float64_nat (n : ℕ) (hn : n < 2^53) : float64 n = n := by
  by_cases hzero : n = 0
  · simp [hzero, float64_zero]
  · have hne : (n : ℚ) ≠ 0 := by exact_mod_cast hzero
    have hlog : Int.log 2 |(n : ℚ)| ≤ 52 := by
      rw [Nat.abs_cast, Int.log_natCast]
      have hlt := Nat.log_lt_of_lt_pow hzero hn
      omega
    obtain ⟨j, hj⟩ := Int.le.dest hlog
    have hunit : unit n = (2^j)⁻¹ := by
      have hexp : Int.log 2 |(n : ℚ)|-52 = -(j : ℤ) := by omega
      rw [unit, hexp, zpow_neg, zpow_natCast]
    have hround : roundEven ((n : ℚ)/unit n) = (n*2^j : ℤ) := by
      apply roundEven_near
      rw [hunit]
      push_cast
      simp
    rw [float64_unit _ hne, hround, hunit]
    push_cast
    rw [mul_assoc, mul_inv_cancel₀ (by positivity), mul_one]

/-! ## Given digits -/

/-- The 53 bits of a fraction, as an integer under a power of two, with ties to even. -/
structure Digits (a b s m : ℕ) : Prop where
  low : 2^52*b ≤ a*2^s
  high : a*2^s < 2^53*b
  above : 2*(a*2^s) ≤ 2*(m*b)+b
  below : 2*(m*b) ≤ 2*(a*2^s)+b
  tie : 2*(a*2^s) = 2*(m*b)+b ∨ 2*(m*b) = 2*(a*2^s)+b → m % 2 = 0

instance (a b s m : ℕ) : Decidable (Digits a b s m) :=
  decidable_of_iff (2^52*b ≤ a*2^s ∧ a*2^s < 2^53*b ∧ 2*(a*2^s) ≤ 2*(m*b)+b ∧
    2*(m*b) ≤ 2*(a*2^s)+b ∧ (2*(a*2^s) = 2*(m*b)+b ∨ 2*(m*b) = 2*(a*2^s)+b → m % 2 = 0))
    ⟨fun ⟨h₁, h₂, h₃, h₄, h₅⟩ => ⟨h₁, h₂, h₃, h₄, h₅⟩,
      fun ⟨h₁, h₂, h₃, h₄, h₅⟩ => ⟨h₁, h₂, h₃, h₄, h₅⟩⟩

theorem float64_digits (a b s m : ℕ) (hb : 0 < b) (h : Digits a b s m) :
    float64 ((a : ℚ)/b) = m/2^s := by
  have hb' : (0 : ℚ) < b := by exact_mod_cast hb
  have hs : (0 : ℚ) < 2^s := by positivity
  have hlow : (2 : ℚ)^52*b ≤ a*2^s := by exact_mod_cast h.low
  have hhigh : (a : ℚ)*2^s < 2^53*b := by exact_mod_cast h.high
  have hpos : (0 : ℚ) < (a : ℚ)/b := by
    have ha : (0 : ℚ) < a*2^s := lt_of_lt_of_le (by positivity) hlow
    exact div_pos (pos_of_mul_pos_left ha hs.le) hb'
  have hlog : Int.log 2 |(a : ℚ)/b| = 52-(s : ℤ) := by
    rw [abs_of_pos hpos]
    apply le_antisymm
    · apply Int.lt_add_one_iff.mp
      apply (Int.lt_zpow_iff_log_lt (by norm_num) hpos).mp
      rw [show (52 : ℤ)-s+1 = 53-s by ring, zpow_sub₀ (by norm_num), zpow_natCast, Nat.cast_ofNat,
        div_lt_div_iff₀ hb' hs]
      exact hhigh
    · apply (Int.zpow_le_iff_le_log (by norm_num) hpos).mp
      rw [zpow_sub₀ (by norm_num), zpow_natCast, Nat.cast_ofNat, div_le_div_iff₀ hs hb']
      exact hlow
  have hunit : unit ((a : ℚ)/b) = (2^s)⁻¹ := by
    have hexp : (52 : ℤ)-s-52 = -(s : ℤ) := by omega
    rw [unit, hlog, hexp, zpow_neg, zpow_natCast]
  have hdistance : |(a : ℚ)/b/unit ((a : ℚ)/b)-(m : ℤ)| = |(a : ℚ)*2^s-b*m|/b := by
    rw [hunit, div_inv_eq_mul, div_mul_eq_mul_div, Int.cast_natCast, div_sub' hb'.ne', abs_div,
      abs_of_pos hb']
  have hround : roundEven ((a : ℚ)/b/unit ((a : ℚ)/b)) = m := by
    apply roundEven_eq
    · have habove : (2 : ℚ)*(a*2^s) ≤ 2*(m*b)+b := by exact_mod_cast h.above
      have hbelow : (2 : ℚ)*(m*b) ≤ 2*(a*2^s)+b := by exact_mod_cast h.below
      rw [hdistance, div_le_iff₀ hb', abs_le]
      constructor <;> linarith
    · intro hhalf
      rw [hdistance, div_eq_iff hb'.ne', abs_eq (by positivity)] at hhalf
      have htie : (2 : ℚ)*(a*2^s) = 2*(m*b)+b ∨ (2 : ℚ)*(m*b) = 2*(a*2^s)+b := by
        rcases hhalf with hhalf | hhalf
        · exact Or.inl (by linarith)
        · exact Or.inr (by linarith)
      have heven := h.tie (by exact_mod_cast htie)
      omega
  rw [float64_unit _ hpos.ne', hround, hunit, Int.cast_natCast, div_eq_mul_inv]

/-! ## Rates -/

def doubleRate (e n : ℕ) : Float64 := float64 (float64 e/float64 n)

def doublePercent (e n : ℕ) : ℤ := trunc (float64 (doubleRate e n*100))

theorem doubleRate_small (e n : ℕ) (he : e ≤ n) (hn : n ≤ 2^44) :
    doubleRate e n = float64 ((e : ℚ)/n) := by
  rw [doubleRate, float64_nat e (by omega), float64_nat n (by omega)]

theorem rate_unit (e n : ℕ) (he : e ≤ n) : 0 ≤ (e : ℚ)/n ∧ (e : ℚ)/n ≤ 1 := by
  have he' : (e : ℚ) ≤ n := by exact_mod_cast he
  exact ⟨by positivity, div_le_one_of_le₀ he' (by positivity)⟩

/-- Two fractions that differ are apart by more than the products of their denominators allow. -/
theorem fraction_gap (a b c d : ℕ) (hb : 0 < b) (hd : 0 < d) (h : (a : ℚ)/b < (c : ℚ)/d) :
    1/((b : ℚ)*d) ≤ (c : ℚ)/d-(a : ℚ)/b := by
  have hb' : (0 : ℚ) < b := by exact_mod_cast hb
  have hd' : (0 : ℚ) < d := by exact_mod_cast hd
  rw [div_lt_div_iff₀ hb' hd'] at h
  have hcross : a*d < c*b := by exact_mod_cast h
  have hone : (a : ℚ)*d+1 ≤ c*b := by exact_mod_cast hcross
  rw [div_sub_div _ _ hd'.ne' hb'.ne', mul_comm (b : ℚ) d]
  apply div_le_div_of_nonneg_right _ (by positivity)
  linarith

theorem rate_error (x : ℚ) (h0 : 0 ≤ x) (h1 : x ≤ 1) : |float64 x-x| ≤ 1/2^53 := by
  refine (float64_error x).trans ?_
  rw [abs_of_nonneg h0]
  exact div_le_div_of_nonneg_right h1 (by norm_num)

theorem percent_error (x : ℚ) (h0 : 0 ≤ x) (h1 : x ≤ 1) :
    |float64 (float64 x*100)-x*100| < 1/2^44 := by
  have hrate := abs_le.mp (rate_error x h0 h1)
  have hsize : |float64 x*100| ≤ 101 := by
    rw [abs_le]
    constructor <;> linarith
  have hproduct := (float64_error (float64 x*100)).trans
    (div_le_div_of_nonneg_right hsize (by norm_num))
  rw [abs_le] at hproduct
  rw [abs_lt]
  constructor <;> linarith

theorem trunc_between (y : ℚ) (p : ℕ) (hlow : (p : ℚ) ≤ y) (hhigh : y < p+1) : trunc y = p := by
  have hp : (0 : ℚ) ≤ p := Nat.cast_nonneg p
  rw [trunc, if_pos (hp.trans hlow), Int.floor_eq_iff]
  exact ⟨by exact_mod_cast hlow, by exact_mod_cast hhigh⟩

/-- A percentage that is not whole is further from the next whole one than it is moved. -/
theorem percent_between (e n p : ℕ) (he : e ≤ n) (hn : 0 < n) (hsmall : n ≤ 2^44)
    (hlow : (p : ℚ) < (e : ℚ)/n*100) (hhigh : (e : ℚ)/n*100 < p+1) :
    doublePercent e n = p := by
  obtain ⟨h0, h1⟩ := rate_unit e n he
  have hn' : (0 : ℚ) < n := by exact_mod_cast hn
  have hgap : (1 : ℚ)/2^44 ≤ 1/n := by
    apply one_div_le_one_div_of_le hn'
    exact_mod_cast hsmall
  have hproduct : (e : ℚ)/n*100 = ((e*100 : ℕ) : ℚ)/n := by
    push_cast
    ring
  have hbelow : (p : ℚ)+1/n ≤ (e : ℚ)/n*100 := by
    have hp : (p : ℚ)/(1 : ℕ) < ((e*100 : ℕ) : ℚ)/n := by
      rw [← hproduct, Nat.cast_one, div_one]
      exact hlow
    have hdiff := fraction_gap p 1 (e*100) n one_pos hn hp
    rw [← hproduct, Nat.cast_one, div_one, one_mul] at hdiff
    linarith
  have habove : (e : ℚ)/n*100 ≤ (p : ℚ)+1-1/n := by
    have hp : ((e*100 : ℕ) : ℚ)/n < ((p+1 : ℕ) : ℚ)/(1 : ℕ) := by
      rw [← hproduct, Nat.cast_one, div_one]
      push_cast
      exact hhigh
    have hdiff := fraction_gap (e*100) n (p+1) 1 hn one_pos hp
    rw [← hproduct, Nat.cast_one, div_one, mul_one] at hdiff
    push_cast at hdiff
    linarith
  have herror := abs_lt.mp (percent_error _ h0 h1)
  rw [doublePercent, doubleRate_small e n he hsmall]
  apply trunc_between <;> linarith

/-! ## Whole percentages -/

def scale (a b : ℕ) : ℕ := ((List.range 64).find? (fun s => 2^52*b ≤ a*2^s)).getD 0

def mantissa (a b : ℕ) : ℕ :=
  let m := (2*(a*2^scale a b)+b)/(2*b)
  if 2*(a*2^scale a b)+b = 2*(m*b) ∧ m % 2 = 1 then m-1 else m

/-- The percentages whose product is below them. -/
def Lowered (k : ℕ) : Prop := k = 29 ∨ k = 57 ∨ k = 58

instance (k : ℕ) : Decidable (Lowered k) := inferInstanceAs (Decidable (_ ∨ _ ∨ _))

def RoundsTo (k s m : ℕ) : Prop :=
  Digits k 100 s m ∧
    Digits (m*100) (2^s) (scale (m*100) (2^s)) (mantissa (m*100) (2^s)) ∧
    mantissa (m*100) (2^s)/2^scale (m*100) (2^s) = if Lowered k then k-1 else k

instance (k s m : ℕ) : Decidable (RoundsTo k s m) := inferInstanceAs (Decidable (_ ∧ _ ∧ _))

theorem whole_digits : ∀ k < 101, 0 < k → RoundsTo k (scale k 100) (mantissa k 100) := by
  decide +kernel

theorem whole_percent (k : ℕ) (hk : k ≤ 100) :
    trunc (float64 (float64 ((k : ℚ)/100)*100)) = (if Lowered k then k-1 else k : ℕ) := by
  by_cases hzero : k = 0
  · simp [hzero, float64_zero, trunc, Lowered]
  · obtain ⟨hrate, hproduct, hquotient⟩ := whole_digits k (by omega) (by omega)
    generalize scale k 100 = s at hrate hproduct hquotient
    generalize mantissa k 100 = m at hrate hproduct hquotient
    have hfirst := float64_digits k 100 s m (by norm_num) hrate
    have hsecond := float64_digits _ _ _ _ (by positivity) hproduct
    have hscaled : (m : ℚ)/2^s*100 = ((m*100 : ℕ) : ℚ)/((2^s : ℕ) : ℚ) := by
      push_cast
      ring
    push_cast at hfirst
    generalize mantissa (m*100) (2^s) = m' at hsecond hquotient
    generalize scale (m*100) (2^s) = s' at hsecond hquotient
    have hpos : (0 : ℚ) < 2^s' := by positivity
    have hfloor : trunc ((m' : ℚ)/2^s') = (m'/2^s' : ℕ) := by
      apply trunc_between
      · have hlow : (((m'/2^s'*2^s' : ℕ)) : ℚ) ≤ m' := by exact_mod_cast Nat.div_mul_le_self m' _
        rw [le_div_iff₀ hpos]
        push_cast at hlow
        exact hlow
      · have hhigh := Nat.lt_div_mul_add (a := m') (b := 2^s') (by positivity)
        have hhigh' : (m' : ℚ) < ((m'/2^s'*2^s'+2^s' : ℕ) : ℚ) := by exact_mod_cast hhigh
        rw [div_lt_iff₀ hpos, add_mul, one_mul]
        push_cast at hhigh'
        exact hhigh'
    rw [hfirst, hscaled, hsecond, hfloor, hquotient]

/-- The rates of which the percentage in double precision is too small. -/
def LoweredRate (x : ℚ) : Prop := x = 29/100 ∨ x = 57/100 ∨ x = 58/100

instance (x : ℚ) : Decidable (LoweredRate x) := inferInstanceAs (Decidable (_ ∨ _ ∨ _))

theorem loweredRate_iff (k : ℕ) : LoweredRate ((k : ℚ)/100) ↔ Lowered k := by
  have hcancel : ∀ j : ℕ, (k : ℚ)/100 = (j : ℚ)/100 ↔ k = j := by
    intro j
    rw [div_left_inj' (by norm_num), Nat.cast_inj]
  exact or_congr (hcancel 29) (or_congr (hcancel 57) (hcancel 58))

/-- The percentage in double precision is rounded down from the rate, or one less. -/
theorem doublePercent_eq (e n : ℕ) (he : e ≤ n) (hn : 0 < n) (hsmall : n ≤ 2^44) :
    doublePercent e n = ⌊(e : ℚ)/n*100⌋-if LoweredRate ((e : ℚ)/n) then 1 else 0 := by
  obtain ⟨h0, h1⟩ := rate_unit e n he
  have hnonneg : 0 ≤ ⌊(e : ℚ)/n*100⌋ := Int.floor_nonneg.mpr (by positivity)
  obtain ⟨p, hp⟩ := Int.eq_ofNat_of_zero_le hnonneg
  obtain ⟨hlow, hhigh⟩ := Int.floor_eq_iff.mp hp
  rw [Int.cast_natCast] at hlow hhigh
  rw [hp]
  by_cases hwhole : (p : ℚ) = (e : ℚ)/n*100
  · have hrate : (e : ℚ)/n = (p : ℚ)/100 := by
      rw [hwhole]
      ring
    have hle : p ≤ 100 := by
      have hcast : (p : ℚ) ≤ (100 : ℕ) := by
        rw [hwhole]
        push_cast
        linarith
      exact_mod_cast hcast
    rw [doublePercent, doubleRate_small e n he hsmall, hrate, whole_percent p hle]
    simp only [loweredRate_iff]
    by_cases hlowered : Lowered p
    · have hpos : 0 < p := by
        rcases hlowered with h | h | h <;> omega
      rw [if_pos hlowered, if_pos hlowered]
      omega
    · rw [if_neg hlowered, if_neg hlowered, sub_zero]
  · have hbetween := percent_between e n p he hn hsmall (lt_of_le_of_ne hlow hwhole) hhigh
    have hnot : ¬ LoweredRate ((e : ℚ)/n) := by
      have hne : ∀ j : ℕ, (e : ℚ)/n = (j : ℚ)/100 → False := by
        intro j hj
        have hproduct : (e : ℚ)/n*100 = j := by
          rw [hj]
          ring
        rw [hproduct] at hlow hhigh hwhole
        have hlow' : p ≤ j := by exact_mod_cast hlow
        have hhigh' : j < p+1 := by exact_mod_cast hhigh
        have hpj : p = j := by omega
        exact hwhole (by rw [hpj])
      rintro (h | h | h)
      · exact hne 29 h
      · exact hne 57 h
      · exact hne 58 h
    rw [hbetween, if_neg hnot, sub_zero]

/-- A rate is above one in twenty exactly if it is in double precision. -/
theorem threshold_small (e n : ℕ) (he : e ≤ n) (hn : 0 < n) (hsmall : n ≤ 2^44) :
    float64 (5/100) < doubleRate e n ↔ 1/20 < (e : ℚ)/n := by
  obtain ⟨h0, h1⟩ := rate_unit e n he
  have hn' : (0 : ℚ) < n := by exact_mod_cast hn
  have hrate := abs_le.mp (rate_error _ h0 h1)
  have htwenty := abs_le.mp (rate_error (5/100) (by norm_num) (by norm_num))
  have hgap : (1 : ℚ)/(2^44*20) ≤ 1/(n*20) := by
    apply one_div_le_one_div_of_le (by positivity)
    have hcast : (n : ℚ) ≤ 2^44 := by exact_mod_cast hsmall
    linarith
  rw [doubleRate_small e n he hsmall]
  have hsame : (1 : ℚ)/20 = 5/100 := by norm_num
  rcases lt_trichotomy ((1 : ℚ)/20) ((e : ℚ)/n) with h | h | h
  · have hdiff := fraction_gap 1 20 e n (by norm_num) hn (by exact_mod_cast h)
    push_cast at hdiff
    rw [mul_comm] at hdiff
    simp only [h, iff_true]
    linarith
  · rw [← h, hsame]
    simp
  · have hdiff := fraction_gap e n 1 20 hn (by norm_num) (by exact_mod_cast h)
    push_cast at hdiff
    simp only [not_lt.mpr h.le, iff_false, not_lt]
    linarith

end Jetski.Rounding
