import Mathlib.Analysis.Fourier.ZMod

/-! Correlation by phase of real signals that are read around.
The cross spectrum of a signal and a delayed copy has the delay in its phases alone. Divided
by its absolute values it is a sum of waves that all peak at the delay, and two lags peak
alike exactly if the signal delayed by either is the same.
-/

namespace PhaseCorrelation

open ZMod (stdAddChar dft)
open scoped ComplexConjugate

variable {n : ℕ} [NeZero n]

/-- The signal that many samples later. -/
def delayed (x : ZMod n → ℝ) (lag : ZMod n) : ZMod n → ℝ := fun t => x (t - lag)

noncomputable def spectrum (x : ZMod n → ℝ) : ZMod n → ℂ := dft (fun t => (x t : ℂ))

/-- A value without most of its absolute value; a positive `floor` keeps zero away. -/
noncomputable def whitened (floor : ℝ) (v : ℂ) : ℂ := v / ((‖v‖ + floor : ℝ) : ℂ)

/-- The whitened cross spectrum of two signals. -/
noncomputable def phases (floor : ℝ) (x y : ZMod n → ℝ) : ZMod n → ℂ :=
  fun k => whitened floor (spectrum y k * conj (spectrum x k))

/-- The wave sum of a spectrum at a lag, in its real part. -/
noncomputable def waves (values : ZMod n → ℂ) (lag : ZMod n) : ℝ :=
  (∑ k, stdAddChar (lag * k) * values k).re

noncomputable def correlation (floor : ℝ) (x y : ZMod n → ℝ) : ZMod n → ℝ :=
  waves (phases floor x y)

/-- What whitening leaves of a frequency's power. -/
noncomputable def weight (floor : ℝ) (x : ZMod n → ℝ) (k : ZMod n) : ℝ :=
  Complex.normSq (spectrum x k) / (Complex.normSq (spectrum x k) + floor)

-----------------------------------------------------------------------------------------
-- Phases on the unit circle
-----------------------------------------------------------------------------------------

theorem norm_stdAddChar (k : ZMod n) : ‖stdAddChar k‖ = 1 := by
  rw [ZMod.stdAddChar_apply, Circle.norm_coe]

theorem conj_stdAddChar (k : ZMod n) : conj (stdAddChar k) = stdAddChar (-k) := by
  rw [AddChar.map_neg_eq_inv, Complex.inv_def, Complex.normSq_eq_norm_sq, norm_stdAddChar]
  simp

theorem re_stdAddChar_le (k : ZMod n) : (stdAddChar k).re ≤ 1 :=
  (Complex.re_le_norm _).trans_eq (norm_stdAddChar k)

/-- On the unit circle only one has the real part one. -/
theorem re_stdAddChar_eq_one_iff {k : ZMod n} : (stdAddChar k).re = 1 ↔ stdAddChar k = 1 := by
  constructor
  · intro real
    have unit : (stdAddChar k).re ^ 2 + (stdAddChar k).im ^ 2 = 1 := by
      have norm := Complex.normSq_eq_norm_sq (stdAddChar k)
      rw [norm_stdAddChar, Complex.normSq_apply] at norm
      linarith
    rw [real] at unit
    have imaginary : (stdAddChar k).im = 0 := by
      apply pow_eq_zero_iff two_ne_zero |>.mp
      linarith
    exact Complex.ext real imaginary
  · intro one
    rw [one, Complex.one_re]

-----------------------------------------------------------------------------------------
-- Spectra
-----------------------------------------------------------------------------------------

/-- A delay turns the phases, by moving the summation along. -/
theorem spectrum_delayed (x : ZMod n → ℝ) (lag k : ZMod n)
    : spectrum (delayed x lag) k = stdAddChar (-(lag * k)) * spectrum x k := by
  simp only [spectrum, ZMod.dft_apply, delayed, smul_eq_mul, Finset.mul_sum]
  refine Fintype.sum_equiv (Equiv.subRight lag) _ _ (fun t => ?_)
  rw [Equiv.subRight_apply, ← mul_assoc, ← AddChar.map_add_eq_mul]
  congr 2
  ring

/-- The spectrum of a real signal is symmetric up to conjugation. -/
theorem spectrum_neg (x : ZMod n → ℝ) (k : ZMod n) : spectrum x (-k) = conj (spectrum x k) := by
  simp only [spectrum, ZMod.dft_apply, smul_eq_mul, map_sum, map_mul, conj_stdAddChar,
    Complex.conj_ofReal, mul_neg]

/-- A signal is known by its spectrum, since the transform has an inverse. -/
theorem spectrum_injective : Function.Injective (spectrum (n := n)) := by
  intro x y same
  funext t
  exact Complex.ofReal_injective (congrFun (dft.injective same) t)

/-- Two delays agree exactly if they turn every frequency of the signal alike. -/
theorem delayed_eq_iff {x : ZMod n → ℝ} {lag other : ZMod n}
    : delayed x lag = delayed x other
      ↔ ∀ k, spectrum x k = 0 ∨ stdAddChar ((lag - other) * k) = 1 := by
  have turned
      : ∀ k,
          spectrum (delayed x lag) k = spectrum (delayed x other) k
          ↔ spectrum x k = 0 ∨ stdAddChar ((lag - other) * k) = 1 := by
    intro k
    have difference
        : stdAddChar (-(other * k))
          = stdAddChar (-(lag * k)) * stdAddChar ((lag - other) * k) := by
      rw [← AddChar.map_add_eq_mul]
      congr 1
      ring
    have nonzero : stdAddChar (-(lag * k)) ≠ 0 := by
      rw [← norm_ne_zero_iff, norm_stdAddChar]
      exact one_ne_zero
    rw [spectrum_delayed, spectrum_delayed, difference, mul_assoc,
      mul_right_inj' nonzero, eq_comm, mul_left_eq_self₀, or_comm]
  rw [← spectrum_injective.eq_iff, funext_iff]
  exact forall_congr' turned

-----------------------------------------------------------------------------------------
-- The peak
-----------------------------------------------------------------------------------------

theorem weight_nonneg {floor : ℝ} (positive : 0 < floor) (x : ZMod n → ℝ) (k : ZMod n)
    : 0 ≤ weight floor x k :=
  div_nonneg (Complex.normSq_nonneg _) (add_nonneg (Complex.normSq_nonneg _) positive.le)

theorem weight_eq_zero_iff {floor : ℝ} (positive : 0 < floor) {x : ZMod n → ℝ} {k : ZMod n}
    : weight floor x k = 0 ↔ spectrum x k = 0 := by
  have nonzero : Complex.normSq (spectrum x k) + floor ≠ 0 :=
    (add_pos_of_nonneg_of_pos (Complex.normSq_nonneg _) positive).ne'
  rw [weight, div_eq_zero_iff, or_iff_left nonzero, Complex.normSq_eq_zero]

/-- Of a delayed copy whitening leaves the phase of the delay, with the weight. -/
theorem phases_delayed {floor : ℝ} (x : ZMod n → ℝ) (lag k : ZMod n)
    : phases floor x (delayed x lag) k = stdAddChar (-(lag * k)) * (weight floor x k : ℂ) := by
  have power
      : spectrum (delayed x lag) k * conj (spectrum x k)
        = stdAddChar (-(lag * k)) * (Complex.normSq (spectrum x k) : ℂ) := by
    rw [spectrum_delayed, mul_assoc, Complex.mul_conj]
  have size
      : ‖stdAddChar (-(lag * k)) * (Complex.normSq (spectrum x k) : ℂ)‖
        = Complex.normSq (spectrum x k) := by
    rw [norm_mul, norm_stdAddChar, one_mul, Complex.norm_real,
      Real.norm_of_nonneg (Complex.normSq_nonneg _)]
  rw [phases, power, whitened, size, weight, Complex.ofReal_div, mul_div_assoc]

/-- The whitened cross spectrum of real signals is symmetric up to conjugation. -/
theorem phases_neg (floor : ℝ) (x y : ZMod n → ℝ) (k : ZMod n)
    : phases floor x y (-k) = conj (phases floor x y k) := by
  simp only [phases, whitened, spectrum_neg, map_div₀, map_mul, Complex.conj_conj,
    Complex.conj_ofReal, norm_mul, RCLike.norm_conj]

/-- The correlation with a delayed copy is a sum of weighted waves around the delay. -/
theorem correlation_delayed (floor : ℝ) (x : ZMod n → ℝ) (lag other : ZMod n)
    : correlation floor x (delayed x lag) other
      = ∑ k, weight floor x k * (stdAddChar ((other - lag) * k)).re := by
  rw [correlation, waves, Complex.re_sum]
  refine Finset.sum_congr rfl (fun k _ => ?_)
  rw [phases_delayed, ← mul_assoc, ← AddChar.map_add_eq_mul, mul_comm, Complex.re_ofReal_mul]
  congr 3
  ring

/-- The correlation with a delayed copy is largest at the delay, and as large only at a lag
that delays the signal to the same copy.
-/
theorem correlation_peak {floor : ℝ} (positive : 0 < floor) (x : ZMod n → ℝ)
    (lag other : ZMod n)
    : correlation floor x (delayed x lag) other ≤ correlation floor x (delayed x lag) lag
      ∧ (correlation floor x (delayed x lag) other = correlation floor x (delayed x lag) lag
        ↔ delayed x other = delayed x lag) := by
  have top
      : correlation floor x (delayed x lag) lag = ∑ k, weight floor x k := by
    simp [correlation_delayed]
  have below
      : ∀ k ∈ Finset.univ,
          weight floor x k * (stdAddChar ((other - lag) * k)).re ≤ weight floor x k :=
    fun k _ => mul_le_of_le_one_right (weight_nonneg positive x k) (re_stdAddChar_le _)
  rw [top, correlation_delayed, delayed_eq_iff]
  refine ⟨Finset.sum_le_sum below, ?_⟩
  rw [Finset.sum_eq_sum_iff_of_le below]
  -- A wave reaches its weight exactly if it has none or is back at its start.
  refine ⟨fun full k => ?_, fun same k _ => ?_⟩
  · rcases mul_right_eq_self₀.mp (full k (Finset.mem_univ k)) with one | none
    · exact Or.inr (re_stdAddChar_eq_one_iff.mp one)
    · exact Or.inl ((weight_eq_zero_iff positive).mp none)
  · rcases same k with none | one
    · rw [(weight_eq_zero_iff positive).mpr none, zero_mul]
    · rw [re_stdAddChar_eq_one_iff.mpr one, mul_one]

end PhaseCorrelation
