import Nbsdk.Lib.PhaseCorrelation
import Nbsdk.Math.Execute

/-! The delay that `Execute` in gcc_phat.cc finds, in exact arithmetic.
With real numbers for `double` and the documented sums for the plans, the correlation is the
one by phase, and the search finds the first lag by which the one signal delayed is the other.
-/

namespace Nbsdk.Math

open Cyclic (Signal)
open PhaseCorrelation (correlation phases)
open ZMod (stdAddChar)
open scoped Real

-----------------------------------------------------------------------------------------
-- Real numbers in the place of `double`
-----------------------------------------------------------------------------------------

noncomputable def exactArithmetic : Arithmetic ℝ ℂ where
  ofInt16 v := (v.toInt : ℝ)
  zero := 0
  add x y := x + y
  fltMin := 2 ^ (-126 : ℤ)
  complexZero := 0
  mul v w := v * w
  conj := starRingEnd ℂ
  abs v := ‖v‖
  divide v x := v / (x : ℂ)

/-- The point on the unit circle after that many n-th parts of a turn. -/
noncomputable def unitRoot (n : Nat) (parts : Int) : ℂ :=
  Complex.exp (2 * π * Complex.I * parts / n)

/-- The spectrum of a real signal from its first half, `X[n - k]` being the conjugate of
`X[k]`.
-/
noncomputable def halfComplex (n : Nat) (X : List ℂ) (k : Nat) : ℂ :=
  if k < n / 2 + 1 then X.getD k 0 else starRingEnd ℂ (X.getD (n - k) 0)

noncomputable def forwardSum (n : Nat) (input : List ℝ) (k : Nat) : ℂ :=
  ∑ j ∈ Finset.range n, (input.getD j 0 : ℂ) * unitRoot n (-(j * k))

/-- The inverse sum, which is not normalised. -/
noncomputable def inverseSum (n : Nat) (input : List ℂ) (j : Nat) : ℝ :=
  (∑ k ∈ Finset.range n, halfComplex n input k * unitRoot n (j * k)).re

/-- The plans by their documented sums. -/
noncomputable def exactPlans (spoiled : List ℂ → Nat → ℂ) : FftwPlans ℝ ℂ where
  r2c n input := (List.range (n / 2 + 1)).map (forwardSum n input)
  c2r n input := (List.range n).map (inverseSum n input)
  spoiled n input := (List.range (n / 2 + 1)).map (spoiled input)
  length_r2c n input := by simp
  length_c2r n input := by simp
  length_spoiled n input := by simp

-----------------------------------------------------------------------------------------
-- The correlation by phase
-----------------------------------------------------------------------------------------

section

variable {n : ℕ} [NeZero n]

/-- The samples by their indices modulo their number. -/
noncomputable def samplesOf (samples : List Int16) (t : ZMod n) : ℝ :=
  ((samples.getD t.val 0).toInt : ℝ)

theorem unitRoot_eq (parts : Int) : unitRoot n parts = stdAddChar (parts : ZMod n) := by
  rw [unitRoot, ZMod.stdAddChar_coe]

/-- A sum over the first indices is one over all remainders. -/
theorem sum_range_eq {β : Type} [AddCommMonoid β] (f : ℕ → β)
    : ∑ j ∈ Finset.range n, f j = ∑ t : ZMod n, f t.val := by
  refine Finset.sum_nbij' (fun j => (j : ZMod n)) (fun t => t.val) ?_ ?_ ?_ ?_ ?_
  · exact fun _ _ => Finset.mem_univ _
  · exact fun t _ => Finset.mem_range.mpr (ZMod.val_lt t)
  · exact fun j member => ZMod.val_cast_of_lt (Finset.mem_range.mp member)
  · exact fun t _ => ZMod.natCast_zmod_val t
  · intro j member
    rw [ZMod.val_cast_of_lt (Finset.mem_range.mp member)]

theorem fltMin_pos : 0 < exactArithmetic.fltMin := by
  change (0 : ℝ) < 2 ^ (-126 : ℤ)
  positivity

/-- The first half of the spectrum. -/
theorem spectrum_eq (spoiled : List ℂ → Nat → ℂ) {samples : List Int16}
    (enough : n ≤ samples.length)
    : GCCPhat.spectrum exactArithmetic (exactPlans spoiled) n samples
      = (List.range (n / 2 + 1)).map
          (fun k : Nat => PhaseCorrelation.spectrum (samplesOf samples) (k : ZMod n)) := by
  refine List.map_congr_left (fun k _ => ?_)
  rw [forwardSum, sum_range_eq, PhaseCorrelation.spectrum, ZMod.dft_apply]
  refine Finset.sum_congr rfl (fun t _ => ?_)
  have inside : t.val < samples.length := (ZMod.val_lt t).trans_le enough
  have sample
      : ((samples.take n).map exactArithmetic.ofInt16).getD t.val 0
        = samplesOf samples t := by
    simp [samplesOf, exactArithmetic, List.getD_eq_getElem?_getD,
      List.getElem?_take_of_lt (ZMod.val_lt t), inside]
  rw [sample, unitRoot_eq, smul_eq_mul, mul_comm]
  simp

/-- The half of the cross spectrum that the inverse transform gets stands for all of it. -/
theorem halfComplex_phases (spoiled : List ℂ → Nat → ℂ) {s1 s2 : List Int16}
    (enough1 : n ≤ s1.length) (enough2 : n ≤ s2.length) {k : Nat} (inside : k < n)
    : halfComplex n
        (List.zipWith (GCCPhat.phase exactArithmetic)
          (GCCPhat.spectrum exactArithmetic (exactPlans spoiled) n s1)
          (GCCPhat.spectrum exactArithmetic (exactPlans spoiled) n s2)) k
      = phases exactArithmetic.fltMin (samplesOf s1) (samplesOf s2) (k : ZMod n) := by
  rw [spectrum_eq spoiled enough1, spectrum_eq spoiled enough2, List.zipWith_map,
    List.zipWith_self]
  have half
      : ∀ j < n / 2 + 1,
          ((List.range (n / 2 + 1)).map (fun k : Nat =>
            GCCPhat.phase exactArithmetic
              (PhaseCorrelation.spectrum (samplesOf s1) (k : ZMod n))
              (PhaseCorrelation.spectrum (samplesOf s2) (k : ZMod n)))).getD j 0
          = phases exactArithmetic.fltMin (samplesOf s1) (samplesOf s2) (j : ZMod n) := by
    intro j below
    rw [List.getD_eq_getElem?_getD, List.getElem?_map, List.getElem?_range below]
    rfl
  rw [halfComplex]
  split
  case isTrue below => exact half k below
  case isFalse above =>
    rw [half (n - k) (by omega), Nat.cast_sub inside.le, ZMod.natCast_self, zero_sub,
      PhaseCorrelation.phases_neg, Complex.conj_conj]

/-- The inverse transform's output is the correlation by phase. -/
theorem crossCorrelation_eq (spoiled : List ℂ → Nat → ℂ) {s1 s2 : List Int16}
    (enough1 : n ≤ s1.length) (enough2 : n ≤ s2.length)
    : GCCPhat.crossCorrelation exactArithmetic (exactPlans spoiled) n s1 s2
      = (List.range n).map
          (fun j : Nat =>
            correlation exactArithmetic.fltMin (samplesOf s1) (samplesOf s2) (j : ZMod n)) := by
  refine List.map_congr_left (fun j _ => ?_)
  rw [inverseSum, sum_range_eq, correlation, PhaseCorrelation.waves]
  congr 1
  refine Finset.sum_congr rfl (fun k _ => ?_)
  rw [halfComplex_phases spoiled enough1 enough2 (ZMod.val_lt k), unitRoot_eq, mul_comm]
  simp

/-- The index of an integer modulo the number of samples. -/
theorem val_intCast_eq (index : Int) : ((index : ZMod n).val) = (index % n).toNat := by
  have same := ZMod.val_intCast (n := n) index
  omega

theorem samplesOf_get (s : Signal Int16) (length : s.length = n) (index : Int)
    : samplesOf s.values (index : ZMod n) = ((s.get index).toInt : ℝ) := by
  have found := s.getElem?_emod index
  rw [length, ← val_intCast_eq] at found
  rw [samplesOf, List.getD_eq_getElem?_getD, found, Option.getD_some]

/-- The correlation of two signals as a signal, in exact arithmetic. -/
theorem exists_correlation (spoiled : List ℂ → Nat → ℂ) {s1 s2 : List Int16}
    (enough1 : n ≤ s1.length) (enough2 : n ≤ s2.length)
    : ∃ c : Signal ℝ,
        c.values = GCCPhat.crossCorrelation exactArithmetic (exactPlans spoiled) n s1 s2
        ∧ c.length = n
        ∧ ∀ index : Int,
            c.get index
            = correlation exactArithmetic.fltMin (samplesOf s1) (samplesOf s2)
                (index : ZMod n) := by
  have computed
      : (GCCPhat.crossCorrelation exactArithmetic (exactPlans spoiled) n s1 s2).length = n :=
    (exactPlans spoiled).length_c2r n _
  have inhabited : GCCPhat.crossCorrelation exactArithmetic (exactPlans spoiled) n s1 s2 ≠ [] :=
    List.ne_nil_of_length_pos (computed.symm ▸ NeZero.pos n)
  obtain ⟨c, values⟩
      : ∃ c : Signal ℝ,
          c.values = GCCPhat.crossCorrelation exactArithmetic (exactPlans spoiled) n s1 s2 :=
    ⟨⟨_, inhabited⟩, rfl⟩
  have length : c.length = n := (congrArg List.length values).trans computed
  refine ⟨c, values, length, ?_⟩
  intro index
  have found := c.getElem?_emod index
  rw [length, ← val_intCast_eq, values, crossCorrelation_eq spoiled enough1 enough2,
    List.getElem?_map, List.getElem?_range (ZMod.val_lt _), Option.map_some, Option.some.injEq,
    ZMod.natCast_zmod_val] at found
  exact found.symm

end

-----------------------------------------------------------------------------------------
-- The lag
-----------------------------------------------------------------------------------------

/-- The second signal is the first one, that many samples later. -/
def DelayedBy (s1 s2 : Signal Int16) (lag : Int) : Prop := ∀ t, s2.get t = s1.get (t - lag)

/-- Once around the indices tells whether a signal is another one delayed. -/
theorem delayedBy_of_around {s1 s2 : Signal Int16} (same : s1.length = s2.length) {lag : Int}
    (around : ∀ i < s2.length, s2.get i = s1.get (i - lag))
    : DelayedBy s1 s2 lag := by
  intro t
  have positive : (0 : Int) < s2.length := Int.natCast_pos.mpr s2.length_pos
  have nonneg := Int.emod_nonneg t (Int.ne_of_gt positive)
  have below := Int.emod_lt_of_pos t positive
  have there := around (t % s2.length).toNat (by omega)
  rw [Int.toNat_of_nonneg nonneg] at there
  rw [← s2.get_congr (Int.emod_emod_of_dvd t (dvd_refl _)), there]
  apply s1.get_congr
  rw [same]
  exact Int.emod_sub_cancel_right lag |>.mpr (Int.emod_emod_of_dvd t (dvd_refl _))

/-- Delayed samples are a delayed signal, and the other way around. -/
theorem delayedBy_iff {n : ℕ} [NeZero n] {s1 s2 : Signal Int16} (length1 : s1.length = n)
    (length2 : s2.length = n) {lag : Int}
    : DelayedBy s1 s2 lag
      ↔ PhaseCorrelation.delayed (samplesOf s1.values) (lag : ZMod n) = samplesOf s2.values := by
  have pointwise
      : ∀ t : Int,
          s2.get t = s1.get (t - lag)
          ↔ PhaseCorrelation.delayed (samplesOf s1.values) (lag : ZMod n) (t : ZMod n)
            = samplesOf s2.values (t : ZMod n) := by
    intro t
    rw [PhaseCorrelation.delayed, ← Int.cast_sub, samplesOf_get s1 length1,
      samplesOf_get s2 length2, Int.cast_inj, Int16.toInt_inj, eq_comm]
  constructor
  · intro delayed
    funext t
    obtain ⟨index, rfl⟩ := ZMod.intCast_surjective t
    exact (pointwise index).mp (delayed index)
  · intro same t
    exact (pointwise t).mpr (congrFun same (t : ZMod n))

namespace GCCPhat

/-- On samples and their copy, delayed within the margin, `Execute` answers the first lag of
the margin by which the samples delayed are the copy; for an odd number of samples it answers
one less.
-/
theorem finds_delay {n : Nat} (two : 2 ≤ n) (spoiled : List ℂ → Nat → ℂ)
    (reals : Bool → Nat → ℝ) (complexes : Bool → Nat → ℂ) {requests : List Request}
    {answers : List Int} {g : GCCPhat ℝ ℂ}
    (ran
      : Machine.run (executeSamples exactArithmetic (exactPlans spoiled))
          (create n reals complexes) requests
        = .ok (answers, g))
    (s1 s2 : Signal Int16) (length1 : s1.length = n) (length2 : s2.length = n) {margin lag : Int}
    (low : -min margin (n / 2 - 1) ≤ lag) (high : lag ≤ min margin (n / 2 - 1))
    (delayed : DelayedBy s1 s2 (lag + n % 2))
    : ∃ d after,
        g.executeSamples exactArithmetic (exactPlans spoiled)
            ⟨some s1.values, some s2.values, n, margin⟩
          = .ok (d, after)
        ∧ IsLeast
            {k
              | (-min margin (n / 2 - 1) ≤ k ∧ k ≤ min margin (n / 2 - 1))
                ∧ DelayedBy s1 s2 (k + n % 2)}
            d := by
  have : NeZero n := ⟨by omega⟩
  have enough1 : n ≤ s1.values.length := length1.ge
  have enough2 : n ≤ s2.values.length := length2.ge
  have positive : 0 < n := by omega
  obtain ⟨after, _, answered⟩ :=
    executeSamples_eq exactArithmetic (exactPlans spoiled) positive
      (sized_run _ _ positive ran) ⟨some s1.values, some s2.values, n, margin⟩
  obtain ⟨c, values, length, get⟩ := exists_correlation spoiled enough1 enough2
  have copy := (delayedBy_iff length1 length2).mp delayed
  have nonneg : 0 ≤ margin := by omega
  obtain ⟨d, done, ⟨above, below⟩, highest, earlier⟩ :=
    execute_eq c (length.symm ▸ two) nonneg
  rw [length, newMargin_eq] at above below highest earlier
  rw [length, values] at done
  -- The correlation peaks where the samples delayed are the copy.
  have peak
      : ∀ k : Int,
          c.get k ≤ c.get (lag + n % 2)
          ∧ (c.get k = c.get (lag + n % 2) ↔ DelayedBy s1 s2 k) := by
    intro k
    rw [get, get, ← copy, delayedBy_iff length1 length2, ← copy]
    exact PhaseCorrelation.correlation_peak fltMin_pos _ _ _
  have top := le_antisymm (peak (d + n % 2)).1 (highest lag low high)
  refine ⟨d, after, ?_, ⟨⟨above, below⟩, (peak _).2.mp top⟩, ?_⟩
  · have answers : answer exactArithmetic (exactPlans spoiled) n
        ⟨some s1.values, some s2.values, n, margin⟩ = .ok d := by
      simp only [answer]
      rw [if_neg (not_not.mpr rfl), if_neg (by omega), done]
    rw [answered, answers]
    rfl
  · rintro k ⟨⟨first, _⟩, delays⟩
    by_contra before
    have less := earlier k first (not_le.mp before)
    rw [top, (peak _).2.mpr delays] at less
    exact lt_irrefl _ less

theorem finds_delay_pulse
    : ∃ d after,
        (create 4 (fun _ _ => 0) (fun _ _ => 0)).executeSamples exactArithmetic
            (exactPlans (fun _ _ => 0))
            ⟨some [1, 0, 0, 0], some [0, 1, 0, 0], (4 : Nat), 1⟩
          = .ok (d, after)
        ∧ IsLeast
            {k
              | (-min (1 : Int) (((4 : Nat) : Int) / 2 - 1) ≤ k
                  ∧ k ≤ min (1 : Int) (((4 : Nat) : Int) / 2 - 1))
                ∧ DelayedBy ⟨[1, 0, 0, 0], by simp⟩ ⟨[0, 1, 0, 0], by simp⟩
                  (k + ((4 : Nat) : Int) % 2)}
            d := by
  have delayed
      : DelayedBy ⟨[1, 0, 0, 0], by simp⟩ ⟨[0, 1, 0, 0], by simp⟩ (1 + ((4 : Nat) : Int) % 2) := by
    refine delayedBy_of_around ?_ ?_
    · rfl
    · decide
  have two : 2 ≤ 4 := by decide
  have ran
      : Machine.run (executeSamples exactArithmetic (exactPlans (fun _ _ => 0)))
          (create 4 (fun _ _ => 0) (fun _ _ => 0)) []
        = .ok ([], create 4 (fun _ _ => 0) (fun _ _ => 0)) := rfl
  exact finds_delay two (fun _ _ => 0) (fun _ _ => 0) (fun _ _ => 0) ran _ _ rfl rfl (by decide)
    (by decide) delayed

end GCCPhat

end Nbsdk.Math
