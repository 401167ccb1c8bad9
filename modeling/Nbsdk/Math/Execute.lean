import Nbsdk.Lib.Cells
import Nbsdk.Lib.Machine
import Nbsdk.Math.GccPhat

/-! The whole of `Execute` in gcc_phat.cc, with what the arrays of the transforms hold.
The transforms and their arrays serve all calls: each call leaves its samples and spectra in
them, and a complex-to-real plan also destroys its input. None of it reaches an answer.
-/

namespace Nbsdk.Math

open Fallible

/-- What the code uses of `double` and of `std::complex<double>`. -/
structure Arithmetic (ρ κ : Type) where
  ofInt16 : Int16 → ρ
  zero : ρ
  add : ρ → ρ → ρ
  fltMin : ρ
  complexZero : κ
  mul : κ → κ → κ
  conj : κ → κ
  abs : κ → ρ
  divide : κ → ρ → κ

/-- What a plan for that many samples stores in its output, and what a complex-to-real plan
leaves of its input.
-/
structure FftwPlans (ρ κ : Type) where
  r2c : Nat → List ρ → List κ
  c2r : Nat → List κ → List ρ
  spoiled : Nat → List κ → List κ
  length_r2c : ∀ sampleCount input, (r2c sampleCount input).length = sampleCount / 2 + 1
  length_c2r : ∀ sampleCount input, (c2r sampleCount input).length = sampleCount
  length_spoiled
    : ∀ sampleCount input, (spoiled sampleCount input).length = sampleCount / 2 + 1

/-- An access outside of an array is not defined. -/
def inBounds {α : Type} : Option α → Except Halt α
  | none => .error .outOfBounds
  | some value => .ok value

variable {ρ κ : Type} (a : Arithmetic ρ κ) (plans : FftwPlans ρ κ)

-----------------------------------------------------------------------------------------
-- The transforms with their arrays
-----------------------------------------------------------------------------------------

/-- The sizes of an initialised `FFTW` and what its arrays hold. -/
structure FFTW.Arrays (ρ κ : Type) where
  sampleCount : Nat
  outSize : Nat
  input : List ρ
  output : List κ

/-- `Init`, with what happens to be in the memory that it allocates. -/
def FFTW.Arrays.init (sampleCount : Nat) (reals : Nat → ρ) (complexes : Nat → κ)
    : FFTW.Arrays ρ κ where
  sampleCount := sampleCount
  outSize := sampleCount / 2 + 1
  input := (List.range sampleCount).map reals
  output := (List.range (sampleCount / 2 + 1)).map complexes

def FFTW.Arrays.execute (t : FFTW.Arrays ρ κ) (out : List κ) (samples : List Int16)
    : Except Halt (List κ × FFTW.Arrays ρ κ) := do
  let input ← inBounds (Cells.fill t.input (fun i => samples[i]?.map a.ofInt16) t.sampleCount)
  let output := plans.r2c t.sampleCount input
  let out ← inBounds (Cells.fill out (fun i => output[i]?) t.outSize)
  .ok (out, { t with input, output })

/-- The sizes of an initialised `IFFTW` and what its arrays hold. -/
structure IFFTW.Arrays (ρ κ : Type) where
  inSize : Nat
  outSize : Nat
  input : List κ
  output : List ρ

def IFFTW.Arrays.init (sampleCount : Nat) (reals : Nat → ρ) (complexes : Nat → κ)
    : IFFTW.Arrays ρ κ where
  inSize := sampleCount / 2 + 1
  outSize := sampleCount
  input := (List.range (sampleCount / 2 + 1)).map complexes
  output := (List.range sampleCount).map reals

def IFFTW.Arrays.execute (t : IFFTW.Arrays ρ κ) (out : List ρ) (values : List κ)
    : Except Halt (List ρ × IFFTW.Arrays ρ κ) := do
  let input ← inBounds (Cells.fill t.input (fun i => values[i]?) t.inSize)
  let output := plans.c2r t.outSize input
  let out ← inBounds (Cells.fill out (fun i => output[i]?) t.outSize)
  .ok (out, { t with input := plans.spoiled t.outSize input, output })

-----------------------------------------------------------------------------------------
-- The correlation
-----------------------------------------------------------------------------------------

/-- The members of `GCCPhat`. -/
structure GCCPhat (ρ κ : Type) where
  sampleCount : Nat
  fft : FFTW.Arrays ρ κ
  ifft : IFFTW.Arrays ρ κ

namespace GCCPhat

/-- The constructor, with what happens to be in the memory of the two transforms. -/
def create (sampleCount : Nat) (reals : Bool → Nat → ρ) (complexes : Bool → Nat → κ)
    : GCCPhat ρ κ where
  sampleCount := sampleCount
  fft := .init sampleCount (reals false) (complexes false)
  ifft := .init sampleCount (reals true) (complexes true)

/-- One round of the loop over the two spectra. -/
def phase (s1 s2 : κ) : κ :=
  let v := a.mul s2 (a.conj s1)
  a.divide v (a.add (a.abs v) a.fltMin)

/-- The arguments of `Execute`; a null pointer is `none`. -/
structure Request where
  s1 : Option (List Int16)
  s2 : Option (List Int16)
  count : Int
  margin : Int
  deriving DecidableEq, Repr

variable [LinearOrder ρ]

/-- `Execute`, from the samples to the lag. -/
def executeSamples (g : GCCPhat ρ κ) (request : Request) : Except Halt (Int × GCCPhat ρ κ) :=
  match request.s1, request.s2 with
  | some s1, some s2 =>
      if request.count ≠ g.sampleCount then .error (.checkFailed "count == sample_count_")
      else do
        let count := request.count.toNat
        let (s1FFT, fft) ← g.fft.execute a plans (List.replicate count a.complexZero) s1
        let (s2FFT, fft) ← fft.execute a plans (List.replicate count a.complexZero) s2
        let R ← inBounds (Cells.fill (List.replicate count a.complexZero)
          (fun i => s2FFT[i]?.bind (fun v2 => s1FFT[i]?.map (fun v1 => phase a v1 v2))) count)
        let (crossCorrelation, ifft) ← g.ifft.execute plans (List.replicate count a.zero) R
        let lag ← execute g.sampleCount true request.count crossCorrelation request.margin
        .ok (lag, { g with fft, ifft })
  | _, _ => .ok (-1, g)

/-- What the samples alone make of a call. -/
def spectrum (sampleCount : Nat) (samples : List Int16) : List κ :=
  plans.r2c sampleCount ((samples.take sampleCount).map a.ofInt16)

def crossCorrelation (sampleCount : Nat) (s1 s2 : List Int16) : List ρ :=
  plans.c2r sampleCount
    (List.zipWith (phase a) (spectrum a plans sampleCount s1) (spectrum a plans sampleCount s2))

def answer (sampleCount : Nat) (request : Request) : Except Halt Int :=
  match request.s1, request.s2 with
  | some s1, some s2 =>
      if request.count ≠ sampleCount then .error (.checkFailed "count == sample_count_")
      else if s1.length < sampleCount ∨ s2.length < sampleCount then .error .outOfBounds
      else
        execute sampleCount true request.count (crossCorrelation a plans sampleCount s1 s2)
          request.margin
  | _, _ => .ok (-1)

end GCCPhat

-----------------------------------------------------------------------------------------
-- What a call leaves behind does not matter
-----------------------------------------------------------------------------------------

/-- The arrays have the sizes of a plan for `n` samples. -/
structure FFTW.Arrays.Sized (t : FFTW.Arrays ρ κ) (n : Nat) : Prop where
  sampleCount : t.sampleCount = n
  outSize : t.outSize = n / 2 + 1
  input : t.input.length = n

structure IFFTW.Arrays.Sized (t : IFFTW.Arrays ρ κ) (n : Nat) : Prop where
  inSize : t.inSize = n / 2 + 1
  outSize : t.outSize = n
  input : t.input.length = n / 2 + 1

theorem FFTW.Arrays.sized_init (n : Nat) (reals : Nat → ρ) (complexes : Nat → κ)
    : (FFTW.Arrays.init n reals complexes).Sized n :=
  ⟨rfl, rfl, by simp [init]⟩

theorem IFFTW.Arrays.sized_init (n : Nat) (reals : Nat → ρ) (complexes : Nat → κ)
    : (IFFTW.Arrays.init n reals complexes).Sized n :=
  ⟨rfl, rfl, by simp [init]⟩

/-- With enough samples a transform stores their spectrum, whatever its arrays held. -/
theorem FFTW.Arrays.Sized.execute_eq {t : FFTW.Arrays ρ κ} {n : Nat} (sized : t.Sized n)
    {out : List κ} (room : n / 2 + 1 ≤ out.length) {samples : List Int16}
    (enough : n ≤ samples.length)
    : ∃ after : FFTW.Arrays ρ κ,
        after.Sized n
        ∧ t.execute a plans out samples
          = .ok (Cells.overwrite out 0 (GCCPhat.spectrum a plans n samples), after) := by
  obtain ⟨sampleCount, outSize, input⟩ := sized
  have converted : ((samples.take n).map a.ofInt16).length = n := by simp [enough]
  have read
      : Cells.fill t.input (fun i => samples[i]?.map a.ofInt16) n
        = some ((samples.take n).map a.ofInt16) := by
    rw [Cells.fill_eq converted.symm (by rw [converted, input]), Cells.overwrite_all]
    · rw [converted, input]
    · intro i inside
      rw [List.getElem?_map, List.getElem?_take_of_lt (by omega)]
  have length : (GCCPhat.spectrum a plans n samples).length = n / 2 + 1 := plans.length_r2c ..
  have stored
      : Cells.fill out (fun i => (GCCPhat.spectrum a plans n samples)[i]?) (n / 2 + 1)
        = some (Cells.overwrite out 0 (GCCPhat.spectrum a plans n samples)) :=
    Cells.fill_eq length.symm (by rw [length]; exact room) (fun _ _ => rfl)
  refine ⟨⟨n, n / 2 + 1, _, GCCPhat.spectrum a plans n samples⟩, ⟨rfl, rfl, converted⟩, ?_⟩
  rw [FFTW.Arrays.execute, sampleCount, outSize, read]
  change inBounds (Cells.fill out (fun i => (GCCPhat.spectrum a plans n samples)[i]?) _) >>= _ = _
  rw [stored]
  rfl

/-- Too few samples are read beyond their end. -/
theorem FFTW.Arrays.Sized.execute_short {t : FFTW.Arrays ρ κ} {n : Nat} (sized : t.Sized n)
    (out : List κ) {samples : List Int16} (short : samples.length < n)
    : t.execute a plans out samples = .error .outOfBounds := by
  rw [FFTW.Arrays.execute, sized.sampleCount, Cells.fill_eq_none short]
  · rfl
  · rw [List.getElem?_eq_none (Nat.le_refl _), Option.map_none]

/-- The inverse transform stores the signal of the first values, whatever its arrays held. -/
theorem IFFTW.Arrays.Sized.execute_eq {t : IFFTW.Arrays ρ κ} {n : Nat} (sized : t.Sized n)
    {out : List ρ} (room : out.length = n) {values : List κ}
    (enough : n / 2 + 1 ≤ values.length)
    : ∃ after : IFFTW.Arrays ρ κ,
        after.Sized n
        ∧ t.execute plans out values
          = .ok (plans.c2r n (values.take (n / 2 + 1)), after) := by
  obtain ⟨inSize, outSize, input⟩ := sized
  have taken : (values.take (n / 2 + 1)).length = n / 2 + 1 := by
    rw [List.length_take]
    omega
  have read
      : Cells.fill t.input (fun i => values[i]?) (n / 2 + 1)
        = some (values.take (n / 2 + 1)) := by
    rw [Cells.fill_eq taken.symm (by rw [taken, input]), Cells.overwrite_all]
    · rw [taken, input]
    · intro i inside
      rw [List.getElem?_take_of_lt (by omega)]
  have length := plans.length_c2r n (values.take (n / 2 + 1))
  have stored
      : Cells.fill out (fun i => (plans.c2r n (values.take (n / 2 + 1)))[i]?) n
        = some (plans.c2r n (values.take (n / 2 + 1))) := by
    rw [Cells.fill_eq length.symm (by omega) (fun _ _ => rfl), Cells.overwrite_all (by omega)]
  refine
    ⟨⟨n / 2 + 1, n, plans.spoiled n (values.take (n / 2 + 1)),
      plans.c2r n (values.take (n / 2 + 1))⟩,
      ⟨rfl, rfl, plans.length_spoiled ..⟩, ?_⟩
  rw [IFFTW.Arrays.execute, inSize, outSize, read]
  change inBounds (Cells.fill out (fun i => (plans.c2r n (values.take (n / 2 + 1)))[i]?) _)
    >>= _ = _
  rw [stored]
  rfl

namespace GCCPhat

/-- The transforms are initialised for `n` samples. -/
structure Sized (g : GCCPhat ρ κ) (n : Nat) : Prop where
  sampleCount : g.sampleCount = n
  fft : g.fft.Sized n
  ifft : g.ifft.Sized n

theorem sized_create (n : Nat) (reals : Bool → Nat → ρ) (complexes : Bool → Nat → κ)
    : (create n reals complexes).Sized n :=
  ⟨rfl, FFTW.Arrays.sized_init .., IFFTW.Arrays.sized_init ..⟩

theorem length_spectrum (n : Nat) (samples : List Int16)
    : (spectrum a plans n samples).length = n / 2 + 1 :=
  plans.length_r2c ..

/-- The loop over two spectra in arrays of `n` cells, of which the inverse transform takes the
first cells.
-/
theorem fill_phases {n : Nat} (zero : κ) {first second : List κ} (s1 : first.length = n)
    (s2 : second.length = n)
    : Cells.fill (List.replicate n zero)
        (fun i => second[i]?.bind (fun v2 => first[i]?.map (fun v1 => phase a v1 v2))) n
      = some (List.zipWith (phase a) first second) := by
  have length : (List.zipWith (phase a) first second).length = n := by
    rw [List.length_zipWith, s1, s2, Nat.min_self]
  rw [Cells.fill_eq length.symm (by simp [length]), Cells.overwrite_all (by simp [length])]
  intro i inside
  rw [List.getElem?_zipWith]
  have early : i < first.length := by omega
  have late : i < second.length := by omega
  simp [early, late]

variable [LinearOrder ρ]

/-- Each call answers, or fails, by its arguments alone, and leaves transforms of that size. -/
theorem executeSamples_eq {g : GCCPhat ρ κ} {n : Nat} (positive : 0 < n) (sized : g.Sized n)
    (request : Request)
    : ∃ after,
        after.Sized n
        ∧ g.executeSamples a plans request = (answer a plans n request).map (·, after) := by
  obtain ⟨sampleCount, fft, ifft⟩ := id sized
  rcases request with ⟨first, second, count, margin⟩
  rcases first with _ | s1
  · exact ⟨g, sized, rfl⟩
  rcases second with _ | s2
  · exact ⟨g, sized, rfl⟩
  simp only [executeSamples, answer, sampleCount]
  by_cases counted : count = n
  case neg => exact ⟨g, sized, by rw [if_pos counted, if_pos counted]; rfl⟩
  subst counted
  rw [if_neg (not_not.mpr rfl), if_neg (not_not.mpr rfl), Int.toNat_natCast]
  have room : n / 2 + 1 ≤ (List.replicate n a.complexZero).length := by
    rw [List.length_replicate]
    omega
  by_cases short1 : s1.length < n
  case pos =>
    refine ⟨g, sized, ?_⟩
    rw [fft.execute_short a plans _ short1, if_pos (Or.inl short1)]
    rfl
  obtain ⟨fft1, sized1, done1⟩ := fft.execute_eq a plans room (Nat.not_lt.mp short1)
  rw [done1, ok_bind]
  by_cases short2 : s2.length < n
  case pos =>
    refine ⟨g, sized, ?_⟩
    dsimp only
    rw [sized1.execute_short a plans _ short2, if_pos (Or.inr short2)]
    rfl
  obtain ⟨fft2, sized2, done2⟩ := sized1.execute_eq a plans room (Nat.not_lt.mp short2)
  dsimp only
  rw [done2, ok_bind, if_neg (not_or.mpr ⟨short1, short2⟩)]
  have stored
      : ∀ samples,
          (Cells.overwrite (List.replicate n a.complexZero) 0
            (spectrum a plans n samples)).length = n := by
    intro samples
    rw [Cells.length_overwrite] <;> simp only [length_spectrum, List.length_replicate]
    omega
  dsimp only
  rw [fill_phases a a.complexZero (stored s1) (stored s2), inBounds, ok_bind]
  -- Only the first cells, which hold the spectra, go into the inverse transform.
  have front
      : (List.zipWith (phase a)
          (Cells.overwrite (List.replicate n a.complexZero) 0 (spectrum a plans n s1))
          (Cells.overwrite (List.replicate n a.complexZero) 0 (spectrum a plans n s2))).take
            (n / 2 + 1)
        = List.zipWith (phase a) (spectrum a plans n s1) (spectrum a plans n s2) := by
    rw [List.take_zipWith, Cells.take_overwrite_front (length_spectrum a plans n s1),
      Cells.take_overwrite_front (length_spectrum a plans n s2)]
  have enough
      : n / 2 + 1
        ≤ (List.zipWith (phase a)
          (Cells.overwrite (List.replicate n a.complexZero) 0 (spectrum a plans n s1))
          (Cells.overwrite (List.replicate n a.complexZero) 0
            (spectrum a plans n s2))).length := by
    rw [List.length_zipWith, stored s1, stored s2, Nat.min_self]
    omega
  have zeros : (List.replicate n a.zero).length = n := List.length_replicate
  obtain ⟨ifft1, sized3, done3⟩ := ifft.execute_eq plans zeros enough
  rw [done3, ok_bind, front]
  refine ⟨⟨n, fft2, ifft1⟩, ⟨rfl, sized2, sized3⟩, ?_⟩
  rw [crossCorrelation]
  cases execute (n : Int) true n
    (plans.c2r n
      (List.zipWith (phase a) (spectrum a plans n s1) (spectrum a plans n s2))) margin <;> rfl

/-- Every call of a run finds transforms of the size they were made for. -/
theorem sized_run {n : Nat} (positive : 0 < n) {reals : Bool → Nat → ρ}
    {complexes : Bool → Nat → κ} {requests : List Request} {answers : List Int}
    {g : GCCPhat ρ κ}
    (ran
      : Machine.run (executeSamples a plans) (create n reals complexes) requests
        = .ok (answers, g))
    : g.Sized n := by
  refine Machine.run_invariant (fun g => g.Sized n) ?_ (sized_create n reals complexes) ran
  intro g request lag next sized stepped
  obtain ⟨after, kept, answered⟩ := executeSamples_eq a plans positive sized request
  rw [stepped] at answered
  cases found : answer a plans n request with
  | error halt => simp [found, Except.map] at answered
  | ok value =>
      simp only [found, Except.map, Except.ok.injEq, Prod.mk.injEq] at answered
      exact answered.2 ▸ kept

/-- The calls on one correlator, whose transforms and arrays they share, answer one by one as
their own samples make them answer, whatever the memory of the arrays held.
-/
theorem answers_independent {n : Nat} (positive : 0 < n) (reals : Bool → Nat → ρ)
    (complexes : Bool → Nat → κ) (requests : List Request)
    : (Machine.run (executeSamples a plans) (create n reals complexes) requests).map Prod.fst
      = requests.mapM (answer a plans n) :=
  Machine.run_mapM (fun g => g.Sized n)
    (fun request sized => executeSamples_eq a plans positive sized request)
    (sized_create n reals complexes) requests

/-- The transforms of four whole samples have Gaussian integers as values. -/
def fourSamples : FftwPlans Int (Int × Int) where
  r2c
    | 4, [w, x, y, z] => [(w + x + y + z, 0), (w - y, z - x), (w - x + y - z, 0)]
    | n, _ => List.replicate (n / 2 + 1) (0, 0)
  c2r
    | 4, [(u, _), (re, im), (v, _)] =>
        [u + 2 * re + v, u - 2 * im - v, u - 2 * re + v, u + 2 * im - v]
    | n, _ => List.replicate n 0
  spoiled n _ := List.replicate (n / 2 + 1) (0, 0)
  length_r2c n input := by split <;> simp
  length_c2r n input := by split <;> simp
  length_spoiled n input := List.length_replicate

/-- For values on the axes the absolute value is the sum of those of the parts. -/
def gaussianIntegers : Arithmetic Int (Int × Int) where
  ofInt16 := Int16.toInt
  zero := 0
  add := (· + ·)
  fltMin := 0
  complexZero := (0, 0)
  mul x y := (x.1 * y.1 - x.2 * y.2, x.1 * y.2 + x.2 * y.1)
  conj x := (x.1, -x.2)
  abs x := x.1.natAbs + x.2.natAbs
  divide x r := (x.1.tdiv r, x.2.tdiv r)

/-- The second request finds the arrays as the first has left them. -/
theorem answers_independent_twice
    : (Machine.run (executeSamples gaussianIntegers fourSamples)
        (create 4 (fun _ _ => 7) (fun _ _ => (7, 7)))
        [⟨some [1, 0, 0, 0], some [0, 1, 0, 0], 4, 1⟩,
          ⟨some [0, 0, 2, 0], some [0, 2, 0, 0], 4, 1⟩]).map Prod.fst
      = .ok [1, -1] :=
  (answers_independent gaussianIntegers fourSamples (show 0 < 4 by decide) _ _ _).trans rfl

end GCCPhat

end Nbsdk.Math
