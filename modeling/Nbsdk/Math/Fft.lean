import Mathlib.Algebra.Group.Int.Defs
import Nbsdk.Lib.Fallible
import Nbsdk.Lib.Handles

/-! The transforms of fftw.cc and ifftw.cc, by the resources that they hold.
A plan and the two arrays it was made for are handles of the library, and null pointers are
no handles. What the arrays hold does not matter here.
-/

namespace Nbsdk.Math

open Handles (Misuse Store)

/-- What the library hands out: arrays of real or complex numbers, and plans for a number of
samples over two arrays.
-/
inductive Resource
  | reals (count : Int)
  | complexes (count : Int)
  | plan (sampleCount : Int) (input output : Option Nat)
  deriving DecidableEq, Repr

/-- The pointers of a transform. -/
structure Pointers where
  plan : Option Nat
  input : Option Nat
  output : Option Nat
  deriving DecidableEq, Repr

/-- The pointers before the first `Init`. -/
def nullPointers : Pointers := ⟨none, none, none⟩

/-- `fftw_destroy_plan`, which ignores a null plan. -/
def destroyPlan (s : Store Resource) : Option Nat → Except Misuse (Store Resource)
  | none => .ok s
  | some plan => s.release plan

/-- An array is freed if its pointer is not null. -/
def freeArray (s : Store Resource) : Option Nat → Except Misuse (Store Resource)
  | none => .ok s
  | some array => s.release array

/-- The loop over the elements of an array. -/
def access (s : Store Resource) (array : Option Nat) (count : Int) (resource : Resource)
    : Except Misuse Unit :=
  if count ≤ 0 then .ok ()
  else
    match array with
    | none => .error .used
    | some array => s.use array resource

/-- `fftw_execute`. -/
def executePlan (s : Store Resource) (plan : Option Nat) (resource : Resource)
    : Except Misuse Unit :=
  match plan with
  | none => .error .used
  | some plan => s.use plan resource

/-- `Terminate` of both transforms: the arrays' pointers become null, the plan's does not. -/
def Pointers.terminate (p : Pointers) (s : Store Resource)
    : Except Misuse (Pointers × Store Resource) := do
  let s ← destroyPlan s p.plan
  let s ← freeArray s p.input
  let s ← freeArray s p.output
  .ok ({ p with input := none, output := none }, s)

/-- A call of a transform; `Execute` returns at once if an argument is null. -/
inductive FftCall
  | init (sampleCount : Int)
  | execute (given : Bool)
  | terminate
  deriving DecidableEq, Repr

-----------------------------------------------------------------------------------------
-- The two transforms
-----------------------------------------------------------------------------------------

/-- The members of `FFTW`. -/
structure FFTW extends Pointers where
  sampleCount : Int
  outSize : Int
  deriving DecidableEq, Repr

namespace FFTW

def create : FFTW := { nullPointers with sampleCount := 0, outSize := 0 }

def init (sampleCount : Int) (s : Store Resource) : FFTW × Store Resource :=
  let (input, s) := s.create (.reals sampleCount)
  let outSize := sampleCount.tdiv 2 + 1
  let (output, s) := s.create (.complexes outSize)
  let (plan, s) := s.create (.plan sampleCount (some input) (some output))
  ({ sampleCount, outSize, plan := some plan, input := some input, output := some output }, s)

def execute (t : FFTW) (s : Store Resource) : Except Misuse Unit := do
  access s t.input t.sampleCount (.reals t.sampleCount)
  executePlan s t.plan (.plan t.sampleCount t.input t.output)
  access s t.output t.outSize (.complexes t.outSize)

def terminate (t : FFTW) (s : Store Resource) : Except Misuse (FFTW × Store Resource) := do
  let (pointers, s) ← t.toPointers.terminate s
  .ok ({ t with toPointers := pointers }, s)

def call : FFTW × Store Resource → FftCall → Except Misuse (FFTW × Store Resource)
  | (_, s), .init sampleCount => .ok (init sampleCount s)
  | (t, s), .execute given => do
      if given then t.execute s
      .ok (t, s)
  | (t, s), .terminate => t.terminate s

end FFTW

/-- The members of `IFFTW`. -/
structure IFFTW extends Pointers where
  inSize : Int
  outSize : Int
  deriving DecidableEq, Repr

namespace IFFTW

def create : IFFTW := { nullPointers with inSize := 0, outSize := 0 }

def terminate (t : IFFTW) (s : Store Resource) : Except Misuse (IFFTW × Store Resource) := do
  let (pointers, s) ← t.toPointers.terminate s
  .ok ({ t with toPointers := pointers }, s)

def init (t : IFFTW) (sampleCount : Int) (s : Store Resource)
    : Except Misuse (IFFTW × Store Resource) :=
  if t.outSize = sampleCount then .ok (t, s)
  else do
    let (_, s) ← t.terminate s
    let outSize := sampleCount
    let (output, s) := s.create (.reals outSize)
    let inSize := outSize.tdiv 2 + 1
    let (input, s) := s.create (.complexes inSize)
    let (plan, s) := s.create (.plan outSize (some input) (some output))
    .ok ({ inSize, outSize, plan := some plan, input := some input, output := some output }, s)

def execute (t : IFFTW) (s : Store Resource) : Except Misuse Unit := do
  access s t.input t.inSize (.complexes t.inSize)
  executePlan s t.plan (.plan t.outSize t.input t.output)
  access s t.output t.outSize (.reals t.outSize)

def call : IFFTW × Store Resource → FftCall → Except Misuse (IFFTW × Store Resource)
  | (t, s), .init sampleCount => t.init sampleCount s
  | (t, s), .execute given => do
      if given then t.execute s
      .ok (t, s)
  | (t, s), .terminate => t.terminate s

end IFFTW

end Nbsdk.Math
