import Mathlib.Data.List.Induction

/-! A cell that keeps the first value offered to it until it is cleared. -/

namespace Offers

variable {β : Type*}

/-- What can happen to the cell. -/
inductive Offer (β : Type*)
  | offer (value : β)
  | clear
  | leave
  deriving DecidableEq, Repr

def receive (cell : Option β) : Offer β → Option β
  | .offer value => cell.or (some value)
  | .clear => none
  | .leave => cell

/-- What an empty cell holds after these. -/
def kept (offers : List (Offer β)) : Option β := offers.foldl receive none

theorem kept_concat (offers : List (Offer β)) (last : Offer β)
    : kept (offers ++ [last]) = receive (kept offers) last := by
  rw [kept, List.foldl_append]
  rfl

/-- Until it is cleared a cell keeps its value, by induction. -/
theorem foldl_receive {value : β} {offers : List (Offer β)} (uncleared : .clear ∉ offers)
    : offers.foldl receive (some value) = some value := by
  induction offers with
  | nil => rfl
  | cons first rest ih =>
      rw [List.mem_cons, not_or] at uncleared
      cases first with
      | clear => exact absurd rfl uncleared.1
      | offer other => exact ih uncleared.2
      | leave => exact ih uncleared.2

/-- A cell holds a value exactly if it was offered when the cell was empty, and the cell was not
cleared since; by induction from the end.
-/
theorem kept_eq_some_iff {value : β} {offers : List (Offer β)}
    : kept offers = some value
      ↔ ∃ before after,
          offers = before ++ .offer value :: after ∧ kept before = none ∧ .clear ∉ after := by
  constructor
  · induction offers using List.reverseRecOn with
    | nil => exact fun holds => by contradiction
    | append_singleton offers last ih =>
        intro holds
        rw [kept_concat] at holds
        have stays
            : kept offers = some value → last ≠ .clear →
                ∃ before after,
                  offers ++ [last] = before ++ .offer value :: after
                  ∧ kept before = none
                  ∧ .clear ∉ after := by
          intro held uncleared
          obtain ⟨before, after, split, empty, later⟩ := ih held
          refine ⟨before, after ++ [last], by rw [split]; simp, empty, ?_⟩
          simp [later, uncleared.symm]
        cases last with
        | clear => contradiction
        | leave => exact stays holds (by simp)
        | offer other =>
            cases held : kept offers with
            | some present =>
                rw [held] at holds
                exact stays (held.trans holds) (by simp)
            | none =>
                rw [held] at holds
                obtain rfl := Option.some.inj holds
                exact ⟨offers, [], rfl, held, by simp⟩
  · rintro ⟨before, after, rfl, empty, uncleared⟩
    rw [kept, List.foldl_append, ← kept, empty]
    exact foldl_receive uncleared

end Offers
