import Nbsdk.Lib.Offers
import Nbsdk.Http.HttpRequest

/-! The headers of a request, by everything that was done to it and its builders.
A header keeps the first value that it is given until it is removed. Being looked up is one of
the ways to be given a value, the empty one.
-/

namespace Nbsdk.Http

open Offers (Offer)

namespace HttpRequest

/-- A call on the builder, or a request that is built, looked at and made a builder again. -/
inductive RequestStep
  | call (call : RequestCall)
  | look (names : List Text)
  deriving DecidableEq, Repr

/-- What a step is to the header of this name. -/
def RequestStep.offer (name : Text) : RequestStep → Offer Text
  | .call (.addHeader other value) =>
      if other = name ∧ other ≠ [] ∧ value ≠ [] then .offer value else .leave
  | .call (.removeHeader other) => if other = name ∧ other ≠ [] then .clear else .leave
  | .call .clearHeaders => .clear
  | .look names => if name ∈ names then .offer [] else .leave
  | .call (.urlText _) | .call (.url _) | .call (.method _ _) => .leave

namespace Builder

def step (b : Builder) : RequestStep → Builder
  | .call call => b.call call
  | .look names => (b.build.lookups names).newBuilder

def steps (b : Builder) (steps : List RequestStep) : Builder := steps.foldl step b

/-- A step is to every header what its kind says, by the kinds. -/
theorem find?_step (b : Builder) (event : RequestStep) (name : Text)
    : (b.step event).headers.find? name
      = Offers.receive (b.headers.find? name) (event.offer name) := by
  cases event with
  | look names =>
      have looked := find?_lookups b.build names name
      simp only [step, newBuilder, ofRequest, looked, RequestStep.offer]
      split
      case isFalse => rfl
      case isTrue => cases found : b.headers.find? name <;> simp [build, Offers.receive, found]
  | call call =>
      cases call with
      | url => rfl
      | clearHeaders => rfl
      | method method body =>
          simp only [step, Builder.call, setMethod]
          split <;> rfl
      | urlText url =>
          simp only [step, Builder.call, setUrlText]
          split
          · rfl
          · cases HttpUrl.ofText url <;> rfl
      | addHeader other value =>
          simp only [step, Builder.call, addHeader, RequestStep.offer]
          by_cases unnamed : other = []
          case pos => simp [unnamed, Offers.receive]
          by_cases unvalued : value = []
          case pos => simp [unvalued, Offers.receive]
          by_cases same : other = name
          case pos =>
            subst same
            cases found : b.headers.find? other <;>
              simp [unnamed, unvalued, Offers.receive, found]
          case neg =>
            have apart : name ≠ other := fun equal => same equal.symm
            simp [unnamed, unvalued, same, Offers.receive, SortedMap.find?_emplace_of_ne apart]
      | removeHeader other =>
          simp only [step, Builder.call, removeHeader, RequestStep.offer]
          by_cases unnamed : other = []
          case pos => simp [unnamed, Offers.receive]
          by_cases same : other = name
          case pos =>
            subst same
            simp [unnamed, Offers.receive]
          case neg =>
            have apart : name ≠ other := fun equal => same equal.symm
            simp [unnamed, same, Offers.receive, SortedMap.find?_erase_of_ne apart]

/-- A header holds what the steps make of an empty cell, by induction over them. -/
theorem find?_steps (steps : List RequestStep) (name : Text)
    : (Builder.fresh.steps steps).headers.find? name
      = Offers.kept (steps.map (RequestStep.offer name)) := by
  have received
      : ∀ b : Builder,
          (b.steps steps).headers.find? name
          = (steps.map (RequestStep.offer name)).foldl Offers.receive
              (b.headers.find? name) := by
    induction steps with
    | nil => exact fun _ => rfl
    | cons first rest ih =>
        intro b
        rw [List.map_cons, List.foldl_cons, ← find?_step]
        exact ih (b.step first)
  exact received .fresh

/-- In whatever way a request came about, a header of it has a value exactly if it was given this
value, or the empty one by being looked up, when it had none, and was not removed since.
-/
theorem header_kept_iff (steps : List RequestStep) (name value : Text)
    : (Builder.fresh.steps steps).build.headers.find? name = some value
      ↔ ∃ before event after,
          steps = before ++ event :: after
          ∧ event.offer name = .offer value
          ∧ (Builder.fresh.steps before).build.headers.find? name = none
          ∧ ∀ later ∈ after, later.offer name ≠ .clear := by
  simp only [build, find?_steps, Offers.kept_eq_some_iff]
  constructor
  · rintro ⟨front, back, split, empty, uncleared⟩
    obtain ⟨before, behind, rfl, rfl, there⟩ := List.map_eq_append_iff.mp split
    obtain ⟨event, after, rfl, offered, rfl⟩ := List.map_eq_cons_iff.mp there
    refine ⟨before, event, after, rfl, offered, empty, ?_⟩
    intro later member cleared
    exact uncleared (cleared ▸ List.mem_map_of_mem member)
  · rintro ⟨before, event, after, rfl, offered, empty, uncleared⟩
    refine ⟨_, after.map (RequestStep.offer name), by simp [offered], empty, ?_⟩
    intro cleared
    obtain ⟨later, member, clears⟩ := List.mem_map.mp cleared
    exact uncleared later member clears

end Builder

end HttpRequest

end Nbsdk.Http
