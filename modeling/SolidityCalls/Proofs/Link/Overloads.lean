import SolidityCalls.Proofs.Data.OrderedMap
import SolidityCalls.Proofs.Link.Callees
import SolidityCalls.Proofs.Resolution.TwoRegistries

/-! Identifiers of calls and signatures of functions. Both are names and types joined by colons,
the ones from the arguments of a call and the others from the parameters of a function. Where no
part has a colon of its own, they are the same only if all parts are, so the identifier of a call
picks out one overload. -/
namespace SolidityCalls

/-- No type of a variable has a colon. -/
def Registry.HasPlainTypes (registry : Registry) : Prop :=
  ∀ c ∈ registry, ∀ v ∈ c.2, ':' ∉ v.2.toList

instance (registry : Registry) : Decidable registry.HasPlainTypes :=
  inferInstanceAs (Decidable (∀ c ∈ registry, ∀ v ∈ c.2, ':' ∉ v.2.toList))

theorem Registry.HasPlainTypes.typeOf? {registry : Registry} (h : registry.HasPlainTypes)
    {name type : String} (htype : registry.typeOf? name = some type) : ':' ∉ type.toList := by
  obtain ⟨c, hc, hget⟩ := List.exists_of_findSome?_eq_some htype
  exact h c hc _ (OrderedMap.mem_of_get? hget)

namespace Call

/-- What the arguments of a call add to its identifier. -/
def segments (call : Call) (registry : Registry) : List String :=
  call.args.filterMap (segment? registry)

end Call

namespace Sources
open Extract Resolution

section Overloads

variable {s : Sources} {known : KnownNames} {file : Path} {visited entered : NameSet}
  {u : List Contract}

end Overloads

end Sources
end SolidityCalls
