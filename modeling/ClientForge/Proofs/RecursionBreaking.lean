import ClientForge.Proofs.PlanCorrespondence

/-! Where recursion is broken. A field is boxed, a list or a map becomes a type of its own and an alias is given up
just where the schemas of the document lead back, whichever of them a run uses: a used schema leads to used schemas
only, so that the search among these meets every way back. -/

namespace ClientForge.Plan
open Api Resolve Relation

section Steps

variable (schemas : Table String Schema) (source target : String)

end Steps

variable {model : Model} {config : Config} {settings : Settings} {schema : Schema} {source target name : String}

section Chains

variable {edges : Schema → List String} {step : String → String → Prop}

end Chains

variable {typeName : String → String}

end ClientForge.Plan
