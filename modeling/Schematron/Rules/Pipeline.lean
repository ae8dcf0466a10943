import Schematron.Rules.Embedded
import Schematron.Rules.Inclusion
import Schematron.Rules.Expansion

/-!
# The rewriting stages

A schema tree goes through the stages of its kind in order; the first failure is reported with the
stage in which it arose.
-/
namespace Schematron

/-- What the stages need besides the tree: where the schema is, and how other documents are found. -/
structure Surroundings where
  base : Inclusion.Base
  resolver : Inclusion.Resolver

/-- Applies one rewriting stage; compilation rewrites nothing. -/
def Stage.apply (s : Surroundings) (stage : Stage) (tree : Xml.Element) :
    Except TransformError Xml.Element :=
  match stage with
  | .extract => Embedded.schema? tree
  | .inclusion => Inclusion.expand s.resolver s.base tree
  | .expand => Expansion.expand tree
  | .compile => .ok tree

def applyStages (s : Surroundings) (stages : List Stage) (tree : Xml.Element) :
    Except RuleError Xml.Element :=
  stages.foldlM (fun tree stage => (stage.apply s tree).mapError fun e => ⟨stage, e⟩) tree

end Schematron
