import Jetski.Synced
import Jetski.RowChecks
import Jetski.Relational.Recall

/-!
# What Apply sends

`Apply` sends what it computes from two reads: the organization, which its request has
read before, and the summaries of the projects, which it reads itself. Every request
for an organization makes its call from the rows of these reads, so the gateway is in
step with the rows as long as nobody else has changed what was read.
-/

set_option autoImplicit false

namespace Jetski.Applied

open Relational Schema Jetski.Types Database Gateway Handlers Routes GatewaySync

/-! ## What a request reads -/

inductive Part where
  | organization
  | projects
  deriving DecidableEq, Repr

instance : Fintype Part := ⟨{.organization, .projects}, fun p => by cases p <;> decide⟩

/-- The row of the organization, and with it the rows of projects and revisions. -/
def holds (orgID : UUID) : Part → (t : Table) → Key t → Bool
  | _, .organization, k => decide (k = orgID)
  | .projects, .project, _ => true
  | .projects, .deploymentRevision, _ => true
  | _, _, _ => false

/-- The statements that return the organization, and the one of `Apply`. -/
def reads : Stmt → Part → Bool
  | .isUserPartOfOrg, .organization => true
  | .updateOrganization, .organization => true
  | .getProjectSummary, .organization => true
  | .getProjectSummaries, .projects => true
  | _, _ => false

def parts (orgID : UUID) : Parts Key Stmt Part := ⟨holds orgID, reads⟩

abbrev Recollection := Memory Key Row Part

section Parts
variable (env : Env) (orgID : UUID)

/-- The call that `Apply` makes from the last reads. -/
def Applies (m : Recollection) (c : KubeCall) : Prop :=
  ∃ d ∈ m .organization, ∃ org ∈ Queries.organization d orgID, ∃ d' ∈ m .projects,
    c = gatewayCall env d' org

end Parts

/-! ## Rules -/

def Placed (orgID : UUID) (named : UUID → Prop) : (t : Table) → Key t → Row t → Prop
  | .project, id, v => named id → v.organizationID = orgID
  | _, _, _ => True

section Rules
variable (env : Env) (orgID : UUID) (named : UUID → Prop) {α : Type}

abbrev Recalls (Q : α → Recollection → Prop) (p : Api α) (m : Recollection) : Prop :=
  p.Recalls (parts orgID) (Placed orgID named) (Applies env orgID) Q m

end Rules

/-! ## Requests -/

section Requests
variable (env : Env) (orgID : UUID) (named : UUID → Prop) (user : UserAccount)

end Requests
end Jetski.Applied
