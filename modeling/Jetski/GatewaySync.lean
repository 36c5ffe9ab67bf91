import Jetski.Applied

/-!
# Gateways under concurrent requests

A request that creates, configures or deletes a project or updates an
organization changes rows and applies what it sees then of the projects, with the
organization that it has read before. Nothing orders the calls of different
requests by what they have read, so the last one may be out of date. If nobody else
has changed what its sender had read, and no other request is about to commit what
it has applied already, then the gateway lists the projects of its organization
whenever no request is in flight.
-/

set_option autoImplicit false

namespace Jetski.GatewaySync

open Relational Schema Jetski.Types Database Gateway GatewayConfig Summaries Handlers Routes
open Duties Reachability Applied

/-! ## Requests -/

/-- The request calls after it has committed. A request for settings calls before,
and one that creates a project without a revision does not call. -/
def CallsLater : Route → Prop
  | .postProject body => ∃ req, body = some req ∧ req.proxyURL.isSome
  | .putProjectSettings _ _ => False
  | _ => True

section Requests
variable (env : Env) (orgID : UUID) (user : UserAccount)

/-- The duty of a request for the gateway of an organization. -/
abbrev syncDuty (route : Route) : ApiDuty := (mirror orgID).duty (CallsLater route)

abbrev Syncs (route : Route) (p : Api Unit) (m : ApiMode) : Prop :=
  Obeys (fun _ => True) (syncDuty orgID route) (Ended (syncDuty orgID route)) p m

end Requests

/-! ## Runs -/

section Runs
variable {σ : Type} (rt : Analytics.Runtime) (env : Env) (orgID : UUID)

variable [DecidableEq σ]

def succeeding : Admit Key Row Stmt DbError KubeCall Output Cluster σ :=
  fun x i fail _ a => postgres x i fail _ a ∧ fail = false

def requesting (user : σ → UserAccount) (route : σ → Route) (srv : Srv σ) : ApiWorld σ :=
  ⟨⟨srv, fun _ => {}⟩, fun i => handle rt env (user i) (route i)⟩

end Runs

/-! ## Two requests for one organization -/

def demoRoute : Bool → Route
  | true => .putOrganization (.value 2) (some ⟨some "docs.acme.com", none⟩)
  | false => ApiRuns.demoOpening

def demoOrganization : Option (ApiWorld Bool) :=
  played (List.replicate 3 (true, false)) (start fun _ => demoClient)

instance (x : Ownership.Conf Bool) (i fail : Bool) (β : Type)
    (a : Action Key Row Stmt DbError KubeCall Output β) : Decidable (succeeding x i fail β a) :=
  inferInstanceAs (Decidable (_ ∧ _))

/-- The requests one after another, or with the domain given after the other request
has passed its access check. -/
def demoSchedule (overlap : Bool) : List (Bool × Bool) :=
  List.replicate (if overlap then 1 else 0) (false, false)++List.replicate 5 (true, false)++
    List.replicate (if overlap then 10 else 11) (false, false)

abbrev demoStart (srv : Srv Bool) : ApiWorld Bool :=
  requesting Analytics.Runtime.stable Env.demo (fun _ => .demo) demoRoute srv

def demoPair (overlap : Bool) : Option (ApiWorld Bool × ApiWorld Bool × Bool) := do
  let w ← demoOrganization
  let w' ← playNoted backend (parts 2) (fun x i fail β a => decide (succeeding x i fail β a))
    (demoSchedule overlap) (demoStart w.cfg.srv) (fun _ _ => false) true
  return (w, w')

theorem demoPair_runs (overlap timely : Bool) (w w' : ApiWorld Bool)
    (h : demoPair overlap = some (w, w', timely)) : Reaches Env.demo w ∧ ∃ stale timely',
      Noted backend succeeding (parts 2) (demoStart w.cfg.srv) w' stale timely' ∧
        (timely = true → timely') := by
  simp only [demoPair, Option.bind_eq_bind, Option.bind_eq_some_iff, Option.pure_def,
    Option.some.injEq, Prod.mk.injEq] at h
  obtain ⟨x, hx, y, hy, rfl, rfl⟩ := h
  exact ⟨⟨_, start_initial _, fun _ => demoClient_built, played_run _ _ _ hx⟩,
    playNoted_noted _ (fun _ _ _ _ _ h => of_decide_eq_true h) _ true (fun _ => trivial) .start w'
      timely hy⟩

end Jetski.GatewaySync
