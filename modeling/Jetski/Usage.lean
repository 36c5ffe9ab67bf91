import Mathlib.Data.Finset.Card
import Mathlib.Data.Fintype.Prod
import Jetski.ApiRuns

/-!
# The usage of an organization

The sessions and requests of an organization are counted by the database, those
of a project by the analytics. The webhook stores a call without session under
the empty identifier, which only the analytics leaves out.
-/

set_option autoImplicit false

namespace Jetski.Usage

open Relational Schema Jetski.Types Database Handlers Routes Reachability Analytics
open ApiRuns (demoServe demoFounding demoOpening demoCreation)

/-! ## Counting sessions -/

theorem distinct_perm {β : Type} [DecidableEq β] (l l' : List β) (h : l.Perm l') :
    l.dedup.length = l'.dedup.length := by
  rw [← List.card_toFinset, ← List.card_toFinset, List.toFinset_eq_of_perm l l' h]

/-- Leaving out one value changes the number of distinct values exactly if it occurs. -/
theorem distinct_without {β : Type} [DecidableEq β] (l : List β) (b : β) :
    (l.filter (fun a => a ≠ b)).dedup.length = l.dedup.length ↔ b ∉ l := by
  have herase : (l.filter (fun a => a ≠ b)).toFinset = l.toFinset.erase b := by
    ext a
    simp [and_comm]
  rw [← List.card_toFinset, ← List.card_toFinset, herase]
  constructor
  · intro h hmem
    have hlt := Finset.card_erase_lt_of_mem (List.mem_toFinset.mpr hmem)
    omega
  · intro h
    rw [Finset.erase_eq_of_notMem (fun hmem => h (List.mem_toFinset.mp hmem))]

theorem normalized_eq (logs : List MCPServerLog) : logs.filterMap getNormalizedSessionID =
    (logs.filterMap (fun l => l.mcpSessionID)).filter (fun s => s ≠ "") := by
  rw [List.filter_filterMap]
  rfl

/-- The two counts of sessions agree exactly if no log has the empty identifier. -/
theorem sessions_agree (logs : List MCPServerLog) :
    (logs.filterMap (fun l => l.mcpSessionID)).dedup.length = countUniqueSessions logs ↔
      ∀ log ∈ logs, log.mcpSessionID ≠ some "" := by
  rw [countUniqueSessions, countUniqueFunc, normalized_eq, eq_comm, distinct_without]
  simp [List.mem_filterMap]

/-! ## The logs of an organization -/

section Organization
variable (env : Env) (db : Db) (orgID projectID : UUID)

/-- The logs that the list of a project shows without filters. -/
def logsOfProject : List MCPServerLog :=
  (Logs.projectLogs env db projectID none none).map (fun l => { l.2 with id := l.1 })

def OnlyProject : Prop :=
  ∀ id, (∃ v, db.row .project id = some v ∧ v.organizationID = orgID) ↔ id = projectID

def ofOrganization (l : UUID × MCPServerLogRow) : Option MCPServerLog := do
  let dr ← db.row .deploymentRevision l.2.deploymentRevisionID
  let p ← db.row .project dr.projectID
  guard (p.organizationID = orgID)
  return { l.2 with id := l.1 }

/-- A log is joined to the project that it names itself. -/
theorem ofOrganization_eq (hdb : Consistent db) (hone : OnlyProject db orgID projectID)
    (l : UUID × MCPServerLogRow) (hl : l ∈ db.scan .mcpServerLog) :
    ofOrganization db orgID l =
      if l.2.projectID = projectID then some { l.2 with id := l.1 } else none := by
  have hrow := (db.mem_scan .mcpServerLog l.1 l.2).mp hl
  obtain ⟨dr, hdr, hproject⟩ := hdb.logs l.1 l.2 hrow
  have hparent : ∃ p : ProjectRow, db.row .project dr.projectID = some p :=
    hdb.sound.parent revisionProject (by simp [schema, foreignKeys])
      l.2.deploymentRevisionID dr dr.projectID hdr rfl
  obtain ⟨p, hp⟩ := hparent
  rw [hproject] at hp
  have horg : p.organizationID = orgID ↔ l.2.projectID = projectID := by
    rw [← hone l.2.projectID]
    constructor
    · intro h
      exact ⟨p, hp, h⟩
    · rintro ⟨v, hv, h⟩
      cases hp.symm.trans hv
      exact h
  rw [ofOrganization, hdr, Option.bind_eq_bind, Option.bind_some, hproject, hp,
    Option.bind_eq_bind, Option.bind_some]
  by_cases h : l.2.projectID = projectID
  · rw [if_pos h, guard, if_pos (horg.mpr h)]
    rfl
  · rw [if_neg h, guard, if_neg (fun hp => h (horg.mp hp))]
    rfl

theorem counted_perm (hdb : Consistent db) (hone : OnlyProject db orgID projectID) :
    ((db.scan .mcpServerLog).filterMap (ofOrganization db orgID)).Perm
      (logsOfProject env db projectID) := by
  have hselect : (db.scan .mcpServerLog).filterMap (ofOrganization db orgID) =
      ((db.scan .mcpServerLog).filter (fun l => l.2.projectID = projectID)).map
        (fun l => { l.2 with id := l.1 }) := by
    rw [List.filterMap_congr (ofOrganization_eq db orgID projectID hdb hone),
      ← List.filterMap_eq_map, List.filterMap_filter]
    simp
  rw [hselect, logsOfProject, Logs.projectLogs]
  apply List.Perm.map
  simpa using (env.arrange_perm _).symm

/-- The usage agrees with the logs of the project. -/
def Agrees (usage : OrganizationDashboardUsage) (logs : List MCPServerLog) : Prop :=
  usage.sessionCount = countUniqueSessions logs ∧ usage.requestCount = logs.length

theorem agrees_iff (usage : OrganizationDashboardUsage) (logs : List MCPServerLog)
    (h : usage.counted.Perm logs) :
    Agrees usage logs ↔ ∀ log ∈ logs, log.mcpSessionID ≠ some "" := by
  have hsessions := distinct_perm _ _ (h.filterMap (fun l => l.mcpSessionID))
  have hrequests : usage.requestCount = logs.length := h.length_eq
  rw [← sessions_agree logs, ← hsessions]
  exact and_iff_left hrequests

end Organization

/-- After any concurrent requests and webhook calls, the usage of an organization
with one project agrees with the logs of the project exactly if no call without
session is among them. -/
theorem usage_agrees_iff {σ : Type} [DecidableEq σ] (rt : Runtime) (env : Env) (w₀ w : ApiWorld σ)
    (h₀ : Initial w₀) (hp : ∀ i, (∃ email route, w₀.prog i = serve rt env email route) ∨
      ∃ id body, w₀.prog i = gatewayWebhook env id body)
    (h : Run backend postgres w₀ w) (orgID projectID : UUID)
    (hone : OnlyProject w.cfg.srv.db orgID projectID) (t : Tick) :
    ∃ usage, Queries.getUsage orgID t w.cfg.srv.db = .ok (usage, []) ∧
      (Agrees usage (logsOfProject env w.cfg.srv.db projectID) ↔
        ∀ log ∈ logsOfProject env w.cfg.srv.db projectID, log.mcpSessionID ≠ some "") := by
  have hdb := ApiRuns.api_consistent rt env w₀ w h₀ hp h
  exact ⟨_, rfl, agrees_iff _ _ (counted_perm env w.cfg.srv.db orgID projectID hdb hone)⟩

/-! ## Two calls -/

def demoPayload (mcpSessionID : String) : WebhookPayload :=
  { unrequestedPayload with mcpSessionID := mcpSessionID }

def demoProg (i : Bool × Bool) : Api Unit :=
  if i.1 then gatewayWebhook Env.demo (.value 9) (some (demoPayload (if i.2 then "" else "s1")))
  else if i.2 then demoServe demoOpening else demoServe demoFounding

def demoStart : ApiWorld (Bool × Bool) := start demoProg

def demoRun (calls : List ((Bool × Bool) × Bool)) : Option (ApiWorld (Bool × Bool)) :=
  played (demoCreation (false, false) (false, true)++calls) demoStart

def firstCall : List ((Bool × Bool) × Bool) := List.replicate 2 ((true, false), false)

def secondCall : List ((Bool × Bool) × Bool) := List.replicate 2 ((true, true), false)

theorem demo_programs (i : Bool × Bool) :
    (∃ email route, demoStart.prog i = serve Runtime.stable Env.demo email route) ∨
      ∃ id body, demoStart.prog i = gatewayWebhook Env.demo id body := by
  by_cases hcall : i.1 = true
  · exact Or.inr ⟨_, _, if_pos hcall⟩
  · by_cases hproject : i.2 = true
    · exact Or.inl ⟨_, _, (if_neg hcall).trans (if_pos hproject)⟩
    · exact Or.inl ⟨_, _, (if_neg hcall).trans (if_neg hproject)⟩

theorem onlyProject_of_scan (db : Db) (orgID projectID : UUID)
    (h : ((db.scan .project).filter (fun p => p.2.organizationID = orgID)).map Prod.fst =
      [projectID]) : OnlyProject db orgID projectID := by
  intro id
  rw [← List.mem_singleton, ← h, List.mem_map]
  constructor
  · rintro ⟨v, hv, horg⟩
    exact ⟨(id, v), List.mem_filter.mpr ⟨(db.mem_scan .project id v).mpr hv, by simpa using horg⟩,
      rfl⟩
  · rintro ⟨⟨_, v⟩, hmem, rfl⟩
    obtain ⟨hscan, horg⟩ := List.mem_filter.mp hmem
    exact ⟨v, (db.mem_scan .project _ v).mp hscan, by simpa using horg⟩

theorem usage_agrees_demo : ∃ w, demoRun firstCall = some w ∧
    ∃ usage, Queries.getUsage 2 ⟨0, 0, 0⟩ w.cfg.srv.db = .ok (usage, []) ∧
      Agrees usage (logsOfProject Env.demo w.cfg.srv.db 7) := by
  have h : (demoRun firstCall).any (fun w =>
      decide (((w.cfg.srv.db.scan .project).filter (fun p => p.2.organizationID = 2)).map Prod.fst =
        [7]) && (logsOfProject Env.demo w.cfg.srv.db 7).all (fun l => l.mcpSessionID ≠ some "")) =
      true := by
    decide
  obtain ⟨w, hw, hall⟩ := (Option.any_eq_true _ _).mp h
  rw [Bool.and_eq_true, decide_eq_true_eq, List.all_eq_true] at hall
  obtain ⟨usage, hu, hiff⟩ := usage_agrees_iff Runtime.stable Env.demo demoStart w
    (start_initial _) demo_programs (played_run _ _ w hw) 2 7
    (onlyProject_of_scan _ _ _ hall.1) ⟨0, 0, 0⟩
  exact ⟨w, hw, usage, hu, hiff.mpr (fun log hlog => of_decide_eq_true (hall.2 log hlog))⟩

/-- The database counts the second call as another session. -/
theorem sessionless_call_counted : ∃ w, Run backend postgres demoStart w ∧
    OnlyProject w.cfg.srv.db 2 7 ∧ ∃ usage, Queries.getUsage 2 ⟨0, 0, 0⟩ w.cfg.srv.db =
      .ok (usage, []) ∧ ¬ Agrees usage (logsOfProject Env.demo w.cfg.srv.db 7) := by
  have h : (demoRun (firstCall++secondCall)).any (fun w =>
      decide (((w.cfg.srv.db.scan .project).filter (fun p => p.2.organizationID = 2)).map Prod.fst =
        [7]) && decide ((OrganizationDashboardUsage.mk ((w.cfg.srv.db.scan .mcpServerLog).filterMap
          (ofOrganization w.cfg.srv.db 2))).sessionCount ≠
            countUniqueSessions (logsOfProject Env.demo w.cfg.srv.db 7))) = true := by
    decide
  obtain ⟨w, hw, hall⟩ := (Option.any_eq_true _ _).mp h
  rw [Bool.and_eq_true, decide_eq_true_eq, decide_eq_true_eq] at hall
  exact ⟨w, played_run _ _ w hw, onlyProject_of_scan _ _ _ hall.1, _, rfl, fun h => hall.2 h.1⟩

end Jetski.Usage
