import Jetski.Isolation

/-!
# What queries show

The access check of a route settles which organization its queries are about.
The owner columns they filter on are consistent, so no row of another
organization slips in.
-/

set_option autoImplicit false

namespace Jetski.Disclosure

open Relational Schema Jetski.Types Isolation Reachability Requests
open Database (Body)

variable {base db : Db} {o : UUID} {ov : OrganizationRow} {userID : UUID}

def Hidden (base : Db) (o : UUID) (rs : List (Ref Key)) : Prop :=
  ∀ r ∈ rs, ¬ Belongs base o r.1 r.2

theorem hidden_append (rs rs' : List (Ref Key)) (h : Hidden base o rs) (h' : Hidden base o rs') :
    Hidden base o (rs++rs') :=
  fun r hr => (List.mem_append.mp hr).elim (h r) (h' r)

theorem hidden_map {α : Type} (f : α → Ref Key) (as : List α)
    (h : ∀ a ∈ as, ¬ Belongs base o (f a).1 (f a).2) : Hidden base o (as.map f) := by
  intro r hr
  obtain ⟨a, ha, rfl⟩ := List.mem_map.mp hr
  exact h a ha

theorem hidden_flatMap {α : Type} (f : α → List (Ref Key)) (as : List α)
    (h : ∀ a ∈ as, Hidden base o (f a)) : Hidden base o (as.flatMap f) := by
  intro r hr
  obtain ⟨a, ha, hr⟩ := List.mem_flatMap.mp hr
  exact h a ha r hr

theorem hidden_pair (r r' : Ref Key) (h : ¬ Belongs base o r.1 r.2)
    (h' : ¬ Belongs base o r'.1 r'.2) : Hidden base o [r, r'] := by
  intro x hx
  rcases List.mem_cons.mp hx with rfl | hx
  · exact h
  · cases List.mem_singleton.mp hx
    exact h'

theorem mem_rowNumbers (seen : List UUID) (rows : List (UUID × DeploymentRevisionRow))
    (r : DeploymentRevision) (h : r ∈ Queries.rowNumbers seen rows) :
    (r.id, r.toDeploymentRevisionRow) ∈ rows := by
  induction rows generalizing seen with
  | nil => cases h
  | cons row rows ih =>
    rw [Queries.rowNumbers] at h
    rcases List.mem_cons.mp h with rfl | h
    · simp
    · exact List.mem_cons_of_mem _ (ih _ h)

theorem members_hidden (orgID : UUID) (ho : orgID ≠ o) (t : Tick)
    (us : List ((UUID × UUID) × UserAccount)) (ws : List Image)
    (h : Queries.getOrganizationMembers orgID t db = .ok (us, ws)) :
    Hidden base o (Body.refs (.users us)) := by
  cases h
  refine hidden_flatMap _ _ fun u hm => hidden_pair _ _ ?_ id
  rw [List.mem_insertionSort] at hm
  obtain ⟨⟨k, v⟩, -, hm⟩ := List.mem_filterMap.mp hm
  simp only [Option.bind_eq_bind, Option.bind_eq_some_iff] at hm
  obtain ⟨x, hk, u', -, hm⟩ := hm
  cases hm
  have hk : k.1 = orgID := by
    by_contra hne
    simp [guard, hne] at hk
  exact fun hb => ho (hk.symm.trans hb)

section Reads
variable (hst : Stranger base o ov userID) (hs : Same base db)
include hs

theorem project_hidden (id : UUID) (p : ProjectRow) (hp : db.row .project id = some p)
    (ho : p.organizationID ≠ o) : ¬ Belongs base o .project id := by
  rintro ⟨p', hp', ho'⟩
  cases ((hs _ (by decide) _).symm.trans hp).symm.trans hp'
  exact ho ho'

theorem revision_hidden (d : UUID) (r : DeploymentRevisionRow)
    (hr : db.row .deploymentRevision d = some r) (hp : ¬ Belongs base o .project r.projectID) :
    ¬ Belongs base o .deploymentRevision d := by
  rintro ⟨r', p', hr', hp'⟩
  cases ((hs _ (by decide) _).symm.trans hr).symm.trans hr'
  exact hp ⟨p', hp'⟩

theorem event_hidden (e : UUID) (v : DeploymentRevisionEventRow)
    (hv : db.row .deploymentRevisionEvent e = some v)
    (hd : ¬ Belongs base o .deploymentRevision v.deploymentRevisionID) :
    ¬ Belongs base o .deploymentRevisionEvent e := by
  rintro ⟨v', r', p', hv', hp'⟩
  cases ((hs _ (by decide) _).symm.trans hv).symm.trans hv'
  exact hd ⟨r', p', hp'⟩

theorem log_hidden (l : UUID) (v : MCPServerLogRow) (hv : db.row .mcpServerLog l = some v)
    (hp : ¬ Belongs base o .project v.projectID) : ¬ Belongs base o .mcpServerLog l := by
  rintro ⟨v', p', hv', hp'⟩
  cases ((hs _ (by decide) _).symm.trans hv).symm.trans hv'
  exact hp ⟨p', hp'⟩

theorem projectLogs_hidden (env : Env) (projectID : UUID) (id : Option UUID)
    (session : Option String) (hp : ¬ Belongs base o .project projectID)
    (l : UUID × MCPServerLogRow) (hm : l ∈ Logs.projectLogs env db projectID id session) :
    ¬ Belongs base o .mcpServerLog l.1 := by
  obtain ⟨hv, hproject, -⟩ := (Logs.mem_projectLogs env db projectID id session l).mp hm
  exact log_hidden hs l.1 l.2 hv (hproject ▸ hp)

theorem logs_hidden (env : Env) (projectID : UUID)
    (hp : ¬ Belongs base o .project projectID) (pagination : Pagination) (sorting : Sorting)
    (id : Option UUID) (session : Option String) (t : Tick) (ls : List MCPServerLog)
    (ws : List Image)
    (h : Logs.getLogsForProject env projectID pagination sorting id session t db = .ok (ls, ws)) :
    Hidden base o (logRefs ls) := by
  obtain ⟨rows, hrows, rfl⟩ := Logs.getLogs_rows env db projectID _ _ id session t ls ws h
  refine hidden_map _ _ fun log hlog => ?_
  obtain ⟨l, hl, rfl⟩ := List.mem_map.mp hlog
  exact projectLogs_hidden hs env projectID id session hp l (hrows l hl).1

theorem prompts_hidden (env : Env) (projectID : UUID)
    (hp : ¬ Belongs base o .project projectID) (pagination : Pagination) (sorting : Sorting)
    (session : Option String) (t : Tick) (ps : List MCPServerLogPromptData) (ws : List Image)
    (h : Logs.getPromptsForProject env projectID pagination sorting session t db = .ok (ps, ws)) :
    Hidden base o (ps.map (fun p => ⟨.mcpServerLog, p.id⟩)) := by
  refine hidden_map _ _ fun p hmem => ?_
  obtain ⟨l, hl, hid⟩ := Logs.getPrompts_rows env db projectID _ _ session t ps ws h p hmem
  exact hid ▸ projectLogs_hidden hs env projectID none session hp l hl

include hst

theorem member_foreign (orgID : UUID) (h : Queries.isMember db userID orgID = true) :
    orgID ≠ o := by
  rintro rfl
  rw [Queries.isMember, hs _ (by decide), hst.apart] at h
  cases h

theorem accessible_hidden (id : UUID) (h : Accessible db userID id) :
    ¬ Belongs base o .project id := by
  obtain ⟨p, hp, hm⟩ := h
  exact project_hidden hs id p hp (member_foreign hst hs _ hm)

/-- The latest event of a project is hidden with it. -/
theorem latestEvent_hidden (id : UUID) (p : ProjectRow) (hp : db.row .project id = some p)
    (ho : ¬ Belongs base o .project id) (e : UUID)
    (he : p.latestDeploymentRevisionEventID = some e) :
    ¬ Belongs base o .deploymentRevisionEvent e := by
  obtain ⟨v, r, hv, hr, rfl⟩ := (same_pointers hst hs).events id p e hp he
  exact event_hidden hs e v hv (revision_hidden hs _ r hr ho)

theorem summary_hidden (id : UUID) (p : ProjectRow) (hp : db.row .project id = some p)
    (ho : p.organizationID ≠ o) (ps : ProjectSummary)
    (h : Queries.summary db id p = some ps) : Hidden base o (ProjectSummary.refs ps) := by
  obtain ⟨org, horg, rfl⟩ := (Summaries.summary_some db id p ps).mp h
  have hproj := project_hidden hs id p hp ho
  have hid : org.id = p.organizationID := by
    obtain ⟨v, -, rfl⟩ := Option.map_eq_some_iff.mp horg
    rfl
  refine hidden_append _ _ (hidden_append _ _ (hidden_pair _ _ hproj ?_)
    (hidden_map _ _ fun r hr => ?_)) (hidden_map _ _ fun e he => ?_)
  · exact fun hb => ho (hid.symm.trans hb)
  · have hr := Option.mem_toList.mp hr
    simp only [Queries.latestRevision, Option.bind_eq_bind, Option.bind_eq_some_iff] at hr
    obtain ⟨d, hd, v, -, hr⟩ := hr
    cases hr
    obtain ⟨w, hw, rfl⟩ := (same_pointers hst hs).revisions id p d hp hd
    exact revision_hidden hs d w hw hproj
  · have he := Option.mem_toList.mp he
    simp only [Queries.latestEvent, Option.bind_eq_bind, Option.bind_eq_some_iff] at he
    obtain ⟨e', he', v, hv, r, -, u, -, he⟩ := he
    cases he
    exact latestEvent_hidden hst hs id p hp hproj e' he'

theorem summaries_hidden (env : Env) (orgID : UUID) (ho : orgID ≠ o) :
    Hidden base o ((Queries.projectSummaries env db orgID).flatMap ProjectSummary.refs) := by
  refine hidden_flatMap _ _ fun ps hps => ?_
  obtain ⟨id, p, hp, rfl, h⟩ := (Summaries.mem_projectSummaries env db orgID ps).mp hps
  exact summary_hidden hst hs id p hp ho ps h

/-- Revisions of projects that are chosen outside of the organization. -/
theorem revisions_hidden (P : ProjectRow → UUID → Bool)
    (hP : ∀ id p, db.row .project id = some p → P p id = true → p.organizationID ≠ o) :
    Hidden base o ((Queries.revisionSummaries db P).flatMap DeploymentRevisionSummary.refs) := by
  refine hidden_flatMap _ _ fun rs hrs => ?_
  rw [Queries.revisionSummaries, List.mem_insertionSort, List.mem_filterMap] at hrs
  obtain ⟨r, hr, hrs⟩ := hrs
  have hmem := mem_rowNumbers _ _ r hr
  rw [List.mem_insertionSort, List.mem_filter, Store.mem_scan] at hmem
  obtain ⟨hrow, hfilter⟩ := hmem
  simp only [Option.bind_eq_bind, Option.bind_eq_some_iff] at hrs
  obtain ⟨v, hv, u, hu, hrs⟩ := hrs
  cases hrs
  obtain ⟨p, hp, rfl⟩ := Option.map_eq_some_iff.mp hv
  obtain ⟨u', -, rfl⟩ := Option.map_eq_some_iff.mp hu
  have ho : p.organizationID ≠ o := hP _ p hp (by simpa [hp] using (of_decide_eq_true hfilter).1)
  have hproj := project_hidden hs _ p hp ho
  refine hidden_append _ _ ?_ (hidden_map _ _ fun e he => ?_)
  · intro x hx
    simp only [List.mem_cons, List.not_mem_nil, or_false] at hx
    rcases hx with rfl | rfl | rfl
    · exact revision_hidden hs _ _ hrow hproj
    · exact hproj
    · exact id
  · have he := Option.mem_toList.mp he
    simp only [Option.bind_eq_some_iff] at he
    obtain ⟨e', he', w, -, he⟩ := he
    cases he
    exact latestEvent_hidden hst hs _ p hp hproj e' he'

theorem usage_hidden (orgID : UUID) (ho : orgID ≠ o) (u : OrganizationDashboardUsage)
    (t : Tick) (ws : List Image) (h : Queries.getUsage orgID t db = .ok (u, ws)) :
    Hidden base o (logRefs u.counted) := by
  cases h
  refine hidden_map _ _ fun l hl => ?_
  obtain ⟨⟨k, v⟩, hm, hl⟩ := List.mem_filterMap.mp hl
  have hv := (db.mem_scan .mcpServerLog k v).mp hm
  simp only [Option.bind_eq_bind, Option.bind_eq_some_iff] at hl
  obtain ⟨dr, hdr, p, hp, u', hu', hl⟩ := hl
  cases hl
  obtain ⟨r, hr, hproj⟩ := (same_pointers hst hs).logs k v hv
  cases hr.symm.trans hdr
  have hp : p.organizationID = orgID := by
    by_contra hne
    simp [guard, hne] at hu'
  exact log_hidden hs k v hv (hproj ▸ project_hidden hs _ p ‹_› (by rw [hp]; exact ho))

/-- The summary of a project outside of the organization. -/
theorem projectSummary_ok (id : UUID) (hp : ¬ Belongs base o .project id)
    (ps : ProjectSummary) (h : Queries.collectExactlyOneRow
      ((db.row .project id).bind (Queries.summary db id)).toList = .ok ps) :
    Hidden base o (ProjectSummary.refs ps) ∧ ps.organization.name ≠ ov.name := by
  cases hrow : db.row .project id with
  | none => simp [hrow, Queries.collectExactlyOneRow] at h
  | some p =>
    cases hsum : Queries.summary db id p with
    | none => simp [hrow, hsum, Queries.collectExactlyOneRow] at h
    | some ps' =>
      simp only [hrow, hsum, Queries.collectExactlyOneRow, Option.bind_some, Option.toList_some,
        Except.ok.injEq] at h
      subst h
      have ho : p.organizationID ≠ o := (same_apart hst hs .project id).2 hp p hrow
      refine ⟨summary_hidden hst hs id p hrow ho ps' hsum, ?_⟩
      obtain ⟨org, horg, rfl⟩ := (Summaries.summary_some db id p ps').mp hsum
      obtain ⟨v, hv, rfl⟩ := Option.map_eq_some_iff.mp horg
      exact (same_apart hst hs .organization p.organizationID).2 ho v hv

theorem organizations_hidden (user : UserAccount) (hu : user.id = userID) (env : Env) (t : Tick)
    (orgs : List Organization)
    (ws : List Image) (h : Queries.getOrganizationsOfUser env user.id t db = .ok (orgs, ws)) :
    Hidden base o (orgs.map (fun org => ⟨.organization, org.id⟩)) := by
  cases h
  refine hidden_map _ _ fun org horg => ?_
  rw [List.mem_insertionSort] at horg
  obtain ⟨⟨k, v⟩, hm, horg⟩ := List.mem_filterMap.mp horg
  have hrow := (db.mem_scan _ _ _).mp hm
  simp only [Option.bind_eq_bind, Option.bind_eq_some_iff] at horg
  obtain ⟨u, hk, u', -, horg⟩ := horg
  have hk : k.2 = user.id := by
    by_contra hne
    simp [guard, hne] at hk
  obtain ⟨w, -, rfl⟩ := Option.map_eq_some_iff.mp horg
  refine member_foreign hst hs k.1 ?_
  rw [Queries.isMember, ← hu, ← hk, hrow]
  rfl

theorem projects_hidden (user : UserAccount) (hu : user.id = userID) (env : Env) (t : Tick)
    (ps : List Project)
    (ws : List Image) (h : Queries.getProjectsForUser env user.id t db = .ok (ps, ws)) :
    Hidden base o (ps.map (fun p => ⟨.project, p.id⟩)) := by
  cases h
  refine hidden_map _ _ fun p hp => ?_
  obtain ⟨x, hx, rfl⟩ := List.mem_map.mp hp
  rw [List.mem_insertionSort] at hx
  obtain ⟨⟨k, v⟩, hm, hx⟩ := List.mem_filterMap.mp hx
  have hrow := (db.mem_scan _ _ _).mp hm
  simp only [Option.bind_eq_bind, Option.bind_eq_some_iff] at hx
  obtain ⟨org, -, u, hmem, hx⟩ := hx
  cases hx
  have hmem : Queries.isMember db user.id v.organizationID = true := by
    by_contra hne
    simp [guard, hne] at hmem
  exact project_hidden hs k v hrow (member_foreign hst hs _ (hu ▸ hmem))

end Reads

end Jetski.Disclosure
