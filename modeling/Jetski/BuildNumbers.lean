import Jetski.SettingsRuns
import Jetski.Relational.Informed

/-!
# Build numbers

No build number is stored. A summary counts the revisions of its project, the
lists number them by their creation; both agree on the revision that a project
points to if it is the newest one. A revision is created at the start of its
transaction and the pointer is moved by the last commit, so it is the newest one
if the transactions that store revisions of a project commit in the order in
which they began.
-/

set_option autoImplicit false

namespace Jetski.BuildNumbers

open Relational Schema Jetski.Types Database Handlers Reachability Duties

/-! ## Numbered rows -/

def countOf (p : UUID) (rows : List (UUID × DeploymentRevisionRow)) : ℕ :=
  rows.countP (fun r => r.2.projectID = p)

/-- A row is counted before the later ones or among the projects seen before them. -/
theorem count_step (p : UUID) (r : UUID × DeploymentRevisionRow) (seen : List UUID)
    (before : List (UUID × DeploymentRevisionRow)) :
    (r.2.projectID::seen).count p+countOf p before = seen.count p+countOf p (r::before) := by
  by_cases h : r.2.projectID = p
  · simp only [countOf, List.count_cons, List.countP_cons, h, beq_self_eq_true, if_true,
      decide_true]
    omega
  · simp [countOf, h]

/-- A row is numbered by the rows of its project up to it. -/
theorem mem_rowNumbers (seen : List UUID) (rows : List (UUID × DeploymentRevisionRow))
    (dr : DeploymentRevision) : dr ∈ Queries.rowNumbers seen rows ↔
      ∃ before r after, rows = before++r::after ∧ dr = { r.2 with
        id := r.1
        buildNumber := seen.count r.2.projectID+countOf r.2.projectID before+1 } := by
  induction rows generalizing seen with
  | nil => simp [Queries.rowNumbers]
  | cons r rows ih =>
    rw [Queries.rowNumbers, List.mem_cons, ih]
    constructor
    · rintro (rfl | ⟨before, r', after, rfl, rfl⟩)
      · exact ⟨[], r, rows, rfl, by simp [countOf]⟩
      · exact ⟨r::before, r', after, rfl, by rw [count_step]⟩
    · rintro ⟨before, r', after, he, rfl⟩
      cases before with
      | nil =>
        cases he
        exact Or.inl (by simp [countOf])
      | cons r₀ before =>
        cases he
        exact Or.inr ⟨before, r', after, rfl, by rw [count_step]⟩

/-- The last row of a project is numbered by their count. -/
theorem countOf_last (rows before after : List (UUID × DeploymentRevisionRow))
    (r : UUID × DeploymentRevisionRow) (he : rows = before++r::after)
    (hafter : ∀ r' ∈ after, r'.2.projectID ≠ r.2.projectID) :
    countOf r.2.projectID rows = countOf r.2.projectID before+1 := by
  have hnone : countOf r.2.projectID after = 0 := by simpa [countOf] using hafter
  simp only [he, countOf, List.countP_append, List.countP_cons, decide_true, if_true] at hnone ⊢
  rw [hnone]

/-! ## Lists of revisions -/

section Lists
variable (db : Db) (q : ProjectRow → UUID → Bool)

def listedRows : List (UUID × DeploymentRevisionRow) :=
  ((db.scan .deploymentRevision).filter (fun r =>
    (db.row .project r.2.projectID).any (fun v => q v r.2.projectID) ∧
      (db.row .userAccount r.2.createdBy).isSome)).insertionSort
        (fun r r' => r.2.createdAt ≤ r'.2.createdAt)

theorem mem_listedRows (r : UUID × DeploymentRevisionRow) : r ∈ listedRows db q ↔
    db.row .deploymentRevision r.1 = some r.2 ∧
      (∃ v, db.row .project r.2.projectID = some v ∧ q v r.2.projectID = true) ∧
      (db.row .userAccount r.2.createdBy).isSome := by
  rw [listedRows, List.mem_insertionSort, List.mem_filter, Store.mem_scan, decide_eq_true_eq,
    Option.any_eq_true]

theorem listedRows_nodup : (listedRows db q).Nodup := by
  rw [listedRows, (List.perm_insertionSort _ _).nodup_iff]
  exact (db.scan_nodup _).filter _

theorem listedRows_sorted :
    (listedRows db q).Pairwise (fun r r' => r.2.createdAt ≤ r'.2.createdAt) := by
  have : Std.Total (fun r r' : UUID × DeploymentRevisionRow => r.2.createdAt ≤ r'.2.createdAt) :=
    ⟨fun r r' => le_total r.2.createdAt r'.2.createdAt⟩
  have : IsTrans _ (fun r r' : UUID × DeploymentRevisionRow => r.2.createdAt ≤ r'.2.createdAt) :=
    ⟨fun _ _ _ h h' => le_trans h h'⟩
  exact List.pairwise_insertionSort _ _

/-- A list numbers the rows that it has. -/
theorem mem_summaries (s : DeploymentRevisionSummary) (h : s ∈ Queries.revisionSummaries db q) :
    s.toDeploymentRevision ∈ Queries.rowNumbers [] (listedRows db q) := by
  rw [Queries.revisionSummaries, List.mem_insertionSort, List.mem_filterMap] at h
  obtain ⟨dr, hdr, he⟩ := h
  simp only [Option.bind_eq_bind, Option.bind_eq_some_iff, Option.pure_def, Option.some.injEq] at he
  obtain ⟨v, -, u, -, rfl⟩ := he
  exact hdr

theorem summary_listed (dr : DeploymentRevision)
    (h : dr ∈ Queries.rowNumbers [] (listedRows db q)) :
    ∃ s ∈ Queries.revisionSummaries db q, s.toDeploymentRevision = dr := by
  obtain ⟨before, r, after, he, hdr⟩ := (mem_rowNumbers _ _ _).mp h
  have hmem : r ∈ listedRows db q := by simp [he]
  obtain ⟨-, ⟨v, hv, -⟩, hu⟩ := (mem_listedRows db q r).mp hmem
  obtain ⟨u, hu⟩ := Option.isSome_iff_exists.mp hu
  have hv' : Queries.project db dr.projectID = some { v with id := dr.projectID } := by
    rw [hdr, Queries.project, hv]
    rfl
  have hu' : Queries.userAccount db dr.createdBy = some { u with id := dr.createdBy } := by
    rw [hdr, Queries.userAccount, hu]
    rfl
  refine ⟨{ dr with
    project := { v with id := dr.projectID }
    author := { u with id := dr.createdBy }
    projectLatestDeploymentRevisionEvent := do
      let id ← v.latestDeploymentRevisionEventID
      let e ← db.row .deploymentRevisionEvent id
      return { e with id := id } }, ?_, rfl⟩
  rw [Queries.revisionSummaries, List.mem_insertionSort, List.mem_filterMap]
  refine ⟨dr, h, ?_⟩
  simp only [hv', hu', Option.bind_eq_bind, Option.bind_some]
  rfl

end Lists

/-! ## Agreement -/

/-- The revision that a project points to is the newest one of the project. -/
def Newest (db : Db) : Prop :=
  ∀ p v d r, db.row .project p = some v → v.latestDeploymentRevisionID = some d →
    db.row .deploymentRevision d = some r → r.projectID = p →
      ∀ d' r', db.row .deploymentRevision d' = some r' → r'.projectID = p → d' ≠ d →
        r'.createdAt < r.createdAt

def Summarized (env : Env) (db : Db) (ps : ProjectSummary) : Prop :=
  (∃ p t ws, Queries.getProjectSummary p t db = .ok (ps, ws)) ∨
    ∃ orgID t pss ws, Queries.getProjectSummaries env orgID t db = .ok (pss, ws) ∧ ps ∈ pss

structure SameNumber (dr : DeploymentRevision) (rs : List DeploymentRevisionSummary) : Prop where
  listed : ∃ s ∈ rs, s.id = dr.id
  number : ∀ s ∈ rs, s.id = dr.id → s.buildNumber = dr.buildNumber

/-- Summaries and lists number the latest revision of every project alike. A list of
recent revisions need not reach back to it. -/
def NumbersAgree (env : Env) (db : Db) : Prop :=
  ∀ ps dr, Summarized env db ps → ps.latestDeploymentRevision = some dr →
    (∀ t rs ws, Queries.getDeploymentRevisionsForProject ps.id t db = .ok (rs, ws) →
      SameNumber dr rs) ∧
    ∀ orgID t rs ws, Queries.getRecentDeploymentRevisionSummaries orgID t db = .ok (rs, ws) →
      ∀ s ∈ rs, s.id = dr.id → s.buildNumber = dr.buildNumber

theorem summarized_latest (env : Env) (db : Db) (ps : ProjectSummary) (dr : DeploymentRevision)
    (h : Summarized env db ps) (hdr : ps.latestDeploymentRevision = some dr) :
    ∃ v, db.row .project ps.id = some v ∧ v.latestDeploymentRevisionID = some dr.id ∧
      dr.buildNumber = countOf ps.id (db.scan .deploymentRevision) := by
  have hrow : ∃ v, db.row .project ps.id = some v ∧ Queries.summary db ps.id v = some ps := by
    rcases h with ⟨p, t, ws, h⟩ | ⟨orgID, t, pss, ws, h, hps⟩
    · simp only [Queries.getProjectSummary, Queries.select] at h
      cases hv : db.row .project p with
      | none =>
        rw [hv] at h
        cases h
      | some v =>
        cases hs : Queries.summary db p v with
        | none =>
          rw [hv, Option.bind_some, hs] at h
          cases h
        | some ps' =>
          rw [hv, Option.bind_some, hs] at h
          cases h
          obtain ⟨o, -, rfl⟩ := (Summaries.summary_some db p v ps).mp hs
          exact ⟨v, hv, hs⟩
    · cases h
      obtain ⟨id, v, hv, -, hs⟩ := (Summaries.mem_projectSummaries env db orgID ps).mp hps
      obtain ⟨o, -, rfl⟩ := (Summaries.summary_some db id v ps).mp hs
      exact ⟨v, hv, hs⟩
  obtain ⟨v, hv, hs⟩ := hrow
  obtain ⟨o, -, he⟩ := (Summaries.summary_some db ps.id v ps).mp hs
  have hlatest : Queries.latestRevision db ps.id v = some dr := by
    rw [he] at hdr
    exact hdr
  simp only [Queries.latestRevision, Option.bind_eq_bind, Option.bind_eq_some_iff, Option.pure_def,
    Option.some.injEq] at hlatest
  obtain ⟨d, hd, r, -, rfl⟩ := hlatest
  exact ⟨v, hv, hd, rfl⟩

section Ranks
variable (db : Db) (hc : Consistent db) (q : ProjectRow → UUID → Bool) (p : UUID) (v : ProjectRow)
variable (hv : db.row .project p = some v) (hq : q v p = true)
include hc hv hq

/-- A list that shows a project has all of its revisions. -/
theorem countOf_listed :
    countOf p (listedRows db q) = countOf p (db.scan .deploymentRevision) := by
  rw [listedRows, countOf, (List.perm_insertionSort _ _).countP_eq, List.countP_filter]
  refine List.countP_congr fun r hr => ?_
  have hrow := (db.mem_scan .deploymentRevision r.1 r.2).mp hr
  have huser : (db.row .userAccount r.2.createdBy).isSome = true :=
    Option.isSome_iff_exists.mpr
      (hc.sound.parent revisionCreatedBy (by simp [schema, foreignKeys]) r.1 r.2 _ hrow rfl)
  by_cases hp : r.2.projectID = p
  · simp [hp, hv, hq, huser]
  · simp [hp]

/-- The newest revision of a project has the number of its revisions. -/
theorem number_newest (hn : Newest db) (dr : DeploymentRevision)
    (hd : v.latestDeploymentRevisionID = some dr.id)
    (h : dr ∈ Queries.rowNumbers [] (listedRows db q)) :
    dr.buildNumber = countOf p (db.scan .deploymentRevision) := by
  obtain ⟨before, r, after, he, hdr⟩ := (mem_rowNumbers _ _ _).mp h
  have hid : dr.id = r.1 := by rw [hdr]
  obtain ⟨hrow, -, -⟩ := (mem_listedRows db q r).mp (by simp [he])
  obtain ⟨r₀, hr₀, hp⟩ := hc.revisions p v dr.id hv hd
  have hr : r.2.projectID = p := by
    rw [hid, hrow] at hr₀
    cases hr₀
    exact hp
  have hafter : ∀ r' ∈ after, r'.2.projectID ≠ r.2.projectID := by
    intro r' hr' hsame
    have hmem : r' ∈ listedRows db q := by simp [he, hr']
    have hrow' := ((mem_listedRows db q r').mp hmem).1
    have hsorted := listedRows_sorted db q
    rw [he, List.pairwise_append] at hsorted
    have hle : r.2.createdAt ≤ r'.2.createdAt :=
      (List.pairwise_cons.mp hsorted.2.1).1 r' hr'
    by_cases hkey : r'.1 = r.1
    · have hnodup := listedRows_nodup db q
      rw [he, List.nodup_append] at hnodup
      have heq : r' = r := by
        refine Prod.ext hkey ?_
        rw [hkey, hrow] at hrow'
        exact (Option.some.inj hrow').symm
      exact (List.nodup_cons.mp hnodup.2.1).1 (heq ▸ hr')
    · have hlt := hn p v r.1 r.2 hv (hid ▸ hd) hrow hr r'.1 r'.2 hrow' (hsame.trans hr) hkey
      exact absurd hlt (not_lt.mpr hle)
  have hlast := countOf_last _ before after r he hafter
  rw [hr, countOf_listed db hc q p v hv hq] at hlast
  rw [hdr, hlast, hr]
  simp

/-- A list that shows a project has its latest revision. -/
theorem latest_listed (d : UUID) (hd : v.latestDeploymentRevisionID = some d) :
    ∃ dr ∈ Queries.rowNumbers [] (listedRows db q), dr.id = d := by
  obtain ⟨r, hr, hp⟩ := hc.revisions p v d hv hd
  have huser : (db.row .userAccount r.createdBy).isSome = true :=
    Option.isSome_iff_exists.mpr
      (hc.sound.parent revisionCreatedBy (by simp [schema, foreignKeys]) d r _ hr rfl)
  have hmem : (d, r) ∈ listedRows db q := by
    refine (mem_listedRows db q (d, r)).mpr ⟨hr, ⟨v, ?_, ?_⟩, huser⟩
    · rw [hp]
      exact hv
    · rw [hp]
      exact hq
  obtain ⟨before, after, he⟩ := List.append_of_mem hmem
  exact ⟨_, (mem_rowNumbers _ _ _).mpr ⟨before, (d, r), after, he, rfl⟩, rfl⟩

end Ranks

theorem newest_agree (env : Env) (db : Db) (hc : Consistent db) (hn : Newest db) :
    NumbersAgree env db := by
  intro ps dr hps hdr
  obtain ⟨v, hv, hd, hcount⟩ := summarized_latest env db ps dr hps hdr
  constructor
  · intro t rs ws h
    cases h
    constructor
    · obtain ⟨dr', hdr', hid⟩ := latest_listed db hc (fun _ id => id = ps.id) ps.id v hv (by simp)
        dr.id hd
      obtain ⟨s, hs, rfl⟩ := summary_listed db _ dr' hdr'
      exact ⟨s, hs, hid⟩
    · intro s hs hid
      have hnumber := number_newest db hc _ ps.id v hv (by simp) hn s.toDeploymentRevision
        (by rw [hid]; exact hd) (mem_summaries db _ s hs)
      exact hnumber.trans hcount.symm
  · intro orgID t rs ws h s hs hid
    cases h
    have hnumbered := mem_summaries db _ s (List.mem_of_mem_take hs)
    obtain ⟨before, r, after, he, hs'⟩ := (mem_rowNumbers _ _ _).mp hnumbered
    have hmem : r ∈ listedRows db (fun v _ => v.organizationID = orgID) := by simp [he]
    obtain ⟨hrow, ⟨v', hv', hq⟩, -⟩ := (mem_listedRows db _ r).mp hmem
    have hkey : dr.id = r.1 := by
      rw [← hid]
      exact congrArg DeploymentRevision.id hs'
    obtain ⟨r', hr', hp⟩ := hc.revisions ps.id v dr.id hv hd
    rw [hkey, hrow] at hr'
    cases hr'
    rw [hp, hv] at hv'
    cases hv'
    have hnumber := number_newest db hc _ ps.id v hv hq hn s.toDeploymentRevision
      (by rw [hid]; exact hd) hnumbered
    exact hnumber.trans hcount.symm

end Jetski.BuildNumbers
