import Jetski.Handlers
import Jetski.GatewayConfig

/-!
# Periods of logs

The analytics compare the logs since a start time with those of a period of
equal length before it. Both are split out of one list: the first million logs
of the project in ascending order, which is only there if each of them can be
decoded. What is left behind by the limit are the newest logs, so both periods
are complete exactly if the limit is not exceeded or everything is older than
both.
-/

set_option autoImplicit false

namespace Jetski.Periods

open Relational Schema Jetski.Types Database Handlers Analytics

/-! ## A limit on an ordered list -/

section Limit
variable {α : Type} (key : α → ℤ) (lo : ℤ) (n : ℕ)

/-- The limit keeps all late elements exactly if it drops nothing or nothing is late. -/
theorem take_late_iff (xs : List α) (hs : xs.Pairwise (fun x x' => key x ≤ key x'))
    (hn : xs.Nodup) : (∀ x ∈ xs, lo ≤ key x → x ∈ xs.take n) ↔
      xs.length ≤ n ∨ ∀ x ∈ xs, key x < lo := by
  constructor
  · intro hkept
    by_contra hno
    rw [not_or, not_le] at hno
    obtain ⟨hlen, hlate⟩ := hno
    -- some element is late, hence so is the last one, which is dropped
    have hlast : xs.drop n ≠ [] := by
      intro hnil
      have := List.drop_eq_nil_iff.mp hnil
      omega
    obtain ⟨last, hmem⟩ := List.exists_mem_of_ne_nil _ hlast
    rw [← List.take_append_drop n xs] at hs hn
    obtain ⟨-, -, hbetween⟩ := List.pairwise_append.mp hs
    obtain ⟨-, -, hdisjoint⟩ := List.nodup_append.mp hn
    apply hlate
    intro x hx
    by_contra hle
    rw [not_lt] at hle
    have hkeptx := hkept x hx hle
    have hlastlate := hle.trans (hbetween x hkeptx last hmem)
    have hlastkept := hkept last (List.mem_of_mem_drop hmem) hlastlate
    exact hdisjoint last hlastkept last hmem rfl
  · rintro (hlen | hearly) x hx hle
    · rwa [List.take_of_length_le hlen]
    · exact absurd hle (not_le.mpr (hearly x hx))

end Limit

/-! ## Lists of logs -/

/-- The log is a stored one of the project, as it is decoded. -/
def Stored (env : Env) (db : Db) (projectID : UUID) (l : MCPServerLog) : Prop :=
  ∃ v, db.row .mcpServerLog l.id = some v ∧ v.projectID = projectID ∧
    Logs.scanLog env (l.id, v) = .ok l

/-- The list has exactly the logs of the project at the given times, each of
them once and in ascending order. -/
structure Lists (env : Env) (db : Db) (projectID : UUID) (p : Time → Prop)
    (logs : List MCPServerLog) : Prop where
  ascending : logs.Pairwise (fun l l' => l.startedAt ≤ l'.startedAt)
  once : (logs.map (fun l => l.id)).Nodup
  stored : ∀ l ∈ logs, Stored env db projectID l ∧ p l.startedAt
  complete : ∀ k v, db.row .mcpServerLog k = some v → v.projectID = projectID →
    p v.startedAt → ∃ l ∈ logs, l.id = k

/-- Both periods are complete. They have no log in common, because no time is
in both. -/
def Compares (env : Env) (db : Db) (now : Time) (projectID : UUID) (startAt : Time)
    (r : Except DbError (List MCPServerLog × List MCPServerLog)) : Prop :=
  ∃ current previous, r = .ok (current, previous) ∧
    Lists env db projectID (fun t => startAt ≤ t) current ∧
    Lists env db projectID (fun t => startAt-(now-startAt) ≤ t ∧ t < startAt) previous

section Project
variable (env : Env) (db : Db) (projectID : UUID)

def ascendingRows : List (UUID × MCPServerLogRow) :=
  (Logs.projectLogs env db projectID none none).insertionSort
    (fun l l' => Logs.ordered .asc (Logs.logLe "started_at") l.2 l'.2)

theorem mem_ascendingRows (l : UUID × MCPServerLogRow) : l ∈ ascendingRows env db projectID ↔
    db.row .mcpServerLog l.1 = some l.2 ∧ l.2.projectID = projectID := by
  rw [ascendingRows, List.mem_insertionSort, Logs.projectLogs, (env.arrange_perm _).mem_iff,
    List.mem_filter, ← db.mem_scan]
  simp

theorem ascendingRows_nodup : (ascendingRows env db projectID).Nodup := by
  rw [ascendingRows, (List.perm_insertionSort _ _).nodup_iff, Logs.projectLogs,
    (env.arrange_perm _).nodup_iff]
  exact (db.scan_nodup .mcpServerLog).filter _

theorem ascendingRows_ids : ((ascendingRows env db projectID).map Prod.fst).Nodup := by
  apply (ascendingRows_nodup env db projectID).map_on
  intro l hl l' hl' hid
  have hrow := ((mem_ascendingRows env db projectID l).mp hl).1
  have hrow' := ((mem_ascendingRows env db projectID l').mp hl').1
  rw [← hid, hrow] at hrow'
  exact Prod.ext hid (Option.some.inj hrow')

theorem ascendingRows_sorted :
    (ascendingRows env db projectID).Pairwise (fun l l' => l.2.startedAt ≤ l'.2.startedAt) := by
  have hle : ascendingRows env db projectID =
      (Logs.projectLogs env db projectID none none).insertionSort
      (fun l l' => l.2.startedAt ≤ l'.2.startedAt) := by
    rw [ascendingRows]
    congr 1
    funext l l'
    exact propext decide_eq_true_iff
  have htotal : Std.Total (fun l l' : UUID × MCPServerLogRow => l.2.startedAt ≤ l'.2.startedAt) :=
    ⟨fun l l' => le_total l.2.startedAt l'.2.startedAt⟩
  have htrans : IsTrans (UUID × MCPServerLogRow) (fun l l' => l.2.startedAt ≤ l'.2.startedAt) :=
    ⟨fun _ _ _ => le_trans⟩
  rw [hle]
  exact List.pairwise_insertionSort _ _

theorem ascendingRows_length : (ascendingRows env db projectID).length =
    ((db.scan .mcpServerLog).filter (fun l => l.2.projectID = projectID)).length := by
  rw [ascendingRows, (List.perm_insertionSort _ _).length_eq, Logs.projectLogs,
    (env.arrange_perm _).length_eq]
  simp

def fetchedRows : List (UUID × MCPServerLogRow) := (ascendingRows env db projectID).take 1000000

def AllReadable : Prop :=
  ∀ l ∈ fetchedRows env db projectID, Logs.Readable env l.2.toMCPServerLogRow5

theorem getLogsForProject_ascending (t : Tick) :
    Logs.getLogsForProject env projectID ⟨1000000, 0⟩ ⟨"started_at", .asc⟩ none none t db =
      (Logs.collectRows (Logs.scanLog env) (fetchedRows env db projectID)).map
        (fun ls => (ls, [])) := by
  have hpage : ∀ rows : List (UUID × MCPServerLogRow),
      Logs.page 1000000 (1000000*0) rows = .ok (rows.take 1000000) := by
    intro rows
    have hoffset : ¬ (1000000*0 : Int64) < 0 := by decide
    have hzero : (1000000*0 : Int64).toNatClampNeg = 0 := by decide
    have hcount : (1000000 : Int64).toNatClampNeg = 1000000 := by decide
    rw [Logs.page, if_neg hoffset, hzero, hcount, List.drop_zero]
  simp only [Logs.getLogsForProject, Queries.select, Logs.storableText, Option.all_none, if_true]
  rw [hpage]
  rfl

theorem stored_logOf (l : UUID × MCPServerLogRow) (hl : l ∈ ascendingRows env db projectID)
    (hread : Logs.Readable env l.2.toMCPServerLogRow5) :
    Stored env db projectID (Logs.logOf env l) := by
  obtain ⟨hrow, hproject⟩ := (mem_ascendingRows env db projectID l).mp hl
  exact ⟨l.2, hrow, hproject, (Logs.scanLog_iff env l _).mpr ⟨hread, rfl⟩⟩

/-- Every late row is among those fetched. -/
def Fetched (lo : Time) : Prop :=
  ∀ l ∈ ascendingRows env db projectID, lo ≤ l.2.startedAt → l ∈ fetchedRows env db projectID

/-- A row whose key is among those fetched is fetched itself. -/
theorem mem_fetchedRows (l l' : UUID × MCPServerLogRow) (hl : l ∈ ascendingRows env db projectID)
    (hl' : l' ∈ fetchedRows env db projectID) (hid : l'.1 = l.1) :
    l ∈ fetchedRows env db projectID := by
  have hrow := ((mem_ascendingRows env db projectID l).mp hl).1
  have hrow' := ((mem_ascendingRows env db projectID l').mp (List.mem_of_mem_take hl')).1
  rw [hid, hrow] at hrow'
  have hsame : l' = l := Prod.ext hid (Option.some.inj hrow').symm
  exact hsame ▸ hl'

theorem lists_filter (p : Time → Prop) [DecidablePred p]
    (hread : AllReadable env db projectID)
    (h : ∀ l ∈ ascendingRows env db projectID, p l.2.startedAt →
      l ∈ fetchedRows env db projectID) :
    Lists env db projectID p (((fetchedRows env db projectID).map (Logs.logOf env)).filter
      (fun l => p l.startedAt)) where
  ascending := by
    apply List.Pairwise.filter
    rw [List.pairwise_map]
    exact (ascendingRows_sorted env db projectID).sublist (List.take_sublist _ _)
  once := by
    apply List.Nodup.sublist (List.filter_sublist.map _)
    rw [List.map_map]
    exact (ascendingRows_ids env db projectID).sublist ((List.take_sublist _ _).map _)
  stored l hl := by
    rw [List.mem_filter, decide_eq_true_eq, List.mem_map] at hl
    obtain ⟨⟨x, hx, rfl⟩, hp⟩ := hl
    exact ⟨stored_logOf env db projectID x (List.mem_of_mem_take hx) (hread x hx), hp⟩
  complete k v hv hproject hp := by
    have hmem := (mem_ascendingRows env db projectID (k, v)).mpr ⟨hv, hproject⟩
    refine ⟨Logs.logOf env (k, v), ?_, rfl⟩
    rw [List.mem_filter, decide_eq_true_eq]
    exact ⟨List.mem_map.mpr ⟨_, h _ hmem hp, rfl⟩, hp⟩

theorem toInt_neg_nonneg (d : Duration) (h : 0 ≤ d.toInt) : (-d).toInt = -d.toInt := by
  have hlt := d.toInt_lt
  rw [Int64.toInt_neg, Int.bmod_eq_of_le (by omega) (by omega)]

/-- The split is complete exactly if all logs since the start of the earlier
period were fetched. -/
theorem compares_fetched_iff (now startAt : Time) (hstart : startAt ≤ now)
    (hrange : now-startAt < 2^63) (hread : AllReadable env db projectID) :
    Compares env db now projectID startAt (.ok (splitPeriods now startAt
      ((fetchedRows env db projectID).map (Logs.logOf env)))) ↔
      Fetched env db projectID (startAt-(now-startAt)) := by
  have hlength : (timeSub now startAt).toInt = now-startAt := by
    have hmax : Int64.maxValue.toInt = 2^63-1 := by decide
    have hmin : Int64.minValue.toInt = -2^63 := by decide
    have hin : max Int64.minValue.toInt (min Int64.maxValue.toInt (now-startAt)) = now-startAt := by
      rw [hmax, hmin, min_eq_right (Int.le_sub_one_of_lt hrange), max_eq_right]
      exact le_trans (by decide) (sub_nonneg.mpr hstart)
    rw [timeSub, hin]
    exact Int64.toInt_ofInt_of_le (le_trans (by decide) (sub_nonneg.mpr hstart)) hrange
  have hback : startAt+(-timeSub now startAt).toInt = startAt-(now-startAt) := by
    have hnonneg : 0 ≤ (timeSub now startAt).toInt := hlength ▸ sub_nonneg.mpr hstart
    rw [toInt_neg_nonneg _ hnonneg, hlength]
    exact (sub_eq_add_neg _ _).symm
  rw [splitPeriods, hback]
  constructor
  · rintro ⟨current, previous, hsplit, hcurrent, hprevious⟩ l hl hlate
    cases hsplit
    obtain ⟨hrow, hproject⟩ := (mem_ascendingRows env db projectID l).mp hl
    have hfetched : ∃ log ∈ (fetchedRows env db projectID).map (Logs.logOf env),
        log.id = l.1 := by
      by_cases hs : startAt ≤ l.2.startedAt
      · obtain ⟨log, hlog, hid⟩ := hcurrent.complete l.1 l.2 hrow hproject hs
        exact ⟨log, List.mem_of_mem_filter hlog, hid⟩
      · obtain ⟨log, hlog, hid⟩ := hprevious.complete l.1 l.2 hrow hproject ⟨hlate, not_le.mp hs⟩
        exact ⟨log, List.mem_of_mem_filter hlog, hid⟩
    obtain ⟨log, hlog, hid⟩ := hfetched
    obtain ⟨l', hl', rfl⟩ := List.mem_map.mp hlog
    exact mem_fetchedRows env db projectID l l' hl hl' hid
  · intro h
    refine ⟨_, _, rfl, ?_, ?_⟩
    · have hearlier : startAt-(now-startAt) ≤ startAt := sub_le_self _ (sub_nonneg.mpr hstart)
      exact lists_filter env db projectID (fun t => startAt ≤ t) hread
        fun l hl hs => h l hl (hearlier.trans hs)
    · have hcomm : ∀ l : MCPServerLog, (decide (l.startedAt < startAt ∧
          startAt-(now-startAt) ≤ l.startedAt)) = decide (startAt-(now-startAt) ≤ l.startedAt ∧
            l.startedAt < startAt) := fun l => decide_eq_decide.mpr and_comm
      simp only [hcomm]
      exact lists_filter env db projectID (fun t => startAt-(now-startAt) ≤ t ∧ t < startAt) hread
        fun l hl hp => h l hl hp.1

end Project

section Run
variable {σ : Type} (env : Env) (i : σ) (srv : Srv σ) (now : Time) (projectID : UUID)
  (startAt : Time)

def comparison : Except DbError (List MCPServerLog × List MCPServerLog) :=
  ((getAllLogsWithComparison env .pool now projectID startAt).run backend i (fun _ => false) srv
    {}).1

theorem comparison_eq : comparison env i srv now projectID startAt =
    (Logs.collectRows (Logs.scanLog env) (fetchedRows env srv.db projectID)).map
      (splitPeriods now startAt) := by
  have hview : ({} : Ses).visible srv .pool = srv.db := rfl
  rw [comparison, getAllLogsWithComparison]
  simp only [Database.getLogsForProject, query, Action.lift, Prog.bind_eq, Prog.bind_act,
    Prog.bind_ret, Prog.run, Action.exec, hview, getLogsForProject_ascending]
  cases Logs.collectRows (Logs.scanLog env) (fetchedRows env srv.db projectID) <;> rfl

/-- For every start up to 292 years ago a comparison is complete exactly if the
logs up to the limit can be decoded, and the project has no more than a million
logs or all of them are before both periods. -/
theorem comparison_iff (hstart : startAt ≤ now) (hrange : now-startAt < 2^63) :
    Compares env srv.db now projectID startAt (comparison env i srv now projectID startAt) ↔
      AllReadable env srv.db projectID ∧
        (((srv.db.scan .mcpServerLog).filter (fun l => l.2.projectID = projectID)).length ≤
          1000000 ∨ ∀ k v, srv.db.row .mcpServerLog k = some v → v.projectID = projectID →
            v.startedAt < startAt-(now-startAt)) := by
  rw [comparison_eq]
  by_cases hread : AllReadable env srv.db projectID
  · have hfetched := compares_fetched_iff env srv.db projectID now startAt hstart hrange hread
    rw [Logs.collectLogs_ok env _ hread, Except.map, hfetched, Fetched, fetchedRows,
      take_late_iff (fun l : UUID × MCPServerLogRow => l.2.startedAt) _ _ _
        (ascendingRows_sorted env srv.db projectID) (ascendingRows_nodup env srv.db projectID),
      ascendingRows_length]
    simp only [Prod.forall, mem_ascendingRows, and_imp, hread, true_and]
  · refine iff_of_false ?_ fun h => hread h.1
    rintro ⟨current, previous, hr, -, -⟩
    cases hlogs : Logs.collectRows (Logs.scanLog env) (fetchedRows env srv.db projectID) with
    | error e =>
      rw [hlogs] at hr
      cases hr
    | ok logs => exact hread ((Logs.collectLogs_iff env _ logs).mp hlogs).1

end Run

/-! ## A project with many logs -/

def demoLog : MCPServerLogRow where
  userAccountID := some 2
  mcpSessionID := some "s1"
  startedAt := 5000
  duration := 1000
  deploymentRevisionID := 5
  authTokenDigest := none
  mcpRequest := none
  mcpResponse := none
  userAgent := some "cursor"
  httpStatusCode := some 200
  httpError := none
  projectID := 3

def logged (n : ℕ) : Db := GatewayConfig.demoDb.replay
  ((List.range n).map (fun k => ⟨.mcpServerLog, 10+k, some demoLog⟩))

def loggedServer (n : ℕ) : Srv Unit where
  db := logged n
  next := 10+n
  ext _ := none

theorem logged_succ (n : ℕ) :
    logged (n+1) = (logged n).set .mcpServerLog (10+n) (some demoLog) := by
  rw [logged, List.range_succ, List.map_append, Store.replay_append]
  rfl

theorem logged_row (n k : ℕ) (h : k < n) :
    (logged n).row .mcpServerLog (10+k) = some demoLog := by
  induction n with
  | zero => omega
  | succ n ih =>
    rw [logged_succ]
    by_cases hk : k = n
    · rw [hk, Store.set_same]
    · have hne : 10+k ≠ 10+n := by omega
      rw [Store.set_key _ _ _ _ _ hne]
      exact ih (by omega)

theorem logged_other (n : ℕ) (k : UUID) (v : MCPServerLogRow)
    (h : (logged n).row .mcpServerLog k = some v) : v = demoLog := by
  induction n with
  | zero => cases h
  | succ n ih =>
    rw [logged_succ] at h
    by_cases hk : k = 10+n
    · rw [hk, Store.set_same] at h
      exact (Option.some.inj h).symm
    · rw [Store.set_key _ _ _ _ _ hk] at h
      exact ih h

/-- The logs have no requests and responses. -/
theorem logged_readable (n : ℕ) : AllReadable Env.demo (logged n) 3 := by
  intro l hl
  have hrow := ((mem_ascendingRows Env.demo (logged n) 3 l).mp (List.mem_of_mem_take hl)).1
  rw [logged_other n l.1 l.2 hrow]
  exact ⟨rfl, rfl⟩

theorem logged_length (n : ℕ) :
    n ≤ (((logged n).scan .mcpServerLog).filter (fun l => l.2.projectID = 3)).length := by
  have hnodup :
      ((List.range n).map (fun k => ((10+k, demoLog) : UUID × MCPServerLogRow))).Nodup := by
    apply List.nodup_range.map
    intro k k' h
    exact Nat.add_left_cancel (Prod.mk.inj h).1
  have hsub : ∀ l ∈ (List.range n).map (fun k => ((10+k, demoLog) : UUID × MCPServerLogRow)),
      l ∈ ((logged n).scan .mcpServerLog).filter (fun l => l.2.projectID = 3) := by
    intro l hl
    obtain ⟨k, hk, rfl⟩ := List.mem_map.mp hl
    rw [List.mem_filter]
    exact ⟨((logged n).mem_scan .mcpServerLog _ _).mpr (logged_row n k (List.mem_range.mp hk)), rfl⟩
  have hlength := (List.subperm_of_subset hnodup hsub).length_le
  rwa [List.length_map, List.length_range] at hlength

/-- Two logs are compared without loss. -/
theorem comparison_iff_demo :
    Compares Env.demo (logged 2) 9000 3 3000
      (comparison Env.demo () (loggedServer 2) 9000 3 3000) :=
  (comparison_iff Env.demo () (loggedServer 2) 9000 3 3000 (by decide) (by decide)).mpr
    ⟨logged_readable 2, Or.inl (by decide)⟩

theorem logged_dropped (n : ℕ) (hn : 1000000 < n) : ¬ Compares Env.demo (logged n) 9000 3 3000
    (comparison Env.demo () (loggedServer n) 9000 3 3000) := by
  rw [comparison_eq, loggedServer, Logs.collectLogs_ok _ _ (logged_readable n), Except.map,
    compares_fetched_iff Env.demo (logged n) 3 9000 3000 (by decide) (by decide)
      (logged_readable n), Fetched, fetchedRows, take_late_iff
    (fun l : UUID × MCPServerLogRow => l.2.startedAt)
      _ _ _ (ascendingRows_sorted Env.demo _ 3) (ascendingRows_nodup Env.demo _ 3),
    ascendingRows_length]
  rintro (hlength | hearly)
  · have := logged_length n
    omega
  · have hrow := logged_row n 0 (by omega)
    have hmem := (mem_ascendingRows Env.demo (logged n) 3 (10+0, demoLog)).mpr ⟨hrow, rfl⟩
    exact absurd (hearly _ hmem) (by decide)

/-- One log more than the limit: a current log is missing. -/
theorem newest_dropped : ¬ Compares Env.demo (logged 1000001) 9000 3 3000
    (comparison Env.demo () (loggedServer 1000001) 9000 3 3000) :=
  logged_dropped 1000001 (by decide)

end Jetski.Periods
