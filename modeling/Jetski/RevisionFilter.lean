import Jetski.BuildNumbers
import Jetski.Existence
import Jetski.Periods
import Jetski.RecentSessions

/-!
# Analytics of one revision

The dashboard sends the build number that is selected along with the start of
the period. The handler reads the start only and the query of the logs knows no
revision, so the figures of one revision are those of all. They are withheld if a
log cannot be decoded or a time of a session cannot be encoded.
-/

set_option autoImplicit false

namespace Jetski.RevisionFilter

open Relational Schema Jetski.Types Database Handlers Analytics Periods Existence

/-! ## Query parameters -/

/-- A number of the browser that is an integer and prints all of its digits. -/
structure SafeInteger where
  value : ℤ
  lower : -2^53 < value
  upper : value < 2^53

def analyticsParams (startedAt buildNumber : Option SafeInteger) : List (String × String) :=
  (startedAt.map (fun n => ("startedAt", toString n.value))).toList++
    (buildNumber.map (fun n => ("buildNumber", toString n.value))).toList

/-- `url.Values.Get` -/
def get (query : List (String × String)) (key : String) : String :=
  (query.lookup key).getD ""

def trimSign : List Char → Bool × List Char
  | [] => (false, [])
  | c::s => if c = '-' then (true, s) else if c = '+' then (false, s) else (false, c::s)

def parseDigits (s : List Char) : Option ℕ :=
  if s ≠ [] ∧ s.all Char.isDigit then some (Nat.ofDigitChars 10 s 0) else none

def inRange (n : ℤ) : Option Int64 :=
  if Int64.minValue.toInt ≤ n ∧ n ≤ Int64.maxValue.toInt then some (Int64.ofInt n) else none

/-- `strconv.ParseInt` in base 10 with 64 bits. -/
def parseInt (s : String) : Option Int64 :=
  let (neg, digits) := trimSign s.toList
  (parseDigits digits).bind (fun n => inRange (if neg then -n else n))

/-- The start time as the handler reads it from the query. -/
def startedAtParam (query : List (String × String)) : Param Int64 :=
  let startAtStr := get query "startedAt"
  if startAtStr = "" then .absent
  else
    match parseInt startAtStr with
    | none => .invalid
    | some startAtInt => .value startAtInt

theorem toDigits_digits (n : ℕ) : ∀ c ∈ Nat.toDigits 10 n, c.isDigit = true :=
  fun _ hc => Nat.isDigit_of_mem_toDigits (by decide) (by decide) hc

theorem parseDigits_toDigits (n : ℕ) : parseDigits (Nat.toDigits 10 n) = some n := by
  have hdigits := List.all_eq_true.mpr (toDigits_digits n)
  rw [parseDigits, if_pos ⟨Nat.toDigits_ne_nil, hdigits⟩, Nat.ofDigitChars_toDigits (by decide)]
  simp

theorem trimSign_digits (s : List Char) (h : ∀ c ∈ s, c.isDigit = true) :
    trimSign s = (false, s) := by
  cases s with
  | nil => rfl
  | cons c s =>
    have hc := h c List.mem_cons_self
    have hminus : c ≠ '-' := by
      rintro rfl
      exact absurd hc (by decide)
    have hplus : c ≠ '+' := by
      rintro rfl
      exact absurd hc (by decide)
    rw [trimSign, if_neg hminus, if_neg hplus]

theorem parseInt_trimmed (s : String) (neg : Bool) (n : ℕ)
    (h : trimSign s.toList = (neg, Nat.toDigits 10 n)) :
    parseInt s = inRange (if neg then -n else n) := by
  simp only [parseInt, h, parseDigits_toDigits, Option.bind_some]

/-- A number is read back as it was printed. -/
theorem parseInt_toString (n : ℤ) : parseInt (toString n) = inRange n := by
  cases n with
  | ofNat n =>
    have hlist : (toString (n : ℤ)).toList = Nat.toDigits 10 n := Nat.toList_repr
    have hsign : trimSign (toString (n : ℤ)).toList = (false, Nat.toDigits 10 n) := by
      rw [hlist, trimSign_digits _ (toDigits_digits n)]
    exact parseInt_trimmed _ false n hsign
  | negSucc n =>
    have hlist : (toString (Int.negSucc n)).toList = '-'::Nat.toDigits 10 (n+1) := by
      rw [Int.toString_eq_repr, Int.repr, String.toList_append, Nat.toList_repr]
      rfl
    have hsign : trimSign (toString (Int.negSucc n)).toList = (true, Nat.toDigits 10 (n+1)) := by
      rw [hlist, trimSign, if_pos rfl]
    exact parseInt_trimmed _ true (n+1) hsign

theorem SafeInteger.toInt_ofInt (n : SafeInteger) : (Int64.ofInt n.value).toInt = n.value := by
  have hlower := n.lower
  have hupper := n.upper
  exact Int64.toInt_ofInt_of_le (by omega) (by omega)

/-- The start travels through the query, and nothing else does. -/
theorem startedAtParam_params (startedAt buildNumber : Option SafeInteger) :
    startedAtParam (analyticsParams startedAt buildNumber) =
      startedAt.elim .absent (fun n => .value (Int64.ofInt n.value)) := by
  cases startedAt with
  | none =>
    have hget : get (analyticsParams none buildNumber) "startedAt" = "" := by
      cases buildNumber <;> rfl
    simp only [startedAtParam, hget, if_true, Option.elim_none]
  | some n =>
    have hget : get (analyticsParams (some n) buildNumber) "startedAt" = toString n.value := rfl
    have hparse : parseInt (toString n.value) = some (Int64.ofInt n.value) := by
      have hmin : Int64.minValue.toInt = -2^63 := by decide
      have hmax : Int64.maxValue.toInt = 2^63-1 := by decide
      have hlower := n.lower
      have hupper := n.upper
      rw [parseInt_toString, inRange, if_pos]
      omega
    have hne : toString n.value ≠ "" := by
      intro h
      have hnone : parseInt "" = none := by decide
      rw [h, hnone] at hparse
      cases hparse
    simp only [startedAtParam, hget, if_neg hne, hparse, Option.elim_some]

/-! ## Responses -/

def dashboardAnalytics (env : Env) (user : UserAccount) (rt : Runtime) (now : Time)
    (projectID : UUID) (startedAt buildNumber : Option SafeInteger) : Api Unit :=
  getAnalytics env user rt now (.value projectID)
    (startedAtParam (analyticsParams startedAt buildNumber))

/-- The selected build number changes nothing. -/
theorem dashboardAnalytics_ignores (env : Env) (user : UserAccount) (rt : Runtime) (now : Time)
    (projectID : UUID) (startedAt buildNumber : Option SafeInteger) :
    dashboardAnalytics env user rt now projectID startedAt buildNumber =
      dashboardAnalytics env user rt now projectID startedAt none := by
  rw [dashboardAnalytics, dashboardAnalytics, startedAtParam_params, startedAtParam_params]

def periodStart (startedAt : Option SafeInteger) : Time :=
  startedAt.elim zeroTime (fun n => n.value*1000000000)

/-- The seconds of the dashboard do not wrap. -/
theorem unix_ofInt (n : SafeInteger) : unix (Int64.ofInt n.value) = n.value*1000000000 := by
  have hlower := n.lower
  have hupper := n.upper
  have hyear : (62135596800 : Int64).toInt = 62135596800 := by decide
  have hsum : (Int64.ofInt n.value+62135596800).toInt = n.value+62135596800 := by
    rw [Int64.toInt_add, n.toInt_ofInt, hyear]
    apply Int.bmod_eq_of_le <;> omega
  rw [unix, hsum, add_sub_cancel_right]

section Project
variable (env : Env) (db : Db) (projectID : UUID)

/-- The logs that the query of the analytics returns, whatever is selected, if
they can be decoded. -/
def fetchedLogs : List MCPServerLog := (fetchedRows env db projectID).map (Logs.logOf env)

theorem fetchedLogs_sorted :
    (fetchedLogs env db projectID).Pairwise (fun l l' => l.startedAt ≤ l'.startedAt) := by
  rw [fetchedLogs, List.pairwise_map]
  exact (ascendingRows_sorted env db projectID).sublist (List.take_sublist _ _)

theorem fetchedLogs_ids : ((fetchedLogs env db projectID).map (fun l => l.id)).Nodup := by
  rw [fetchedLogs, List.map_map]
  exact (ascendingRows_ids env db projectID).sublist ((List.take_sublist _ _).map _)

end Project

/-- The start and the end of every session have a text: the first of its times
and the last of its ends. -/
def Encodable (logs : List MCPServerLog) : Prop :=
  ∀ id, id ≠ "" →
    (∀ t ∈ ((logs.filter (fun log => log.mcpSessionID = some id)).map
      (fun log => log.startedAt)).min?, marshalTime t = true) ∧
    ∀ t ∈ ((logs.filter (fun log => log.mcpSessionID = some id)).map
      (fun log => log.startedAt+log.duration.toInt)).max?, marshalTime t = true

section Response
variable {σ : Type} (me : σ) (env : Env) (user : UserAccount) (rt : Runtime) (now : Time)
  (projectID : UUID)

theorem aggregate_sessions (current previous : List MCPServerLog) (a : ProjectAnalytics)
    (h : aggregateLogsToAnalyticsWithComparison rt env current previous = .ok a) :
    calculateRecentSessions rt env current = .ok a.recentSessions := by
  simp only [aggregateLogsToAnalyticsWithComparison, bind, Except.bind] at h
  cases ho : calculateOverviewWithComparison env current previous with
  | error e => simp [ho] at h
  | ok o =>
    cases ht : calculateToolsPerformance rt env current with
    | error e => simp [ho, ht] at h
    | ok t =>
      cases hr : calculateRecentSessions rt env current with
      | error e => simp [ho, ht, hr] at h
      | ok r =>
        simp only [ho, ht, hr] at h
        cases h
        rfl

/-- The times of the response can be encoded exactly if those of its sessions can. -/
theorem sessionTimes_iff (current previous : List MCPServerLog) (a : ProjectAnalytics)
    (h : aggregateLogsToAnalyticsWithComparison rt env current previous = .ok a)
    (hasc : current.Pairwise (fun l l' => l.startedAt ≤ l'.startedAt)) :
    (sessionTimes a).all marshalTime = true ↔ Encodable current := by
  have hsessions := aggregate_sessions env rt current previous a h
  have htimes := RecentSessions.entries_times env rt current a.recentSessions hsessions hasc
    (fun t => marshalTime t = true)
  rw [sessionTimes, List.all_flatMap, List.all_eq_true, Encodable]
  simp only [List.all_cons, List.all_nil, Bool.and_true, Bool.and_eq_true]
  exact htimes

/-- The figures are sent if nothing fails on the way: the decoding, the aggregation
or the encoding. -/
theorem responded_iff (srv : Srv σ)
    (periods : Except DbError (List MCPServerLog × List MCPServerLog))
    (hasc : ∀ p, periods = .ok p → p.1.Pairwise (fun l l' => l.startedAt ≤ l'.startedAt))
    (current previous : List MCPServerLog) :
    emitted me (respondAnalytics env rt periods) srv =
        [.response 200 (.analytics current previous)] ↔
      periods = .ok (current, previous) ∧ (∀ log ∈ current++previous, ¬ Unrequested log) ∧
        Encodable current := by
  cases periods with
  | error e => exact iff_of_false (fun h => by cases h) (fun h => by cases h.1)
  | ok p =>
    obtain ⟨current', previous'⟩ := p
    have hsorted := hasc _ rfl
    rw [← aggregate_ok_iff rt env current previous, Except.ok.injEq, Prod.mk.injEq]
    cases ha : aggregateLogsToAnalyticsWithComparison rt env current' previous' with
    | error e =>
      refine iff_of_false ?_ ?_
      · simp only [respondAnalytics, ha]
        intro h
        cases h
      · rintro ⟨⟨rfl, rfl⟩, ⟨a, h⟩, -⟩
        cases ha.symm.trans h
    | ok a =>
      have htimes := sessionTimes_iff env rt current' previous' a ha hsorted
      simp only [respondAnalytics, ha, respondJSON]
      by_cases henc : Encodable current'
      · rw [if_pos (htimes.mpr henc)]
        constructor
        · intro h
          cases h
          exact ⟨⟨rfl, rfl⟩, ⟨a, ha⟩, henc⟩
        · rintro ⟨⟨rfl, rfl⟩, -⟩
          rfl
      · rw [if_neg (fun h => henc (htimes.mp h))]
        refine iff_of_false (fun h => by cases h) ?_
        rintro ⟨⟨rfl, rfl⟩, -, h⟩
        exact henc h

variable (srv : Srv σ)

/-- What the comparison is for the rest of the request. -/
def compared (startAt : Time) (db : Db) : Except DbError (List MCPServerLog × List MCPServerLog) :=
  (Logs.collectRows (Logs.scanLog env) (fetchedRows env db projectID)).map
    (splitPeriods now startAt)

theorem compared_emitted (startAt : Time)
    (k : Except DbError (List MCPServerLog × List MCPServerLog) → Api Unit) :
    ∃ srv' : Srv σ,
      emitted me (getAllLogsWithComparison env .pool now projectID startAt >>= k) srv =
        emitted me (k (compared env now projectID startAt srv.db)) srv' := by
  have hread := getLogsForProject_ascending env srv.db projectID
    (Session.tick ({} : Ses) srv .pool)
  obtain ⟨srv', -, he⟩ := emitted_read me .getLogsForProject _ _ srv
    (Logs.collectRows (Logs.scanLog env) (fetchedRows env srv.db projectID)) hread
  refine ⟨srv', Eq.trans he ?_⟩
  rw [compared]
  cases Logs.collectRows (Logs.scanLog env) (fetchedRows env srv.db projectID) <;> rfl

theorem compared_ok (startAt : Time) (db : Db) (p : List MCPServerLog × List MCPServerLog) :
    compared env now projectID startAt db = .ok p ↔
      AllReadable env db projectID ∧
        p = splitPeriods now startAt (fetchedLogs env db projectID) := by
  rw [compared]
  cases hlogs : Logs.collectRows (Logs.scanLog env) (fetchedRows env db projectID) with
  | error e =>
    refine iff_of_false (fun h => nomatch h) ?_
    rintro ⟨hread, -⟩
    cases hlogs.symm.trans (Logs.collectLogs_ok env _ hread)
  | ok logs =>
    obtain ⟨hread, rfl⟩ := (Logs.collectLogs_iff env _ logs).mp hlogs
    rw [Except.map, Except.ok.injEq]
    exact ⟨fun h => ⟨hread, h.symm⟩, fun h => h.2.symm⟩

/-- What a member of the organization gets, whatever is selected. -/
theorem dashboardAnalytics_emitted (hnamed : projectID ≠ 0)
    (hopen : Requests.Accessible srv.db user.id projectID)
    (startedAt buildNumber : Option SafeInteger) : ∃ srv' : Srv σ,
    emitted me (dashboardAnalytics env user rt now projectID startedAt buildNumber) srv =
      emitted me (respondAnalytics env rt
        (compared env now projectID (periodStart startedAt) srv.db)) srv' := by
  simp only [dashboardAnalytics, startedAtParam_params, getAnalytics]
  obtain ⟨srv₁, hdb, he⟩ := withProject_opened me user _ srv projectID hnamed hopen
  rw [← hdb, he]
  cases startedAt with
  | none => exact compared_emitted me env now projectID srv₁ _ _
  | some n =>
    have hstart : periodStart (some n) = unix (Int64.ofInt n.value) := (unix_ofInt n).symm
    rw [hstart]
    exact compared_emitted me env now projectID srv₁ _ _

end Response

/-! ## Build numbers -/

section Selection
variable (db : Db) (projectID : UUID)

/-- The revision of the log has the build number that is selected, if any. -/
def Selected (buildNumber : Option SafeInteger) (log : MCPServerLogRow5) : Prop :=
  ∀ n ∈ buildNumber, ∃ s ∈ Queries.revisionSummaries db (fun _ id => id = projectID),
    s.id = log.deploymentRevisionID ∧ s.buildNumber = n.value

/-- Every row of a list of the project is numbered by the rows before it. -/
theorem summary_position (s : DeploymentRevisionSummary)
    (h : s ∈ Queries.revisionSummaries db (fun _ id => id = projectID)) :
    ∃ before r after, BuildNumbers.listedRows db (fun _ id => id = projectID) = before++r::after ∧
      s.id = r.1 ∧ s.buildNumber = before.length+1 := by
  obtain ⟨before, r, after, he, hs⟩ :=
    (BuildNumbers.mem_rowNumbers _ _ _).mp (BuildNumbers.mem_summaries db _ s h)
  have hproject : ∀ r' ∈ before++r::after, r'.2.projectID = projectID := by
    intro r' hr'
    obtain ⟨-, ⟨v, -, hv⟩, -⟩ := (BuildNumbers.mem_listedRows db _ r').mp (he ▸ hr')
    exact of_decide_eq_true hv
  have hcount : BuildNumbers.countOf r.2.projectID before = before.length := by
    rw [BuildNumbers.countOf, List.countP_eq_length]
    intro r' hr'
    rw [decide_eq_true_eq, hproject r' (by simp [hr']), hproject r (by simp)]
  refine ⟨before, r, after, he, congrArg DeploymentRevision.id hs, ?_⟩
  have hnumber := congrArg DeploymentRevision.buildNumber hs
  simpa [hcount] using hnumber

/-- A build number is that of one revision of the project. -/
theorem number_injective (s s' : DeploymentRevisionSummary)
    (h : s ∈ Queries.revisionSummaries db (fun _ id => id = projectID))
    (h' : s' ∈ Queries.revisionSummaries db (fun _ id => id = projectID))
    (hnumber : s.buildNumber = s'.buildNumber) : s.id = s'.id := by
  obtain ⟨before, r, after, he, hid, hn⟩ := summary_position db projectID s h
  obtain ⟨before', r', after', he', hid', hn'⟩ := summary_position db projectID s' h'
  have hlength : before.length = before'.length := by omega
  obtain ⟨-, hrest⟩ := List.append_inj (he.symm.trans he') hlength
  rw [hid, hid', (List.cons.inj hrest).1]

/-- To select the build number of a revision is to select its logs. -/
theorem selected_iff (s : DeploymentRevisionSummary)
    (hs : s ∈ Queries.revisionSummaries db (fun _ id => id = projectID))
    (n : SafeInteger) (hn : s.buildNumber = n.value) (log : MCPServerLogRow5) :
    Selected db projectID (some n) log ↔ log.deploymentRevisionID = s.id := by
  constructor
  · intro h
    obtain ⟨s', hs', hid, hn'⟩ := h n rfl
    rw [← hid]
    exact number_injective db projectID s' s hs' hs (by omega)
  · intro h m hm
    cases hm
    exact ⟨s, hs, h.symm, hn⟩

end Selection

/-- The list has exactly the logs of the project since the start whose revision
is selected, each of them once. -/
structure Figures (env : Env) (db : Db) (projectID : UUID) (startAt : Time)
    (buildNumber : Option SafeInteger) (current : List MCPServerLog) : Prop where
  once : (current.map (fun l => l.id)).Nodup
  sound : ∀ l ∈ current, Stored env db projectID l ∧ startAt ≤ l.startedAt ∧
    Selected db projectID buildNumber l.toMCPServerLogRow5
  complete : ∀ k v, db.row .mcpServerLog k = some v → v.projectID = projectID →
    startAt ≤ v.startedAt → Selected db projectID buildNumber v.toMCPServerLogRow5 →
      ∃ l ∈ current, l.id = k

/-- The response has the figures of the selection. -/
def Answers (env : Env) (db : Db) (projectID : UUID) (startAt : Time)
    (buildNumber : Option SafeInteger) (out : List Output) : Prop :=
  ∃ current previous, out = [.response 200 (.analytics current previous)] ∧
    Figures env db projectID startAt buildNumber current

/-- The rows that are fetched can be decoded, aggregated and encoded, those of the
period are all selected, and none that is selected was left behind. -/
structure Unaffected (env : Env) (now : Time) (db : Db) (projectID : UUID) (startAt : Time)
    (buildNumber : Option SafeInteger) : Prop where
  readable : AllReadable env db projectID
  requested : ∀ l ∈ fetchedLogs env db projectID,
    startAt ≤ l.startedAt ∨ startAt+(-timeSub now startAt).toInt ≤ l.startedAt → ¬ Unrequested l
  encodable : Encodable ((fetchedLogs env db projectID).filter (fun l => startAt ≤ l.startedAt))
  selected : ∀ l ∈ fetchedRows env db projectID,
    startAt ≤ l.2.startedAt → Selected db projectID buildNumber l.2.toMCPServerLogRow5
  complete : ∀ l ∈ ascendingRows env db projectID, startAt ≤ l.2.startedAt →
    Selected db projectID buildNumber l.2.toMCPServerLogRow5 → l ∈ fetchedRows env db projectID

theorem figures_iff (env : Env) (db : Db) (projectID : UUID) (startAt : Time)
    (buildNumber : Option SafeInteger) (hread : AllReadable env db projectID) :
    Figures env db projectID startAt buildNumber
      ((fetchedLogs env db projectID).filter (fun l => startAt ≤ l.startedAt)) ↔
      (∀ l ∈ fetchedRows env db projectID,
        startAt ≤ l.2.startedAt → Selected db projectID buildNumber l.2.toMCPServerLogRow5) ∧
      ∀ l ∈ ascendingRows env db projectID, startAt ≤ l.2.startedAt →
        Selected db projectID buildNumber l.2.toMCPServerLogRow5 →
          l ∈ fetchedRows env db projectID := by
  have hcurrent : ∀ log, log ∈ (fetchedLogs env db projectID).filter
      (fun l => startAt ≤ l.startedAt) ↔
      ∃ l ∈ fetchedRows env db projectID, Logs.logOf env l = log ∧ startAt ≤ l.2.startedAt := by
    intro log
    rw [List.mem_filter, decide_eq_true_eq, fetchedLogs, List.mem_map]
    constructor
    · rintro ⟨⟨l, hl, rfl⟩, hstart⟩
      exact ⟨l, hl, rfl, hstart⟩
    · rintro ⟨l, hl, rfl, hstart⟩
      exact ⟨⟨l, hl, rfl⟩, hstart⟩
  constructor
  · intro h
    constructor
    · intro l hl hstart
      exact (h.sound _ ((hcurrent _).mpr ⟨l, hl, rfl, hstart⟩)).2.2
    · intro l hl hstart hselected
      obtain ⟨hrow, hproject⟩ := (mem_ascendingRows env db projectID l).mp hl
      obtain ⟨log, hlog, hid⟩ := h.complete l.1 l.2 hrow hproject hstart hselected
      obtain ⟨l', hl', rfl, -⟩ := (hcurrent log).mp hlog
      exact mem_fetchedRows env db projectID l l' hl hl' hid
  · rintro ⟨hselected, hcomplete⟩
    constructor
    · exact (fetchedLogs_ids env db projectID).sublist (List.filter_sublist.map _)
    · intro log hlog
      obtain ⟨l, hl, rfl, hstart⟩ := (hcurrent log).mp hlog
      exact ⟨stored_logOf env db projectID l (List.mem_of_mem_take hl) (hread l hl), hstart,
        hselected l hl hstart⟩
    · intro k v hv hproject hstart hs
      have hl := hcomplete (k, v) ((mem_ascendingRows env db projectID _).mpr ⟨hv, hproject⟩)
        hstart hs
      exact ⟨_, (hcurrent _).mpr ⟨(k, v), hl, rfl, hstart⟩, rfl⟩

/-- A log of a period is one since its start or since the start of the one before it. -/
theorem mem_splitPeriods (now startAt : Time) (logs : List MCPServerLog) (l : MCPServerLog) :
    l ∈ (splitPeriods now startAt logs).1++(splitPeriods now startAt logs).2 ↔
      l ∈ logs ∧
        (startAt ≤ l.startedAt ∨ startAt+(-timeSub now startAt).toInt ≤ l.startedAt) := by
  rw [splitPeriods, List.mem_append, List.mem_filter, List.mem_filter, decide_eq_true_eq,
    decide_eq_true_eq, ← and_or_left]
  refine and_congr_right fun _ => ?_
  by_cases h : startAt ≤ l.startedAt
  · simp [h]
  · simp [h, not_le.mp h]

section Exact
variable {σ : Type} (me : σ) (env : Env) (user : UserAccount) (rt : Runtime) (now : Time)
  (projectID : UUID) (startedAt buildNumber : Option SafeInteger) (srv : Srv σ)

/-- The analytics that a member requests are those of the selected revision exactly
if the selection has nothing to leave out, the limit leaves nothing of it out, and
the logs can be decoded, aggregated and encoded. -/
theorem analytics_revision (hnamed : projectID ≠ 0)
    (hopen : Requests.Accessible srv.db user.id projectID) :
    Answers env srv.db projectID (periodStart startedAt) buildNumber
        (emitted me (dashboardAnalytics env user rt now projectID startedAt buildNumber) srv) ↔
      Unaffected env now srv.db projectID (periodStart startedAt) buildNumber := by
  obtain ⟨srv', he⟩ := dashboardAnalytics_emitted me env user rt now projectID srv hnamed hopen
    startedAt buildNumber
  have hasc : ∀ p, compared env now projectID (periodStart startedAt) srv.db = .ok p →
      p.1.Pairwise (fun l l' => l.startedAt ≤ l'.startedAt) := by
    intro p hp
    rw [((compared_ok env now projectID _ _ p).mp hp).2]
    exact (fetchedLogs_sorted env srv.db projectID).filter _
  rw [he]
  constructor
  · rintro ⟨current, previous, hout, hfigures⟩
    obtain ⟨hperiods, hrequested, hencodable⟩ := (responded_iff me env rt _ _ hasc _ _).mp hout
    obtain ⟨hread, hsplit⟩ := (compared_ok env now projectID _ _ _).mp hperiods
    have hcurrent := congrArg Prod.fst hsplit
    subst hcurrent
    have hprevious := congrArg Prod.snd hsplit
    subst hprevious
    obtain ⟨hselected, hcomplete⟩ :=
      (figures_iff env srv.db projectID _ buildNumber hread).mp hfigures
    exact ⟨hread, fun l hl hp => hrequested l ((mem_splitPeriods now _ _ l).mpr ⟨hl, hp⟩),
      hencodable, hselected, hcomplete⟩
  · intro h
    refine ⟨_, _, (responded_iff me env rt _ _ hasc _ _).mpr
      ⟨(compared_ok env now projectID _ _ _).mpr ⟨h.readable, rfl⟩, ?_, h.encodable⟩,
      (figures_iff env srv.db projectID _ buildNumber h.readable).mpr ⟨h.selected, h.complete⟩⟩
    intro l hl
    obtain ⟨hfetched, hp⟩ := (mem_splitPeriods now _ _ l).mp hl
    exact h.requested l hfetched hp

end Exact

/-! ## A project with two revisions -/

def revisedDb : Db := GatewayConfig.demoDb.replay [
  ⟨.organizationUserAccount, (1, 2), some ⟨0⟩⟩,
  ⟨.deploymentRevision, 6,
    some ⟨1, 2, 3, none, none, true, some "https://mcp.acme.dev/v2", false⟩⟩,
  ⟨.mcpServerLog, 10, some demoLog⟩]

def revisedServer : Srv Unit where
  db := revisedDb
  next := 11
  ext _ := none

def epoch : SafeInteger := ⟨0, by decide, by decide⟩

def firstBuild : SafeInteger := ⟨1, by decide, by decide⟩

def secondBuild : SafeInteger := ⟨2, by decide, by decide⟩

theorem revised_opens : Requests.Accessible revisedServer.db demoUser.id 3 :=
  ⟨⟨0, 2, 1, "docs", some 5, none⟩, by decide, by decide⟩

theorem revised_rows : ascendingRows Env.demo revisedDb 3 = [(10, demoLog)] := rfl

theorem revised_fetched : fetchedRows Env.demo revisedDb 3 = [(10, demoLog)] := by
  rw [fetchedRows, revised_rows]
  rfl

theorem revised_logs :
    fetchedLogs Env.demo revisedDb 3 = [Logs.logOf Env.demo (10, demoLog)] := by
  rw [fetchedLogs, revised_fetched]
  rfl

theorem revised_first : Selected revisedDb 3 (some firstBuild) demoLog.toMCPServerLogRow5 := by
  have hlisted : ∃ s ∈ Queries.revisionSummaries revisedDb (fun _ id => id = 3),
      s.id = 5 ∧ s.buildNumber = firstBuild.value := by decide
  intro n hn
  cases hn
  exact hlisted

theorem revised_second : ¬ Selected revisedDb 3 (some secondBuild) demoLog.toMCPServerLogRow5 := by
  have hlisted : ∃ s ∈ Queries.revisionSummaries revisedDb (fun _ id => id = 3),
      s.id = 6 ∧ s.buildNumber = secondBuild.value := by decide
  obtain ⟨s, hs, hid, hn⟩ := hlisted
  rw [selected_iff revisedDb 3 s hs secondBuild hn, hid]
  decide

theorem revised_readable : AllReadable Env.demo revisedDb 3 := by
  intro l hl
  rw [revised_fetched] at hl
  cases List.mem_singleton.mp hl
  exact ⟨rfl, rfl⟩

theorem revised_requested (l : MCPServerLog) (hl : l ∈ fetchedLogs Env.demo revisedDb 3) :
    ¬ Unrequested l := by
  rw [revised_logs] at hl
  cases List.mem_singleton.mp hl
  rintro ⟨-, response, hresponse, -⟩
  cases hresponse

/-- The session "s1" starts and ends in 1970. -/
theorem revised_encodable :
    Encodable ((fetchedLogs Env.demo revisedDb 3).filter (fun l => 0 ≤ l.startedAt)) := by
  rw [revised_logs]
  intro id _
  by_cases hid : some "s1" = some id
  · cases hid
    exact ⟨by decide, by decide⟩
  · have hnone : ([Logs.logOf Env.demo (10, demoLog)].filter (fun l => 0 ≤ l.startedAt)).filter
        (fun log => log.mcpSessionID = some id) = [] :=
      List.filter_cons_of_neg (fun h => hid (of_decide_eq_true h))
    rw [hnone]
    exact ⟨by decide, by decide⟩

/-- The revision of the only log is selected. -/
theorem analytics_revision_first : Answers Env.demo revisedDb 3 0 (some firstBuild)
    (emitted () (dashboardAnalytics Env.demo demoUser Runtime.stable 9000 3 (some epoch)
      (some firstBuild)) revisedServer) := by
  have hstart : periodStart (some epoch) = 0 := rfl
  refine (analytics_revision () Env.demo demoUser Runtime.stable 9000 3 (some epoch)
    (some firstBuild) revisedServer (by decide) revised_opens).mpr
    ⟨revised_readable, fun l hl _ => revised_requested l hl, revised_encodable, ?_, ?_⟩
  · intro l hl _
    have hl : l ∈ fetchedRows Env.demo revisedDb 3 := hl
    rw [revised_fetched] at hl
    cases List.mem_singleton.mp hl
    exact revised_first
  · intro l hl _ _
    change l ∈ fetchedRows Env.demo revisedDb 3
    rw [revised_fetched, ← revised_rows]
    exact hl

/-- The other revision is selected, and the log is in the figures nevertheless. -/
theorem other_revision_counted :
    emitted () (dashboardAnalytics Env.demo demoUser Runtime.stable 9000 3 (some epoch)
      (some secondBuild)) revisedServer =
        [.response 200 (.analytics [Logs.logOf Env.demo (10, demoLog)] [])] ∧
    ¬ Answers Env.demo revisedDb 3 0 (some secondBuild)
      (emitted () (dashboardAnalytics Env.demo demoUser Runtime.stable 9000 3 (some epoch)
        (some secondBuild)) revisedServer) := by
  have hsplit : splitPeriods 9000 0 (fetchedLogs Env.demo revisedDb 3) =
      ([Logs.logOf Env.demo (10, demoLog)], []) := by
    rw [revised_logs]
    rfl
  have hcompared : compared Env.demo 9000 3 (periodStart (some epoch)) revisedServer.db =
      .ok ([Logs.logOf Env.demo (10, demoLog)], []) :=
    (compared_ok Env.demo 9000 3 _ _ _).mpr ⟨revised_readable, hsplit.symm⟩
  have hout : emitted () (dashboardAnalytics Env.demo demoUser Runtime.stable 9000 3 (some epoch)
      (some secondBuild)) revisedServer =
        [.response 200 (.analytics [Logs.logOf Env.demo (10, demoLog)] [])] := by
    obtain ⟨srv', he⟩ := dashboardAnalytics_emitted () Env.demo demoUser Runtime.stable 9000 3
      revisedServer (by decide) revised_opens (some epoch) (some secondBuild)
    rw [he, hcompared, responded_iff]
    · refine ⟨rfl, fun l hl => revised_requested l (revised_logs ▸ hl), ?_⟩
      have hencodable := revised_encodable
      rw [revised_logs] at hencodable
      exact hencodable
    · intro p hp
      cases hp
      exact List.pairwise_singleton _ _
  refine ⟨hout, ?_⟩
  rw [hout]
  rintro ⟨current, previous, heq, hfigures⟩
  cases heq
  exact revised_second (hfigures.sound _ List.mem_cons_self).2.2

end Jetski.RevisionFilter
