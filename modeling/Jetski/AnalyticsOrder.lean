import Mathlib.Data.String.Basic
import Jetski.AnalyticsViews
import Jetski.StableSort

/-!
# The order of one analytics result

A calculator turns a map into a list and sorts it by a number that several
entries can have in common, or does not sort it at all. The result is the same
in every order of iteration exactly if the logs leave no such choice.
-/

set_option autoImplicit false

namespace Jetski.AnalyticsOrder

open Schema Jetski.Types Analytics Tally AnalyticsViews StableSort

/-! ## What the logs leave open -/

section Logs
variable (env : Env) (logs : List MCPServerLog)

def toolNames : List String := (logs.filterMap (toolKey env)).dedup

def statsOf (logs : List MCPServerLog) : ToolPerformanceStats where
  totalCalls := logs.length
  errorCalls := logs.countP (errored env)
  totalDuration := totalDuration logs

def performance (name : String) : PerformingTool :=
  toolOf (name, statsOf env (group (toolKey env) name logs))

/-- What tools are sorted by that need attention. -/
def errorPercent (tool : PerformingTool) : ℤ := trunc (float64 (tool.errorRate*100))

def callArguments (name : String) : List (String × String) :=
  (group (toolKey env) name logs).flatMap (fun log => extractArguments env log.mcpRequest)

def clientNames : List String := logs.map (clientName env)

def logEnd (log : MCPServerLog) : ℤ := log.startedAt+log.duration.toInt

def sessionEnd (id : String) : ℤ :=
  ((group getNormalizedSessionID id logs).map logEnd).max?.getD 0

/-- No two entries of a list are tied, save for tools behind the first five. -/
structure Unambiguous : Prop where
  topPerformingTools : ∀ t ∈ toolNames env logs, ∀ t' ∈ toolNames env logs, t ≠ t' →
    (performance env logs t).totalCalls = (performance env logs t').totalCalls →
    5 ≤ (toolNames env logs).countP
      (fun s => (performance env logs t).totalCalls < (performance env logs s).totalCalls)
  toolsRequiringAttention : ∀ t ∈ toolNames env logs, ∀ t' ∈ toolNames env logs, t ≠ t' →
    needsAttention (performance env logs t) → needsAttention (performance env logs t') →
    errorPercent (performance env logs t) ≠ errorPercent (performance env logs t')
  arguments : ∀ t ∈ toolNames env logs, ∀ a ∈ callArguments env logs t,
    ∀ a' ∈ callArguments env logs t, a = a'
  clients : ∀ c ∈ clientNames env logs, ∀ c' ∈ clientNames env logs, c ≠ c' →
    (clientNames env logs).count c ≠ (clientNames env logs).count c'
  sessions : ∀ s ∈ logs.filterMap getNormalizedSessionID,
    ∀ s' ∈ logs.filterMap getNormalizedSessionID, s ≠ s' →
    1000000 ≤ |sessionEnd logs s-sessionEnd logs s'|

/-! ## The contents of the maps -/

theorem stats_fold (bs : List MCPServerLog) (stats : ToolPerformanceStats) :
    bs.foldl (fun stats log => addStats env log stats) stats =
      { totalCalls := stats.totalCalls+bs.length
        errorCalls := stats.errorCalls+bs.countP (errored env)
        totalDuration := bs.foldl (fun d log => d+log.duration) stats.totalDuration } := by
  induction bs generalizing stats with
  | nil => simp
  | cons log bs ih =>
    rw [List.foldl_cons, ih, addStats, List.countP_cons, List.foldl_cons, List.length_cons]
    congr 1
    · push_cast
      ring
    · cases errored env log
      · simp
      · push_cast
        simp
        ring

theorem stats_perm (m : GoMap ToolPerformanceStats) (h : logs.foldlM (toolStep env) [] = .ok m) :
    m.Perm ((toolNames env logs).map
      (fun t => (t, statsOf env (group (toolKey env) t logs)))) := by
  refine groups_perm (statsOf env) (fun bs hne => ?_) logs m (toolStats_groups env logs m h)
  rw [folded_const _ bs hne, stats_fold, statsOf, totalDuration]
  simp

theorem tools_contents (rt : Runtime) (m : GoMap ToolPerformanceStats)
    (h : logs.foldlM (toolStep env) [] = .ok m) :
    (allTools rt m).Perm ((toolNames env logs).map (performance env logs)) := by
  have hperm := ((rt.order_perm .toolStats m).trans (stats_perm env logs m h)).map toolOf
  rwa [List.map_map] at hperm

theorem usage_perm :
    (logs.foldl (fun m log => update m (clientName env log) (0 : ℤ) (fun n => n+1)) []).Perm
      ((clientNames env logs).dedup.map (fun c => (c, ((clientNames env logs).count c : ℤ)))) := by
  have hkeys : logs.filterMap (fun log => some (clientName env log)) = clientNames env logs :=
    congrFun List.filterMap_eq_map' logs
  have hperm := groups_perm (fun bs => (bs.length : ℤ)) (fun bs hne => ?_) logs _
    (clientUsage_groups env logs)
  · simp only [group_length, hkeys] at hperm
    exact hperm
  · obtain ⟨n, hn⟩ := Option.isSome_iff_exists.mp
      ((@folded_isSome _ _ (fun _ => (0 : ℤ)) (fun _ n => n+1) bs).mpr hne)
    rw [hn, folded_count (fun n => n) (fun _ => rfl) (fun _ _ => rfl) bs n hn]

theorem extend_end (log : MCPServerLog) (e : Bool) (session : SessionInfo) :
    (session.extend env log e).lastStartedAt+(session.extend env log e).lastDuration.toInt =
      max (session.lastStartedAt+session.lastDuration.toInt) (logEnd log) := by
  simp only [SessionInfo.extend, logEnd]
  by_cases h : session.lastStartedAt+session.lastDuration.toInt < log.startedAt+log.duration.toInt
  · rw [max_eq_right (le_of_lt h)]
    simp [h]
  · rw [max_eq_left (not_lt.mp h)]
    simp [h]

theorem folded_end (bs : List MCPServerLog) (session : SessionInfo)
    (h : folded newSession (addLog env) bs = some session) :
    session.lastStartedAt+session.lastDuration.toInt = (bs.map logEnd).max?.getD 0 := by
  cases bs with
  | nil => cases h
  | cons log bs =>
    rw [folded_cons, Option.some.injEq] at h
    have hall : ∀ (bs : List MCPServerLog) (session : SessionInfo),
        (bs.foldl (fun s log => addLog env log s) session).lastStartedAt+
          (bs.foldl (fun s log => addLog env log s) session).lastDuration.toInt =
        (bs.map logEnd).foldl max (session.lastStartedAt+session.lastDuration.toInt) := by
      intro bs
      induction bs with
      | nil => exact fun _ => rfl
      | cons log bs ih =>
        intro session
        rw [List.foldl_cons, ih, addLog, extend_end, List.map_cons, List.foldl_cons]
    rw [← h, hall, addLog, extend_end, List.map_cons, List.max?_cons', Option.getD_some]
    simp [newSession, logEnd]

end Logs

/-! ## Two runs -/

section Runs
variable {α : Type} (rt rt' : Runtime) (cmp : α → α → ℤ)

/-- Two runs put the same elements first that are tied with none, or only behind them. -/
theorem runs_take_eq (hrefl : ∀ a, cmp a a ≤ 0) (n : ℕ) (l l' : List α) (hp : l.Perm l')
    (ho : Orders cmp l)
    (h : ∀ a ∈ l, ∀ b ∈ l, a ≠ b → cmp a b ≤ 0 → cmp b a ≤ 0 →
      n ≤ l.countP (fun c => ¬ cmp a c ≤ 0)) :
    (rt.sortFunc cmp l).take n = (rt'.sortFunc cmp l').take n := by
  have : Std.Refl (fun a b => cmp a b ≤ 0) := ⟨hrefl⟩
  have hl := rt.sortFunc_perm cmp l
  have ho' : Orders cmp l' := by
    constructor
    · intro a ha b hb
      exact ho.total a (hp.mem_iff.mpr ha) b (hp.mem_iff.mpr hb)
    · intro a ha b hb c hc
      exact ho.trans a (hp.mem_iff.mpr ha) b (hp.mem_iff.mpr hb) c (hp.mem_iff.mpr hc)
  refine take_eq (fun a b => cmp a b ≤ 0) n _ _
    (hl.trans (hp.trans (rt'.sortFunc_perm cmp l').symm)) (rt.sortFunc_sorted cmp l ho)
    (rt'.sortFunc_sorted cmp l' ho') ?_
  intro a ha b hb hne hab hba
  rw [hl.countP_eq]
  exact h a (hl.mem_iff.mp ha) b (hl.mem_iff.mp hb) hne hab hba

theorem runs_eq (hrefl : ∀ a, cmp a a ≤ 0) (l l' : List α) (hp : l.Perm l') (ho : Orders cmp l)
    (h : ∀ a ∈ l, ∀ b ∈ l, a ≠ b → cmp a b ≤ 0 → ¬ cmp b a ≤ 0) :
    rt.sortFunc cmp l = rt'.sortFunc cmp l' := by
  have htake := runs_take_eq rt rt' cmp hrefl l.length l l' hp ho
    (fun a ha b hb hne hab hba => absurd hba (h a ha b hb hne hab))
  have hl := (rt.sortFunc_perm cmp l).length_eq
  have hl' := (rt'.sortFunc_perm cmp l').length_eq
  rw [← hl, List.take_length, hl, hp.length_eq, ← hl', List.take_length] at htake
  exact htake

/-- A number that elements are compared by orders them. -/
theorem orders_value {β : Type} [LinearOrder β] (value : α → β)
    (h : ∀ a b, cmp a b ≤ 0 ↔ value a ≤ value b) (l : List α) : Orders cmp l := by
  constructor
  · intro a _ b _
    rw [h, h]
    exact le_total _ _
  · intro a _ b _ c _
    rw [h, h, h]
    exact le_trans

end Runs

/-- Durations below a millisecond are lost. -/
theorem milliseconds_sub (t u : ℤ) :
    (|t-u| < 1000000 → milliseconds (timeSub t u) = 0) ∧
      (1000000 ≤ t-u → 0 < milliseconds (timeSub t u)) ∧
      (1000000 ≤ u-t → milliseconds (timeSub t u) < 0) := by
  have hmin : Int64.minValue.toInt = -9223372036854775808 := by decide
  have hmax : Int64.maxValue.toInt = 9223372036854775807 := by decide
  have hmillion : (1000000 : Int64).toInt = 1000000 := by decide
  have hvalue : milliseconds (timeSub t u) =
      (max Int64.minValue.toInt (min Int64.maxValue.toInt (t-u))).tdiv 1000000 := by
    rw [milliseconds, timeSub, Int64.toInt_div_of_ne_right _ _ (by decide), hmillion,
      Int64.toInt_ofInt_of_le (by omega) (by omega)]
  rw [hvalue, hmin, hmax]
  refine ⟨fun h => ?_, fun h => ?_, fun h => ?_⟩
  · rw [abs_lt] at h
    have hid : max (-9223372036854775808) (min 9223372036854775807 (t-u)) = t-u := by omega
    rw [hid]
    rcases le_total 0 (t-u) with hn | hn
    · rw [Int.tdiv_eq_ediv_of_nonneg hn]
      omega
    · have hneg : (t-u).tdiv 1000000 = -((u-t).tdiv 1000000) := by
        rw [← Int.neg_tdiv]
        congr 1
        omega
      rw [hneg, Int.tdiv_eq_ediv_of_nonneg (by omega)]
      omega
  · rw [Int.tdiv_eq_ediv_of_nonneg (by omega)]
    omega
  · have hneg : (max (-9223372036854775808) (min 9223372036854775807 (t-u))).tdiv 1000000 =
        -((-max (-9223372036854775808) (min 9223372036854775807 (t-u))).tdiv 1000000) := by
      rw [Int.neg_tdiv, neg_neg]
    rw [hneg, Int.tdiv_eq_ediv_of_nonneg (by omega)]
    omega

def reversing (loop : MapLoop) : Runtime :=
  { Runtime.stable with
    order := fun loop' _ l => if loop' = loop then l.reverse else l
    order_perm := fun loop' _ l => by
      split
      · exact l.reverse_perm
      · exact .refl l }

@[simp] theorem reversing_self (loop : MapLoop) {α : Type} (l : List α) :
    (reversing loop).order loop l = l.reverse := if_pos rfl

theorem reversing_ne (loop loop' : MapLoop) (h : loop' ≠ loop) {α : Type} (l : List α) :
    (reversing loop).order loop' l = l := if_neg h

/-! ## Results without a choice -/

section Same
variable (rt rt' : Runtime) (env : Env) (logs : List MCPServerLog)

theorem clients_contents :
    ((rt.order .clientUsage
      (logs.foldl (fun m log => update m (clientName env log) (0 : ℤ) (fun n => n+1)) [])).map
        (fun entry => (⟨entry.1, entry.2⟩ : ClientUsageData))).Perm
      ((clientNames env logs).dedup.map (fun c => ⟨c, (clientNames env logs).count c⟩)) := by
  have hperm := ((rt.order_perm .clientUsage _).trans (usage_perm env logs)).map
    (fun entry => (⟨entry.1, entry.2⟩ : ClientUsageData))
  rwa [List.map_map] at hperm

theorem clients_same
    (h : ∀ c ∈ clientNames env logs, ∀ c' ∈ clientNames env logs, c ≠ c' →
      (clientNames env logs).count c ≠ (clientNames env logs).count c') :
    calculateClientUsage rt env logs = calculateClientUsage rt' env logs := by
  have hl := clients_contents rt env logs
  have hl' := clients_contents rt' env logs
  rw [calculateClientUsage, calculateClientUsage]
  congr 1
  refine runs_eq rt rt' _ (fun a => by omega) _ _ (hl.trans hl'.symm)
    (orders_value _ (fun c => -c.requests) (fun a b => by omega) _) ?_
  intro a ha b hb hne hab hba
  obtain ⟨c, hc, rfl⟩ := List.mem_map.mp (hl.mem_iff.mp ha)
  obtain ⟨c', hc', rfl⟩ := List.mem_map.mp (hl.mem_iff.mp hb)
  have hcc : c ≠ c' := fun heq => hne (by rw [heq])
  have hcount := h c (List.mem_dedup.mp hc) c' (List.mem_dedup.mp hc') hcc
  simp only at hab hba
  omega

theorem toolsPerformance_same (r r' : ToolsPerformance)
    (hr : calculateToolsPerformance rt env logs = .ok r)
    (hr' : calculateToolsPerformance rt' env logs = .ok r')
    (htop : ∀ t ∈ toolNames env logs, ∀ t' ∈ toolNames env logs, t ≠ t' →
      (performance env logs t).totalCalls = (performance env logs t').totalCalls →
      5 ≤ (toolNames env logs).countP
        (fun s => (performance env logs t).totalCalls < (performance env logs s).totalCalls))
    (hattention : ∀ t ∈ toolNames env logs, ∀ t' ∈ toolNames env logs, t ≠ t' →
      needsAttention (performance env logs t) → needsAttention (performance env logs t') →
      errorPercent (performance env logs t) ≠ errorPercent (performance env logs t')) :
    r = r' := by
  obtain ⟨m, hm, hfirst, hneed⟩ := toolsPerformance_eq rt env logs r hr
  obtain ⟨hfirst', hneed'⟩ := toolsPerformance_at rt' env logs r' hr' m hm
  have hl := tools_contents env logs rt m hm
  have hl' := tools_contents env logs rt' m hm
  have hfirsts : r.topPerformingTools = r'.topPerformingTools := by
    rw [hfirst, hfirst']
    refine runs_take_eq rt rt' _ (fun a => by omega) 5 _ _ (hl.trans hl'.symm)
      (orders_value _ (fun t => -t.totalCalls) (fun a b => by omega) _) ?_
    intro a ha b hb hne hab hba
    obtain ⟨t, ht, rfl⟩ := List.mem_map.mp (hl.mem_iff.mp ha)
    obtain ⟨t', ht', rfl⟩ := List.mem_map.mp (hl.mem_iff.mp hb)
    have htt : t ≠ t' := fun heq => hne (by rw [heq])
    rw [hl.countP_eq, List.countP_map]
    refine (htop t ht t' ht' htt (by omega)).trans (le_of_eq (List.countP_congr fun s _ => ?_))
    simp
  have hneeds : r.toolsRequiringAttention = r'.toolsRequiringAttention := by
    rw [hneed, hneed']
    refine runs_eq rt rt' _ (fun a => by omega) _ _ ((hl.trans hl'.symm).filter _)
      (orders_value _ errorPercent (fun a b => by simp only [errorPercent]; omega) _) ?_
    intro a ha b hb hne hab hba
    rw [List.mem_filter] at ha hb
    obtain ⟨t, ht, rfl⟩ := List.mem_map.mp (hl.mem_iff.mp ha.1)
    obtain ⟨t', ht', rfl⟩ := List.mem_map.mp (hl.mem_iff.mp hb.1)
    have htt : t ≠ t' := fun heq => hne (by rw [heq])
    apply hattention t ht t' ht' htt ha.2 hb.2
    simp only [errorPercent]
    omega
  cases r
  cases r'
  rw [ToolsPerformance.mk.injEq]
  exact ⟨hfirsts, hneeds⟩

theorem recentSession_end (m : GoMap SessionInfo) (h : logs.foldlM (sessionStep env) [] = .ok m)
    (e : String × SessionInfo) (he : e ∈ m) :
    (recentSession env e).endedAt = sessionEnd logs e.1 ∧
      e.1 ∈ logs.filterMap getNormalizedSessionID := by
  have hgroups := sessionData_groups env logs m h
  constructor
  · exact folded_end env _ e.2 ((groups_entry logs m hgroups e.1 e.2).mp he)
  · exact (groups_key logs m hgroups e.1).mp (List.mem_map.mpr ⟨e, he, rfl⟩)

theorem apart_order (t u : ℤ) (h : t = u ∨ 1000000 ≤ |t-u|) :
    milliseconds (timeSub u t) ≤ 0 ↔ u ≤ t := by
  obtain ⟨hzero, hpos, hneg⟩ := milliseconds_sub u t
  rcases h with rfl | h
  · rw [hzero (by simp)]
    simp
  · rcases le_abs'.mp h with h | h
    · have := hpos (by omega)
      omega
    · have := hneg (by omega)
      omega

/-- Sessions that end together or at least a millisecond apart are ordered by their ends. -/
theorem sessions_order (l : List RecentSession)
    (h : ∀ a ∈ l, ∀ b ∈ l, a.endedAt = b.endedAt ∨ 1000000 ≤ |a.endedAt-b.endedAt|) :
    Orders (fun a b => milliseconds (timeSub b.endedAt a.endedAt)) l := by
  have hle : ∀ a ∈ l, ∀ b ∈ l,
      (milliseconds (timeSub b.endedAt a.endedAt) ≤ 0 ↔ b.endedAt ≤ a.endedAt) :=
    fun a ha b hb => apart_order _ _ (h a ha b hb)
  constructor
  · intro a ha b hb
    rw [hle a ha b hb, hle b hb a ha]
    exact le_total _ _
  · intro a ha b hb c hc
    rw [hle a ha b hb, hle b hb c hc, hle a ha c hc]
    exact fun hab hbc => le_trans hbc hab

theorem recentSessions_same (r r' : List RecentSession)
    (hr : calculateRecentSessions rt env logs = .ok r)
    (hr' : calculateRecentSessions rt' env logs = .ok r')
    (h : ∀ s ∈ logs.filterMap getNormalizedSessionID,
      ∀ s' ∈ logs.filterMap getNormalizedSessionID, s ≠ s' →
      1000000 ≤ |sessionEnd logs s-sessionEnd logs s'|) :
    r = r' := by
  obtain ⟨m, hm, rfl⟩ := recentSessions_eq rt env logs r hr
  have hr'' := recentSessions_at rt' env logs r' hr' m hm
  subst hr''
  have hgroups := sessionData_groups env logs m hm
  have hapart : ∀ a ∈ (rt.order .sessionData m).map (recentSession env),
      ∀ b ∈ (rt.order .sessionData m).map (recentSession env), a ≠ b →
      1000000 ≤ |a.endedAt-b.endedAt| := by
    intro a ha b hb hne
    obtain ⟨e, he, rfl⟩ := List.mem_map.mp ha
    obtain ⟨e', he', rfl⟩ := List.mem_map.mp hb
    have hmem := (rt.order_perm _ _).mem_iff.mp he
    have hmem' := (rt.order_perm _ _).mem_iff.mp he'
    obtain ⟨hend, hid⟩ := recentSession_end env logs m hm e hmem
    obtain ⟨hend', hid'⟩ := recentSession_end env logs m hm e' hmem'
    rw [hend, hend']
    refine h e.1 hid e'.1 hid' fun heq => hne ?_
    rw [List.inj_on_of_nodup_map hgroups.nodup hmem hmem' heq]
  refine runs_eq rt rt' _ (fun a => ?_) _ _
    (((rt.order_perm _ _).trans (rt'.order_perm _ _).symm).map _)
    (sessions_order _ fun a ha b hb => ?_) ?_
  · exact (apart_order _ _ (Or.inl rfl)).mpr le_rfl
  · by_cases heq : a = b
    · exact Or.inl (by rw [heq])
    · exact Or.inr (hapart a ha b hb heq)
  · intro a ha b hb hne hab hba
    have h' := hapart a ha b hb hne
    rw [apart_order _ _ (Or.inr h')] at hab
    rw [apart_order _ _ (Or.inr (abs_sub_comm a.endedAt b.endedAt ▸ h'))] at hba
    have heq := le_antisymm hab hba
    rw [heq, sub_self, abs_zero] at h'
    exact absurd h' (by decide)

theorem order_single (loop : MapLoop) {α : Type} (l : List α) (h : l.length ≤ 1) :
    rt.order loop l = l := by
  match l, h with
  | [], _ => exact (rt.order_perm loop []).eq_nil
  | [a], _ => exact List.perm_singleton.mp (rt.order_perm loop [a])

theorem extractArguments_nodup (mcpRequest : Option Request) :
    ((extractArguments env mcpRequest).map Prod.fst).Nodup := by
  have harguments : ((arguments env mcpRequest).getD []).map Prod.fst |>.Nodup := by
    cases hm : arguments env mcpRequest with
    | none => exact List.nodup_nil
    | some m =>
      obtain ⟨r, -, hr⟩ := Option.bind_eq_some_iff.mp hm
      split at hr
      · obtain ⟨⟨name, params⟩, -, hparams⟩ := Option.bind_eq_some_iff.mp hr
        cases params with
        | object fields =>
          cases hparams
          have hround : ∀ (m : GoMap Json) (a : String × Json),
              Round (fun a : String × Json => some a.1) (fun a => a.2) (fun a _ => a.2) m a
                (update m a.1 a.2 (fun _ => a.2)) :=
            fun m a => Or.inr ⟨a.1, rfl, rfl⟩
          exact (groups_foldl _ hround [] fields [] (groups_nil _ _ _)).nodup
        | _ => cases hparams
      · cases hr
  rw [extractArguments, List.map_map]
  exact harguments

theorem arguments_single (t : String)
    (h : ∀ a ∈ callArguments env logs t, ∀ a' ∈ callArguments env logs t, a = a')
    (log : MCPServerLog) (hlog : log ∈ group (toolKey env) t logs) :
    (extractArguments env log.mcpRequest).length ≤ 1 := by
  have hnodup := (extractArguments_nodup env log.mcpRequest).of_map
  have hmem : ∀ a ∈ extractArguments env log.mcpRequest, a ∈ callArguments env logs t :=
    fun a ha => List.mem_flatMap.mpr ⟨log, hlog, ha⟩
  match extractArguments env log.mcpRequest, hnodup, hmem with
  | [], _, _ => exact Nat.zero_le 1
  | [a], _, _ => exact le_refl 1
  | a::b::as, hnodup, hmem =>
    have hab := h a (hmem a (by simp)) b (hmem b (by simp))
    simp [hab] at hnodup

theorem toolData_same
    (h : ∀ t ∈ toolNames env logs, ∀ a ∈ callArguments env logs t,
      ∀ a' ∈ callArguments env logs t, a = a') :
    logs.foldl (toolAnalyticsStep rt env) [] = logs.foldl (toolAnalyticsStep rt' env) [] := by
  apply List.foldl_ext
  intro m log hlog
  simp only [toolAnalyticsStep]
  split
  · rfl
  · next hn =>
    have hkey : toolKey env log = some (extractToolName env log.mcpRequest) := if_neg hn
    have hname : extractToolName env log.mcpRequest ∈ toolNames env logs :=
      List.mem_dedup.mpr (List.mem_filterMap.mpr ⟨log, hlog, hkey⟩)
    have hsingle := arguments_single env logs _ (h _ hname) log ((mem_group _ _ _).mpr ⟨hlog, hkey⟩)
    simp only [order_single _ _ _ hsingle]

/-- All calls of a tool have the same argument with the same value, or none. -/
theorem toolData_sole (t : String)
    (h : ∀ a ∈ callArguments env logs t, ∀ a' ∈ callArguments env logs t, a = a')
    (data : ToolAnalyticsData) (hdata : (t, data) ∈ logs.foldl (toolAnalyticsStep rt env) []) :
    data.arguments = [] ∨
      ∃ x ∈ callArguments env logs t, ∃ k, data.arguments = [(x.1, [(x.2, k)])] := by
  refine folded_induction (fun data => data.arguments = [] ∨
    ∃ x ∈ callArguments env logs t, ∃ k, data.arguments = [(x.1, [(x.2, k)])])
    (group (toolKey env) t logs) (fun _ _ => Or.inl rfl) ?_ data
    ((groups_entry logs _ (toolData_groups rt env logs) t data).mp hdata)
  intro log hlog data hP
  have hsingle := arguments_single env logs t h log hlog
  have hmem : ∀ a ∈ extractArguments env log.mcpRequest, a ∈ callArguments env logs t :=
    fun a ha => List.mem_flatMap.mpr ⟨log, hlog, ha⟩
  simp only [addCall, order_single _ _ _ hsingle]
  match extractArguments env log.mcpRequest, hsingle, hmem with
  | [], _, _ => exact hP
  | [a], _, hmem =>
    refine Or.inr ⟨a, hmem a (.head _), ?_⟩
    rcases hP with hnil | ⟨x, hx, k, hk⟩
    · exact ⟨1, by simp [hnil, update]⟩
    · rw [h x hx a (hmem a (.head _))] at hk
      exact ⟨k+1, by simp [hk, update]⟩

theorem compareStrings_le (s s' : String) : compareStrings s s' ≤ 0 ↔ s ≤ s' := by
  rw [compareStrings]
  rcases lt_trichotomy s s' with h | h | h
  · simp [h, le_of_lt h]
  · simp [h]
  · simp [not_lt.mpr (le_of_lt h), not_le.mpr h, h.ne']

theorem compareStrings_orders (l : List McpTool) :
    Orders (fun a b => compareStrings a.name b.name) l :=
  orders_value _ (fun t => t.name) (fun a b => compareStrings_le a.name b.name) l

def toolEntry (entry : String × ToolAnalyticsData) : McpTool where
  name := entry.1
  calls := entry.2.calls
  arguments := (rt.order (.arguments entry.1) entry.2.arguments).map (toolArgument rt entry.1)

theorem toolAnalytics_eq : calculateToolAnalytics rt env logs =
    rt.sortFunc (fun a b => compareStrings a.name b.name)
      ((rt.order .toolData (logs.foldl (toolAnalyticsStep rt env) [])).map (toolEntry rt)) := rfl

theorem toolEntries_same (toolData : GoMap ToolAnalyticsData)
    (h : ∀ entry ∈ toolData, entry.2.arguments = [] ∨
      ∃ n v k, entry.2.arguments = [(n, [(v, k)])]) :
    toolData.map (toolEntry rt) = toolData.map (toolEntry rt') := by
  apply List.map_congr_left
  intro entry he
  rw [toolEntry, toolEntry]
  rcases h entry he with hnil | ⟨n, v, k, hk⟩
  · simp [hnil, order_single]
  · simp [hk, order_single, toolArgument]

theorem toolEntry_name (toolData : GoMap ToolAnalyticsData) (hn : (toolData.map Prod.fst).Nodup)
    (e e' : String × ToolAnalyticsData) (he : e ∈ toolData) (he' : e' ∈ toolData)
    (h : (toolEntry rt e).name = (toolEntry rt' e').name) : e = e' :=
  List.inj_on_of_nodup_map hn he he' h

theorem toolAnalytics_same
    (h : ∀ t ∈ toolNames env logs, ∀ a ∈ callArguments env logs t,
      ∀ a' ∈ callArguments env logs t, a = a') :
    calculateToolAnalytics rt env logs = calculateToolAnalytics rt' env logs := by
  rw [toolAnalytics_eq, toolAnalytics_eq, ← toolData_same rt rt' env logs h]
  have hgroups := toolData_groups rt env logs
  have hsole := toolData_sole rt env logs
  generalize logs.foldl (toolAnalyticsStep rt env) [] = toolData at hgroups hsole ⊢
  have hmap : toolData.map (toolEntry rt) = toolData.map (toolEntry rt') := by
    apply toolEntries_same
    intro entry he
    have ht : entry.1 ∈ toolNames env logs :=
      List.mem_dedup.mpr ((groups_key logs _ hgroups entry.1).mp (List.mem_map.mpr ⟨_, he, rfl⟩))
    rcases hsole entry.1 (h entry.1 ht) entry.2 he with hnil | ⟨x, -, k, hk⟩
    · exact Or.inl hnil
    · exact Or.inr ⟨x.1, x.2, k, hk⟩
  have hl := (rt.order_perm .toolData toolData).map (toolEntry rt)
  have hl' := (rt'.order_perm .toolData toolData).map (toolEntry rt')
  rw [← hmap] at hl'
  apply runs_eq rt rt'
  · intro a
    exact (compareStrings_le a.name a.name).mpr le_rfl
  · exact hl.trans hl'.symm
  · exact compareStrings_orders _
  · intro a ha b hb hne hab hba
    rw [compareStrings_le] at hab hba
    have hname := le_antisymm hab hba
    obtain ⟨e, he, rfl⟩ := List.mem_map.mp (hl.mem_iff.mp ha)
    obtain ⟨e', he', rfl⟩ := List.mem_map.mp (hl.mem_iff.mp hb)
    have hee := toolEntry_name rt rt toolData hgroups.nodup e e' he he' hname
    exact hne (by rw [hee])

end Same

/-! ## Results that show a choice -/

section Differ
variable (env : Env) (logs : List MCPServerLog)

/-- A stable sort shows in which order two tied elements arrive. -/
theorem sort_differ {α : Type} (cmp : α → α → ℤ) (l : List α) (hn : l.Nodup) (a b : α)
    (ha : a ∈ l) (hb : b ∈ l) (hne : a ≠ b) (hab : cmp a b ≤ 0) (hba : cmp b a ≤ 0) :
    Runtime.stable.sortFunc cmp l ≠ Runtime.stable.sortFunc cmp l.reverse :=
  sort_reverse_ne (fun a b => cmp a b ≤ 0) l hn a b ha hb hne hab hba

theorem clients_differ (c c' : String) (hc : c ∈ clientNames env logs)
    (hc' : c' ∈ clientNames env logs) (hne : c ≠ c')
    (hcount : (clientNames env logs).count c = (clientNames env logs).count c') :
    calculateClientUsage Runtime.stable env logs ≠
      calculateClientUsage (reversing .clientUsage) env logs := by
  intro heq
  have hl := clients_contents Runtime.stable env logs
  have hclients := congrArg ClientUsage.clients heq
  simp only [calculateClientUsage, reversing_self, List.map_reverse] at hclients
  refine sort_differ _ _ ?_ ⟨c, (clientNames env logs).count c⟩
    ⟨c', (clientNames env logs).count c'⟩ ?_ ?_ ?_ ?_ ?_ hclients
  · rw [hl.nodup_iff]
    refine (List.nodup_dedup _).map fun s s' h => ?_
    exact (ClientUsageData.mk.injEq _ _ _ _ ▸ h).1
  · exact hl.mem_iff.mpr (List.mem_map.mpr ⟨c, List.mem_dedup.mpr hc, rfl⟩)
  · exact hl.mem_iff.mpr (List.mem_map.mpr ⟨c', List.mem_dedup.mpr hc', rfl⟩)
  · intro h
    exact hne (ClientUsageData.mk.injEq _ _ _ _ ▸ h).1
  · simp only
    omega
  · simp only
    omega

theorem performance_nodup : ((toolNames env logs).map (performance env logs)).Nodup := by
  refine (List.nodup_dedup _).map fun t t' h => ?_
  exact congrArg PerformingTool.name h

theorem performance_ne (t t' : String) (h : t ≠ t') :
    performance env logs t ≠ performance env logs t' :=
  fun heq => h (congrArg PerformingTool.name heq)

/-- Where reversing the loop leaves the result alone, it leaves both of its lists alone. -/
theorem reversing_tools (r : ToolsPerformance)
    (hr : calculateToolsPerformance Runtime.stable env logs = .ok r)
    (hr' : calculateToolsPerformance (reversing .toolStats) env logs = .ok r) :
    ∃ tools : List PerformingTool, tools.Perm ((toolNames env logs).map (performance env logs)) ∧
      (Runtime.stable.sortFunc (fun a b => b.totalCalls-a.totalCalls) tools).take 5 =
        (Runtime.stable.sortFunc (fun a b => b.totalCalls-a.totalCalls) tools.reverse).take 5 ∧
      Runtime.stable.sortFunc
          (fun a b => trunc (float64 (a.errorRate*100))-trunc (float64 (b.errorRate*100)))
          (tools.filter needsAttention) =
        Runtime.stable.sortFunc
          (fun a b => trunc (float64 (a.errorRate*100))-trunc (float64 (b.errorRate*100)))
          (tools.filter needsAttention).reverse := by
  obtain ⟨m, hm, hfirst, hneed⟩ := toolsPerformance_eq _ env logs r hr
  obtain ⟨hfirst', hneed'⟩ := toolsPerformance_at _ env logs r hr' m hm
  have hrev : allTools (reversing .toolStats) m = (allTools Runtime.stable m).reverse := by
    rw [allTools, reversing_self, List.map_reverse]
    rfl
  rw [hfirst, hrev] at hfirst'
  rw [hneed, hrev, List.filter_reverse] at hneed'
  exact ⟨_, tools_contents env logs Runtime.stable m hm, hfirst', hneed'⟩

theorem topPerformingTools_differ (r r' : ToolsPerformance)
    (hr : calculateToolsPerformance Runtime.stable env logs = .ok r)
    (hr' : calculateToolsPerformance (reversing .toolStats) env logs = .ok r')
    (t t' : String) (ht : t ∈ toolNames env logs) (ht' : t' ∈ toolNames env logs) (hne : t ≠ t')
    (hcalls : (performance env logs t).totalCalls = (performance env logs t').totalCalls)
    (hfew : (toolNames env logs).countP
      (fun s => (performance env logs t).totalCalls < (performance env logs s).totalCalls) < 5) :
    r ≠ r' := by
  intro heq
  obtain ⟨tools, hl, hfirst, -⟩ := reversing_tools env logs r hr (heq ▸ hr')
  let r : PerformingTool → PerformingTool → Prop := fun a b => b.totalCalls-a.totalCalls ≤ 0
  have : Std.Total r := ⟨fun a b => by simp only [r]; omega⟩
  have : IsTrans _ r := ⟨fun a b c hab hbc => by simp only [r] at hab hbc ⊢; omega⟩
  refine sort_take_ne r 5 _ (hl.nodup_iff.mpr (performance_nodup env logs))
    (performance env logs t) (performance env logs t')
    (hl.mem_iff.mpr (List.mem_map.mpr ⟨t, ht, rfl⟩))
    (hl.mem_iff.mpr (List.mem_map.mpr ⟨t', ht', rfl⟩)) (performance_ne env logs t t' hne)
    ?_ ?_ ?_ hfirst
  · simp only [r]
    omega
  · simp only [r]
    omega
  · rw [hl.countP_eq, List.countP_map]
    refine lt_of_eq_of_lt (List.countP_congr fun s _ => ?_) hfew
    simp [r]

theorem toolsRequiringAttention_differ (r r' : ToolsPerformance)
    (hr : calculateToolsPerformance Runtime.stable env logs = .ok r)
    (hr' : calculateToolsPerformance (reversing .toolStats) env logs = .ok r')
    (t t' : String) (ht : t ∈ toolNames env logs) (ht' : t' ∈ toolNames env logs) (hne : t ≠ t')
    (hn : needsAttention (performance env logs t)) (hn' : needsAttention (performance env logs t'))
    (hpercent : errorPercent (performance env logs t) = errorPercent (performance env logs t')) :
    r ≠ r' := by
  intro heq
  obtain ⟨tools, hl, -, hneed⟩ := reversing_tools env logs r hr (heq ▸ hr')
  simp only [errorPercent] at hpercent
  refine sort_differ _ _ ((hl.nodup_iff.mpr (performance_nodup env logs)).filter _)
    (performance env logs t) (performance env logs t')
    (List.mem_filter.mpr ⟨hl.mem_iff.mpr (List.mem_map.mpr ⟨t, ht, rfl⟩), hn⟩)
    (List.mem_filter.mpr ⟨hl.mem_iff.mpr (List.mem_map.mpr ⟨t', ht', rfl⟩), hn'⟩)
    (performance_ne env logs t t' hne) ?_ ?_ hneed
  · omega
  · omega

theorem recentSessions_differ (r r' : List RecentSession)
    (hr : calculateRecentSessions Runtime.stable env logs = .ok r)
    (hr' : calculateRecentSessions (reversing .sessionData) env logs = .ok r')
    (s s' : String) (hs : s ∈ logs.filterMap getNormalizedSessionID)
    (hs' : s' ∈ logs.filterMap getNormalizedSessionID) (hne : s ≠ s')
    (hend : |sessionEnd logs s-sessionEnd logs s'| < 1000000) :
    r ≠ r' := by
  intro heq
  obtain ⟨m, hm, rfl⟩ := recentSessions_eq _ env logs r hr
  have hr'' := recentSessions_at _ env logs r' hr' m hm
  subst hr''
  have hgroups := sessionData_groups env logs m hm
  have hids : ((m.map (recentSession env)).map (fun r => r.sessionID)).Nodup := by
    rw [List.map_map]
    exact hgroups.nodup
  rw [reversing_self, List.map_reverse] at heq
  obtain ⟨e, he, rfl⟩ := List.mem_map.mp ((groups_key logs m hgroups s).mpr hs)
  obtain ⟨e', he', rfl⟩ := List.mem_map.mp ((groups_key logs m hgroups s').mpr hs')
  have hzero := (milliseconds_sub (recentSession env e').endedAt (recentSession env e).endedAt).1
  have hzero' := (milliseconds_sub (recentSession env e).endedAt (recentSession env e').endedAt).1
  rw [(recentSession_end env logs m hm e he).1, (recentSession_end env logs m hm e' he').1]
    at hzero hzero'
  refine sort_differ _ _ hids.of_map (recentSession env e) (recentSession env e')
    (List.mem_map.mpr ⟨e, he, rfl⟩) (List.mem_map.mpr ⟨e', he', rfl⟩) ?_ ?_ ?_ heq
  · exact fun h => hne (congrArg RecentSession.sessionID h)
  · rw [(recentSession_end env logs m hm e he).1, (recentSession_end env logs m hm e' he').1,
      hzero (abs_sub_comm (sessionEnd logs e.1) _ ▸ hend)]
  · rw [(recentSession_end env logs m hm e he).1, (recentSession_end env logs m hm e' he').1,
      hzero' hend]

/-- Runs with one map of calls and equal results have an equal entry for each tool. -/
theorem toolEntry_eq (rt rt' : Runtime) (toolData : GoMap ToolAnalyticsData)
    (hn : (toolData.map Prod.fst).Nodup)
    (hrt : logs.foldl (toolAnalyticsStep rt env) [] = toolData)
    (hrt' : logs.foldl (toolAnalyticsStep rt' env) [] = toolData)
    (h : calculateToolAnalytics rt env logs = calculateToolAnalytics rt' env logs)
    (e : String × ToolAnalyticsData) (he : e ∈ toolData) : toolEntry rt e = toolEntry rt' e := by
  have hmem : toolEntry rt e ∈ calculateToolAnalytics rt env logs := by
    rw [toolAnalytics_eq, hrt]
    exact (rt.sortFunc_perm _ _).mem_iff.mpr
      (List.mem_map.mpr ⟨e, (rt.order_perm _ _).mem_iff.mpr he, rfl⟩)
  rw [h, toolAnalytics_eq, hrt'] at hmem
  obtain ⟨e', he', heq⟩ := List.mem_map.mp ((rt'.sortFunc_perm _ _).mem_iff.mp hmem)
  have hee := toolEntry_name rt' rt toolData hn e' e ((rt'.order_perm _ _).mem_iff.mp he') he
    (congrArg McpTool.name heq)
  rw [← heq, hee]

def addArgument (m : GoMap (GoMap ℤ)) (a : String × String) : GoMap (GoMap ℤ) :=
  update m a.1 [] (fun values => update values a.2 0 (fun n => n+1))

theorem arguments_groups (as : List (String × String)) :
    Groups (fun a => some a.1) (fun _ => []) (fun a values => update values a.2 0 (fun n => n+1)) as
      (as.foldl addArgument []) :=
  groups_foldl addArgument (fun _ a => Or.inr ⟨a.1, rfl, rfl⟩) [] as [] (groups_nil _ _ _)

/-- The values of an argument in a map are those with which it was passed. -/
theorem values_groups (as : List (String × String)) (name : String) (values : GoMap ℤ)
    (h : (name, values) ∈ as.foldl addArgument []) :
    Groups (fun a : String × String => some a.2) (fun _ => 0) (fun _ n => n+1)
      (group (fun a => some a.1) name as) values := by
  rw [← groups_fold _ as _ (arguments_groups as) name values h]
  exact groups_foldl _ (fun _ (a : String × String) => Or.inr ⟨a.2, rfl, rfl⟩) [] _ []
    (groups_nil _ _ _)

theorem addCall_fold (bs : List MCPServerLog) (data : ToolAnalyticsData) :
    (bs.foldl (fun data log => addCall Runtime.stable env log data) data).arguments =
      (bs.flatMap (fun log => extractArguments env log.mcpRequest)).foldl addArgument
        data.arguments := by
  induction bs generalizing data with
  | nil => rfl
  | cons log bs ih =>
    rw [List.foldl_cons, ih, List.flatMap_cons, List.foldl_append]
    rfl

theorem toolData_arguments (t : String) (data : ToolAnalyticsData)
    (h : (t, data) ∈ logs.foldl (toolAnalyticsStep Runtime.stable env) []) :
    data.arguments = (callArguments env logs t).foldl addArgument [] := by
  rw [← groups_fold _ logs _ (toolData_groups Runtime.stable env logs) t data h, addCall_fold]
  rfl

theorem toolData_reversing (loop : MapLoop)
    (h : ∀ t calls, MapLoop.extractArguments t calls ≠ loop) :
    logs.foldl (toolAnalyticsStep (reversing loop) env) [] =
      logs.foldl (toolAnalyticsStep Runtime.stable env) [] := by
  congr 1
  funext m log
  simp only [toolAnalyticsStep, reversing_ne _ _ (h _ _)]
  rfl

/-- Where reversing a loop leaves the result alone, it leaves the entry of each tool alone. -/
theorem reversing_entry (loop : MapLoop)
    (hloop : ∀ t calls, MapLoop.extractArguments t calls ≠ loop)
    (h : calculateToolAnalytics Runtime.stable env logs =
      calculateToolAnalytics (reversing loop) env logs) (t : String) (ht : t ∈ toolNames env logs) :
    ∃ data : ToolAnalyticsData, data.arguments = (callArguments env logs t).foldl addArgument [] ∧
      toolEntry Runtime.stable (t, data) = toolEntry (reversing loop) (t, data) := by
  have hgroups := toolData_groups Runtime.stable env logs
  obtain ⟨⟨t', data⟩, he, rfl⟩ :=
    List.mem_map.mp ((groups_key logs _ hgroups t).mpr (List.mem_dedup.mp ht))
  exact ⟨data, toolData_arguments env logs t' data he, toolEntry_eq env logs _ _ _ hgroups.nodup rfl
    (toolData_reversing env logs loop hloop) h (t', data) he⟩

theorem mem_argumentNames (as : List (String × String)) (a : String × String) (ha : a ∈ as) :
    a.1 ∈ (as.foldl addArgument []).map Prod.fst := by
  rw [groups_key _ _ (arguments_groups as)]
  exact List.mem_filterMap.mpr ⟨a, ha, rfl⟩

theorem names_differ (t : String) (a a' : String × String) (ht : t ∈ toolNames env logs)
    (ha : a ∈ callArguments env logs t) (ha' : a' ∈ callArguments env logs t) (hne : a.1 ≠ a'.1) :
    calculateToolAnalytics Runtime.stable env logs ≠
      calculateToolAnalytics (reversing (.arguments t)) env logs := by
  intro heq
  obtain ⟨data, hdata, hentry⟩ := reversing_entry env logs _ (fun _ _ => by simp) heq t ht
  have hargs := congrArg (fun tool => tool.arguments.map (fun a => a.name)) hentry
  simp only [toolEntry, reversing_self, List.map_reverse, List.map_map] at hargs
  rw [hdata] at hargs
  exact reverse_ne _ (arguments_groups (callArguments env logs t)).nodup a.1 a'.1
    (mem_argumentNames _ a ha) (mem_argumentNames _ a' ha') hne hargs

theorem values_differ (t : String) (a a' : String × String) (ht : t ∈ toolNames env logs)
    (ha : a ∈ callArguments env logs t) (ha' : a' ∈ callArguments env logs t) (hname : a.1 = a'.1)
    (hne : a.2 ≠ a'.2) :
    calculateToolAnalytics Runtime.stable env logs ≠
      calculateToolAnalytics (reversing (.values t a.1)) env logs := by
  intro heq
  obtain ⟨data, hdata, hentry⟩ := reversing_entry env logs _ (fun _ _ => by simp) heq t ht
  have hargs : data.arguments.map (toolArgument Runtime.stable t) =
      data.arguments.map (toolArgument (reversing (.values t a.1)) t) :=
    congrArg McpTool.arguments hentry
  obtain ⟨⟨name, values⟩, hv, hnv⟩ := List.mem_map.mp (mem_argumentNames _ a ha)
  simp only at hnv
  subst hnv
  have hvalues := values_groups _ _ values hv
  rw [← hdata] at hv
  have hvs := congrArg (fun argument => argument.values.map (fun v => v.name))
    (List.map_inj_left.mp hargs _ hv)
  simp only [toolArgument, reversing_self, List.map_reverse, List.map_map] at hvs
  have hmem : ∀ b ∈ callArguments env logs t, b.1 = a.1 → b.2 ∈ values.map Prod.fst := by
    intro b hb hba
    rw [groups_key _ _ hvalues]
    exact List.mem_filterMap.mpr ⟨b, (mem_group _ _ _).mpr ⟨hb, by rw [hba]⟩, rfl⟩
  exact reverse_ne _ hvalues.nodup a.2 a'.2 (hmem a ha rfl) (hmem a' ha' hname.symm) hne hvs

end Differ

/-! ## When a reload changes nothing -/

section Reload
variable (env : Env) (currentLogs previousLogs : List MCPServerLog)

/-- In whichever orders the maps are iterated, one sort returns the same analytics. -/
def Reproducible : Prop :=
  ∀ rt rt' : Runtime, (∀ {α : Type} (cmp : α → α → ℤ) (l : List α),
    rt.sortFunc cmp l = rt'.sortFunc cmp l) →
    aggregateLogsToAnalyticsWithComparison rt env currentLogs previousLogs =
      aggregateLogsToAnalyticsWithComparison rt' env currentLogs previousLogs

theorem unambiguous_reproducible (hreq : ∀ log ∈ currentLogs++previousLogs, ¬ Unrequested log)
    (h : Unambiguous env currentLogs) : Reproducible env currentLogs previousLogs := by
  intro rt rt' _
  obtain ⟨a, ha⟩ := (aggregate_ok_iff rt env currentLogs previousLogs).mpr hreq
  obtain ⟨a', ha'⟩ := (aggregate_ok_iff rt' env currentLogs previousLogs).mpr hreq
  obtain ⟨ho, ht, hr, htools, hprompts, hclients⟩ := aggregate_assembled _ _ _ _ a ha
  obtain ⟨ho', ht', hr', htools', hprompts', hclients'⟩ := aggregate_assembled _ _ _ _ a' ha'
  have heq : a = a' := by
    cases a
    cases a'
    rw [ProjectAnalytics.mk.injEq]
    refine ⟨Except.ok.inj (ho.symm.trans ho'), ?_, ?_, hprompts.trans hprompts'.symm, ?_, ?_⟩
    · exact toolsPerformance_same rt rt' env currentLogs _ _ ht ht' h.topPerformingTools
        h.toolsRequiringAttention
    · exact htools.trans
        ((toolAnalytics_same rt rt' env currentLogs h.arguments).trans htools'.symm)
    · exact hclients.trans ((clients_same rt rt' env currentLogs h.clients).trans hclients'.symm)
    · exact recentSessions_same rt rt' env currentLogs _ _ hr hr' h.sessions
  rw [ha, ha', heq]

theorem reproducible_assembled (hreq : ∀ log ∈ currentLogs++previousLogs, ¬ Unrequested log)
    (h : Reproducible env currentLogs previousLogs) (loop : MapLoop) :
    ∃ a, Assembled Runtime.stable env currentLogs previousLogs a ∧
      Assembled (reversing loop) env currentLogs previousLogs a := by
  obtain ⟨a, ha⟩ := (aggregate_ok_iff Runtime.stable env currentLogs previousLogs).mpr hreq
  have hrev := h Runtime.stable (reversing loop) (fun _ _ => rfl)
  exact ⟨a, aggregate_assembled _ _ _ _ a ha, aggregate_assembled _ _ _ _ a (hrev ▸ ha)⟩

theorem reproducible_unambiguous (hreq : ∀ log ∈ currentLogs++previousLogs, ¬ Unrequested log)
    (h : Reproducible env currentLogs previousLogs) : Unambiguous env currentLogs := by
  have hassembled := reproducible_assembled env currentLogs previousLogs hreq h
  constructor
  · intro t ht t' ht' hne hcalls
    obtain ⟨a, ha, ha'⟩ := hassembled .toolStats
    by_contra hfew
    exact topPerformingTools_differ env currentLogs _ _ ha.toolsPerformance ha'.toolsPerformance
      t t' ht ht' hne hcalls (not_le.mp hfew) rfl
  · intro t ht t' ht' hne hn hn' hpercent
    obtain ⟨a, ha, ha'⟩ := hassembled .toolStats
    exact toolsRequiringAttention_differ env currentLogs _ _ ha.toolsPerformance
      ha'.toolsPerformance t t' ht ht' hne hn hn' hpercent rfl
  · intro t ht x hx x' hx'
    by_contra hne
    by_cases hname : x.1 = x'.1
    · obtain ⟨a, ha, ha'⟩ := hassembled (.values t x.1)
      have hvalue : x.2 ≠ x'.2 := fun hv => hne (Prod.ext hname hv)
      exact values_differ env currentLogs t x x' ht hx hx' hname hvalue
        (ha.toolAnalytics.symm.trans ha'.toolAnalytics)
    · obtain ⟨a, ha, ha'⟩ := hassembled (.arguments t)
      exact names_differ env currentLogs t x x' ht hx hx' hname
        (ha.toolAnalytics.symm.trans ha'.toolAnalytics)
  · intro c hc c' hc' hne hcount
    obtain ⟨a, ha, ha'⟩ := hassembled .clientUsage
    exact clients_differ env currentLogs c c' hc hc' hne hcount
      (ha.clientUsage.symm.trans ha'.clientUsage)
  · intro s hs s' hs' hne
    obtain ⟨a, ha, ha'⟩ := hassembled .sessionData
    by_contra hend
    exact recentSessions_differ env currentLogs _ _ ha.recentSessions ha'.recentSessions s s' hs hs'
      hne (not_le.mp hend) rfl

/-- A reload on unchanged logs changes nothing exactly if no two entries are tied. -/
theorem reload_iff (rt : Runtime) (a : ProjectAnalytics)
    (h : aggregateLogsToAnalyticsWithComparison rt env currentLogs previousLogs = .ok a) :
    Reproducible env currentLogs previousLogs ↔ Unambiguous env currentLogs := by
  have hreq := (aggregate_ok_iff rt env currentLogs previousLogs).mp ⟨a, h⟩
  exact ⟨reproducible_unambiguous env currentLogs previousLogs hreq,
    unambiguous_reproducible env currentLogs previousLogs hreq⟩

end Reload

def clientLog (userAgent sessionID : String) (startedAt : Time) : MCPServerLog where
  id := 1
  userAccountID := none
  mcpSessionID := some sessionID
  startedAt := startedAt
  duration := 0
  deploymentRevisionID := 9
  projectID := 7
  authTokenDigest := none
  mcpRequest := some ⟨"tools/list", none, none⟩
  mcpResponse := none
  userAgent := some userAgent
  httpStatusCode := some 200
  httpError := none

def oneClient : List MCPServerLog := [clientLog "cursor" "s1" 0, clientLog "cursor" "s2" 2000000]

def twoClients : List MCPServerLog := [clientLog "cursor" "s1" 0, clientLog "node" "s2" 2000000]

theorem clientLog_requested (userAgent sessionID : String) (startedAt : Time) :
    ¬ Unrequested (clientLog userAgent sessionID startedAt) := by
  rintro ⟨-, response, hresponse, -⟩
  cases hresponse

theorem oneClient_unambiguous : Unambiguous Env.demo oneClient := by
  have htools : toolNames Env.demo oneClient = ["tools/list"] := by decide
  have harguments : callArguments Env.demo oneClient "tools/list" = [] := by decide
  have hclients : clientNames Env.demo oneClient = ["cursor", "cursor"] := by decide
  have hsessions : oneClient.filterMap getNormalizedSessionID = ["s1", "s2"] := by decide
  have hend₁ : sessionEnd oneClient "s1" = 0 := by decide
  have hend₂ : sessionEnd oneClient "s2" = 2000000 := by decide
  constructor
  · simp [htools]
  · simp [htools]
  · simp [htools, harguments]
  · simp [hclients]
  · simp [hsessions, hend₁, hend₂]

theorem reload_demo : Reproducible Env.demo oneClient [] := by
  have hreq : ∀ log ∈ oneClient++[], ¬ Unrequested log := by
    simp [oneClient, clientLog_requested]
  obtain ⟨a, ha⟩ := (aggregate_ok_iff Runtime.stable Env.demo oneClient []).mpr hreq
  exact (reload_iff Env.demo oneClient [] Runtime.stable a ha).mpr oneClient_unambiguous

/-- The clients of the two requests change places. -/
theorem reload_reorders : (∃ a, aggregateLogsToAnalyticsWithComparison Runtime.stable Env.demo
    twoClients [] = .ok a) ∧ ¬ Reproducible Env.demo twoClients [] := by
  have hreq : ∀ log ∈ twoClients++[], ¬ Unrequested log := by
    simp [twoClients, clientLog_requested]
  refine ⟨(aggregate_ok_iff Runtime.stable Env.demo twoClients []).mpr hreq, fun h => ?_⟩
  have hclients := (reproducible_unambiguous Env.demo twoClients [] hreq h).clients
  have hnames : clientNames Env.demo twoClients = ["cursor", "node"] := by decide
  rw [hnames] at hclients
  exact hclients "cursor" (by simp) "node" (by simp) (by simp) (by decide)

end Jetski.AnalyticsOrder
