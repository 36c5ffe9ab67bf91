import Jetski.AnalyticsOrder

/-!
# Tool analytics

The maps of arguments and of their values are filled one argument of a call at a
time. A call passes each of its arguments once, so the usage of an argument is the
number of calls that pass it, in whatever order the arguments are taken.
-/

set_option autoImplicit false

namespace Jetski.ToolAnalytics

open Schema Jetski.Types Analytics Tally AnalyticsViews AnalyticsOrder

section Calls
variable (rt : Runtime) (env : Env)

def argumentNames (log : MCPServerLog) : List String :=
  (extractArguments env log.mcpRequest).map Prod.fst

/-- The arguments of all calls, in the order in which a run takes them. -/
theorem calls_fold (bs : List MCPServerLog) (data : ToolAnalyticsData) :
    ∃ as : List (String × String),
      as.Perm (bs.flatMap (fun log => extractArguments env log.mcpRequest)) ∧
      (bs.foldl (fun data log => addCall rt env log data) data).arguments =
        as.foldl addArgument data.arguments := by
  induction bs generalizing data with
  | nil => exact ⟨[], .refl _, rfl⟩
  | cons log bs ih =>
    obtain ⟨as, hperm, hfold⟩ := ih (addCall rt env log data)
    refine ⟨rt.order (.extractArguments (extractToolName env log.mcpRequest) data.calls)
      (extractArguments env log.mcpRequest)++as, ?_, ?_⟩
    · rw [List.flatMap_cons]
      exact (rt.order_perm _ _).append hperm
    · rw [List.foldl_cons, hfold, List.foldl_append]
      rfl

/-- A call passes an argument once or not at all. -/
theorem names_count (bs : List MCPServerLog) (name : String) :
    ((bs.flatMap (fun log => extractArguments env log.mcpRequest)).map Prod.fst).count name =
      bs.countP (fun log => name ∈ argumentNames env log) := by
  induction bs with
  | nil => rfl
  | cons log bs ih =>
    have hnodup : (argumentNames env log).Nodup := extractArguments_nodup env log.mcpRequest
    rw [List.flatMap_cons, List.map_append, List.count_append, ih, List.countP_cons,
      Nat.add_comm]
    congr 1
    change (argumentNames env log).count name = _
    by_cases h : name ∈ argumentNames env log
    · simp [List.count_eq_one_of_mem hnodup h, h]
    · simp [List.count_eq_zero_of_not_mem h, h]

variable (logs : List MCPServerLog)

theorem toolData_calls (t : String) (data : ToolAnalyticsData)
    (h : (t, data) ∈ logs.foldl (toolAnalyticsStep rt env) []) :
    data.calls = (group (toolKey env) t logs).length :=
  folded_count (fun data => data.calls) (fun _ => rfl) (fun _ _ => rfl) _ data
    ((groups_entry logs _ (toolData_groups rt env logs) t data).mp h)

theorem toolData_passed (t : String) (data : ToolAnalyticsData)
    (h : (t, data) ∈ logs.foldl (toolAnalyticsStep rt env) []) :
    ∃ as : List (String × String), as.Perm (callArguments env logs t) ∧
      data.arguments = as.foldl addArgument [] := by
  obtain ⟨as, hperm, hfold⟩ := calls_fold rt env (group (toolKey env) t logs) {}
  have hdata := groups_fold _ logs _ (toolData_groups rt env logs) t data h
  rw [hdata] at hfold
  exact ⟨as, hperm, hfold⟩

end Calls

/-! ## The entries -/

section Entries
variable (rt : Runtime) (env : Env) (logs : List MCPServerLog)

/-- The entry of an argument in the given calls of a tool. -/
structure Counts (bs : List MCPServerLog) (a : ToolArgument) : Prop where
  usage : a.usageCount = bs.countP (fun log => a.name ∈ argumentNames env log)
  values : a.usageCount = (a.values.map (fun v => v.count)).sum
  names : (a.values.map (fun v => v.name)).Nodup
  positive : ∀ v ∈ a.values, 0 < v.count

/-- The entry of a tool with the given calls. -/
structure Describes (bs : List MCPServerLog) (tool : McpTool) : Prop where
  calls : tool.calls = bs.length
  names : (tool.arguments.map (fun a => a.name)).Nodup
  arguments : ∀ name, name ∈ tool.arguments.map (fun a => a.name) ↔
    ∃ log ∈ bs, name ∈ argumentNames env log
  counts : ∀ a ∈ tool.arguments, Counts env bs a ∧ a.usageCount ≤ tool.calls

theorem argument_counts (t : String) (as : List (String × String))
    (has : as.Perm (callArguments env logs t)) (entry : String × GoMap ℤ)
    (h : entry ∈ as.foldl addArgument []) :
    Counts env (group (toolKey env) t logs) (toolArgument rt t entry) := by
  obtain ⟨name, values⟩ := entry
  have hvalues := values_groups as name values h
  have htotal := groups_total (fun n : ℤ => n) (fun _ => rfl) (fun _ _ => rfl) _ values hvalues
  have hkeys : ∀ bs : List (String × String), bs.filterMap (fun a => some a.1) = bs.map Prod.fst :=
    fun bs => congrFun List.filterMap_eq_map' bs
  have hlength : ((group (fun a : String × String => some a.1) name as).filterMap
      (fun a => some a.2)).length =
        (group (toolKey env) t logs).countP (fun log => name ∈ argumentNames env log) := by
    rw [← names_count, List.filterMap_eq_map', List.length_map, group_length, hkeys,
      (has.map Prod.fst).count_eq]
    rfl
  have hperm := (rt.order_perm (.values t name) values).map
    (fun v => (⟨v.1, v.2⟩ : ArgumentValue))
  constructor
  · exact (htotal.trans (congrArg Nat.cast hlength))
  · have hsum := (hperm.map (fun v => v.count)).sum_eq
    rw [List.map_map, List.map_map] at hsum
    exact hsum.symm.trans (by simp [toolArgument, Function.comp_def])
  · have hnames := hperm.map (fun v => v.name)
    rw [List.map_map (l := values)] at hnames
    exact hnames.nodup_iff.mpr hvalues.nodup
  · intro v hv
    obtain ⟨⟨value, n⟩, hmem, rfl⟩ := List.mem_map.mp (hperm.mem_iff.mp hv)
    have hcount := groups_count (fun n : ℤ => n) (fun _ => rfl) (fun _ _ => rfl) _ values hvalues
      value n hmem
    have hkey := (groups_key _ values hvalues value).mp (List.mem_map.mpr ⟨_, hmem, rfl⟩)
    have hpos := List.count_pos_iff.mpr hkey
    change 0 < n
    omega

theorem tool_describes (t : String) (data : ToolAnalyticsData)
    (h : (t, data) ∈ logs.foldl (toolAnalyticsStep rt env) []) :
    Describes env (group (toolKey env) t logs) (toolEntry rt (t, data)) := by
  obtain ⟨as, has, hdata⟩ := toolData_passed rt env logs t data h
  have hgroups := arguments_groups as
  rw [← hdata] at hgroups
  have hperm := (rt.order_perm (.arguments t) data.arguments).map (toolArgument rt t)
  have hcalls := toolData_calls rt env logs t data h
  have hnames := hperm.map (fun a => a.name)
  rw [List.map_map (l := data.arguments)] at hnames
  constructor
  · exact hcalls
  · exact hnames.nodup_iff.mpr hgroups.nodup
  · intro name
    rw [toolEntry, hnames.mem_iff]
    refine (groups_key as _ hgroups name).trans ?_
    rw [List.filterMap_eq_map', (has.map Prod.fst).mem_iff, callArguments, List.map_flatMap,
      List.mem_flatMap]
    rfl
  · intro a ha
    obtain ⟨entry, he, rfl⟩ := List.mem_map.mp (hperm.mem_iff.mp ha)
    have hcounts := argument_counts rt env logs t as has entry (hdata ▸ he)
    refine ⟨hcounts, ?_⟩
    have hle := List.countP_le_length (p := fun log => (toolArgument rt t entry).name ∈
      argumentNames env log) (l := group (toolKey env) t logs)
    rw [hcounts.usage]
    change _ ≤ data.calls
    rw [hcalls]
    exact Int.ofNat_le.mpr hle

/-- The tools come in the order of their names, one for each name of an operation,
with what the calls of the tool say. -/
theorem toolAnalytics_contents :
    ((calculateToolAnalytics rt env logs).map (fun tool => tool.name)).Pairwise (· < ·) ∧
      (∀ t, t ∈ (calculateToolAnalytics rt env logs).map (fun tool => tool.name) ↔
        t ≠ "" ∧ ∃ log ∈ logs, extractToolName env log.mcpRequest = t) ∧
      ∀ tool ∈ calculateToolAnalytics rt env logs,
        Describes env (logs.filter (fun log => extractToolName env log.mcpRequest = tool.name))
          tool := by
  have hgroups := toolData_groups rt env logs
  have hperm := (rt.sortFunc_perm (fun a b : McpTool => compareStrings a.name b.name) _).trans
    ((rt.order_perm .toolData (logs.foldl (toolAnalyticsStep rt env) [])).map (toolEntry rt))
  rw [← toolAnalytics_eq] at hperm
  have hnames := hperm.map (fun tool => tool.name)
  rw [List.map_map] at hnames
  have hkey : ∀ (log : MCPServerLog) t, toolKey env log = some t ↔
      t ≠ "" ∧ extractToolName env log.mcpRequest = t := by
    intro log t
    rw [toolKey]
    by_cases hn : extractToolName env log.mcpRequest = ""
    · rw [if_pos hn, hn]
      simp
    · rw [if_neg hn, Option.some.injEq]
      exact ⟨fun h => ⟨h ▸ hn, h⟩, fun h => h.2⟩
  have hmem : ∀ t, t ∈ (calculateToolAnalytics rt env logs).map (fun tool => tool.name) ↔
      t ≠ "" ∧ ∃ log ∈ logs, extractToolName env log.mcpRequest = t := by
    intro t
    refine (hnames.mem_iff.trans (groups_key logs _ hgroups t)).trans ?_
    rw [List.mem_filterMap]
    simp only [hkey]
    constructor
    · rintro ⟨log, hlog, ht, hname⟩
      exact ⟨ht, log, hlog, hname⟩
    · rintro ⟨ht, log, hlog, hname⟩
      exact ⟨log, hlog, ht, hname⟩
  refine ⟨?_, hmem, fun tool htool => ?_⟩
  · have hsorted := rt.sortFunc_sorted (fun a b : McpTool => compareStrings a.name b.name) _
      (compareStrings_orders ((rt.order .toolData (logs.foldl (toolAnalyticsStep rt env) [])).map
        (toolEntry rt)))
    rw [← toolAnalytics_eq] at hsorted
    have hle : ((calculateToolAnalytics rt env logs).map (fun tool => tool.name)).Pairwise
        (· ≤ ·) := by
      rw [List.pairwise_map]
      exact hsorted.imp fun h => (compareStrings_le _ _).mp h
    have hne := hnames.nodup_iff.mpr hgroups.nodup
    exact hle.imp₂ (fun _ _ => lt_of_le_of_ne) hne
  · have hname := ((hmem tool.name).mp (List.mem_map.mpr ⟨tool, htool, rfl⟩)).1
    obtain ⟨⟨t, data⟩, he, rfl⟩ := List.mem_map.mp (hperm.mem_iff.mp htool)
    have hgroup : logs.filter (fun log => extractToolName env log.mcpRequest = t) =
        group (toolKey env) t logs := by
      refine List.filter_congr fun log _ => ?_
      have ht : t ≠ "" := hname
      simp [hkey, ht]
    refine Eq.mpr (congrArg (fun bs => Describes env bs _) hgroup) ?_
    exact tool_describes rt env logs t data he

end Entries

end Jetski.ToolAnalytics
