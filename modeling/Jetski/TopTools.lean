import Jetski.AnalyticsOrder

/-!
# The top performing tools

The tools are sorted by their calls alone, though they are meant to be ranked by
their successful calls and among equals by their latency. Both orders start with the
same tools exactly if no tool among those called most is outranked by one that is
called no more often.
-/

set_option autoImplicit false

namespace Jetski.TopTools

open Schema Jetski.Types Analytics Tally AnalyticsViews AnalyticsOrder StableSort

section Ranking
variable (env : Env) (logs : List MCPServerLog)

def callsOf (name : String) : List MCPServerLog := group (toolKey env) name logs

def successfulCalls (name : String) : ℤ :=
  (callsOf env logs name).length-(callsOf env logs name).countP (errored env)

def averageLatency (name : String) : ℤ :=
  (milliseconds (totalDuration (callsOf env logs name))).tdiv (callsOf env logs name).length

/-- By successful calls (descending) and then by average latency (ascending). -/
def Ranked (t t' : String) : Prop :=
  successfulCalls env logs t' < successfulCalls env logs t ∨
    (successfulCalls env logs t' = successfulCalls env logs t ∧
      averageLatency env logs t ≤ averageLatency env logs t')

instance (t t' : String) : Decidable (Ranked env logs t t') :=
  inferInstanceAs (Decidable (_ ∨ _ ∧ _))

/-- The first five of all operations in an order by rank. -/
def RankedFirst (tools : List PerformingTool) : Prop :=
  ∃ l : List PerformingTool, l.Perm ((toolNames env logs).map (performance env logs)) ∧
    l.Pairwise (fun a b => Ranked env logs a.name b.name) ∧ tools = l.take 5

/-- No operation is outranked by another that is called no more often, save where five
others are called more often. -/
def CallsRank : Prop :=
  ∀ t ∈ toolNames env logs, ∀ t' ∈ toolNames env logs, t ≠ t' →
    (callsOf env logs t').length ≤ (callsOf env logs t).length →
    (toolNames env logs).countP
      (fun s => (callsOf env logs t).length < (callsOf env logs s).length) < 5 →
    Ranked env logs t t'

instance : Decidable (CallsRank env logs) :=
  inferInstanceAs (Decidable (∀ t ∈ toolNames env logs, ∀ t' ∈ toolNames env logs, _ → _ → _ → _))

instance : Std.Total (fun a b : PerformingTool => Ranked env logs a.name b.name) where
  total a b := by
    simp only [Ranked]
    omega

instance : IsTrans PerformingTool (fun a b => Ranked env logs a.name b.name) where
  trans a b c := by
    simp only [Ranked]
    omega

/-- By calls (descending), the comparison of the code. -/
def Busier (a b : PerformingTool) : Prop := b.totalCalls-a.totalCalls ≤ 0

instance : DecidableRel Busier := fun _ _ => inferInstanceAs (Decidable (_ ≤ _))

instance : Std.Refl Busier := ⟨fun _ => by simp [Busier]⟩

theorem busier_performance (t t' : String) :
    Busier (performance env logs t) (performance env logs t') ↔
      (callsOf env logs t').length ≤ (callsOf env logs t).length := by
  change ((callsOf env logs t').length : ℤ)-(callsOf env logs t).length ≤ 0 ↔ _
  omega

theorem busier_count (tools : List PerformingTool)
    (h : tools.Perm ((toolNames env logs).map (performance env logs))) (t : String) :
    tools.countP (fun c => ¬ Busier (performance env logs t) c) = (toolNames env logs).countP
      (fun s => (callsOf env logs t).length < (callsOf env logs s).length) := by
  rw [h.countP_eq, List.countP_map]
  refine List.countP_congr fun s _ => ?_
  simp [busier_performance]

/-- Where the tools are sorted by calls, the order of these decides. -/
theorem ranked_of_calls (tools : List PerformingTool)
    (hl : tools.Perm ((toolNames env logs).map (performance env logs)))
    (hs : tools.Pairwise Busier) (h : CallsRank env logs) :
    RankedFirst env logs (tools.take 5) := by
  have hn := hl.nodup_iff.mpr (performance_nodup env logs)
  obtain ⟨l, hp, hranked, htake⟩ :=
    (take_resorted (fun a b => Ranked env logs a.name b.name) 5 tools hn).mpr (by
      intro a ha b hab
      have hb : b ∈ tools := hab.subset (by simp)
      have hfew := count_of_mem_take Busier 5 tools hs a ha
      have hbusier := List.pairwise_iff_forall_sublist.mp hs hab
      have hne : a ≠ b := by
        intro heq
        have hpair := hab.nodup hn
        simp [heq] at hpair
      obtain ⟨t, ht, rfl⟩ := List.mem_map.mp (hl.mem_iff.mp (List.mem_of_mem_take ha))
      obtain ⟨t', ht', rfl⟩ := List.mem_map.mp (hl.mem_iff.mp hb)
      rw [busier_count env logs tools hl] at hfew
      rw [busier_performance] at hbusier
      exact h t ht t' ht' (fun heq => hne (by rw [heq])) hbusier hfew)
  exact ⟨l, hp.trans hl, hranked, htake⟩

end Ranking

/-! ## An order of iteration for each tool -/

def startingAt (n : ℕ) : Runtime :=
  { Runtime.stable with
    order := fun loop _ l => if loop = .toolStats then l.rotate n else l
    order_perm := fun loop _ l => by
      split
      · exact l.rotate_perm n
      · exact .refl l }

theorem starting_with {α : Type} (l : List α) (a : α) (ha : a ∈ l) :
    ∃ n rest, (startingAt n).order .toolStats l = a::rest := by
  obtain ⟨s, t, rfl⟩ := List.append_of_mem ha
  refine ⟨s.length, t++s, ?_⟩
  change (s++a::t).rotate s.length = _
  rw [List.rotate_append_length_eq, List.cons_append]

section Run
variable (env : Env) (logs : List MCPServerLog)

/-- There is a run in which a given tool arrives first. -/
theorem first_arrives (m : GoMap ToolPerformanceStats) (hm : logs.foldlM (toolStep env) [] = .ok m)
    (t : String) (ht : t ∈ toolNames env logs) :
    ∃ n rest, allTools (startingAt n) m = performance env logs t::rest := by
  have hmem : performance env logs t ∈ m.map toolOf :=
    (tools_contents env logs Runtime.stable m hm).mem_iff.mpr (List.mem_map.mpr ⟨t, ht, rfl⟩)
  obtain ⟨e, he, hte⟩ := List.mem_map.mp hmem
  obtain ⟨n, rest, hrest⟩ := starting_with m e he
  exact ⟨n, rest.map toolOf, by rw [allTools, hrest, List.map_cons, hte]⟩

theorem stable_calls (l : List PerformingTool) :
    Runtime.stable.sortFunc (fun a b => b.totalCalls-a.totalCalls) l = l.insertionSort Busier := rfl

/-- The first tool that arrives is sorted before all others that are called no more often. -/
theorem ranked_first_tool (a : PerformingTool) (rest : List PerformingTool)
    (hl : (a::rest).Perm ((toolNames env logs).map (performance env logs)))
    (h : RankedFirst env logs
      ((Runtime.stable.sortFunc (fun a b => b.totalCalls-a.totalCalls) (a::rest)).take 5))
    (hfew : (a::rest).countP (fun c => ¬ Busier a c) < 5) (b : PerformingTool) (hb : b ∈ rest)
    (hab : Busier a b) : Ranked env logs a.name b.name := by
  rw [stable_calls] at h
  have hn := hl.nodup_iff.mpr (performance_nodup env logs)
  have hp := List.perm_insertionSort Busier (a::rest)
  have hn' := hp.nodup_iff.mpr hn
  have hahead : ∀ c ∈ rest, Busier a c → [a, c].Sublist ((a::rest).insertionSort Busier) := by
    intro c hc hac
    exact List.pair_sublist_insertionSort hac ((List.singleton_sublist.mpr hc).cons_cons a)
  have ha : a ∈ ((a::rest).insertionSort Busier).take 5 := by
    apply mem_take_of_count Busier 5 _ hn' a (hp.mem_iff.mpr (.head _))
    · intro c hc hca hac
      have hc' := (List.mem_cons.mp (hp.mem_iff.mp hc)).resolve_left hca
      exact hahead c hc' hac
    · rwa [hp.countP_eq]
  obtain ⟨l, hl', hranked, htake⟩ := h
  have hresorted := take_resorted (fun a b => Ranked env logs a.name b.name) 5 _ hn'
  have hperm : l.Perm ((a::rest).insertionSort Busier) := hl'.trans (hl.symm.trans hp.symm)
  exact hresorted.mp ⟨l, hperm, hranked, htake⟩ a ha b (hahead b hb hab)

theorem calls_of_ranked
    (h : ∀ rt, ∃ r, calculateToolsPerformance rt env logs = .ok r ∧
      RankedFirst env logs r.topPerformingTools) : CallsRank env logs := by
  intro t ht t' ht' hne hcalls hfew
  obtain ⟨r₀, hr₀, -⟩ := h Runtime.stable
  obtain ⟨m, hm, -⟩ := toolsPerformance_eq _ env logs r₀ hr₀
  obtain ⟨n, rest, hrest⟩ := first_arrives env logs m hm t ht
  obtain ⟨r, hr, hfirst⟩ := h (startingAt n)
  have htop := (toolsPerformance_at _ env logs r hr m hm).1
  have hl := tools_contents env logs (startingAt n) m hm
  rw [hrest] at hl
  rw [htop, hrest] at hfirst
  have hmem' := hl.mem_iff.mpr (List.mem_map.mpr ⟨t', ht', rfl⟩)
  have hb := (List.mem_cons.mp hmem').resolve_left (performance_ne env logs t' t hne.symm)
  apply ranked_first_tool env logs _ _ hl hfirst _ _ hb
  · exact (busier_performance env logs t t').mpr hcalls
  · rwa [busier_count env logs _ hl]

/-- In every order of iteration the tools come in the order of their rank exactly if this
agrees with the order of their calls. -/
theorem topTools_iff (h : ∀ log ∈ logs, ∃ e, isError env log = .ok e) :
    (∀ rt, ∃ r, calculateToolsPerformance rt env logs = .ok r ∧
      RankedFirst env logs r.topPerformingTools) ↔ CallsRank env logs := by
  constructor
  · exact calls_of_ranked env logs
  · intro hcalls rt
    obtain ⟨r, hr⟩ := toolsPerformance_ok rt env logs
      (fun log hlog => (isError_ok_iff env log).mp (h log hlog))
    obtain ⟨m, hm, htop, -⟩ := toolsPerformance_eq rt env logs r hr
    have hsorted := rt.sortFunc_sorted (fun a b => b.totalCalls-a.totalCalls) (allTools rt m)
      (orders_value _ (fun t => -t.totalCalls) (fun a b => by omega) _)
    have hp := rt.sortFunc_perm (fun a b => b.totalCalls-a.totalCalls) (allTools rt m)
    refine ⟨r, hr, ?_⟩
    rw [htop]
    exact ranked_of_calls env logs _ (hp.trans (tools_contents env logs rt m hm)) hsorted hcalls

end Run

/-! ## Failing calls -/

def callsWith (calls : List (String × ℤ)) : List MCPServerLog :=
  calls.map (fun c =>
    { id := 1, userAccountID := none, mcpSessionID := none, startedAt := 0, duration := 0
      deploymentRevisionID := 9, projectID := 7, authTokenDigest := none
      mcpRequest := some ⟨c.1, none, none⟩, mcpResponse := none, userAgent := none
      httpStatusCode := some c.2, httpError := none })

theorem callsWith_ok (calls : List (String × ℤ)) :
    ∀ log ∈ callsWith calls, ∃ e, isError Env.demo log = .ok e := by
  intro log hlog
  simp only [callsWith, List.mem_map] at hlog
  obtain ⟨c, -, rfl⟩ := hlog
  apply (isError_ok_iff _ _).mpr
  rintro ⟨-, response, hresponse, -⟩
  cases hresponse

theorem topTools_iff_demo : ∃ r,
    calculateToolsPerformance (startingAt 1) Env.demo
      (callsWith [("ping", 200), ("ping", 500), ("tools/list", 200), ("ping", 200)]) = .ok r ∧
    RankedFirst Env.demo
      (callsWith [("ping", 200), ("ping", 500), ("tools/list", 200), ("ping", 200)])
      r.topPerformingTools :=
  (topTools_iff Env.demo _ (callsWith_ok _)).mpr (by decide) (startingAt 1)

/-- An operation of which all calls fail comes before one of which fewer calls all succeed. -/
theorem failingCalls_first : ¬ ∀ rt, ∃ r,
    calculateToolsPerformance rt Env.demo
      (callsWith [("ping", 500), ("ping", 500), ("tools/list", 200)]) = .ok r ∧
    RankedFirst Env.demo (callsWith [("ping", 500), ("ping", 500), ("tools/list", 200)])
      r.topPerformingTools :=
  fun h => absurd (calls_of_ranked _ _ h) (by decide)

end Jetski.TopTools
