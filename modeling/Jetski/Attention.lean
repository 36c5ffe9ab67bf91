import Jetski.Latency
import Jetski.Rounding

/-!
# The tools that require attention

Whether a tool is listed, and where, depends on its error rate in double precision. The
thresholds are met exactly, but three whole percentages come out one too small, so that
tools with such a rate are taken to be tied with tools below them.
-/

set_option autoImplicit false

namespace Jetski.Attention

open Schema Jetski.Types Analytics Tally AnalyticsViews AnalyticsOrder TopTools Latency Rounding

section Rates
variable (env : Env) (logs : List MCPServerLog)

def errors (t : String) : ℕ := (callsOf env logs t).countP (errored env)

def calls (t : String) : ℕ := (callsOf env logs t).length

def rate (t : String) : ℚ := (errors env logs t : ℚ)/calls env logs t

def percent (t : String) : ℤ := ⌊rate env logs t*100⌋

/-- More than one in twenty calls are errors, or they take more than a second on average. -/
def Requires (t : String) : Prop :=
  1/20 < rate env logs t ∨ 1000 < meanLatency (callsOf env logs t)

instance (t : String) : Decidable (Requires env logs t) := inferInstanceAs (Decidable (_ ∨ _))

/-- Each tool that requires attention once, in the order of the percentages. -/
def AttentionExact (tools : List PerformingTool) : Prop :=
  tools.Perm (((toolNames env logs).filter (fun t => Requires env logs t)).map
    (performance env logs)) ∧
    tools.Pairwise (fun a b => percent env logs a.name ≤ percent env logs b.name)

/-- Double precision neither misses the threshold nor turns the order around. -/
structure DoublesAgree : Prop where
  threshold : ∀ t ∈ toolNames env logs, meanLatency (callsOf env logs t) ≤ 1000 →
    (float64 (5/100) < doubleRate (errors env logs t) (calls env logs t) ↔
      1/20 < rate env logs t)
  order : ∀ t ∈ toolNames env logs, ∀ t' ∈ toolNames env logs,
    Requires env logs t → Requires env logs t' →
    doublePercent (errors env logs t) (calls env logs t) ≤
      doublePercent (errors env logs t') (calls env logs t') →
    percent env logs t ≤ percent env logs t'

/-- No tool has a rate of 29, 57 or 58 percent while the next smaller percentage is that
of a tool with another rate. -/
def NoneLowered : Prop := ∀ t ∈ toolNames env logs, ∀ t' ∈ toolNames env logs,
  LoweredRate (rate env logs t) → ¬ LoweredRate (rate env logs t') →
  percent env logs t' ≠ percent env logs t-1

instance : Decidable (NoneLowered env logs) :=
  inferInstanceAs (Decidable (∀ t ∈ toolNames env logs, ∀ t' ∈ toolNames env logs, _ → _ → _))

/-! ## Few calls -/

theorem errors_le (t : String) : errors env logs t ≤ calls env logs t := List.countP_le_length

theorem calls_pos (t : String) (ht : t ∈ toolNames env logs) : 0 < calls env logs t :=
  List.length_pos_iff.mpr (performance_latency env logs t ht).2

/-- An operation with a rate that is lowered has more than one error in twenty calls. -/
theorem lowered_requires (t : String) (h : LoweredRate (rate env logs t)) :
    28 ≤ percent env logs t-1 ∧ Requires env logs t := by
  have hlarge : (29 : ℚ)/100 ≤ rate env logs t := by
    rcases h with h | h | h
    · rw [h]
    · rw [h]
      norm_num
    · rw [h]
      norm_num
  constructor
  · have hfloor : 29 ≤ ⌊rate env logs t*100⌋ := by
      rw [Int.le_floor]
      push_cast
      linarith
    rw [percent]
    omega
  · refine Or.inl (lt_of_lt_of_le ?_ hlarge)
    norm_num

theorem percent_requires (t : String) (h : 28 ≤ percent env logs t) : Requires env logs t := by
  rw [percent, Int.le_floor] at h
  push_cast at h
  exact Or.inl (by linarith)

variable (hsmall : ∀ t ∈ toolNames env logs, calls env logs t ≤ 2^44)
include hsmall

theorem doublePercent_calls (t : String) (ht : t ∈ toolNames env logs) :
    doublePercent (errors env logs t) (calls env logs t) =
      percent env logs t-if LoweredRate (rate env logs t) then 1 else 0 :=
  doublePercent_eq _ _ (errors_le env logs t) (calls_pos env logs t ht) (hsmall t ht)

theorem doubles_agree_small : DoublesAgree env logs ↔ NoneLowered env logs := by
  constructor
  · intro h t ht t' ht' hlowered hother hnext
    obtain ⟨hlarge, hrequires⟩ := lowered_requires env logs t hlowered
    have hrequires' := percent_requires env logs t' (by omega)
    have horder := h.order t ht t' ht' hrequires hrequires'
    rw [doublePercent_calls env logs hsmall t ht, doublePercent_calls env logs hsmall t' ht',
      if_pos hlowered, if_neg hother] at horder
    omega
  · intro h
    constructor
    · intro t ht _
      exact threshold_small _ _ (errors_le env logs t) (calls_pos env logs t ht) (hsmall t ht)
    · intro t ht t' ht' _ _ hdouble
      rw [doublePercent_calls env logs hsmall t ht,
        doublePercent_calls env logs hsmall t' ht'] at hdouble
      by_cases hlowered : LoweredRate (rate env logs t)
      · by_cases hother : LoweredRate (rate env logs t')
        · rw [if_pos hlowered, if_pos hother] at hdouble
          omega
        · have hne := h t ht t' ht' hlowered hother
          rw [if_pos hlowered, if_neg hother] at hdouble
          omega
      · rw [if_neg hlowered] at hdouble
        split at hdouble <;> omega

end Rates

/-! ## Runs -/

section Runs
variable (env : Env) (logs : List MCPServerLog)

theorem performance_rate (t : String) (ht : t ∈ toolNames env logs) :
    (performance env logs t).errorRate = doubleRate (errors env logs t) (calls env logs t) := by
  have hcalls : (0 : ℤ) < calls env logs t := by
    have := calls_pos env logs t ht
    omega
  rw [doubleRate, ← Int.cast_natCast (R := ℚ), ← Int.cast_natCast (R := ℚ)]
  exact if_pos hcalls

theorem performance_percent (t : String) (ht : t ∈ toolNames env logs) :
    errorPercent (performance env logs t) =
      doublePercent (errors env logs t) (calls env logs t) := by
  rw [errorPercent, performance_rate env logs t ht, doublePercent]

/-- By percentage (ascending), the comparison of the code. -/
def Milder (a b : PerformingTool) : Prop :=
  trunc (float64 (a.errorRate*100))-trunc (float64 (b.errorRate*100)) ≤ 0

instance : DecidableRel Milder := fun _ _ => inferInstanceAs (Decidable (_ ≤ _))

theorem milder_iff (a b : PerformingTool) : Milder a b ↔ errorPercent a ≤ errorPercent b := by
  rw [Milder, errorPercent, errorPercent]
  omega

theorem milder_performance (t t' : String) (ht : t ∈ toolNames env logs)
    (ht' : t' ∈ toolNames env logs) : Milder (performance env logs t) (performance env logs t') ↔
      doublePercent (errors env logs t) (calls env logs t) ≤
        doublePercent (errors env logs t') (calls env logs t') := by
  rw [milder_iff, performance_percent env logs t ht, performance_percent env logs t' ht']

theorem attention_needs (tools listed : List PerformingTool)
    (hl : tools.Perm ((toolNames env logs).map (performance env logs)))
    (hlisted : listed.Perm (tools.filter needsAttention)) (h : AttentionExact env logs listed)
    (t : String) (ht : t ∈ toolNames env logs) :
    needsAttention (performance env logs t) ↔ Requires env logs t := by
  have hmem := (hlisted.symm.trans h.1).mem_iff (a := performance env logs t)
  have ht' := hl.mem_iff.mpr (List.mem_map.mpr ⟨t, ht, rfl⟩)
  rw [List.mem_filter, List.mem_map] at hmem
  constructor
  · intro hneeds
    obtain ⟨s, hs, heq⟩ := hmem.mp ⟨ht', hneeds⟩
    have hst : s = t := congrArg PerformingTool.name heq
    rw [hst, List.mem_filter] at hs
    exact of_decide_eq_true hs.2
  · intro hrequires
    exact (hmem.mpr ⟨t, List.mem_filter.mpr ⟨ht, decide_eq_true hrequires⟩, rfl⟩).2

/-- The first tool that arrives is listed before all that are not sorted before it. -/
theorem first_listed (n : ℕ) (a b : PerformingTool) (rest : List PerformingTool)
    (ha : needsAttention a) (hb : needsAttention b) (hmem : b ∈ rest) (hab : Milder a b) :
    [a, b].Sublist ((startingAt n).sortFunc
      (fun a b => trunc (float64 (a.errorRate*100))-trunc (float64 (b.errorRate*100)))
      ((a::rest).filter needsAttention)) := by
  have hrest : b ∈ rest.filter needsAttention := List.mem_filter.mpr ⟨hmem, hb⟩
  have hpair := (List.singleton_sublist.mpr hrest).cons_cons a
  rw [List.filter_cons_of_pos ha]
  exact List.pair_sublist_insertionSort (r := Milder) hab hpair

variable (hpos : ∀ log ∈ logs, 0 ≤ log.duration.toInt)
  (hfit : ∀ t ∈ toolNames env logs, exactSum (callsOf env logs t) < 2^63)
include hpos hfit

theorem needs_iff (t : String) (ht : t ∈ toolNames env logs) :
    needsAttention (performance env logs t) ↔
      float64 (5/100) < doubleRate (errors env logs t) (calls env logs t) ∨
        1000 < meanLatency (callsOf env logs t) := by
  obtain ⟨hlatency, hcalls⟩ := performance_latency env logs t ht
  have haverage := (average_iff _ hcalls (calls_nonneg env logs hpos t)).mpr
    (Or.inl (hfit t ht))
  rw [needsAttention, decide_eq_true_eq, performance_rate env logs t ht, hlatency,
    averageLatency, haverage.mean]

/-- The listed tools are those that require attention exactly if no rate misses the
threshold. -/
theorem needs_requires_iff (t : String) (ht : t ∈ toolNames env logs) :
    (needsAttention (performance env logs t) ↔ Requires env logs t) ↔
      (meanLatency (callsOf env logs t) ≤ 1000 →
        (float64 (5/100) < doubleRate (errors env logs t) (calls env logs t) ↔
          1/20 < rate env logs t)) := by
  rw [needs_iff env logs hpos hfit t ht, Requires]
  by_cases hslow : 1000 < meanLatency (callsOf env logs t)
  · simp [hslow]
  · simp [hslow, not_lt.mp hslow]

theorem listed_perm (tools : List PerformingTool)
    (hl : tools.Perm ((toolNames env logs).map (performance env logs)))
    (h : DoublesAgree env logs) : (tools.filter needsAttention).Perm
      (((toolNames env logs).filter (fun t => Requires env logs t)).map
        (performance env logs)) := by
  have hfilter := hl.filter needsAttention
  rw [List.filter_map] at hfilter
  refine hfilter.trans (List.Perm.of_eq (congrArg _ (List.filter_congr fun t ht => ?_)))
  have hneeds := (needs_requires_iff env logs hpos hfit t ht).mpr (h.threshold t ht)
  rw [Function.comp_apply, Bool.eq_iff_iff, hneeds, decide_eq_true_eq]

theorem exact_of_agree (h : DoublesAgree env logs) (rt : Runtime) (r : ToolsPerformance)
    (hr : calculateToolsPerformance rt env logs = .ok r) :
    AttentionExact env logs r.toolsRequiringAttention := by
  obtain ⟨m, hm, -, hneed⟩ := toolsPerformance_eq rt env logs r hr
  have hl := tools_contents env logs rt m hm
  have hsorted := rt.sortFunc_sorted _ ((allTools rt m).filter needsAttention)
    (orders_value _ errorPercent (fun a b => milder_iff a b) _)
  have hlisted := (rt.sortFunc_perm (fun a b : PerformingTool => trunc (float64 (a.errorRate*100))-
    trunc (float64 (b.errorRate*100))) _).trans (listed_perm env logs hpos hfit _ hl h)
  rw [hneed]
  refine ⟨hlisted, hsorted.imp_of_mem ?_⟩
  intro a b ha hb hab
  obtain ⟨t, ht, rfl⟩ := List.mem_map.mp (hlisted.mem_iff.mp ha)
  obtain ⟨t', ht', rfl⟩ := List.mem_map.mp (hlisted.mem_iff.mp hb)
  rw [List.mem_filter, decide_eq_true_eq] at ht ht'
  exact h.order t ht.1 t' ht'.1 ht.2 ht'.2
    ((milder_performance env logs t t' ht.1 ht'.1).mp hab)

theorem agree_of_exact
    (h : ∀ rt, ∃ r, calculateToolsPerformance rt env logs = .ok r ∧
      AttentionExact env logs r.toolsRequiringAttention) : DoublesAgree env logs := by
  obtain ⟨r₀, hr₀, hexact₀⟩ := h Runtime.stable
  obtain ⟨m, hm, -, hneed₀⟩ := toolsPerformance_eq _ env logs r₀ hr₀
  have hl₀ := tools_contents env logs Runtime.stable m hm
  rw [hneed₀] at hexact₀
  have hneeds := attention_needs env logs _ _ hl₀ (Runtime.stable.sortFunc_perm _ _) hexact₀
  constructor
  · intro t ht
    exact (needs_requires_iff env logs hpos hfit t ht).mp (hneeds t ht)
  · intro t ht t' ht' hrequires hrequires' hdouble
    by_cases heq : t = t'
    · rw [heq]
    · obtain ⟨n, rest, hrest⟩ := first_arrives env logs m hm t ht
      obtain ⟨r, hr, hexact⟩ := h (startingAt n)
      have hneed := (toolsPerformance_at _ env logs r hr m hm).2
      have hl := tools_contents env logs (startingAt n) m hm
      rw [hrest] at hl
      rw [hrest] at hneed
      have hmem' := hl.mem_iff.mpr (List.mem_map.mpr ⟨t', ht', rfl⟩)
      have hlater := (List.mem_cons.mp hmem').resolve_left
        (performance_ne env logs t' t (fun h => heq h.symm))
      have hpair := first_listed n _ _ _ ((hneeds t ht).mpr hrequires)
        ((hneeds t' ht').mpr hrequires') hlater
        ((milder_performance env logs t t' ht ht').mpr hdouble)
      have hsorted := hexact.2
      rw [hneed] at hsorted
      have hle := List.pairwise_iff_forall_sublist.mp hsorted hpair
      exact hle

/-- In every order of iteration the tools that require attention are listed in the order
of their error rates exactly if double precision neither misses the threshold nor turns
the order around; with few calls, if no percentage that it lowers meets the next one. -/
theorem attention_exact_iff (hok : ∀ log ∈ logs, ∃ e, isError env log = .ok e) :
    ((∀ rt, ∃ r, calculateToolsPerformance rt env logs = .ok r ∧
      AttentionExact env logs r.toolsRequiringAttention) ↔ DoublesAgree env logs) ∧
      ((∀ t ∈ toolNames env logs, calls env logs t ≤ 2^44) →
        (DoublesAgree env logs ↔ NoneLowered env logs)) := by
  constructor
  · constructor
    · exact agree_of_exact env logs hpos hfit
    · intro h rt
      obtain ⟨r, hr⟩ := toolsPerformance_ok rt env logs
        (fun log hlog => (isError_ok_iff env log).mp (hok log hlog))
      exact ⟨r, hr, exact_of_agree env logs hpos hfit h rt r hr⟩
  · exact doubles_agree_small env logs

end Runs

/-! ## A rate of 29 percent -/

theorem attention_exact_demo : ∃ r,
    calculateToolsPerformance (startingAt 1) Env.demo
      (callsWith [("ping", 500), ("tools/list", 200), ("ping", 200), ("initialize", 500)]) = .ok r ∧
    AttentionExact Env.demo
      (callsWith [("ping", 500), ("tools/list", 200), ("ping", 200), ("initialize", 500)])
      r.toolsRequiringAttention := by
  have hiff := attention_exact_iff Env.demo
    (callsWith [("ping", 500), ("tools/list", 200), ("ping", 200), ("initialize", 500)])
    (by decide) (by decide) (callsWith_ok _)
  exact hiff.1.mpr ((hiff.2 (by decide)).mpr (by decide +kernel)) (startingAt 1)

def nearRates : List MCPServerLog :=
  callsWith (List.replicate 29 ("ping", 500)++List.replicate 71 ("ping", 200)++
    List.replicate 2 ("tools/list", 500)++List.replicate 5 ("tools/list", 200))

/-- The larger of the two rates can be listed first. -/
theorem nearRates_turned : ¬ ∀ rt, ∃ r,
    calculateToolsPerformance rt Env.demo nearRates = .ok r ∧
      AttentionExact Env.demo nearRates r.toolsRequiringAttention := by
  intro h
  have hagree := agree_of_exact Env.demo nearRates (by decide +kernel) (by decide +kernel) h
  have hnone := (doubles_agree_small Env.demo nearRates (by decide +kernel)).mp hagree
  exact absurd hnone (by decide +kernel)

end Jetski.Attention
