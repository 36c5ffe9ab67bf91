import Jetski.TopTools

/-!
# Average latencies

Durations are added in 64 bits and their sum is divided twice. For durations that are
not negative both divisions round down, so that the average is the mean rounded once,
unless the sum wraps around.
-/

set_option autoImplicit false

namespace Jetski.Latency

open Schema Jetski.Types Analytics Tally AnalyticsViews AnalyticsOrder TopTools

/-! ## The quotient of a wrapped sum -/

theorem quotient_nonneg (w : ℤ) (hw : 0 ≤ w) (n : ℕ) :
    (w.tdiv 1000000).tdiv n = w/(1000000*n) := by
  rw [Int.tdiv_eq_ediv_of_nonneg hw, Int.tdiv_eq_ediv_of_nonneg (Int.ediv_nonneg hw (by omega)),
    Int.ediv_ediv_of_nonneg (by omega)]

theorem quotient_neg (w : ℤ) (hw : w ≤ 0) (n : ℕ) :
    (w.tdiv 1000000).tdiv n = -(-w/(1000000*n)) := by
  have hquotient := quotient_nonneg (-w) (by omega) n
  rw [Int.neg_tdiv, Int.neg_tdiv] at hquotient
  omega

/-- A sum outside of the range of 64 bits has another quotient, unless it is zero. -/
theorem quotient_iff (s : ℤ) (hs : 0 ≤ s) (n : ℕ) (hn : 0 < n) :
    ((s.bmod (2^64)).tdiv 1000000).tdiv n = s/(1000000*n) ↔ s < 2^63 ∨ s < 1000000*n := by
  have hlow := Int.le_bmod (x := s) (m := 2^64) (by decide)
  have hhigh := Int.bmod_lt (x := s) (m := 2^64) (by decide)
  have hwrap := Int.bmod_add_bdiv s (2^64)
  generalize hw : s.bmod (2^64) = w at hlow hhigh hwrap ⊢
  have hd : (0 : ℤ) < 1000000*n := by omega
  generalize hdd : (1000000 : ℤ)*n = d at hd ⊢
  by_cases hfit : s < 2^63
  · have hid : w = s := by omega
    rw [hid, quotient_nonneg s hs, hdd]
    exact ⟨fun _ => Or.inl hfit, fun _ => rfl⟩
  · by_cases hsmall : s < d
    · have hzero : (w.tdiv 1000000).tdiv n = 0 := by
        rcases le_total 0 w with h | h
        · rw [quotient_nonneg w h, hdd]
          exact Int.ediv_eq_zero_of_lt h (by omega)
        · rw [quotient_neg w h, hdd, Int.ediv_eq_zero_of_lt (by omega) (by omega), neg_zero]
      rw [hzero, Int.ediv_eq_zero_of_lt hs hsmall]
      simp [hsmall]
    · simp only [hfit, hsmall, or_self, iff_false]
      have hone : 1 ≤ s/d := (Int.le_ediv_iff_mul_le hd).mpr (by omega)
      rcases le_total 0 w with h | h
      · rw [quotient_nonneg w h, hdd]
        by_cases hlarge : d ≤ 2^64
        · have hnext : (w+1*d)/d ≤ s/d := Int.ediv_le_ediv hd (by omega)
          rw [Int.add_mul_ediv_right _ _ (by omega)] at hnext
          omega
        · rw [Int.ediv_eq_zero_of_lt h (by omega)]
          omega
      · rw [quotient_neg w h, hdd]
        have hnonneg := Int.ediv_nonneg (a := -w) (b := d) (by omega) (by omega)
        omega

/-! ## The mean -/

section Mean
variable (bs : List MCPServerLog)

def exactSum : ℤ := (bs.map (fun log => log.duration.toInt)).sum

def meanLatency : ℤ := ⌊(exactSum bs : ℚ)/bs.length/1000000⌋

/-- The sum of the durations fits in 64 bits, or they take less than a millisecond each. -/
def SumFits : Prop := exactSum bs < 2^63 ∨ exactSum bs < 1000000*bs.length

instance : Decidable (SumFits bs) := inferInstanceAs (Decidable (_ ∨ _))

theorem meanLatency_eq : meanLatency bs = exactSum bs/(1000000*bs.length) := by
  have hfloor := Rat.floor_intCast_div_natCast (exactSum bs) (1000000*bs.length)
  push_cast at hfloor
  rw [meanLatency, div_div, mul_comm, hfloor]

theorem totalDuration_toInt : (totalDuration bs).toInt = (exactSum bs).bmod (2^64) := by
  have hall : ∀ (bs : List MCPServerLog) (d : Duration) (s : ℤ), d.toInt = s.bmod (2^64) →
      (bs.foldl (fun d log => d+log.duration) d).toInt = (s+exactSum bs).bmod (2^64) := by
    intro bs
    induction bs with
    | nil =>
      intro d s hd
      simpa [exactSum] using hd
    | cons log bs ih =>
      intro d s hd
      rw [List.foldl_cons, ih _ (s+log.duration.toInt), exactSum, exactSum, List.map_cons,
        List.sum_cons, add_assoc]
      rw [Int64.toInt_add, hd, Int.bmod_add_bmod]
  have hzero := hall bs 0 0 (by decide)
  rwa [zero_add] at hzero

theorem average_eq : (milliseconds (totalDuration bs)).tdiv bs.length =
    (((exactSum bs).bmod (2^64)).tdiv 1000000).tdiv bs.length := by
  have hmillion : (1000000 : Int64).toInt = 1000000 := by decide
  rw [milliseconds, Int64.toInt_div_of_ne_right _ _ (by decide), hmillion, totalDuration_toInt]

/-- The mean duration of some logs in milliseconds lies between their shortest and their
longest duration. -/
structure AverageOf (latency : ℤ) : Prop where
  mean : latency = meanLatency bs
  between : ∃ a ∈ bs, ∃ b ∈ bs,
    (∀ log ∈ bs, a.duration.toInt ≤ log.duration.toInt ∧ log.duration.toInt ≤ b.duration.toInt) ∧
    a.duration.toInt/1000000 ≤ latency ∧ latency ≤ b.duration.toInt/1000000

variable (hne : bs ≠ [])
include hne

theorem extremes : ∃ a ∈ bs, ∃ b ∈ bs,
    ∀ log ∈ bs, a.duration.toInt ≤ log.duration.toInt ∧ log.duration.toInt ≤ b.duration.toInt := by
  classical
  have hnonempty := (List.toFinset_nonempty_iff bs).mpr hne
  obtain ⟨a, ha, hmin⟩ :=
    Finset.exists_min_image bs.toFinset (fun log => log.duration.toInt) hnonempty
  obtain ⟨b, hb, hmax⟩ :=
    Finset.exists_max_image bs.toFinset (fun log => log.duration.toInt) hnonempty
  simp only [List.mem_toFinset] at ha hb hmin hmax
  exact ⟨a, ha, b, hb, fun log hlog => ⟨hmin log hlog, hmax log hlog⟩⟩

theorem mean_between : AverageOf bs (meanLatency bs) := by
  obtain ⟨a, ha, b, hb, hall⟩ := extremes bs hne
  have hn : (0 : ℤ) < bs.length := by
    have := List.length_pos_iff.mpr hne
    omega
  have hd : (0 : ℤ) < 1000000*bs.length := by omega
  have hlow : bs.length*a.duration.toInt ≤ exactSum bs := by
    have hsum := List.card_nsmul_le_sum (bs.map (fun log => log.duration.toInt)) a.duration.toInt
      (by simpa using fun log hlog => (hall log hlog).1)
    simpa [exactSum] using hsum
  have hhigh : exactSum bs ≤ bs.length*b.duration.toInt := by
    have hsum := List.sum_le_card_nsmul (bs.map (fun log => log.duration.toInt)) b.duration.toInt
      (by simpa using fun log hlog => (hall log hlog).2)
    simpa [exactSum] using hsum
  refine ⟨rfl, a, ha, b, hb, hall, ?_, ?_⟩
  · rw [meanLatency_eq, ← Int.mul_ediv_mul_of_pos_left _ _ hn]
    exact Int.ediv_le_ediv hd (by rwa [mul_comm])
  · rw [meanLatency_eq, ← Int.mul_ediv_mul_of_pos_left _ 1000000 hn]
    exact Int.ediv_le_ediv hd (by rwa [mul_comm _ (bs.length : ℤ)])

theorem average_iff (hpos : ∀ log ∈ bs, 0 ≤ log.duration.toInt) :
    AverageOf bs ((milliseconds (totalDuration bs)).tdiv bs.length) ↔ SumFits bs := by
  have hsum : 0 ≤ exactSum bs := List.sum_nonneg (by simpa using hpos)
  have hquotient := quotient_iff (exactSum bs) hsum bs.length (List.length_pos_iff.mpr hne)
  rw [← average_eq, ← meanLatency_eq] at hquotient
  constructor
  · intro h
    exact hquotient.mp h.mean
  · intro h
    rw [hquotient.mpr h]
    exact mean_between bs hne

end Mean

/-! ## The averages of a result -/

section Averages
variable (env : Env) (logs : List MCPServerLog)

/-- The averages of all logs and of the logs of each tool are what they say. -/
def LatenciesExact : Prop :=
  (∃ r, calculateLatencyAndErrorRate env logs = .ok r ∧ AverageOf logs r.1) ∧
    ∀ rt : Runtime, ∃ m tools, logs.foldlM (toolStep env) [] = .ok m ∧
      (rt.order .toolStats m).mapM performingTool = .ok tools ∧
      ∀ tool ∈ tools, AverageOf (callsOf env logs tool.name) tool.avgLatency

theorem latency_eq (hne : logs ≠ []) (r : ℤ × Float64)
    (h : calculateLatencyAndErrorRate env logs = .ok r) :
    r.1 = (milliseconds (totalDuration logs)).tdiv logs.length := by
  have hn : (logs.length : ℤ) ≠ 0 := by simpa using hne
  rw [calculateLatencyAndErrorRate, if_neg hne, div, if_neg hn] at h
  cases he : countErrors env logs with
  | error e =>
    rw [he] at h
    cases h
  | ok n =>
    rw [he] at h
    cases h
    rfl

theorem performance_latency (t : String) (ht : t ∈ toolNames env logs) :
    (performance env logs t).avgLatency = averageLatency env logs t ∧
      callsOf env logs t ≠ [] := by
  have hne : callsOf env logs t ≠ [] :=
    (group_ne_nil t logs).mpr (List.mem_dedup.mp ht)
  have hcalls : (0 : ℤ) < (callsOf env logs t).length := by
    have := List.length_pos_iff.mpr hne
    omega
  exact ⟨if_pos hcalls, hne⟩

theorem calls_nonneg (hpos : ∀ log ∈ logs, 0 ≤ log.duration.toInt) (t : String) :
    ∀ log ∈ callsOf env logs t, 0 ≤ log.duration.toInt :=
  fun log hlog => hpos log ((mem_group t logs log).mp hlog).1

theorem fits_of_exact (hne : logs ≠ []) (hpos : ∀ log ∈ logs, 0 ≤ log.duration.toInt)
    (h : LatenciesExact env logs) :
    SumFits logs ∧ ∀ t ∈ toolNames env logs, SumFits (callsOf env logs t) := by
  obtain ⟨⟨r, hr, haverage⟩, htools⟩ := h
  constructor
  · rw [latency_eq env logs hne r hr] at haverage
    exact (average_iff logs hne hpos).mp haverage
  · intro t ht
    obtain ⟨m, tools, hm, hmap, hall⟩ := htools Runtime.stable
    obtain ⟨hlatency, hcalls⟩ := performance_latency env logs t ht
    rw [mapM_total performingTool toolOf performingTool_eq] at hmap
    have hmem : performance env logs t ∈ tools := by
      rw [← Except.ok.inj hmap]
      have hl := tools_contents env logs Runtime.stable m hm
      exact hl.mem_iff.mpr (List.mem_map.mpr ⟨t, ht, rfl⟩)
    have hexact := hall _ hmem
    rw [hlatency] at hexact
    exact (average_iff _ hcalls (calls_nonneg env logs hpos t)).mp hexact

/-- For durations that are not negative the averages are right exactly if no sum wraps
around, on logs of which none is a response without error whose request is missing. -/
theorem latencies_exact_iff (hne : logs ≠ []) (hpos : ∀ log ∈ logs, 0 ≤ log.duration.toInt) :
    LatenciesExact env logs ↔ (∀ log ∈ logs, ¬ Unrequested log) ∧ SumFits logs ∧
      ∀ t ∈ toolNames env logs, SumFits (callsOf env logs t) := by
  constructor
  · intro h
    obtain ⟨r, hr, -⟩ := h.1
    exact ⟨(latency_ok_iff env logs).mp ⟨r, hr⟩, fits_of_exact env logs hne hpos h⟩
  · rintro ⟨hok, hfits, htools⟩
    constructor
    · obtain ⟨r, hr⟩ := (latency_ok_iff env logs).mpr hok
      refine ⟨r, hr, ?_⟩
      rw [latency_eq env logs hne r hr]
      exact (average_iff logs hne hpos).mpr hfits
    · intro rt
      obtain ⟨p, hp⟩ := toolsPerformance_ok rt env logs hok
      obtain ⟨m, hm, -⟩ := toolsPerformance_eq rt env logs p hp
      refine ⟨m, allTools rt m, hm, mapM_total performingTool toolOf performingTool_eq _, ?_⟩
      intro tool htool
      obtain ⟨t, ht, rfl⟩ := List.mem_map.mp ((tools_contents env logs rt m hm).mem_iff.mp htool)
      obtain ⟨hlatency, hcalls⟩ := performance_latency env logs t ht
      rw [hlatency]
      exact (average_iff _ hcalls (calls_nonneg env logs hpos t)).mpr (htools t ht)

end Averages

def callsTaking (durations : List Duration) : List MCPServerLog :=
  durations.map (fun d =>
    { id := 1, userAccountID := none, mcpSessionID := none, startedAt := 0, duration := d
      deploymentRevisionID := 9, projectID := 7, authTokenDigest := none
      mcpRequest := some ⟨"ping", none, none⟩, mcpResponse := none, userAgent := none
      httpStatusCode := some 200, httpError := none })

theorem callsTaking_ok (durations : List Duration) :
    ∀ log ∈ callsTaking durations, ¬ Unrequested log := by
  intro log hlog
  simp only [callsTaking, List.mem_map] at hlog
  obtain ⟨d, -, rfl⟩ := hlog
  rintro ⟨-, response, hresponse, -⟩
  cases hresponse

theorem latencies_exact_demo :
    LatenciesExact Env.demo (callsTaking [1500000, 4000000, 9223372036849275807]) := by
  refine (latencies_exact_iff Env.demo _ (by decide) (by decide)).mpr ⟨callsTaking_ok _, ?_, ?_⟩
  · decide
  · decide

/-- Two calls of half the range each have a negative average. -/
theorem longCalls_inexact :
    ¬ LatenciesExact Env.demo (callsTaking [4611686018427387904, 4611686018427387904]) := by
  intro h
  have hfits := (fits_of_exact Env.demo _ (by decide) (by decide) h).1
  exact absurd hfits (by decide)

end Jetski.Latency
