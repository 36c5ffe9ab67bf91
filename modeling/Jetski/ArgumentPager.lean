import Jetski.Analytics
import Mathlib.Data.Rat.Floor

/-!
# The pager of arguments

The dashboard shows the arguments of a tool two at a time. The last page of an
odd number of arguments starts one place earlier, so that it is full. Between
odd places the page label would round to a page that is not yet reached, but an
even number of arguments is never left at one.
-/

set_option autoImplicit false

namespace Jetski.ArgumentPager

open Analytics (McpTool ToolArgument)

/-- `slice` of an array. A negative place counts from the end. -/
def slice {α : Type} (xs : List α) (start stop : ℤ) : List α :=
  let place (i : ℤ) := if i < 0 then max 0 (i+xs.length) else min i xs.length
  (xs.take (place stop).toNat).drop (place start).toNat

structure ToolAnalyticsComponent where
  selectedTool : McpTool
  currentArgumentIndex : ℤ

namespace ToolAnalyticsComponent

def ngOnInit (tools : List McpTool) : ToolAnalyticsComponent where
  selectedTool := tools.headD ⟨"", 0, []⟩
  currentArgumentIndex := 0

variable (c : ToolAnalyticsComponent)

def arguments : List ToolArgument := c.selectedTool.arguments

def visibleArguments : List ToolArgument :=
  slice c.arguments c.currentArgumentIndex (min (c.currentArgumentIndex+2) c.arguments.length)

def previousArgument : ToolAnalyticsComponent :=
  if c.currentArgumentIndex > 0 then
    { c with currentArgumentIndex := max 0 (c.currentArgumentIndex-2) }
  else c

def nextArgument : ToolAnalyticsComponent :=
  if c.currentArgumentIndex < c.arguments.length-2 then
    { c with currentArgumentIndex := min (c.arguments.length-2) (c.currentArgumentIndex+2) }
  else c

def onToolChange (tool : McpTool) : ToolAnalyticsComponent where
  selectedTool := tool
  currentArgumentIndex := 0

/-- `Math.ceil(currentArgumentIndex / 2) + 1` -/
def page : ℤ := ⌈(c.currentArgumentIndex : ℚ)/2⌉+1

/-- `Math.ceil(arguments.length / 2)` -/
def pages : ℤ := ⌈(c.arguments.length : ℚ)/2⌉

def previousDisabled : Bool := c.currentArgumentIndex = 0

def nextDisabled : Bool := c.currentArgumentIndex+2 ≥ c.arguments.length

end ToolAnalyticsComponent

open ToolAnalyticsComponent

inductive Event where
  | previousArgument
  | nextArgument
  | onToolChange (tool : McpTool)

def step (c : ToolAnalyticsComponent) : Event → ToolAnalyticsComponent
  | .previousArgument => c.previousArgument
  | .nextArgument => c.nextArgument
  | .onToolChange tool => ToolAnalyticsComponent.onToolChange tool

def run : List Event → ToolAnalyticsComponent → ToolAnalyticsComponent
  | [], c => c
  | e::es, c => run es (step c e)

/-! ## The places that are reached -/

structure Placed (c : ToolAnalyticsComponent) : Prop where
  nonneg : 0 ≤ c.currentArgumentIndex
  le : c.currentArgumentIndex ≤ max 0 ((c.arguments.length : ℤ)-2)
  even : (c.arguments.length : ℤ)%2 = 0 → c.currentArgumentIndex%2 = 0

theorem start_placed (tool : McpTool) : Placed ⟨tool, 0⟩ where
  nonneg := le_rfl
  le := le_max_left 0 _
  even _ := rfl

theorem step_placed (c : ToolAnalyticsComponent) (h : Placed c) (e : Event) :
    Placed (step c e) := by
  have hnonneg := h.nonneg
  have hle := h.le
  have heven := h.even
  cases e with
  | previousArgument =>
    rw [step, previousArgument]
    by_cases hpos : c.currentArgumentIndex > 0
    · rw [if_pos hpos]
      constructor
      · show 0 ≤ max 0 (c.currentArgumentIndex-2)
        omega
      · show max 0 (c.currentArgumentIndex-2) ≤ max 0 ((c.arguments.length : ℤ)-2)
        omega
      · show (c.arguments.length : ℤ)%2 = 0 → max 0 (c.currentArgumentIndex-2)%2 = 0
        omega
    · rwa [if_neg hpos]
  | nextArgument =>
    rw [step, nextArgument]
    by_cases hlt : c.currentArgumentIndex < (c.arguments.length : ℤ)-2
    · rw [if_pos hlt]
      constructor
      · show 0 ≤ min ((c.arguments.length : ℤ)-2) (c.currentArgumentIndex+2)
        omega
      · show min ((c.arguments.length : ℤ)-2) (c.currentArgumentIndex+2) ≤
          max 0 ((c.arguments.length : ℤ)-2)
        omega
      · show (c.arguments.length : ℤ)%2 = 0 →
          min ((c.arguments.length : ℤ)-2) (c.currentArgumentIndex+2)%2 = 0
        omega
    · rwa [if_neg hlt]
  | onToolChange tool => exact start_placed tool

theorem run_placed (es : List Event) (c : ToolAnalyticsComponent) (h : Placed c) :
    Placed (run es c) := by
  induction es generalizing c with
  | nil => exact h
  | cons e es ih => exact ih (step c e) (step_placed c h e)

/-! ## What is shown there -/

theorem ceil_half (i : ℤ) : ⌈(i : ℚ)/2⌉ = (i+1)/2 := by
  rw [Int.ceil_eq_iff]
  have hdiv : 2*((i+1)/2) ≤ i+1 ∧ i ≤ 2*((i+1)/2) := by omega
  have hlow : (2 : ℚ)*((i+1)/2 : ℤ) ≤ i+1 := by exact_mod_cast hdiv.1
  have hhigh : (i : ℚ) ≤ 2*((i+1)/2 : ℤ) := by exact_mod_cast hdiv.2
  constructor
  · linarith
  · linarith

theorem page_eq (c : ToolAnalyticsComponent) : c.page = (c.currentArgumentIndex+1)/2+1 := by
  rw [page, ceil_half]

theorem pages_eq (c : ToolAnalyticsComponent) : c.pages = ((c.arguments.length : ℤ)+1)/2 := by
  rw [pages, ← ceil_half, Int.cast_natCast]

theorem visible_eq (c : ToolAnalyticsComponent) (h : Placed c) : c.visibleArguments =
    (c.arguments.drop c.currentArgumentIndex.toNat).take 2 := by
  have hnonneg := h.nonneg
  have hle := h.le
  have hstart : ¬c.currentArgumentIndex < 0 := by omega
  have hstop : ¬min (c.currentArgumentIndex+2) (c.arguments.length : ℤ) < 0 := by omega
  rw [visibleArguments, slice]
  simp only [if_neg hstart, if_neg hstop]
  have hat : (min c.currentArgumentIndex (c.arguments.length : ℤ)).toNat =
      c.currentArgumentIndex.toNat := by omega
  rw [hat, List.drop_take, List.take_eq_take_iff, List.length_drop]
  omega

/-- The label and the buttons agree with what is visible. -/
structure Shown (c : ToolAnalyticsComponent) : Prop where
  visible : c.visibleArguments.length = 1 ∨ c.visibleArguments.length = 2
  first : 1 ≤ c.page
  last : c.page ≤ c.pages
  next : c.page = c.pages ↔ c.nextDisabled = true
  previous : c.page = 1 ↔ c.previousDisabled = true

theorem placed_shown (c : ToolAnalyticsComponent) (h : Placed c) (hne : c.arguments ≠ []) :
    Shown c := by
  have hpos := List.length_pos_iff.mpr hne
  have hnonneg := h.nonneg
  have hle := h.le
  have heven := h.even
  constructor
  · rw [visible_eq c h, List.length_take, List.length_drop]
    omega
  · rw [page_eq]
    omega
  · rw [page_eq, pages_eq]
    omega
  · rw [page_eq, pages_eq, nextDisabled, decide_eq_true_eq]
    omega
  · rw [page_eq, previousDisabled, decide_eq_true_eq]
    omega

/-! ## Pressing next -/

/-- After `k` presses the button is disabled, it was not before, and every
argument has been visible. -/
structure ShowsAll (c : ToolAnalyticsComponent) (k : ℕ) : Prop where
  disabled : (nextArgument^[k] c).nextDisabled = true
  enabled : ∀ j < k, (nextArgument^[j] c).nextDisabled = false
  visible : ∀ a ∈ c.arguments, ∃ j ≤ k, a ∈ (nextArgument^[j] c).visibleArguments

/-- The index after `k` presses. -/
theorem presses (tool : McpTool) (k : ℕ) :
    nextArgument^[k] ⟨tool, 0⟩ = ⟨tool, min (2*k) (max 0 ((tool.arguments.length : ℤ)-2))⟩ := by
  induction k with
  | zero => simp
  | succ k ih =>
    rw [Function.iterate_succ_apply', ih, nextArgument]
    split
    · next hlt =>
      simp only [arguments] at hlt ⊢
      congr 1
      omega
    · next hlt =>
      simp only [arguments] at hlt ⊢
      congr 1
      omega

theorem presses_showsAll (tool : McpTool) (hne : tool.arguments ≠ []) :
    ShowsAll ⟨tool, 0⟩ ((tool.arguments.length-1)/2) := by
  have hpos := List.length_pos_iff.mpr hne
  constructor
  · rw [presses, nextDisabled, decide_eq_true_eq]
    simp only [arguments]
    omega
  · intro j hj
    rw [presses, nextDisabled, decide_eq_false_iff_not]
    simp only [arguments]
    omega
  · intro a ha
    obtain ⟨i, hi, rfl⟩ := List.getElem_of_mem ha
    have hplaced : ∀ j, Placed (nextArgument^[j] ⟨tool, 0⟩) := by
      intro j
      induction j with
      | zero => exact start_placed tool
      | succ j ih =>
        rw [Function.iterate_succ_apply']
        exact step_placed _ ih .nextArgument
    -- the argument is on its own page, or on the last one
    refine ⟨i/2, ?_, ?_⟩
    · simp only [arguments] at hi
      omega
    · rw [visible_eq _ (hplaced _), presses]
      simp only [arguments] at hi ⊢
      generalize hs : (min (2*((i/2 : ℕ) : ℤ)) (max 0 ((tool.arguments.length : ℤ)-2))).toNat = s
      have hplace : s ≤ i ∧ i-s < 2 := by omega
      have hmem : i-s < ((tool.arguments.drop s).take 2).length := by
        rw [List.length_take, List.length_drop]
        omega
      have hget := List.getElem_mem hmem
      simp only [List.getElem_take, List.getElem_drop, Nat.add_sub_cancel' hplace.1] at hget
      exact hget

/-- The pager shows one or two arguments after any clicks, its label and its buttons are right, and
pressing Next shows every argument. -/
theorem argument_pager : (∀ tools es, Placed (run es (ngOnInit tools)) ∧
      ((run es (ngOnInit tools)).arguments ≠ [] → Shown (run es (ngOnInit tools)))) ∧
    ∀ tool : McpTool, tool.arguments ≠ [] → ∃ k, ShowsAll ⟨tool, 0⟩ k := by
  constructor
  · intro tools es
    have hplaced := run_placed es (ngOnInit tools) (start_placed _)
    exact ⟨hplaced, placed_shown _ hplaced⟩
  · intro tool hne
    exact ⟨_, presses_showsAll tool hne⟩

end Jetski.ArgumentPager
