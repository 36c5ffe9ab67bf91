import Jetski.Pages

/-!
# Offsets

The offset of a page is a product of two numbers that are checked one by one. It is
what it is meant to be exactly if the product fits in 64 bits; else the query reads
another page or fails.
-/

set_option autoImplicit false

namespace Jetski.Offsets

open Relational Schema Jetski.Types Queries Logs Paging Pages

/-! ## What is accepted -/

def Accepted (p : Pagination) : Prop := 0 ≤ p.count.toInt ∧ 0 ≤ p.page.toInt

instance (p : Pagination) : Decidable (Accepted p) := inferInstanceAs (Decidable (_ ∧ _))

theorem accepted_of_parse (count page : Param Int64) (fallback p : Pagination)
    (hfallback : Accepted fallback) (h : parsePaginationOrDefault count page fallback = some p) :
    Accepted p := by
  have hnonneg : ∀ c : Int64, 0 ≤ c → 0 ≤ c.toInt := fun c hc => Int64.le_iff_toInt_le.mp hc
  cases count with
  | invalid => cases h
  | absent =>
    cases page with
    | invalid => cases h
    | absent =>
      cases h
      exact hfallback
    | value q =>
      by_cases hq : 0 ≤ q
      · simp only [parsePaginationOrDefault, if_pos hq] at h
        cases h
        exact ⟨hfallback.1, hnonneg q hq⟩
      · simp only [parsePaginationOrDefault, if_neg hq] at h
        cases h
  | value c =>
    by_cases hc : 0 ≤ c
    · cases page with
      | invalid =>
        simp only [parsePaginationOrDefault, if_pos hc] at h
        cases h
      | absent =>
        simp only [parsePaginationOrDefault, if_pos hc] at h
        cases h
        exact ⟨hnonneg c hc, hfallback.2⟩
      | value q =>
        by_cases hq : 0 ≤ q
        · simp only [parsePaginationOrDefault, if_pos hc, if_pos hq] at h
          cases h
          exact ⟨hnonneg c hc, hnonneg q hq⟩
        · simp only [parsePaginationOrDefault, if_pos hc, if_neg hq] at h
          cases h
    · simp only [parsePaginationOrDefault, if_neg hc] at h
      cases h

/-! ## The product -/

section Product
variable (p : Pagination)

def offset : Int64 := p.count*p.page

def ProductFits : Prop := p.count.toInt*p.page.toInt < 2^63

instance : Decidable (ProductFits p) := inferInstanceAs (Decidable (_ < _))

theorem offset_wraps : (offset p).toInt = (p.count.toInt*p.page.toInt).bmod (2^64) :=
  Int64.toInt_mul p.count p.page

variable (hp : Accepted p)
include hp

theorem offset_toInt_iff : (offset p).toInt = p.count.toInt*p.page.toInt ↔ ProductFits p := by
  have hnonneg : 0 ≤ p.count.toInt*p.page.toInt := Int.mul_nonneg hp.1 hp.2
  rw [offset_wraps, ProductFits]
  generalize p.count.toInt*p.page.toInt = n at hnonneg
  constructor
  · intro h
    have hhigh := Int.bmod_lt (x := n) (m := 2^64) (by decide)
    omega
  · intro h
    exact Int.bmod_eq_of_le (by omega) (by omega)

theorem page_exact {α : Type} (h : ProductFits p) (rows : List α) :
    page p.count (offset p) rows =
      .ok (pageOf p.count.toNatClampNeg p.page.toNatClampNeg rows) := by
  have hoffset := (offset_toInt_iff p hp).mpr h
  have hnonneg : ¬ offset p < 0 := by
    have hzero : (0 : Int64).toInt = 0 := by decide
    rw [Int64.lt_iff_toInt_lt, hoffset, hzero]
    exact not_lt.mpr (Int.mul_nonneg hp.1 hp.2)
  have hdrop : (offset p).toNatClampNeg = p.page.toNatClampNeg*p.count.toNatClampNeg := by
    rw [Int64.toNatClampNeg, hoffset, Int.toNat_mul hp.1 hp.2, mul_comm]
    rfl
  rw [page, if_neg hnonneg, hdrop, pageOf]

end Product

/-! ## The queries -/

section Queries
variable (env : Env) (projectID : UUID) (p : Pagination) (sorting : Sorting)
  (session : Option String)

def logsOnPage (id : Option UUID) : Sql (List MCPServerLog) :=
  select fun db =>
    if storableText session then
      collectRows (scanLog env) (pageOf p.count.toNatClampNeg p.page.toNatClampNeg
        ((projectLogs env db projectID id session).insertionSort (fun l l' =>
          logOrder sorting l l')))
    else .error .invalid

def promptsOnPage : Sql (List MCPServerLogPromptData) :=
  select fun db =>
    if storableText session then
      collectRows promptData (pageOf p.count.toNatClampNeg p.page.toNatClampNeg
        ((((projectLogs env db projectID none session).map (promptRow env)).filter
          (fun r => r.prompt.isSome)).insertionSort (fun r r' =>
            ordered sorting.sortOrder (promptLe env sorting.sortBy) r r')))
    else .error .invalid

/-- The offset is the number of rows before the page, so that both queries read the page. -/
structure PageRead (p : Pagination) : Prop where
  offset : (offset p).toInt = p.count.toInt*p.page.toInt
  nonneg : 0 ≤ (Offsets.offset p).toInt
  logs : ∀ env projectID sorting session id,
    getLogsForProject env projectID p sorting id session =
      logsOnPage env projectID p sorting session id
  prompts : ∀ env projectID sorting session,
    getPromptsForProject env projectID p sorting session =
      promptsOnPage env projectID p sorting session

theorem getLogs_exact (hp : Accepted p) (h : ProductFits p) (id : Option UUID) :
    getLogsForProject env projectID p sorting id session =
      logsOnPage env projectID p sorting session id := by
  rw [getLogsForProject, logsOnPage]
  congr 1
  funext db
  split
  · change (page p.count (offset p) _ >>= _) = _
    rw [page_exact p hp h]
    rfl
  · rfl

theorem getPrompts_exact (hp : Accepted p) (h : ProductFits p) :
    getPromptsForProject env projectID p sorting session =
      promptsOnPage env projectID p sorting session := by
  rw [getPromptsForProject, promptsOnPage]
  congr 1
  funext db
  split
  · change (page p.count (offset p) _ >>= _) = _
    rw [page_exact p hp h]
    rfl
  · rfl

end Queries

/-- An accepted page is read exactly if its number times the count fits in 64 bits. -/
theorem page_read_iff (count page : Param Int64) (fallback p : Pagination)
    (hfallback : Accepted fallback) (h : parsePaginationOrDefault count page fallback = some p) :
    PageRead p ↔ ProductFits p := by
  have hp := accepted_of_parse count page fallback p hfallback h
  constructor
  · intro hread
    exact (offset_toInt_iff p hp).mp hread.offset
  · intro hfits
    have hoffset := (offset_toInt_iff p hp).mpr hfits
    refine ⟨hoffset, ?_, ?_, ?_⟩
    · rw [hoffset]
      exact Int.mul_nonneg hp.1 hp.2
    · intro env projectID sorting session id
      exact getLogs_exact env projectID p sorting session hp hfits id
    · intro env projectID sorting session
      exact getPrompts_exact env projectID p sorting session hp hfits

theorem page_read_demo : PageRead ⟨9223372036854775807, 1⟩ :=
  (page_read_iff (.value 9223372036854775807) (.value 1) ⟨10, 0⟩ _ (by decide) rfl).mpr (by decide)

/-- The product of a count and a page that are accepted can be sent as a negative number. -/
theorem page_overflows : ∃ p,
    parsePaginationOrDefault (.value 4294967296) (.value 2147483648) ⟨10, 0⟩ = some p ∧
      ¬ PageRead p :=
  ⟨_, rfl, fun h => absurd h.offset (by decide)⟩

end Jetski.Offsets
