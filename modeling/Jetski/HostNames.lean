import Jetski.Validation

/-!
# Accepted names and domains

The pattern of names is a list of non-empty parts between hyphens, so every
name is one path segment and one label of a host. The pattern of domains knows
no hyphen and no length. It differs from the host names of DNS on the
hyphenated ones, which are refused, and on the oversized ones, which are
accepted.
-/

set_option autoImplicit false

namespace Jetski.HostNames

open Validation

/-! ## Names -/

theorem parts_segments (name : String) :
    (name.toList.splitOn '-').all isSegment = true ↔
      (∀ c ∈ name.toList, isLowerAlnum c = true ∨ c = '-') ∧
        ∀ l ∈ name.toList.splitOn '-', l ≠ [] := by
  constructor
  · intro h
    exact ⟨fun c hc => (segment_chars '-' _ h c hc).symm, segment_ne '-' _ h⟩
  · intro ⟨hchars, hne⟩
    apply List.all_eq_true.mpr
    intro l hl
    rw [isSegment, decide_eq_true_eq, List.all_eq_true]
    constructor
    · exact hne l hl
    · intro c hc
      have hmem := (Separated.mem_parts '-' c name.toList).mp ⟨l, hl, hc⟩
      exact (hchars c hmem.1).resolve_right hmem.2

/-- A character of a name has no meaning in a path, in a host or in an escape,
and is no white space. -/
def plain (c : Char) : Bool := c ≠ '/' ∧ c ≠ '.' ∧ c ≠ '%' ∧ isSpace c = false

theorem nameChar_plain (c : Char) (h : isLowerAlnum c = true ∨ c = '-') : plain c = true := by
  have hall : ('-'::lowerAlnum).all plain = true := by decide
  apply List.all_eq_true.mp hall
  rcases h with h | rfl
  · exact List.mem_cons_of_mem _ ((mem_lowerAlnum c).mpr h)
  · exact List.mem_cons_self

/-- A name is accepted if it is made of non-empty segments of letters and digits between hyphens. It
can then stand in a path or in a host as it is. -/
theorem validateName_accepts (s : String) :
    (validateName s = .ok () ↔ s ≠ "" ∧
      (∀ c ∈ s.toList, isLowerAlnum c = true ∨ c = '-') ∧
      ∀ l ∈ s.toList.splitOn '-', l ≠ []) ∧
    (validateName s = .ok () → s.toList.head? ≠ some '-' ∧ s.toList.getLast? ≠ some '-' ∧
      ¬['-', '-'] <:+: s.toList) ∧
    (validateName s = .ok () → (∀ c ∈ s.toList, plain c = true) ∧
      s.toList.splitOn '/' = [s.toList] ∧ s.toList.splitOn '.' = [s.toList]) := by
  have hparts := parts_segments s
  rw [← validateName_iff] at hparts
  refine ⟨?_, ?_, ?_⟩
  · constructor
    · intro h
      refine ⟨?_, hparts.mp h⟩
      rintro rfl
      exact (hparts.mp h).2 [] (by decide) rfl
    · intro h
      exact hparts.mpr h.2
  · intro h
    exact Separated.parts_ends '-' s.toList (hparts.mp h).2
  · intro h
    have hplain : ∀ c ∈ s.toList, plain c = true := fun c hc =>
      nameChar_plain c ((hparts.mp h).1 c hc)
    have hnot : ∀ sep, plain sep = false → sep ∉ s.toList := by
      intro sep hsep hmem
      rw [hplain sep hmem] at hsep
      cases hsep
    exact ⟨hplain, List.splitOn_eq_singleton (hnot '/' rfl),
      List.splitOn_eq_singleton (hnot '.' rfl)⟩

example : validateName "a-a" = .ok () ∧ validateName "a--a" ≠ .ok () := by decide

/-! ## Domains -/

/-- A label of a lower-case host name. -/
def isHostLabel (l : List Char) : Bool :=
  1 ≤ l.length ∧ l.length ≤ 63 ∧ l.all (fun c => isLowerAlnum c ∨ c = '-') ∧
    l.head? ≠ some '-' ∧ l.getLast? ≠ some '-'

/-- A lower-case host name of at least two labels. -/
def isHostName (s : String) : Bool :=
  s.length ≤ 253 ∧ 2 ≤ (s.toList.splitOn '.').length ∧ (s.toList.splitOn '.').all isHostLabel

def hyphenated (s : String) : Bool := isHostName s ∧ '-' ∈ s.toList

/-- A list of at least two non-empty labels of letters and digits that is too
long as a whole, or one of them is. -/
def oversized (s : String) : Bool :=
  2 ≤ (s.toList.splitOn '.').length ∧ (s.toList.splitOn '.').all isSegment ∧
    (253 < s.length ∨ (s.toList.splitOn '.').any (63 < ·.length))

theorem segment_hostLabel (l : List Char) (h : isSegment l = true) :
    isHostLabel l = true ↔ l.length ≤ 63 := by
  rw [isSegment, decide_eq_true_eq, List.all_eq_true] at h
  have hpos : 1 ≤ l.length := List.length_pos_iff.mpr h.1
  have hno : ∀ c ∈ l, c ≠ '-' := by
    rintro c hc rfl
    exact absurd (h.2 _ hc) (by decide)
  have hhead : l.head? ≠ some '-' := fun hc => hno '-' (List.mem_of_mem_head? hc) rfl
  have hlast : l.getLast? ≠ some '-' := fun hc => hno '-' (List.mem_of_mem_getLast? hc) rfl
  have hall : l.all (fun c => isLowerAlnum c ∨ c = '-') = true := by
    apply List.all_eq_true.mpr
    intro c hc
    exact decide_eq_true (Or.inl (h.2 c hc))
  simp only [isHostLabel, decide_eq_true_eq]
  exact ⟨fun hl => hl.2.1, fun hlen => ⟨hpos, hlen, hall, hhead, hlast⟩⟩

theorem hostLabel_segment (l : List Char) (h : isHostLabel l = true) (hno : '-' ∉ l) :
    isSegment l = true := by
  simp only [isHostLabel, decide_eq_true_eq, List.all_eq_true] at h
  rw [isSegment, decide_eq_true_eq, List.all_eq_true]
  constructor
  · exact List.length_pos_iff.mp h.1
  · intro c hc
    rcases h.2.2.1 c hc with halnum | rfl
    · exact halnum
    · exact absurd hc hno

/-- Between segments of letters and digits, only the lengths are left to check. -/
theorem segments_hostName (s : String) (hlen : 2 ≤ (s.toList.splitOn '.').length)
    (h : (s.toList.splitOn '.').all isSegment = true) :
    isHostName s = true ↔ oversized s = false := by
  have hlabels : (s.toList.splitOn '.').all isHostLabel = true ↔
      (s.toList.splitOn '.').any (63 < ·.length) = false := by
    rw [List.all_eq_true, List.any_eq_false]
    rw [List.all_eq_true] at h
    constructor
    · intro hl l hmem
      have hle := (segment_hostLabel l (h l hmem)).mp (hl l hmem)
      simpa using hle
    · intro hl l hmem
      exact (segment_hostLabel l (h l hmem)).mpr (by simpa using hl l hmem)
  rw [isHostName, decide_eq_true_eq, hlabels, oversized, decide_eq_false_iff_not]
  simp only [hlen, h, true_and, not_or, not_lt, Bool.not_eq_true]

theorem unhyphenated_segments (s : String) (h : isHostName s = true) (hno : '-' ∉ s.toList) :
    2 ≤ (s.toList.splitOn '.').length ∧ (s.toList.splitOn '.').all isSegment = true := by
  rw [isHostName, decide_eq_true_eq, List.all_eq_true] at h
  constructor
  · exact h.2.1
  · apply List.all_eq_true.mpr
    intro l hl
    apply hostLabel_segment l (h.2.2 l hl)
    intro hc
    exact hno ((Separated.mem_parts '.' '-' s.toList).mp ⟨l, hl, hc⟩).1

/-- The accepted domains are the host names, the hyphenated and the oversized
ones apart. -/
theorem validateDomainName_hostName (s : String) :
    (validateDomainName s = .ok () ↔ isHostName s = true) ↔
      hyphenated s = false ∧ oversized s = false := by
  have hyphen : validateDomainName s = .ok () → '-' ∉ s.toList := by
    intro h hc
    have hsegments := ((validateDomainName_iff s).mp h).2
    rcases segment_chars '.' s.toList hsegments '-' hc with hdot | halnum
    · exact absurd hdot (by decide)
    · exact absurd halnum (by decide)
  constructor
  · intro h
    constructor
    · rw [hyphenated, decide_eq_false_iff_not]
      intro ⟨hhost, hc⟩
      exact hyphen (h.mpr hhost) hc
    · by_contra hover
      have hover : oversized s = true := by simpa using hover
      have hgrammar := hover
      rw [oversized, decide_eq_true_eq] at hgrammar
      have haccepted := (validateDomainName_iff s).mpr ⟨hgrammar.1, hgrammar.2.1⟩
      have hfits := (segments_hostName s hgrammar.1 hgrammar.2.1).mp (h.mp haccepted)
      rw [hover] at hfits
      cases hfits
  · intro ⟨hhyphen, hover⟩
    constructor
    · intro h
      obtain ⟨hlen, hsegments⟩ := (validateDomainName_iff s).mp h
      exact (segments_hostName s hlen hsegments).mpr hover
    · intro hhost
      have hno : '-' ∉ s.toList := by
        intro hc
        rw [hyphenated, decide_eq_false_iff_not] at hhyphen
        exact hhyphen ⟨hhost, hc⟩
      exact (validateDomainName_iff s).mpr (unhyphenated_segments s hhost hno)

/-- A host name that is refused, and a label of 64 letters that is accepted. -/
theorem validateDomainName_differs :
    ¬(∀ s, validateDomainName s = .ok () ↔ isHostName s = true) ∧
    validateDomainName "my-company.com" ≠ .ok () ∧ isHostName "my-company.com" = true ∧
    ∃ s, validateDomainName s = .ok () ∧ isHostName s = false := by
  have hrefused : validateDomainName "my-company.com" ≠ .ok () := by decide
  have hhost : isHostName "my-company.com" = true := by decide
  refine ⟨fun h => hrefused ((h _).mpr hhost), hrefused, hhost,
    String.ofList (List.replicate 64 'a'++".com".toList), ?_, by decide⟩
  exact (validateDomainName_iff _).mpr (by decide)

end Jetski.HostNames
