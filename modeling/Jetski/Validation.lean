import Jetski.Separated
import Jetski.Types
import Mathlib.Data.List.TakeWhile

/-!
# Validation of names and domains

Names and domains are matched against regular expressions. A name is a list of
non-empty segments between hyphens, a domain a list of at least two non-empty
segments between dots, all of lower-case letters and digits. A failed
validation is the text of its error.
-/

set_option autoImplicit false

namespace Jetski.Validation

open RegularExpression Separated

/-- The characters with the Unicode property White_Space. -/
def isSpace (c : Char) : Bool :=
  c ∈ ['\t', '\n', '\x0b', '\x0c', '\r', ' ', '\u0085', '\u00a0', '\u1680', '\u2028', '\u2029',
    '\u202f', '\u205f', '\u3000'] ∨ '\u2000' ≤ c ∧ c ≤ '\u200a'

/-- `strings.TrimSpace` -/
def trimSpace (s : String) : String :=
  String.ofList ((s.toList.dropWhile isSpace).reverse.dropWhile isSpace).reverse

/-- The characters of `[a-z0-9]`. -/
def lowerAlnum : List Char := "abcdefghijklmnopqrstuvwxyz0123456789".toList

/-- `[a-z0-9]+` -/
def segment : RegularExpression Char := oneOrMore (oneOf lowerAlnum)

/-- `[a-z0-9]+(-[a-z0-9]+)*` -/
def namePattern : RegularExpression Char := segment*(char '-'*segment).star

/-- `([a-z0-9]+\.)+[a-z0-9]+` -/
def domainPattern : RegularExpression Char := oneOrMore (segment*char '.')*segment

/-- `regexp.MatchString` for a pattern between `^` and `$`. -/
def matchString (pattern : RegularExpression Char) (s : String) : Bool := pattern.rmatch s.toList

def matchesName (name : String) : Bool := matchString namePattern name

def matchesDomain (domain : String) : Bool := matchString domainPattern domain

def validateName (name : String) : Except String Unit :=
  if trimSpace name = "" then .error "empty name is not allowed"
  else if matchesName name then .ok ()
  else .error "name is invalid"

def validateDomainName (domain : String) : Except String Unit :=
  if matchesDomain domain then .ok () else .error "domain is invalid"

/-! ## What the patterns match -/

def isLowerAlnum (c : Char) : Bool := 'a' ≤ c ∧ c ≤ 'z' ∨ '0' ≤ c ∧ c ≤ '9'

def isSegment (cs : List Char) : Bool := cs ≠ [] ∧ cs.all isLowerAlnum

theorem mem_lowerAlnum (c : Char) : c ∈ lowerAlnum ↔ isLowerAlnum c = true := by
  constructor
  · have hall : lowerAlnum.all isLowerAlnum = true := by decide
    exact List.all_eq_true.mp hall c
  · intro h
    have hcode : ∀ n < 128, isLowerAlnum (Char.ofNat n) = true → Char.ofNat n ∈ lowerAlnum := by
      decide
    have hlt : c.toNat < 128 := by
      simp only [isLowerAlnum, Char.le_def, UInt32.le_iff_toNat_le, decide_eq_true_eq] at h
      have hz : 'z'.val.toNat = 122 := rfl
      have hnine : '9'.val.toNat = 57 := rfl
      have hc : c.toNat = c.val.toNat := rfl
      omega
    rw [← Char.ofNat_toNat c] at h ⊢
    exact hcode c.toNat hlt h

theorem segment_iff (cs : List Char) : cs ∈ segment.matches' ↔ isSegment cs = true := by
  rw [segment, mem_run, isSegment, decide_eq_true_eq, List.all_eq_true]
  simp only [mem_lowerAlnum]

theorem segment_free (sep : Char) (hsep : isLowerAlnum sep = false) :
    ∀ l ∈ segment.matches', sep ∉ l := by
  intro l hl hmem
  have halnum := (mem_lowerAlnum sep).mp (((mem_run _ l).mp hl).2 sep hmem)
  rw [hsep] at halnum
  cases halnum

theorem joined_segments (sep : Char) (hsep : isLowerAlnum sep = false) (n : ℕ) (hn : 1 ≤ n)
    (cs : List Char) : Joined sep segment n cs ↔
      n ≤ (cs.splitOn sep).length ∧ (cs.splitOn sep).all isSegment = true := by
  rw [joined_iff (segment_free sep hsep) n hn, List.all_eq_true]
  simp only [segment_iff]

theorem matchesName_iff (name : String) :
    matchesName name = true ↔ (name.toList.splitOn '-').all isSegment = true := by
  have hpos : 1 ≤ (name.toList.splitOn '-').length :=
    List.length_pos_iff.mpr (List.splitOn_ne_nil '-' name.toList)
  rw [matchesName, matchString, rmatch_iff_matches', namePattern, ← separated, mem_separated,
    joined_segments '-' rfl 1 le_rfl]
  exact and_iff_right hpos

theorem matchesDomain_iff (domain : String) : matchesDomain domain = true ↔
    2 ≤ (domain.toList.splitOn '.').length ∧
      (domain.toList.splitOn '.').all isSegment = true := by
  rw [matchesDomain, matchString, rmatch_iff_matches', domainPattern, ← terminated, mem_terminated,
    joined_segments '.' rfl 2 (by decide)]

theorem validateName_matches (name : String) (h : validateName name = .ok ()) :
    matchesName name = true := by
  rw [validateName] at h
  split at h
  · cases h
  · split at h
    · assumption
    · cases h

theorem segment_chars (sep : Char) (cs : List Char)
    (h : (cs.splitOn sep).all isSegment = true) :
    ∀ c ∈ cs, c = sep ∨ isLowerAlnum c = true := by
  intro c hc
  by_cases hsep : c = sep
  · exact Or.inl hsep
  · right
    obtain ⟨l, hl, hcl⟩ := (mem_parts sep c cs).mpr ⟨hc, hsep⟩
    have hsegment := List.all_eq_true.mp h l hl
    rw [isSegment, decide_eq_true_eq] at hsegment
    exact List.all_eq_true.mp hsegment.2 c hcl

theorem segment_ne (sep : Char) (cs : List Char) (h : (cs.splitOn sep).all isSegment = true) :
    ∀ l ∈ cs.splitOn sep, l ≠ [] := by
  intro l hl
  have hsegment := List.all_eq_true.mp h l hl
  rw [isSegment, decide_eq_true_eq] at hsegment
  exact hsegment.1

/-- Nothing is left exactly of a string of white space. -/
theorem trimSpace_eq_empty (s : String) : trimSpace s = "" ↔ ∀ c ∈ s.toList, isSpace c = true := by
  have hofList : ∀ cs : List Char, String.ofList cs = "" ↔ cs = [] := by
    intro cs
    rw [← String.toList_inj, String.toList_ofList, String.toList_empty]
  rw [trimSpace, hofList, List.reverse_eq_nil_iff, List.dropWhile_eq_nil_iff]
  constructor
  · intro h c hc
    rw [← List.takeWhile_append_dropWhile (p := isSpace) (l := s.toList), List.mem_append] at hc
    rcases hc with hc | hc
    · exact List.mem_takeWhile_imp hc
    · exact h c (List.mem_reverse.mpr hc)
  · intro h c hc
    exact h c ((List.dropWhile_sublist isSpace).subset (List.mem_reverse.mp hc))

theorem alnum_not_space (c : Char) (h : isLowerAlnum c = true) : isSpace c = false := by
  have hnone : lowerAlnum.all (fun c => !isSpace c) = true := by decide
  have hc := List.all_eq_true.mp hnone c ((mem_lowerAlnum c).mpr h)
  rwa [Bool.not_eq_true'] at hc

theorem validateName_iff (name : String) :
    validateName name = .ok () ↔ (name.toList.splitOn '-').all isSegment = true := by
  constructor
  · intro h
    exact (matchesName_iff name).mp (validateName_matches name h)
  · intro h
    have htrim : trimSpace name ≠ "" := by
      intro hempty
      have hspace := (trimSpace_eq_empty name).mp hempty
      obtain ⟨l, hl⟩ := List.exists_mem_of_ne_nil _ (List.splitOn_ne_nil '-' name.toList)
      have hsegment := List.all_eq_true.mp h l hl
      rw [isSegment, decide_eq_true_eq] at hsegment
      obtain ⟨c, hc⟩ := List.exists_mem_of_ne_nil l hsegment.1
      have hmem := (mem_parts '-' c name.toList).mp ⟨l, hl, hc⟩
      have hnot := alnum_not_space c (List.all_eq_true.mp hsegment.2 c hc)
      rw [hspace c hmem.1] at hnot
      cases hnot
    rw [validateName, if_neg htrim, if_pos ((matchesName_iff name).mpr h)]

theorem validateDomainName_iff (domain : String) :
    validateDomainName domain = .ok () ↔ 2 ≤ (domain.toList.splitOn '.').length ∧
      (domain.toList.splitOn '.').all isSegment = true := by
  rw [← matchesDomain_iff, validateDomainName]
  split
  · next h => simp [h]
  · next h => simp [h]

end Jetski.Validation
