import Jetski.Ask

/-!
# The host format and its reader

A host is made by inserting a name into the format and read by comparing the
labels of both. Inserting walks over the characters of the format, reading over
the labels from the last to the first. They invert each other if one label of
the format is a verb and no other has a percent sign.
-/

set_option autoImplicit false

namespace Jetski.HostFormat

open Jetski.Types Ask Separated

/-! ## Inserting -/

/-- `fmt.Sprintf` with one string operand, which is `none` once it is used.
The verbs `%v`, `%s` and `%%` are read. Any other verb has no text here. -/
def format : List Char → Option (List Char) → Option (List Char)
  | [], none => some []
  | [], some n => some ("%!(EXTRA string=".toList++n++")".toList)
  | ['%'], operand => (format [] operand).map ("%!(NOVERB)".toList++·)
  | '%'::verb::cs, operand =>
    if verb = '%' then (format cs operand).map ('%'::·)
    else if verb = 'v' ∨ verb = 's' then
      match operand with
      | some n => (format cs none).map (n++·)
      | none => (format cs none).map (("%!".toList++verb::"(MISSING)".toList)++·)
    else none
  | c::cs, operand => (format cs operand).map (c::·)

def sprintf (want name : String) : Option String :=
  (format want.toList (some name.toList)).map String.ofList

theorem format_literal (ps cs : List Char) (operand : Option (List Char)) (h : '%' ∉ ps) :
    format (ps++cs) operand = (format cs operand).map (ps++·) := by
  induction ps with
  | nil => simp
  | cons c ps ih =>
    rw [List.mem_cons, not_or] at h
    have hc : c ≠ '%' := fun hc => h.1 hc.symm
    have hcons : format (c::(ps++cs)) operand = (format (ps++cs) operand).map (c::·) := by
      rw [format]
      · exact fun h _ => hc h
      · exact fun _ _ h => absurd h hc
    rw [List.cons_append, hcons, ih h.2, Option.map_map]
    rfl

theorem format_verb (v cs n : List Char) (hv : placeholder v = true) :
    format (v++cs) (some n) = (format cs none).map (n++·) := by
  rw [placeholder, decide_eq_true_eq] at hv
  rcases hv with rfl | rfl
  · rfl
  · rfl

/-- The text of a single verb between literals. -/
theorem format_around (ps v qs n : List Char) (hps : '%' ∉ ps) (hv : placeholder v = true)
    (hqs : '%' ∉ qs) : format (ps++(v++qs)) (some n) = some (ps++(n++qs)) := by
  have hlast := format_literal qs [] none hqs
  rw [List.append_nil] at hlast
  rw [format_literal ps _ _ hps, format_verb v qs n hv, hlast]
  simp [format]

/-- The formats of the other modules are those with one `%v`. -/
theorem sprintf_format (f : Format) (hbefore : '%' ∉ f.before.toList)
    (hafter : '%' ∉ f.after.toList) (name : String) :
    sprintf (formatText f) name = some (f.sprintf name) := by
  have hverb : "%v".toList = ['%', 'v'] := rfl
  rw [sprintf, formatText, String.toList_append, String.toList_append, hverb, List.append_assoc,
    format_around _ _ _ _ hbefore rfl hafter, Option.map_some, Option.some_inj,
    ← String.toList_inj]
  simp [Format.sprintf]

/-! ## Reading -/

/-- Both have as many labels, the format has a verb, and all its other labels
are those of the domain. -/
structure Fits (want domain : String) : Prop where
  length : (labels want).length = (labels domain).length
  verb : ∃ l ∈ labels want, placeholder l = true
  literal : ∀ p ∈ (labels want).zip (labels domain), placeholder p.1 = false → p.1 = p.2

/-- The loop keeps the verb it meets last, unless a literal differs. -/
theorem findLabel_eq (ps : List (List Char × List Char)) (found : Option (List Char)) :
    findLabel ps found =
      if ∀ p ∈ ps, placeholder p.1 = false → p.1 = p.2 then
        ((ps.reverse.find? (fun p => placeholder p.1)).map Prod.snd).or found
      else none := by
  induction ps generalizing found with
  | nil => simp [findLabel]
  | cons p ps ih =>
    obtain ⟨wp, hp⟩ := p
    rw [findLabel, List.reverse_cons, List.find?_append]
    simp only [List.forall_mem_cons]
    by_cases hw : placeholder wp = true
    · have hlast : (List.find? (fun p => placeholder p.1) [(wp, hp)]) = some (wp, hp) := by
        simp [hw]
      rw [if_pos hw, ih, hlast]
      simp only [hw, Bool.true_eq_false, false_implies, true_and]
      cases ps.reverse.find? (fun p => placeholder p.1) with
      | none => rfl
      | some p => rfl
    · have hlast : (List.find? (fun p => placeholder p.1) [(wp, hp)]) = none := by
        simp [hw]
      rw [if_neg hw, hlast, Option.or_none]
      rw [Bool.not_eq_true] at hw
      by_cases heq : wp = hp
      · rw [if_neg (not_not.mpr heq), ih]
        simp only [heq, implies_true, true_and]
      · rw [if_pos heq, if_neg (fun h => heq (h.1 hw))]

/-- The first verb is found at the same place as its label. -/
theorem find_zip (ws hs : List (List Char)) (hlen : ws.length = hs.length) :
    ((ws.zip hs).find? (fun p => placeholder p.1)).map Prod.snd =
      hs[ws.findIdx placeholder]? := by
  induction ws generalizing hs with
  | nil =>
    have hhs : hs = [] := List.length_eq_zero_iff.mp hlen.symm
    simp [hhs]
  | cons w ws ih =>
    cases hs with
    | nil => cases hlen
    | cons h hs =>
      rw [List.zip_cons_cons, List.find?_cons, List.findIdx_cons]
      by_cases hw : placeholder w = true
      · simp [hw]
      · rw [Bool.not_eq_true] at hw
        simp only [hw, cond_false, List.getElem?_cons_succ]
        exact ih hs (Nat.succ.inj hlen)

theorem getOrgName_iff (want domain name : String) : getOrgName want domain = some name ↔
    Fits want domain ∧ (labels domain)[(labels want).findIdx placeholder]? = some name.toList := by
  have hmap : ∀ o : Option (List Char), o.map String.ofList = some name ↔ o = some name.toList := by
    intro o
    cases o with
    | none => simp
    | some cs => simp [← String.toList_inj]
  rw [getOrgName]
  by_cases hlen : (labels want).length = (labels domain).length
  · have hpos : ¬((labels want).length = 0 ∨ (labels want).length ≠ (labels domain).length) := by
      intro h
      rcases h with h | h
      · exact List.splitOn_ne_nil '.' want.toList (List.length_eq_zero_iff.mp h)
      · exact h hlen
    rw [if_neg hpos, hmap, findLabel_eq, List.reverse_reverse, find_zip _ _ hlen, Option.or_none]
    simp only [List.mem_reverse]
    constructor
    · intro h
      by_cases hliteral : ∀ p ∈ (labels want).zip (labels domain),
          placeholder p.1 = false → p.1 = p.2
      · rw [if_pos hliteral] at h
        have hlt := (List.getElem?_eq_some_iff.mp h).1
        rw [← hlen, List.findIdx_lt_length] at hlt
        exact ⟨⟨hlen, hlt, hliteral⟩, h⟩
      · rw [if_neg hliteral] at h
        cases h
    · rintro ⟨hfits, h⟩
      rwa [if_pos hfits.literal]
  · rw [if_pos (Or.inr hlen)]
    constructor
    · intro h
      cases h
    · rintro ⟨hfits, -⟩
      exact absurd hfits.length hlen

/-! ## Both together -/

/-- One label of the format is a verb, and no other has a percent sign. -/
def OneVerb (want : String) : Prop :=
  ∃ pre v post, labels want = pre++v::post ∧ placeholder v = true ∧ ∀ l ∈ pre++post, '%' ∉ l

theorem placeholder_percent (l : List Char) (h : '%' ∉ l) : placeholder l = false := by
  rw [placeholder, decide_eq_false_iff_not]
  rintro (rfl | rfl)
  · exact h List.mem_cons_self
  · exact h List.mem_cons_self

theorem zip_literal (pre post hs : List (List Char)) (v : List Char) (hv : placeholder v = true)
    (hliteral : ∀ l ∈ pre++post, placeholder l = false)
    (hlen : (pre++v::post).length = hs.length) :
    (∀ p ∈ (pre++v::post).zip hs, placeholder p.1 = false → p.1 = p.2) ↔
      ∃ x, hs = pre++x::post := by
  induction pre generalizing hs with
  | nil =>
    cases hs with
    | nil => cases hlen
    | cons h hs =>
      have hsame := zip_same post hs (Nat.succ.inj hlen)
      simp only [List.mem_reverse] at hsame
      have hrest : (∀ p ∈ post.zip hs, placeholder p.1 = false → p.1 = p.2) ↔ post = hs := by
        rw [← hsame]
        constructor
        · intro h p hp
          exact h p hp (hliteral _ (List.of_mem_zip hp).1)
        · intro h p hp _
          exact h p hp
      rw [List.nil_append, List.zip_cons_cons, List.forall_mem_cons, hrest]
      simp [hv, eq_comm]
  | cons w pre ih =>
    cases hs with
    | nil => cases hlen
    | cons h hs =>
      rw [List.cons_append, List.forall_mem_cons] at hliteral
      have ih := ih hs hliteral.2 (Nat.succ.inj hlen)
      rw [List.cons_append, List.zip_cons_cons, List.forall_mem_cons, ih]
      simp [hliteral.1, eq_comm]

theorem join_percent (ls : List (List Char)) (h : ∀ l ∈ ls, '%' ∉ l) :
    '%' ∉ (ls.map (·++['.'])).flatten ∧ '%' ∉ (ls.map ('.'::·)).flatten := by
  have hdot : '%' ≠ '.' := by decide
  constructor
  · intro hmem
    obtain ⟨l, hl, hc⟩ : ∃ l ∈ ls, '%' ∈ l++['.'] := by simpa using hmem
    rcases List.mem_append.mp hc with hc | hc
    · exact h l hl hc
    · exact hdot (List.mem_singleton.mp hc)
  · intro hmem
    obtain ⟨l, hl, hc⟩ : ∃ l ∈ ls, '%' ∈ '.'::l := by simpa using hmem
    rcases List.mem_cons.mp hc with hc | hc
    · exact hdot hc
    · exact h l hl hc

section Inverse
variable {want : String} {pre post : List (List Char)} {v : List Char}
  (hwant : labels want = pre++v::post) (hv : placeholder v = true)
  (hliteral : ∀ l ∈ pre++post, '%' ∉ l)
include hwant hv hliteral

theorem findIdx_verb : (labels want).findIdx placeholder = pre.length := by
  have hnone : pre.findIdx placeholder = pre.length := by
    apply List.findIdx_eq_length_of_false
    intro l hl
    exact placeholder_percent l (hliteral l (List.mem_append_left _ hl))
  rw [hwant, List.findIdx_append, hnone, if_neg (lt_irrefl _), List.findIdx_cons, hv]
  simp

/-- The text has the labels of the format, with the name for the verb. -/
theorem sprintf_labels (name : String) (hname : '.' ∉ name.toList) :
    ∃ host, sprintf want name = some host ∧ labels host = pre++name.toList::post := by
  have hjoin : want.toList = (pre.map (·++['.'])).flatten++(v++(post.map ('.'::·)).flatten) := by
    rw [← join_around, ← hwant, labels, List.intercalate_splitOn]
  have hbefore := (join_percent pre fun l hl => hliteral l (List.mem_append_left _ hl)).1
  have hafter := (join_percent post fun l hl => hliteral l (List.mem_append_right _ hl)).2
  refine ⟨String.ofList (['.'].intercalate (pre++name.toList::post)), ?_, ?_⟩
  · rw [sprintf, hjoin, format_around _ _ _ _ hbefore hv hafter, join_around]
    rfl
  · have hdotless := label_dotless want.toList
    rw [← labels, hwant] at hdotless
    have hall : ∀ l ∈ pre++name.toList::post, '.' ∉ l := by
      intro l hl
      rw [List.mem_append, List.mem_cons] at hl
      rcases hl with hl | rfl | hl
      · exact hdotless l (List.mem_append_left _ hl)
      · exact hname
      · exact hdotless l (List.mem_append_right _ (List.mem_cons_of_mem _ hl))
    rw [labels, String.toList_ofList, List.splitOn_intercalate '.' hall (by simp)]

/-- A domain that fits has the labels of the format, with its own for the verb. -/
theorem fits_labels (domain : String) :
    Fits want domain ↔ ∃ x, labels domain = pre++x::post := by
  have hplain : ∀ l ∈ pre++post, placeholder l = false := fun l hl =>
    placeholder_percent l (hliteral l hl)
  constructor
  · intro hfits
    have hlen := hfits.length
    have hzip := hfits.literal
    rw [hwant] at hlen hzip
    exact (zip_literal pre post _ v hv hplain hlen).mp hzip
  · rintro ⟨x, hx⟩
    have hlen : (labels want).length = (labels domain).length := by
      rw [hwant, hx, List.length_append, List.length_append, List.length_cons, List.length_cons]
    constructor
    · exact hlen
    · exact ⟨v, by simp [hwant], hv⟩
    · rw [hwant] at hlen ⊢
      exact (zip_literal pre post _ v hv hplain hlen).mpr ⟨x, hx⟩

end Inverse

/-- The name is read back from the host that was formatted with it, and only hosts of this form
have a name. -/
theorem getOrgName_inverts :
    (∀ want, OneVerb want →
      (∀ name : String, '.' ∉ name.toList →
        ∃ host, sprintf want name = some host ∧ getOrgName want host = some name) ∧
      ∀ domain name, getOrgName want domain = some name → sprintf want name = some domain) ∧
    ∀ want domain, ((getOrgName want domain).isSome ↔ Fits want domain) ∧
      ∀ name, getOrgName want domain = some name →
        (labels domain)[(labels want).findIdx placeholder]? = some name.toList := by
  constructor
  · rintro want ⟨pre, v, post, hwant, hv, hliteral⟩
    have hidx := findIdx_verb hwant hv hliteral
    constructor
    · intro name hname
      obtain ⟨host, hhost, hlabels⟩ := sprintf_labels hwant hv hliteral name hname
      have hfits := (fits_labels hwant hv hliteral host).mpr ⟨_, hlabels⟩
      refine ⟨host, hhost, (getOrgName_iff want host name).mpr ⟨hfits, ?_⟩⟩
      rw [hidx, hlabels]
      simp
    · intro domain name hget
      obtain ⟨hfits, hlabel⟩ := (getOrgName_iff want domain name).mp hget
      obtain ⟨x, hx⟩ := (fits_labels hwant hv hliteral domain).mp hfits
      have hxname : x = name.toList := by
        rw [hidx, hx] at hlabel
        simpa using hlabel
      have hname : '.' ∉ name.toList :=
        label_dotless domain.toList _ (List.mem_of_getElem? hlabel)
      obtain ⟨host, hhost, hlabels⟩ := sprintf_labels hwant hv hliteral name hname
      have hdomain : host = domain := labels_injective host domain (by rw [hlabels, hx, hxname])
      rw [hhost, hdomain]
  · intro want domain
    constructor
    · constructor
      · intro h
        obtain ⟨name, hname⟩ := Option.isSome_iff_exists.mp h
        exact ((getOrgName_iff want domain name).mp hname).1
      · intro hfits
        have hlt := List.findIdx_lt_length.mpr hfits.verb
        rw [hfits.length] at hlt
        obtain ⟨x, hx⟩ : ∃ x, (labels domain)[(labels want).findIdx placeholder]? = some x :=
          ⟨_, List.getElem?_eq_getElem hlt⟩
        have hget := (getOrgName_iff want domain (String.ofList x)).mpr
          ⟨hfits, by rw [hx, String.toList_ofList]⟩
        rw [hget]
        rfl
    · intro name hname
      exact ((getOrgName_iff want domain name).mp hname).2

theorem getOrgName_demo : ∃ host, sprintf "%s.foo.bar" "test" = some host ∧
    getOrgName "%s.foo.bar" host = some "test" := by
  have hverb : OneVerb "%s.foo.bar" :=
    ⟨[], "%s".toList, ["foo".toList, "bar".toList], by decide, rfl, by decide⟩
  exact (getOrgName_inverts.1 "%s.foo.bar" hverb).1 "test" (by decide)

end Jetski.HostFormat
