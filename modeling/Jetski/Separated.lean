import Mathlib.Computability.RegularExpressions

/-!
# Expressions for separated words

Regular expressions for words made of parts with a separator between two of
them. The words of such an expression are the joins of parts, and if no part
has the separator, the parts are got back by splitting.
-/

set_option autoImplicit false

namespace Jetski.Separated

open RegularExpression

section Expressions
variable {α : Type}

/-- `[..]` -/
def oneOf (cs : List α) : RegularExpression α := (cs.map char).sum

/-- `(..)+` -/
def oneOrMore (P : RegularExpression α) : RegularExpression α := P*P.star

theorem mem_oneOf (cs w : List α) : w ∈ (oneOf cs).matches' ↔ ∃ c ∈ cs, w = [c] := by
  induction cs with
  | nil => simp [oneOf]
  | cons c cs ih =>
    have hsum : oneOf (c::cs) = char c+oneOf cs := rfl
    have hchar : w ∈ ({[c]} : Language α) ↔ w = [c] := Iff.rfl
    rw [hsum, matches'_add, Language.mem_add, ih, matches'_char, hchar]
    simp

theorem mem_oneOrMore (P : RegularExpression α) (w : List α) : w ∈ (oneOrMore P).matches' ↔
    ∃ L : List (List α), L ≠ [] ∧ (∀ y ∈ L, y ∈ P.matches') ∧ L.flatten = w := by
  rw [oneOrMore, matches'_mul, matches'_star, Language.mem_mul]
  constructor
  · intro ⟨u, hu, v, hv, huv⟩
    obtain ⟨L, rfl, hL⟩ := Language.mem_kstar.mp hv
    exact ⟨u::L, by simp, List.forall_mem_cons.mpr ⟨hu, hL⟩, huv⟩
  · intro ⟨L, hne, hL, hw⟩
    cases L with
    | nil => exact absurd rfl hne
    | cons u L =>
      rw [List.forall_mem_cons] at hL
      exact ⟨u, hL.1, L.flatten, Language.mem_kstar.mpr ⟨L, rfl, hL.2⟩, hw⟩

/-- A non-empty run of characters of a class. -/
theorem mem_run (cs w : List α) :
    w ∈ (oneOrMore (oneOf cs)).matches' ↔ w ≠ [] ∧ ∀ c ∈ w, c ∈ cs := by
  rw [mem_oneOrMore]
  constructor
  · rintro ⟨L, hne, hL, rfl⟩
    have hsingle : ∀ y ∈ L, ∃ c ∈ cs, y = [c] := fun y hy => (mem_oneOf cs y).mp (hL y hy)
    constructor
    · intro hflat
      cases L with
      | nil => exact hne rfl
      | cons y L =>
        obtain ⟨c, -, rfl⟩ := hsingle y (by simp)
        simp at hflat
    · intro c hc
      obtain ⟨y, hy, hcy⟩ := List.mem_flatten.mp hc
      obtain ⟨d, hd, rfl⟩ := hsingle y hy
      rwa [List.mem_singleton.mp hcy]
  · intro ⟨hne, hw⟩
    have hflat : (w.map fun c => [c]).flatten = w := by
      rw [← List.flatMap_def, List.flatMap_singleton']
    refine ⟨w.map fun c => [c], by simpa using hne, ?_, hflat⟩
    intro y hy
    obtain ⟨c, hc, rfl⟩ := List.mem_map.mp hy
    exact (mem_oneOf cs [c]).mpr ⟨c, hw c hc, rfl⟩

/-- `P(sP)*` -/
def separated (s : α) (P : RegularExpression α) : RegularExpression α := P*(char s*P).star

/-- `(Ps)+P` -/
def terminated (s : α) (P : RegularExpression α) : RegularExpression α := oneOrMore (P*char s)*P

/-- A join from its first part on. -/
theorem join_cons (s : α) (l : List α) (ls : List (List α)) :
    [s].intercalate (l::ls) = l++(ls.map (s::·)).flatten := by
  induction ls generalizing l with
  | nil => simp
  | cons l' ls ih =>
    rw [List.intercalate_cons_cons, ih l']
    simp

/-- A join around one of its parts. -/
theorem join_around (s : α) (front : List (List α)) (l : List α) (back : List (List α)) :
    [s].intercalate (front++l::back) =
      (front.map (·++[s])).flatten++(l++(back.map (s::·)).flatten) := by
  induction front with
  | nil => simp [join_cons]
  | cons l' front ih =>
    rw [List.cons_append, List.intercalate_cons_of_ne_nil (by simp), ih]
    simp

/-- The word is the join of at least `n` parts. -/
def Joined (s : α) (P : RegularExpression α) (n : ℕ) (w : List α) : Prop :=
  ∃ ls : List (List α), n ≤ ls.length ∧ (∀ l ∈ ls, l ∈ P.matches') ∧ [s].intercalate ls = w

variable (s : α) (P : RegularExpression α)

theorem mem_charMul (w : List α) :
    w ∈ (char s*P).matches' ↔ ∃ l ∈ P.matches', w = s::l := by
  rw [matches'_mul, matches'_char, Language.mem_mul]
  constructor
  · rintro ⟨_, rfl, l, hl, rfl⟩
    exact ⟨l, hl, rfl⟩
  · rintro ⟨l, hl, rfl⟩
    exact ⟨[s], rfl, l, hl, rfl⟩

theorem mem_mulChar (w : List α) :
    w ∈ (P*char s).matches' ↔ ∃ l ∈ P.matches', w = l++[s] := by
  rw [matches'_mul, matches'_char, Language.mem_mul]
  constructor
  · rintro ⟨l, hl, _, rfl, rfl⟩
    exact ⟨l, hl, rfl⟩
  · rintro ⟨l, hl, rfl⟩
    exact ⟨l, hl, [s], rfl, rfl⟩

theorem mem_separated (w : List α) : w ∈ (separated s P).matches' ↔ Joined s P 1 w := by
  rw [separated, matches'_mul, matches'_star, Language.mem_mul]
  constructor
  · rintro ⟨u, hu, v, hv, rfl⟩
    obtain ⟨L, rfl, hL⟩ := Language.mem_kstar.mp hv
    clear hv
    induction L generalizing u with
    | nil => exact ⟨[u], by simp, by simpa using hu, by simp⟩
    | cons y L ih =>
      rw [List.forall_mem_cons] at hL
      obtain ⟨l, hl, rfl⟩ := (mem_charMul s P y).mp hL.1
      obtain ⟨ls, hlen, hls, hjoin⟩ := ih l hl hL.2
      refine ⟨u::ls, by simp, List.forall_mem_cons.mpr ⟨hu, hls⟩, ?_⟩
      have hne : ls ≠ [] := List.ne_nil_of_length_pos hlen
      rw [List.intercalate_cons_of_ne_nil hne, hjoin]
      simp
  · rintro ⟨ls, hlen, hls, rfl⟩
    cases ls with
    | nil => simp at hlen
    | cons l ls =>
      rw [List.forall_mem_cons] at hls
      refine ⟨l, hls.1, (ls.map (s::·)).flatten, Language.mem_kstar.mpr ⟨_, rfl, ?_⟩, ?_⟩
      · intro y hy
        obtain ⟨l', hl', rfl⟩ := List.mem_map.mp hy
        exact (mem_charMul s P _).mpr ⟨l', hls.2 l' hl', rfl⟩
      · exact (join_cons s l ls).symm

theorem mem_terminated (w : List α) : w ∈ (terminated s P).matches' ↔ Joined s P 2 w := by
  rw [terminated, matches'_mul, Language.mem_mul]
  constructor
  · rintro ⟨u, hu, v, hv, rfl⟩
    obtain ⟨L, hne, hL, rfl⟩ := (mem_oneOrMore _ u).mp hu
    -- the parts before the last separator, and the last part
    have hjoin : ∃ ls, ls.length = L.length+1 ∧ (∀ l ∈ ls, l ∈ P.matches') ∧
        [s].intercalate ls = L.flatten++v := by
      clear hu hne
      induction L with
      | nil => exact ⟨[v], rfl, by simpa using hv, by simp⟩
      | cons y L ih =>
        rw [List.forall_mem_cons] at hL
        obtain ⟨l, hl, rfl⟩ := (mem_mulChar s P y).mp hL.1
        obtain ⟨ls, hlen, hls, hjoin⟩ := ih hL.2
        refine ⟨l::ls, by simp [hlen], List.forall_mem_cons.mpr ⟨hl, hls⟩, ?_⟩
        have hls' : ls ≠ [] := List.ne_nil_of_length_pos (by omega)
        rw [List.intercalate_cons_of_ne_nil hls', hjoin]
        simp
    obtain ⟨ls, hlen, hls, hjoin⟩ := hjoin
    have hpos := List.length_pos_iff.mpr hne
    exact ⟨ls, by omega, hls, hjoin⟩
  · rintro ⟨ls, hlen, hls, rfl⟩
    have hne : ls ≠ [] := List.ne_nil_of_length_pos (by omega)
    have hsplit : ls = ls.dropLast++[ls.getLast hne] := (List.dropLast_append_getLast hne).symm
    have hpos : ls.dropLast ≠ [] := by
      apply List.ne_nil_of_length_pos
      rw [List.length_dropLast]
      omega
    refine ⟨(ls.dropLast.map (·++[s])).flatten, ?_, ls.getLast hne,
      hls _ (List.getLast_mem hne), ?_⟩
    · refine (mem_oneOrMore _ _).mpr ⟨_, fun h => hpos (List.map_eq_nil_iff.mp h), ?_, rfl⟩
      intro y hy
      obtain ⟨l, hl, rfl⟩ := List.mem_map.mp hy
      exact (mem_mulChar s P _).mpr ⟨l, hls l (List.mem_of_mem_dropLast hl), rfl⟩
    · have hjoin := join_around s ls.dropLast (ls.getLast hne) []
      rw [← hsplit] at hjoin
      simpa using hjoin.symm

end Expressions

section Splitting
variable {α : Type} [DecidableEq α] {s : α} {P : RegularExpression α}

/-- The parts have the characters that are no separator. -/
theorem mem_parts (s c : α) (cs : List α) :
    (∃ l ∈ cs.splitOn s, c ∈ l) ↔ c ∈ cs ∧ c ≠ s := by
  induction cs with
  | nil => simp
  | cons d cs ih =>
    rw [List.splitOn_cons_eq_if_modifyHead]
    by_cases hd : d = s
    · subst hd
      have hnil : c ∉ ([] : List α) := List.not_mem_nil
      have hself : ¬(c = d ∧ c ≠ d) := fun h => h.2 h.1
      rw [if_pos (beq_self_eq_true d), List.exists_mem_cons_iff, ih, List.mem_cons, or_and_right,
        or_iff_right hnil, or_iff_right hself]
    · rw [if_neg (by simpa using hd)]
      cases hs : cs.splitOn s with
      | nil => exact absurd hs (List.splitOn_ne_nil s cs)
      | cons l ls =>
        rw [hs, List.exists_mem_cons_iff] at ih
        have hne : c = d ∧ c ≠ s ↔ c = d := and_iff_left_of_imp fun h => h ▸ hd
        rw [List.modifyHead_cons, List.exists_mem_cons_iff, List.mem_cons, or_assoc, ih,
          List.mem_cons, or_and_right, hne]

/-- A word of non-empty parts neither starts nor ends with the separator, and no
two separators are adjacent. -/
theorem parts_ends (s : α) (cs : List α) (h : ∀ l ∈ cs.splitOn s, l ≠ []) :
    cs.head? ≠ some s ∧ cs.getLast? ≠ some s ∧ ¬[s, s] <:+: cs := by
  have hstart : ∀ tail : List α, [] ∈ (s::tail).splitOn s := by
    intro tail
    have hsplit := List.splitOn_append_cons_self (a := s) [] tail
    rw [List.nil_append, List.splitOn_nil] at hsplit
    simp [hsplit]
  have hafter : ∀ front tail : List α, cs = front++s::tail → [] ∉ tail.splitOn s := by
    rintro front tail rfl hmem
    rw [List.splitOn_append_cons_self] at h
    exact h [] (List.mem_append_right _ hmem) rfl
  refine ⟨?_, ?_, ?_⟩
  · intro hhead
    obtain ⟨tail, rfl⟩ := List.head?_eq_some_iff.mp hhead
    exact h [] (hstart tail) rfl
  · intro hlast
    obtain ⟨front, hcs⟩ := List.getLast?_eq_some_iff.mp hlast
    exact hafter front [] hcs (by simp)
  · rintro ⟨front, tail, hcs⟩
    exact hafter front (s::tail) (by rw [← hcs]; simp) (hstart tail)

/-- Splitting finds the parts again if no part has the separator. -/
theorem joined_iff (hP : ∀ l ∈ P.matches', s ∉ l) (n : ℕ) (hn : 1 ≤ n) (w : List α) :
    Joined s P n w ↔ n ≤ (w.splitOn s).length ∧ ∀ l ∈ w.splitOn s, l ∈ P.matches' := by
  constructor
  · rintro ⟨ls, hlen, hls, rfl⟩
    have hne : ls ≠ [] := List.ne_nil_of_length_pos (by omega)
    rw [List.splitOn_intercalate s (fun l hl => hP l (hls l hl)) hne]
    exact ⟨hlen, hls⟩
  · intro ⟨hlen, hls⟩
    exact ⟨w.splitOn s, hlen, hls, List.intercalate_splitOn s⟩

end Splitting

end Jetski.Separated
