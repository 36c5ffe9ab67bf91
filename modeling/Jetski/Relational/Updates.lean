import Jetski.Relational.Discipline

/-!
# Partial updates

A partial update sets some fields and leaves the others. Applied to contents
that are older than those it replaces, it undoes what was set in between. When
no update in between set a field that it leaves, it is as if it had been applied
to the contents it replaces, so a log of such updates leaves what applying them
one after another leaves.
-/

set_option autoImplicit false

namespace Relational

variable {F E : Type} {V : F → Type}

abbrev Fields (V : F → Type) := (f : F) → V f

abbrev Update (V : F → Type) := (f : F) → Option (V f)

def Update.apply (u : Update V) (c : Fields V) : Fields V := fun f => (u f).getD (c f)

theorem apply_set (u : Update V) (c c' : Fields V) (f : F) (h : u f ≠ none) :
    u.apply c f = u.apply c' f := by
  obtain ⟨v, hv⟩ := Option.ne_none_iff_exists'.mp h
  simp [Update.apply, hv]

theorem apply_unset (u : Update V) (c : Fields V) (f : F) (h : u f = none) : u.apply c f = c f := by
  simp [Update.apply, h]

section Log
variable (update : E → Update V) (contents : List E → Fields V)

/-- The contents after each entry are its update of the contents after some
earlier entry, and no entry in between sets a field that the update leaves. -/
def Undisturbed (log : List E) : Prop := ∀ pre e post, log = pre++e::post →
  ∃ old between, pre = old++between ∧ contents (pre++[e]) = (update e).apply (contents old) ∧
    ∀ f, update e f = none → ∀ e' ∈ between, update e' f = none

/-- A field that no entry of a stretch sets stays, if each entry updates what it replaces. -/
theorem contents_stay (f : F) (old between : List E)
    (hstep : ∀ pre e, pre++[e] <+: between →
      contents (old++pre++[e]) = (update e).apply (contents (old++pre)))
    (hf : ∀ e ∈ between, update e f = none) : contents (old++between) f = contents old f := by
  induction between using List.reverseRecOn with
  | nil => rw [List.append_nil]
  | append_singleton pre e ih =>
    have hbefore : contents (old++pre) f = contents old f := by
      refine ih (fun pre' e' hp => hstep pre' e' (hp.trans (List.prefix_append pre [e]))) ?_
      exact fun e' he => hf e' (List.mem_append_left [e] he)
    rw [← List.append_assoc, hstep pre e List.prefix_rfl,
      apply_unset _ _ _ (hf e (by simp)), hbefore]

/-- An undisturbed entry updates what it replaces. -/
theorem undisturbed_step (log : List E) (h : Undisturbed update contents log) :
    ∀ n pre e post, pre.length = n → log = pre++e::post →
      contents (pre++[e]) = (update e).apply (contents pre) := by
  intro n
  induction n using Nat.strongRecOn with
  | ind n ih =>
    intro pre e post hn hlog
    obtain ⟨old, between, rfl, hnew, hbetween⟩ := h pre e post hlog
    rw [hnew]
    ext f
    by_cases hf : update e f = none
    · rw [apply_unset _ _ _ hf, apply_unset _ _ _ hf]
      refine (contents_stay update contents f old between ?_ (hbetween f hf)).symm
      intro pre' e' hp
      obtain ⟨rest, rfl⟩ := hp
      refine ih (old++pre').length ?_ (old++pre') e' (rest++e::post) rfl ?_
      · rw [← hn]
        simp only [List.length_append, List.length_cons]
        omega
      · rw [hlog]
        simp
    · exact apply_set _ _ _ f hf

end Log

/-! ## Updates by commits -/

section Commits
variable {T : Type} {Key Row : T → Type} [DecidableEq T] [∀ t, DecidableEq (Key t)] {G σ : Type}
variable (update : σ → Update V) (since : Commit Key Row σ → ℕ) (srv₀ : Server Key Row G σ)

/-- No commit made since the given moment of another one sets a field that the
update of its client leaves. -/
def Separate (log : List (Commit Key Row σ)) : Prop := ∀ pre c post, log = pre++c::post →
  ∀ f, update c.client f = none →
    ∀ c' ∈ pre.drop (since c-srv₀.wal.length), update c'.client f = none

/-- Every commit leaves its client's update of contents that were the committed
ones at some moment since the given one. -/
def Merges (contents : Store Key Row → Fields V) (log : List (Commit Key Row σ)) : Prop :=
  ∀ pre c post, log = pre++c::post → ∃ d, Past srv₀ pre (since c) d ∧
    contents (srv₀.db.settle (pre++[c])) = (update c.client).apply (contents d)

theorem separate_undisturbed (contents : Store Key Row → Fields V) (log : List (Commit Key Row σ))
    (hm : Merges update since srv₀ contents log) (hs : Separate update since srv₀ log) :
    Undisturbed (fun c => update c.client) (fun pre => contents (srv₀.db.settle pre)) log := by
  intro pre c post hlog
  obtain ⟨d, ⟨cs, hcs, hsince, rfl⟩, hnew⟩ := hm pre c post hlog
  obtain ⟨between, rfl⟩ := hcs
  refine ⟨cs, between, rfl, hnew, fun f hf c' hc' => hs _ c post hlog f hf c' ?_⟩
  have hn : since c-srv₀.wal.length ≤ cs.length := by omega
  rw [List.drop_append_of_le_length hn]
  exact List.mem_append_right _ hc'

end Commits
end Relational
