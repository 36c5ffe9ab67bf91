import Mathlib.Data.Fintype.Basic
import Mathlib.Logic.Relation
import Jetski.Webhook

/-!
# Concurrent account creation

The statement that looks up or creates an account is a single one, but it does
not take effect at one moment. Its snapshot is taken at its start, its insert
waits for uncommitted rows and gives way to committed ones, and its select sees
the snapshot and the row that it has inserted itself. Here the phases of any
number of such calls interleave. Alone, a call is the statement of the queries.
-/

set_option autoImplicit false

namespace Jetski.Upsert

open Relational Schema Jetski.Types Queries

/-- A call that has not begun, has taken its snapshot, has come past the
conflict check with or without a row of its own, has returned to its caller, or
whose transaction has committed. -/
inductive Phase where
  | waiting
  | running (snapshot : Db) (start : ℕ)
  | checked (snapshot : Db) (inserted : Option UserAccount)
  | returned (inserted : Option UserAccount) (result : Except DbError UserAccount)
  | finished (result : Except DbError UserAccount)

structure State (σ : Type) where
  db : Db
  next : UUID
  clock : ℕ
  phase : σ → Phase

def Phase.pending : Phase → Option UserAccount
  | .checked _ u => u
  | .returned u _ => u
  | _ => none

def Phase.unchecked : Phase → Option Db
  | .running snapshot _ => some snapshot
  | _ => none

def Phase.result : Phase → Option (Except DbError UserAccount)
  | .returned _ r => some r
  | .finished r => some r
  | _ => none

section Calls
variable {σ : Type} [DecidableEq σ] (env : Env) (email : σ → String)

def address (i : σ) : String := env.toLower (email i)

def State.enter (w : State σ) (i : σ) (p : Phase) : State σ :=
  { w with clock := w.clock+1, phase := Function.update w.phase i p }

/-- The next phase of a call, if it need not wait. -/
def act (w : State σ) (i : σ) : Option (State σ) :=
  let e := address env email i
  match w.phase i with
  | .waiting =>
    -- a text that the column cannot hold is refused before anything is read
    some (w.enter i
      (if storable e then .running w.db w.clock else .returned none (.error .invalid)))
  | .running snapshot start =>
    if usersWithEmail w.db e = [] then
      some { w.enter i (.checked snapshot (some ⟨⟨start, e⟩, w.next⟩)) with next := w.next+1 }
    else some (w.enter i (.checked snapshot none))
  | .checked snapshot inserted =>
    some (w.enter i (.returned inserted
      ((collectExactlyOneRow (usersWithEmail snapshot e++inserted.toList).dedup).mapError
        Database.notFound)))
  | .returned inserted result =>
    some { w.enter i (.finished result) with
      db := w.db.replay (inserted.toList.map
        (fun u => ⟨.userAccount, u.id, some u.toUserAccountRow⟩)) }
  | .finished _ => none

/-- The conflict check waits for an uncommitted row of the same address. -/
def Blocked (w : State σ) (i : σ) : Prop :=
  (w.phase i).unchecked.isSome ∧
    ∃ j, j ≠ i ∧ ∃ u ∈ (w.phase j).pending, u.email = address env email i

instance [Fintype σ] (w : State σ) (i : σ) : Decidable (Blocked env email w i) :=
  inferInstanceAs (Decidable (_ ∧ _))

/-- One call moves on. -/
def Step (permit : State σ → σ → Prop) (w w' : State σ) : Prop :=
  ∃ i, ¬ Blocked env email w i ∧ permit w i ∧ act env email w i = some w'

def Run (permit : State σ → σ → Prop) : State σ → State σ → Prop :=
  Relation.ReflTransGen (Step env email permit)

/-- Nobody has called, and the accounts have distinct addresses. -/
structure Initial (w : State σ) : Prop where
  sound : Sound schema w.db
  fresh : ∀ k v, w.db.row .userAccount k = some v → k < w.next
  waiting : ∀ i, w.phase i = .waiting

/-- A conflict check that finds a committed account has it in its snapshot. -/
def Undisturbed (w : State σ) (i : σ) : Prop :=
  ∀ snapshot ∈ (w.phase i).unchecked,
    usersWithEmail w.db (address env email i) ≠ [] →
    usersWithEmail snapshot (address env email i) ≠ []

instance (w : State σ) (i : σ) : Decidable (Undisturbed env email w i) :=
  inferInstanceAs (Decidable (∀ snapshot ∈ (w.phase i).unchecked, _))

/-- Every call that has returned has the account of its address, all of them the
same one, and in the end this is the only account. Nobody waits forever. -/
structure Resolved (w : State σ) : Prop where
  account : ∀ i r, (w.phase i).result = some r → storable (address env email i) = true →
    ∃ u, r = .ok u ∧ u.email = address env email i ∧
      (w.db.row .userAccount u.id = some u.toUserAccountRow ∨ (w.phase i).pending = some u)
  same : ∀ i j r r', (w.phase i).result = some r → (w.phase j).result = some r' →
    storable (address env email i) = true → address env email i = address env email j → r = r'
  once : (∀ i, ∃ r, w.phase i = .finished r) → ∀ i, storable (address env email i) = true →
    w.db.One .userAccount (fun v => v.email = address env email i)
  moves : (∀ i, ∃ r, w.phase i = .finished r) ∨ ∃ w', Step env email (fun _ _ => True) w w'

/-! ## The invariant -/

def HasEmail (db : Db) (e : String) : Prop :=
  ∃ k v, db.row .userAccount k = some v ∧ v.email = e

structure Own (db : Db) (next : UUID) (e : String) (u : UserAccount) : Prop where
  email : u.email = e
  drawn : u.id < next
  free : db.row .userAccount u.id = none
  first : ¬ HasEmail db e

def Committed (db : Db) (u : UserAccount) : Prop :=
  db.row .userAccount u.id = some u.toUserAccountRow

def Older (snapshot db : Db) : Prop :=
  ∀ k v, snapshot.row .userAccount k = some v → db.row .userAccount k = some v

def PhaseOk (db : Db) (next : UUID) (e : String) : Phase → Prop
  | .waiting => True
  | .running snapshot _ => storable e = true ∧ Older snapshot db
  | .checked snapshot none => Older snapshot db ∧ HasEmail snapshot e
  | .checked snapshot (some u) => Older snapshot db ∧ Own db next e u
  | .returned none r => storable e = true → ∃ u, r = .ok u ∧ u.email = e ∧ Committed db u
  | .returned (some u) r => r = .ok u ∧ Own db next e u
  | .finished r => storable e = true → ∃ u, r = .ok u ∧ u.email = e ∧ Committed db u

theorem hasEmail_iff (db : Db) (e : String) : HasEmail db e ↔ usersWithEmail db e ≠ [] := by
  constructor
  · rintro ⟨k, v, hv, he⟩ hnil
    have hmem := (Webhook.mem_usersWithEmail db e { v with id := k }).mpr ⟨v, hv, he, rfl⟩
    rw [hnil] at hmem
    cases hmem
  · intro hne
    obtain ⟨u, hu⟩ := List.exists_mem_of_ne_nil _ hne
    obtain ⟨v, hv, he, -⟩ := (Webhook.mem_usersWithEmail db e u).mp hu
    exact ⟨u.id, v, hv, he⟩

/-- All calls together: committed and uncommitted rows have distinct addresses. -/
structure Inv (w : State σ) : Prop where
  once : ∀ k k' v v', w.db.row .userAccount k = some v → w.db.row .userAccount k' = some v' →
    v.email = v'.email → k = k'
  fresh : ∀ k v, w.db.row .userAccount k = some v → k < w.next
  calls : ∀ i, PhaseOk w.db w.next (address env email i) (w.phase i)
  apart : ∀ i j u u', i ≠ j → (w.phase i).pending = some u → (w.phase j).pending = some u' →
    u.email ≠ u'.email ∧ u.id ≠ u'.id

omit [DecidableEq σ] in
theorem initial_inv (w : State σ) (h : Initial w) : Inv env email w where
  once k k' v v' hv hv' he := h.sound.once ⟨"useraccount_email_key", .userAccount,
    fun _ v => (0, v.email)⟩ (by simp [schema, uniques]) k k' v v' hv hv' (congrArg (Prod.mk 0) he)
  fresh := h.fresh
  calls i := by
    rw [h.waiting i]
    trivial
  apart i j u u' _ hu := by
    rw [h.waiting i] at hu
    cases hu

/-- Later identifiers change nothing for a call. -/
theorem phaseOk_next (db : Db) (next next' : UUID) (hn : next ≤ next') (e : String) (p : Phase)
    (h : PhaseOk db next e p) : PhaseOk db next' e p := by
  cases p with
  | waiting => trivial
  | running => exact h
  | checked snapshot inserted =>
    cases inserted with
    | none => exact h
    | some u => exact ⟨h.1, { h.2 with drawn := h.2.drawn.trans_le hn }⟩
  | returned inserted r =>
    cases inserted with
    | none => exact h
    | some u => exact ⟨h.1, { h.2 with drawn := h.2.drawn.trans_le hn }⟩
  | finished => exact h

theorem phaseOk_pending (db : Db) (next : UUID) (e : String) (p : Phase) (h : PhaseOk db next e p)
    (u : UserAccount) (hu : p.pending = some u) : Own db next e u := by
  cases p with
  | waiting | running | finished => cases hu
  | checked snapshot inserted =>
    cases hu
    exact h.2
  | returned inserted r =>
    cases hu
    exact h.2

/-- The row of another address is committed. -/
theorem phaseOk_commit (db : Db) (next : UUID) (e : String) (p : Phase) (u : UserAccount)
    (hfree : db.row .userAccount u.id = none)
    (hother : ∀ u', p.pending = some u' → u'.email ≠ u.email ∧ u'.id ≠ u.id)
    (h : PhaseOk db next e p) :
    PhaseOk (db.set .userAccount u.id (some u.toUserAccountRow)) next e p := by
  have hkeep : ∀ k v, db.row .userAccount k = some v →
      (db.set .userAccount u.id (some u.toUserAccountRow)).row .userAccount k = some v := by
    intro k v hv
    have hne : k ≠ u.id := by
      rintro rfl
      rw [hfree] at hv
      cases hv
    rwa [Store.set_key _ _ _ _ _ hne]
  have hown : ∀ u', p.pending = some u' → Own db next e u' →
      Own (db.set .userAccount u.id (some u.toUserAccountRow)) next e u' := by
    intro u' hu' ho
    obtain ⟨hemail, hid⟩ := hother u' hu'
    refine ⟨ho.email, ho.drawn, by rw [Store.set_key _ _ _ _ _ hid]; exact ho.free, ?_⟩
    rintro ⟨k, v, hv, he⟩
    by_cases hk : k = u.id
    · subst hk
      rw [Store.set_same] at hv
      cases hv
      exact hemail (ho.email.trans he.symm)
    · rw [Store.set_key _ _ _ _ _ hk] at hv
      exact ho.first ⟨k, v, hv, he⟩
  cases p with
  | waiting => trivial
  | running snapshot start => exact ⟨h.1, fun k v hv => hkeep k v (h.2 k v hv)⟩
  | checked snapshot inserted =>
    cases inserted with
    | none => exact ⟨fun k v hv => hkeep k v (h.1 k v hv), h.2⟩
    | some u' => exact ⟨fun k v hv => hkeep k v (h.1 k v hv), hown u' rfl h.2⟩
  | returned inserted r =>
    cases inserted with
    | none =>
      intro hs
      obtain ⟨a, hr, he, hc⟩ := h hs
      exact ⟨a, hr, he, hkeep _ _ hc⟩
    | some u' => exact ⟨h.1, hown u' rfl h.2⟩
  | finished r =>
    intro hs
    obtain ⟨a, hr, he, hc⟩ := h hs
    exact ⟨a, hr, he, hkeep _ _ hc⟩

/-! ## Steps -/

/-- A phase that fits the rows, with no row of its own like one of another call. -/
theorem inv_enter (w : State σ) (h : Inv env email w) (i : σ) (p : Phase) (next : UUID)
    (hn : w.next ≤ next) (hp : PhaseOk w.db next (address env email i) p)
    (hpending : ∀ j u u', j ≠ i → p.pending = some u → (w.phase j).pending = some u' →
      u.email ≠ u'.email ∧ u.id ≠ u'.id) :
    Inv env email { w.enter i p with next := next } where
  once := h.once
  fresh k v hv := (h.fresh k v hv).trans_le hn
  calls j := by
    by_cases hj : j = i
    · subst hj
      simpa [State.enter] using hp
    · simpa [State.enter, hj] using phaseOk_next w.db w.next next hn _ _ (h.calls j)
  apart j j' u u' hne hu hu' := by
    simp only [State.enter] at hu hu'
    by_cases hj : j = i
    · subst hj
      rw [Function.update_self] at hu
      rw [Function.update_of_ne hne.symm] at hu'
      exact hpending j' u u' hne.symm hu hu'
    · rw [Function.update_of_ne hj] at hu
      by_cases hj' : j' = i
      · subst hj'
        rw [Function.update_self] at hu'
        obtain ⟨he, hid⟩ := hpending j u' u hj hu' hu
        exact ⟨he.symm, hid.symm⟩
      · rw [Function.update_of_ne hj'] at hu'
        exact h.apart j j' u u' hne hu hu'

/-- The same for a phase without a row of its own. -/
theorem inv_enter_none (w : State σ) (h : Inv env email w) (i : σ) (p : Phase)
    (hnone : p.pending = none) (hp : PhaseOk w.db w.next (address env email i) p) :
    Inv env email { w.enter i p with next := w.next } := by
  refine inv_enter env email w h i p w.next le_rfl hp ?_
  intro j u u' _ hu
  rw [hnone] at hu
  cases hu

theorem inv_commit (w : State σ) (h : Inv env email w) (i : σ) (u : UserAccount)
    (r : Except DbError UserAccount) (hi : w.phase i = .returned (some u) r) :
    Inv env email { w.enter i (.finished r) with
      db := w.db.set .userAccount u.id (some u.toUserAccountRow) } := by
  have hphase := h.calls i
  rw [hi] at hphase
  obtain ⟨hr, hown⟩ := hphase
  have hpending : (w.phase i).pending = some u := by rw [hi]; rfl
  have hrow : ∀ k v, (w.db.set .userAccount u.id (some u.toUserAccountRow)).row .userAccount k =
      some v → k = u.id ∧ v = u.toUserAccountRow ∨ w.db.row .userAccount k = some v := by
    intro k v hv
    by_cases hk : k = u.id
    · subst hk
      rw [Store.set_same] at hv
      exact Or.inl ⟨rfl, (Option.some.inj hv).symm⟩
    · rw [Store.set_key _ _ _ _ _ hk] at hv
      exact Or.inr hv
  constructor
  · intro k k' v v' hv hv' he
    rcases hrow k v hv with ⟨rfl, rfl⟩ | hv <;> rcases hrow k' v' hv' with ⟨rfl, rfl⟩ | hv'
    · rfl
    · exact absurd ⟨k', v', hv', he.symm.trans hown.email⟩ hown.first
    · exact absurd ⟨k, v, hv, he.trans hown.email⟩ hown.first
    · exact h.once k k' v v' hv hv' he
  · intro k v hv
    rcases hrow k v hv with ⟨rfl, rfl⟩ | hv
    · exact hown.drawn
    · exact h.fresh k v hv
  · intro j
    by_cases hj : j = i
    · subst hj
      simp only [State.enter, Function.update_self]
      intro _
      exact ⟨u, hr, hown.email, Store.set_same _ _ _ _⟩
    · simp only [State.enter, Function.update_of_ne hj]
      exact phaseOk_commit w.db w.next _ _ u hown.free
        (fun u' hu' => h.apart j i u' u hj hu' hpending) (h.calls j)
  · intro j j' v v' hne hv hv'
    have hold : ∀ j v, (Function.update w.phase i (.finished r) j).pending = some v →
        (w.phase j).pending = some v := by
      intro j v hv
      by_cases hj : j = i
      · subst hj
        rw [Function.update_self] at hv
        cases hv
      · rwa [Function.update_of_ne hj] at hv
    exact h.apart j j' v v' hne (hold j v hv) (hold j' v' hv')

omit [DecidableEq σ] in
/-- The select of a call that has found an account finds this one. -/
theorem select_found (w : State σ) (h : Inv env email w) (snapshot : Db) (e : String)
    (hs : Older snapshot w.db) (he : HasEmail snapshot e) :
    ∃ u, usersWithEmail snapshot e = [u] ∧ u.email = e ∧ Committed w.db u := by
  obtain ⟨k, v, hv, hemail⟩ := he
  have hone : Webhook.OneAccount snapshot e := by
    refine ⟨k, v, hv, hemail, fun k' v' hv' he' => ?_⟩
    exact h.once k' k v' v (hs k' v' hv') (hs k v hv) (he'.trans hemail.symm)
  obtain ⟨u, hu⟩ := (Webhook.oneAccount_iff snapshot e).mp hone
  obtain ⟨v', hv', he', hrow⟩ := (Webhook.mem_usersWithEmail snapshot e u).mp (by simp [hu])
  refine ⟨u, hu, by rw [hrow]; exact he', hs u.id _ ?_⟩
  rw [hrow]
  exact hv'

theorem act_inv (w w' : State σ) (h : Inv env email w) (i : σ)
    (hblocked : ¬ Blocked env email w i) (hfair : Undisturbed env email w i)
    (hact : act env email w i = some w') : Inv env email w' := by
  have hphase := h.calls i
  rw [act] at hact
  split at hact
  · next hi =>
    cases hact
    refine inv_enter env email w h i _ w.next le_rfl ?_ ?_
    · split
      · next hs => exact ⟨hs, fun _ _ hv => hv⟩
      · next hs => exact fun hs' => absurd hs' hs
    · intro j u u' _ hu
      split at hu <;> cases hu
  · next snapshot start hi =>
    rw [hi] at hphase
    split at hact
    · next hnone =>
      cases hact
      have hfirst : ¬ HasEmail w.db (address env email i) := by
        rw [hasEmail_iff, hnone]
        exact fun h => h rfl
      have hfree : w.db.row .userAccount w.next = none := by
        by_contra hrow
        obtain ⟨v, hv⟩ := Option.ne_none_iff_exists'.mp hrow
        exact absurd (h.fresh _ v hv) (lt_irrefl _)
      refine inv_enter env email w h i _ (w.next+1) (Nat.le_succ _) ?_ ?_
      · exact ⟨hphase.2, ⟨rfl, Nat.lt_succ_self _, hfree, hfirst⟩⟩
      · intro j u u' hj hu hu'
        cases hu
        have hown := phaseOk_pending _ _ _ _ (h.calls j) u' hu'
        constructor
        · intro he
          exact hblocked ⟨by rw [hi]; rfl, j, hj, u', hu', he.symm⟩
        · exact hown.drawn.ne'
    · next hsome =>
      cases hact
      have hseen := (hasEmail_iff snapshot _).mpr (hfair snapshot (by rw [hi]; rfl) hsome)
      exact inv_enter_none env email w h i _ rfl ⟨hphase.2, hseen⟩
  · next snapshot inserted hi =>
    rw [hi] at hphase
    cases hact
    cases inserted with
    | none =>
      obtain ⟨u, hu, he, hc⟩ := select_found env email w h snapshot _ hphase.1 hphase.2
      refine inv_enter_none env email w h i _ rfl ?_
      intro _
      refine ⟨u, ?_, he, hc⟩
      rw [hu]
      simp [collectExactlyOneRow, Except.mapError]
    | some u =>
      have hempty : usersWithEmail snapshot (address env email i) = [] := by
        by_contra hne
        obtain ⟨k, v, hv, he⟩ := (hasEmail_iff snapshot _).mpr hne
        exact hphase.2.first ⟨k, v, hphase.1 k v hv, he⟩
      refine inv_enter env email w h i _ w.next le_rfl ⟨?_, hphase.2⟩ ?_
      · rw [hempty]
        simp [collectExactlyOneRow, Except.mapError]
      · intro j v v' hj hv hv'
        exact h.apart i j v v' hj.symm (by rw [hi]; exact hv) hv'
  · next inserted r hi =>
    rw [hi] at hphase
    cases hact
    cases inserted with
    | none => exact inv_enter_none env email w h i _ rfl hphase
    | some u => exact inv_commit env email w h i u r hi
  · cases hact

theorem run_inv (w₀ w : State σ) (h₀ : Initial w₀)
    (h : Run env email (Undisturbed env email) w₀ w) : Inv env email w := by
  induction h with
  | refl => exact initial_inv env email w₀ h₀
  | tail _ hs ih =>
    obtain ⟨i, hblocked, hfair, hact⟩ := hs
    exact act_inv env email _ _ ih i hblocked hfair hact

/-! ## Results -/

omit [DecidableEq σ] in
theorem inv_result (w : State σ) (h : Inv env email w) (i : σ) (r : Except DbError UserAccount)
    (hr : (w.phase i).result = some r) (hs : storable (address env email i) = true) :
    ∃ u, r = .ok u ∧ u.email = address env email i ∧
      (w.db.row .userAccount u.id = some u.toUserAccountRow ∨ (w.phase i).pending = some u) := by
  have hphase := h.calls i
  cases hi : w.phase i with
  | waiting | running | checked =>
    rw [hi] at hr
    cases hr
  | returned inserted r' =>
    rw [hi] at hr hphase
    cases hr
    cases inserted with
    | none =>
      obtain ⟨u, hu, he, hc⟩ := hphase hs
      exact ⟨u, hu, he, Or.inl hc⟩
    | some u => exact ⟨u, hphase.1, hphase.2.email, Or.inr rfl⟩
  | finished r' =>
    rw [hi] at hr hphase
    cases hr
    obtain ⟨u, hu, he, hc⟩ := hphase hs
    exact ⟨u, hu, he, Or.inl hc⟩

theorem moves_on (w : State σ) : (∀ i, ∃ r, w.phase i = .finished r) ∨
    ∃ w', Step env email (fun _ _ => True) w w' := by
  by_cases hall : ∀ i, ∃ r, w.phase i = .finished r
  · exact Or.inl hall
  · right
    rw [not_forall] at hall
    obtain ⟨i, hi⟩ := hall
    have hacts : ∀ j, (∀ r, w.phase j ≠ .finished r) → ∃ w', act env email w j = some w' := by
      intro j hj
      rw [act]
      split
      · exact ⟨_, rfl⟩
      · split <;> exact ⟨_, rfl⟩
      · exact ⟨_, rfl⟩
      · exact ⟨_, rfl⟩
      · next r hr => exact absurd hr (hj r)
    by_cases hb : Blocked env email w i
    · -- the call that is waited for has passed its own check
      obtain ⟨-, j, -, u, hu, -⟩ := hb
      have hfree : ¬ Blocked env email w j := by
        rintro ⟨hrun, -⟩
        cases hj : w.phase j with
        | running =>
          rw [hj] at hu
          cases hu
        | waiting | checked | returned | finished =>
          rw [hj] at hrun
          cases hrun
      have hgoing : ∀ r, w.phase j ≠ .finished r := by
        intro r hr
        rw [hr] at hu
        cases hu
      obtain ⟨w', hw'⟩ := hacts j hgoing
      exact ⟨w', j, hfree, trivial, hw'⟩
    · obtain ⟨w', hw'⟩ := hacts i (fun r hr => hi ⟨r, hr⟩)
      exact ⟨w', i, hb, trivial, hw'⟩

omit [DecidableEq σ] in
/-- Rows of one address are one row, committed or not. -/
theorem inv_same (w : State σ) (h : Inv env email w) (i j : σ) (u u' : UserAccount)
    (hu : w.db.row .userAccount u.id = some u.toUserAccountRow ∨ (w.phase i).pending = some u)
    (hu' : w.db.row .userAccount u'.id = some u'.toUserAccountRow ∨ (w.phase j).pending = some u')
    (he : u.email = u'.email) : u = u' := by
  have hfirst : ∀ i (u u' : UserAccount), (w.phase i).pending = some u → u.email = u'.email →
      w.db.row .userAccount u'.id ≠ some u'.toUserAccountRow := by
    intro i u u' hu he hrow
    have hown := phaseOk_pending _ _ _ _ (h.calls i) u hu
    exact hown.first ⟨u'.id, _, hrow, he.symm.trans hown.email⟩
  rcases hu with hu | hu <;> rcases hu' with hu' | hu'
  · have hid := h.once u.id u'.id _ _ hu hu' he
    rw [hid, hu'] at hu
    cases u
    cases u'
    cases hid
    cases hu
    rfl
  · exact absurd hu (hfirst j u' u hu' he.symm)
  · exact absurd hu' (hfirst i u u' hu he)
  · by_cases hij : i = j
    · subst hij
      exact Option.some.inj (hu.symm.trans hu')
    · exact absurd he (h.apart i j u u' hij hu hu').1

/-- Undisturbed calls all return the one account of their address. -/
theorem calls_resolved (w₀ w : State σ) (h₀ : Initial w₀)
    (h : Run env email (Undisturbed env email) w₀ w) : Resolved env email w := by
  have hinv := run_inv env email w₀ w h₀ h
  constructor
  · exact inv_result env email w hinv
  · intro i j r r' hr hr' hs he
    obtain ⟨u, hu, hemail, hrow⟩ := inv_result env email w hinv i r hr hs
    obtain ⟨u', hu', hemail', hrow'⟩ := inv_result env email w hinv j r' hr' (he ▸ hs)
    have hsame := inv_same env email w hinv i j u u' hrow hrow' (by rw [hemail, hemail', he])
    rw [hu, hu', hsame]
  · intro hall i hs
    obtain ⟨r, hr⟩ := hall i
    have hphase := hinv.calls i
    rw [hr] at hphase
    obtain ⟨u, -, he, hc⟩ := hphase hs
    exact ⟨u.id, _, hc, he, fun k v hv he' => hinv.once k u.id v _ hv hc (he'.trans he.symm)⟩
  · exact moves_on env email w

/-! ## A call alone -/

theorem getUserByEmailOrCreate_new (env : Env) (email : String) (t : Tick) (db : Db)
    (hs : storable (env.toLower email) = true) (hnew : db.row .userAccount t.fresh = none)
    (hnone : usersWithEmail db (env.toLower email) = []) :
    Queries.getUserByEmailOrCreate env email t db =
      .ok (⟨⟨t.start, env.toLower email⟩, t.fresh⟩,
        [⟨.userAccount, t.fresh, some ⟨t.start, env.toLower email⟩⟩]) := by
  have hunique : schema.uniques.filter (fun u => u.table = .userAccount) =
      [⟨"useraccount_email_key", .userAccount, fun _ v => (0, v.email)⟩] := rfl
  have hkeys : schema.foreignKeys.filter (fun f => f.child = .userAccount) = [] := rfl
  have hput : schema.put db .userAccount t.fresh ⟨t.start, env.toLower email⟩ =
      .ok [⟨.userAccount, t.fresh, some ⟨t.start, env.toLower email⟩⟩] := by
    refine put_accepted schema db .userAccount t.fresh _ ?_ (by simp [hkeys])
    simp only [hunique, List.forall_mem_singleton]
    rw [Bool.eq_false_iff, ne_eq]
    intro hclash
    obtain ⟨k, v, hv, -, heq⟩ := (clashes_iff
      ⟨"useraccount_email_key", .userAccount, fun _ v => (0, v.email)⟩ db t.fresh _).mp hclash
    exact (hasEmail_iff db _).mp ⟨k, v, hv, (Prod.mk.inj heq).2⟩ hnone
  simp only [Queries.getUserByEmailOrCreate, hs, if_true, hnone, insertRow, hnew, putRow, hput]

/-- Without another call in between, a call is the statement of the queries. -/
theorem call_alone (w : State σ) (i : σ) (now : ℕ) (hi : w.phase i = .waiting)
    (hs : storable (address env email i) = true)
    (hnew : w.db.row .userAccount w.next = none) :
    ∃ w', ((((act env email w i).bind (act env email · i)).bind (act env email · i)).bind
      (act env email · i)) = some w' ∧
        match Queries.getUserByEmailOrCreate env (email i) ⟨w.next, w.clock, now⟩ w.db with
        | .ok (u, ws) => w'.phase i = .finished (.ok u) ∧ w'.db = w.db.replay ws
        | .error e => w'.phase i = .finished (.error (Database.notFound e)) ∧ w'.db = w.db := by
  cases hus : usersWithEmail w.db (address env email i) with
  | nil =>
    have hread : Queries.getUserByEmailOrCreate env (email i) ⟨w.next, w.clock, now⟩ w.db =
        .ok (⟨⟨w.clock, address env email i⟩, w.next⟩,
          [⟨.userAccount, w.next, some ⟨w.clock, address env email i⟩⟩]) :=
      getUserByEmailOrCreate_new env (email i) ⟨w.next, w.clock, now⟩ w.db hs hnew hus
    rw [hread]
    simp [act, hi, State.enter, hs, hus, collectExactlyOneRow, Except.mapError]
  | cons u us =>
    have hnodup := Webhook.usersWithEmail_nodup w.db (address env email i)
    have hread : Queries.getUserByEmailOrCreate env (email i) ⟨w.next, w.clock, now⟩ w.db =
        (collectExactlyOneRow (u::us)).map (fun u => (u, [])) := by
      simp only [Queries.getUserByEmailOrCreate]
      rw [address] at hs hus
      rw [if_pos hs, hus]
    rw [hread]
    rw [hus] at hnodup
    cases us with
    | nil => simp [act, hi, State.enter, hs, hus, collectExactlyOneRow, Except.map, Except.mapError]
    | cons u' us =>
      have hdedup := hnodup.dedup
      simp [act, hi, State.enter, hs, hus, hdedup, collectExactlyOneRow, Except.map,
        Except.mapError]

def playCalls [Fintype σ] (check : State σ → σ → Bool) : List σ → State σ → Option (State σ)
  | [], w => some w
  | i::rest, w =>
    if Blocked env email w i ∨ check w i = false then none
    else (act env email w i).bind (playCalls check rest)

theorem playCalls_run [Fintype σ] (permit : State σ → σ → Prop) (check : State σ → σ → Bool)
    (hcheck : ∀ w i, check w i = true → permit w i) (schedule : List σ) (w w' : State σ)
    (h : playCalls env email check schedule w = some w') : Run env email permit w w' := by
  induction schedule generalizing w with
  | nil =>
    cases h
    exact .refl
  | cons i rest ih =>
    rw [playCalls] at h
    split at h
    · cases h
    · next hno =>
      rw [not_or, Bool.not_eq_false] at hno
      obtain ⟨x, hx, hrest⟩ := Option.bind_eq_some_iff.mp h
      exact .head ⟨i, hno.1, hcheck w i hno.2, hx⟩ (ih x hrest)

end Calls

/-! ## Two first requests of one user -/

def demoEmail : Bool → String := fun _ => "ada@acme.com"

def demoStart : State Bool := ⟨Store.empty, 1, 0, fun _ => .waiting⟩

theorem demoStart_initial : Initial demoStart :=
  ⟨sound_empty schema, nofun, fun _ => rfl⟩

/-- The second call begins when the first one has committed, or before. -/
def demoSchedule (overlap : Bool) : List Bool :=
  List.replicate (if overlap then 1 else 0) false++List.replicate 4 true++
    List.replicate (if overlap then 2 else 4) false

/-- One after the other. -/
theorem calls_resolved_demo : ∃ w, playCalls Env.demo demoEmail (fun w i =>
    decide (Undisturbed Env.demo demoEmail w i)) (demoSchedule false) demoStart = some w ∧
      Resolved Env.demo demoEmail w := by
  have hsome : (playCalls Env.demo demoEmail (fun w i =>
      decide (Undisturbed Env.demo demoEmail w i)) (demoSchedule false) demoStart).isSome := by
    decide
  obtain ⟨w, hw⟩ := Option.isSome_iff_exists.mp hsome
  exact ⟨w, hw, calls_resolved Env.demo demoEmail demoStart w demoStart_initial
    (playCalls_run Env.demo demoEmail _ _ (fun _ _ h => of_decide_eq_true h) _ _ _ hw)⟩

/-- The second call took its snapshot before the first one committed, and finds nobody. -/
theorem first_request_rejected : ∃ w, Run Env.demo demoEmail (fun _ _ => True) demoStart w ∧
    (w.phase true).result = some (.ok ⟨⟨1, "ada@acme.com"⟩, 1⟩) ∧
    (w.phase false).result = some (.error .notFound) ∧ ¬ Resolved Env.demo demoEmail w := by
  have h : (playCalls Env.demo demoEmail (fun _ _ => true) (demoSchedule true) demoStart).any
      (fun w => (w.phase true).result = some (.ok ⟨⟨1, "ada@acme.com"⟩, 1⟩) ∧
        (w.phase false).result = some (.error .notFound)) = true := by
    decide
  obtain ⟨w, hw, hall⟩ := (Option.any_eq_true _ _).mp h
  obtain ⟨hfirst, hsecond⟩ := of_decide_eq_true hall
  refine ⟨w, playCalls_run Env.demo demoEmail _ _ (fun _ _ _ => trivial) _ _ _ hw, hfirst, hsecond,
    fun hresolved => ?_⟩
  obtain ⟨u, hu, -⟩ := hresolved.account false _ hsecond (by decide)
  cases hu

end Jetski.Upsert
