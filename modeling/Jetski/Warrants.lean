import Jetski.Mediation

/-!
# Warrants

A membership can be traced back to the founding of its organization: in every run
each member is the founder or was added by a request of an account that was a member
before, and whose own membership can be traced back in the same way.
-/

set_option autoImplicit false

namespace Jetski.Warrants

open Relational Schema Jetski.Types Database Handlers Routes Reachability Conduct Answers Mediation
open Validation (trimSpace)

section Warranted
variable {σ : Type} (env : Env)

def Known (email : String) (u : UUID) (t : List (σ × ApiDeed)) : Prop :=
  ∃ e ∈ t, Addressed env email u e.2.met ∨
    ∃ now, (⟨.userAccount, u, some ⟨now, env.toLower email⟩⟩ : Image) ∈ e.2.made

/-- The deeds that were told make the account a member of the organization. -/
inductive Warranted (calls : σ → Call) (o : UUID) : List (σ × ApiDeed) → UUID → Prop
  | founder (pre post : List (σ × ApiDeed)) (i : σ) (d : ApiDeed) (email n : String) (now : Time)
      (u : UUID) : calls i = .request (some email) (.postOrganization (some n)) →
      Known env email u (pre++(i, d)::post) → d.met.row .organization o = none →
      d.made = [newOrganization n o now] → Warranted calls o (pre++(i, d)::post) u
  | added (pre post : List (σ × ApiDeed)) (i : σ) (d : ApiDeed) (email member : String)
      (now : Time) (host u : UUID) :
      calls i = .request (some email) (.putOrganizationMember (.value o) (some member)) →
      Known env email host (pre++(i, d)::post) → Warranted calls o pre host →
      Known env (trimSpace member) u (pre++(i, d)::post) → newMembership o u now ∈ d.made →
      Warranted calls o (pre++(i, d)::post) u

variable {env}

theorem known_sub {email : String} {u : UUID} {t t' : List (σ × ApiDeed)} (hsub : t ⊆ t')
    (h : Known env email u t) : Known env email u t' := by
  obtain ⟨e, he, hknown⟩ := h
  exact ⟨e, hsub he, hknown⟩

variable {calls : σ → Call} {o u : UUID} {t : List (σ × ApiDeed)}

/-- Later deeds do not undo a warrant. -/
theorem warranted_append (t' : List (σ × ApiDeed)) (h : Warranted env calls o t u) :
    Warranted env calls o (t++t') u := by
  have hsub : t ⊆ t++t' := List.subset_append_left t t'
  cases h with
  | founder pre post i d email n now _ hcall hu hnone hmade =>
    rw [List.append_assoc, List.cons_append] at hsub ⊢
    exact .founder pre (post++t') i d email n now u hcall (known_sub hsub hu) hnone hmade
  | added pre post i d email member now host _ hcall hby hw hu hmade =>
    rw [List.append_assoc, List.cons_append] at hsub ⊢
    exact .added pre (post++t') i d email member now host u hcall (known_sub hsub hby) hw
      (known_sub hsub hu) hmade

variable [DecidableEq σ]

theorem identified_known {i : σ} {email : String} {user : UserAccount}
    (h : Identified env email user (deedsOf i t)) : Known env email user.id t := by
  obtain ⟨d, hd, hknown⟩ := h
  refine ⟨(i, d), mem_deedsOf _ _ _ hd, hknown.imp id fun ⟨now, hmade⟩ => ⟨now, ?_⟩⟩
  rw [hmade]
  exact List.mem_singleton.mpr rfl

end Warranted

section Runs
variable {σ : Type} [DecidableEq σ] (rt : Analytics.Runtime) (env : Env) (calls : σ → Call)
variable (w₀ w : ApiWorld σ) (h₀ : Start rt env calls w₀)

/-- The row of a membership that an effect puts into the table. -/
theorem effects_membership (user : UserAccount) (route : Route) (h : List ApiDeed) (d : ApiDeed)
    (hc : Consistent d.met) (he : Effects env user route h d) (o u : UUID)
    (v : Row .organizationUserAccount) (hnone : d.met.row .organizationUserAccount (o, u) = none)
    (hv : (d.met.replay d.made).row .organizationUserAccount (o, u) = some v) :
    (∃ n now d₀, route = .postOrganization (some n) ∧ u = user.id ∧ d₀ ∈ h ∧
      d₀.met.row .organization o = none ∧ d₀.made = [newOrganization n o now]) ∨
    ∃ member now org, route = .putOrganizationMember (.value o) (some member) ∧ org.id = o ∧
      Saw h (Admitted user org) ∧ newMembership o u now ∈ d.made ∧
      (Saw h (Addressed env (trimSpace member) u) ∨ ∃ now',
        (⟨.userAccount, u, some ⟨now', env.toLower (trimSpace member)⟩⟩ : Image) ∈ d.made) := by
  have hmade : (⟨.organizationUserAccount, (o, u), some v⟩ : Image) ∈ d.made := by
    refine (Store.replay_row _ _ _ _ _ hv).resolve_left fun hmet => ?_
    rw [hnone] at hmet
    cases hmet
  unfold Effects at he
  split at he
  · obtain ⟨-, ⟨o', now, -, hws⟩ | ⟨o', now, now', d₀, hd₀, hnew, hws₀, hws⟩⟩ := he
    · rw [hws] at hmade
      cases List.mem_singleton.mp hmade
    · rw [hws] at hmade
      cases List.mem_singleton.mp hmade
      exact Or.inl ⟨_, now, d₀, rfl, rfl, hd₀, hnew, hws₀⟩
  · obtain ⟨org, org', row, -, -, -, -, hws⟩ := he
    rw [hws] at hmade
    cases List.mem_singleton.mp hmade
  · obtain ⟨org, accounts, memberships, u', rfl, hsaw, hws, hacc, hmem⟩ := he
    rw [hws] at hmade
    rcases List.mem_append.mp hmade with hm | hm
    · rcases hacc with ⟨rfl, -⟩ | ⟨now, rfl⟩
      · cases hm
      · cases List.mem_singleton.mp hm
    · rcases hmem with rfl | ⟨now, rfl⟩
      · cases hm
      · cases List.mem_singleton.mp hm
        refine Or.inr ⟨_, now, org, rfl, rfl, hsaw, by simp [hws], ?_⟩
        exact hacc.imp And.right fun ⟨now', hacc⟩ => ⟨now', by simp [hws, hacc]⟩
  · obtain ⟨org, -, -, -, hws⟩ := he
    rw [hws] at hmade
    cases List.mem_singleton.mp hmade
  · obtain ⟨-, -, p, now, ⟨-, hws⟩ | ⟨url, r, now', -, hws⟩⟩ := he <;> rw [hws] at hmade <;>
      simp at hmade
  · next p =>
    obtain ⟨-, hkept⟩ := Deletion.deleteRow_deletes d.met p hc.toPointers d.made he.2
      .organizationUserAccount (o, u)
    rw [hkept id, hnone] at hv
    cases hv
  · obtain ⟨-, -, r, now, ps, rest, -, hws, hrest⟩ := he
    rw [hws] at hmade
    rcases List.mem_cons.mp hmade with hm | hm
    · cases hm
    · rcases hrest _ hm with ⟨row, d', e, -, hm⟩ | ⟨e, now', hm⟩ <;> cases hm
  · exact he.elim

/-- A new membership is warranted if those of the members met before are. -/
theorem permitted_warranted (t : List (σ × ApiDeed)) (i : σ) (d : ApiDeed) (o u : UUID)
    (hc : Consistent d.met) (hp : (calls i).Permits env (deedsOf i t) d)
    (v : Row .organizationUserAccount) (hnone : d.met.row .organizationUserAccount (o, u) = none)
    (hv : (d.met.replay d.made).row .organizationUserAccount (o, u) = some v)
    (ih : ∀ d₀ ∈ deedsOf i t, ∀ u', Queries.isMember d₀.met u' o = true →
      Warranted env calls o t u') : Warranted env calls o (t++[(i, d)]) u := by
  have hmade : (⟨.organizationUserAccount, (o, u), some v⟩ : Image) ∈ d.made := by
    refine (Store.replay_row _ _ _ _ _ hv).resolve_left fun hmet => ?_
    rw [hnone] at hmet
    cases hmet
  cases hcall : calls i with
  | report id body =>
    rw [hcall] at hp
    cases id with
    | absent | invalid => exact hp.elim
    | value id =>
      cases body with
      | none => exact hp.elim
      | some payload =>
        obtain ⟨-, _, _, _, -, -, hws⟩ : Reported env id payload (deedsOf i t) d := hp
        rw [hws] at hmade
        cases List.mem_singleton.mp hmade
  | request email route =>
    rw [hcall] at hp
    cases email with
    | none => exact hp.elim
    | some email =>
      rcases hp with ⟨-, u', now, -, hws⟩ | ⟨user, d₀, rest, hdeeds, -, hid, hallowed⟩
      · rw [hws] at hmade
        cases List.mem_singleton.mp hmade
      · have hrest : rest ⊆ deedsOf i t := hdeeds ▸ List.subset_cons_self d₀ rest
        have hknown : Known env email user.id t := by
          have hfirst : [d₀] ⊆ deedsOf i t := by simp [hdeeds]
          exact identified_known (identified_sub hfirst hid)
        have hsub : t ⊆ t++[(i, d)] := List.subset_append_left _ _
        rcases effects_membership env user route rest d hc hallowed.effects o u v hnone hv with
          ⟨n, now, d', rfl, rfl, hd', hnew, hws⟩ |
          ⟨member, now, org, rfl, rfl, hsaw, hjoin, hmember⟩
        · obtain ⟨pre, post, rfl⟩ := List.append_of_mem (mem_deedsOf _ _ _ (hrest hd'))
          exact warranted_append _
            (.founder pre post i d' email n now user.id hcall hknown hnew hws)
        · obtain ⟨d₁, hd₁, -, hm⟩ := hsaw
          refine .added t [] i d email member now user.id u hcall (known_sub hsub hknown)
            (ih d₁ (hrest hd₁) user.id hm) ?_ hjoin
          rcases hmember with ⟨d₂, hd₂, haddress⟩ | hnew
          · exact ⟨(i, d₂), hsub (mem_deedsOf _ _ _ (hrest hd₂)), Or.inl haddress⟩
          · exact ⟨(i, d), List.mem_append_right _ (List.mem_singleton.mpr rfl), Or.inr hnew⟩

include h₀

/-- In every run, every membership can be traced back to the founding of its
organization, through the requests of accounts that were members at the time. -/
theorem members_warranted (h : Run backend postgres w₀ w) :
    ∃ t, Told backend postgres w₀ w t ∧ w.cfg.srv.db = rowsAfter w₀.cfg.srv.db t ∧
      ∀ pre post, t = pre++post → ∀ o u,
        Queries.isMember (rowsAfter w₀.cfg.srv.db pre) u o = true →
        Warranted env calls o pre u := by
  obtain ⟨t, ht⟩ := run_told backend postgres h
  refine ⟨t, ht, told_rows backend postgres ht, told_always backend postgres
    (fun i => (calls i).Permits env) (fun i h s => (calls i).Honest env h s.out)
    (start_conduct rt env calls w₀ h₀)
    (fun t db => ∀ o u, Queries.isMember db u o = true → Warranted env calls o t u) ?_ ?_ ht⟩
  · intro o u hm
    rw [h₀.db] at hm
    cases hm
  · intro t w₁ i d h₁ hmet hpermit hnow hearlier o u hm
    by_cases hold : Queries.isMember d.met u o = true
    · exact warranted_append _ (hnow o u hold)
    · have hnone : d.met.row .organizationUserAccount (o, u) = none := by
        simpa [Queries.isMember] using hold
      obtain ⟨v, hv⟩ := Option.isSome_iff_exists.mp hm
      have hmade : d.made ≠ [] := by
        intro hempty
        rw [hempty] at hv
        cases hnone.symm.trans hv
      have hc : Consistent d.met := hmet ▸ ApiRuns.api_consistent rt env w₀ w₁ h₀.toInitial
        (start_clients rt env calls w₀ h₀) (told_run backend postgres h₁)
      refine permitted_warranted env calls t i d o u hc (hpermit hmade) v hnone hv
        fun d₀ hd₀ u' hm' => ?_
      -- the member was met earlier, so its own warrant is part of what was told before
      obtain ⟨pre, post, -, rfl, -, -, hpre⟩ := hearlier d₀ hd₀
      exact warranted_append _ (hpre o u' hm')

end Runs

/-! An organization is founded, and its founder adds a member. -/

def demoCall : Bool → Call
  | false => .request (some "ada@acme.com") ApiRuns.demoFounding
  | true => .request (some "ada@acme.com")
    (.putOrganizationMember (.value 2) (some " bob@acme.com"))

abbrev demoStart : ApiWorld Bool := calling demoCall

def demoRun : Option (ApiWorld Bool) :=
  played (List.replicate 4 (false, false)++List.replicate 8 (true, false)) demoStart

theorem members_warranted_demo : ∃ w t, demoRun = some w ∧ Told backend postgres demoStart w t ∧
    Warranted Env.demo demoCall 2 t 7 := by
  have h : demoRun.any (fun w => Queries.isMember w.cfg.srv.db 7 2) = true := by decide
  obtain ⟨w, hw, hm⟩ := (Option.any_eq_true _ _).mp h
  obtain ⟨t, ht, hrows, hall⟩ := members_warranted Analytics.Runtime.stable Env.demo demoCall
    demoStart w (calling_start demoCall) (played_run _ _ w hw)
  exact ⟨w, t, hw, ht, hall t [] (List.append_nil t).symm 2 7 (hrows ▸ hm)⟩

end Jetski.Warrants
