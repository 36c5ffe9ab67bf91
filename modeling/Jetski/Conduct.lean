import Jetski.Requests
import Jetski.Transactions
import Jetski.Relational.Chronicle

/-!
# The conduct of database functions

Rules for the deeds of a request among others that may change every row between
two of its actions. Until its commit a transaction only waits: its deeds commit
nothing and its images are pending. What the request has met before stays known.
-/

set_option autoImplicit false

namespace Jetski.Conduct

open Relational Schema Jetski.Types Database Handlers Transactions

abbrev ApiDeed := Deed Key Row Output

def Saw (h : List ApiDeed) (P : Db → Prop) : Prop := ∃ d ∈ h, P d.met

/-- Further deeds that have committed nothing, and none before them had. -/
structure Waits (h h' : List ApiDeed) : Prop where
  sub : h ⊆ h'
  spared : Spared h'

theorem waits_refl (h : List ApiDeed) (hs : Spared h) : Waits h h := ⟨List.Subset.refl h, hs⟩

theorem waits_trans {h h' h'' : List ApiDeed} (hw : Waits h h') (hw' : Waits h' h'') :
    Waits h h'' :=
  ⟨List.Subset.trans hw.sub hw'.sub, hw'.spared⟩

theorem waits_snoc {h h' : List ApiDeed} (hw : Waits h h') (d : ApiDeed) (hd : d.made = []) :
    Waits h (h'++[d]) :=
  ⟨List.Subset.trans hw.sub (List.subset_append_left _ _),
    spared_append _ _ hw.spared (by simpa [Spared] using hd)⟩

theorem saw_sub {h h' : List ApiDeed} {P : Db → Prop} (hs : h ⊆ h') (hp : Saw h P) : Saw h' P := by
  obtain ⟨d, hd, hm⟩ := hp
  exact ⟨d, hs hd, hm⟩

theorem saw_last (h : List ApiDeed) (d : ApiDeed) (P : Db → Prop) (hp : P d.met) :
    Saw (h++[d]) P :=
  ⟨d, by simp, hp⟩

def Declined (out out' : List Output) : Prop :=
  out' = out ∨ ∃ status body, 400 ≤ status ∧ out' = out++[.response status body]

/-! ## Pending images -/

/-- The images that wait in the open transaction. -/
structure Pends (s : Ses) (ws : List Image) : Prop where
  opened : s.levels ≠ []
  pending : s.pending = ws

section Pends
variable {s s' : Ses} {ws : List Image}

theorem pends_push (h : Pends s ws) (ws' : List Image) : Pends (s.push ws') (ws++ws') := by
  obtain ⟨ls, hpush, hne⟩ := s.push_shape ws' h.opened
  exact ⟨by rw [hpush]; exact hne, by rw [s.pending_push ws' h.opened, h.pending]⟩

theorem pends_begin (hl : s'.levels = [[]]) : Pends s' [] :=
  ⟨by simp [hl], by simp [Session.pending, hl]⟩

theorem pends_savepoint (h : Pends s ws) (hl : s'.levels = []::s.levels) : Pends s' ws :=
  ⟨by simp [hl], by simpa [Session.pending, hl] using h.pending⟩

theorem pends_release (h : Pends s ws) : Pends s.release ws := by
  obtain ⟨ls, hr, hne⟩ := s.release_shape h.opened
  exact ⟨by rw [hr]; exact hne, by rw [s.pending_release, h.pending]⟩

end Pends

section Rules
variable {σ : Type} (me : σ) (D : List ApiDeed → ApiDeed → Prop) {α : Type}

abbrev Acts (Q : α → List ApiDeed → Ses → Prop) (p : Api α) (h : List ApiDeed) (s : Ses) : Prop :=
  p.Conduct backend me D Q h s

variable (h : List ApiDeed) (s : Ses)

theorem acts_bind {β : Type} (Q : α → List ApiDeed → Ses → Prop) (p : Api β) (f : β → Api α)
    (hp : Acts me D (fun b h s => Acts me D Q (f b) h s) p h s) :
    Acts me D Q (p.bind f) h s :=
  conduct_bind backend me D Q p f h s hp

/-- A statement on the pool commits its images at once. -/
theorem acts_query {β : Type} (Q : Except DbError β → List ApiDeed → Ses → Prop) (name : Stmt)
    (f : Queries.Sql β) (he : ∀ e db, Q (.error e) (h++[⟨db, [], []⟩]) s)
    (hok : ∀ t db b ws, f t db = .ok (b, ws) → (ws ≠ [] → D h ⟨db, ws, []⟩) ∧
      Q (.ok b) (h++[⟨db, ws, []⟩]) s) :
    Acts me D Q (query name .pool f) h s :=
  conduct_pool backend me D Q h s name f _ he hok

theorem acts_select {β : Type} (Q : Except DbError β → List ApiDeed → Ses → Prop) (name : Stmt)
    (rows : Db → Except DbError β) (hs : Spared h)
    (he : ∀ e h', Waits h h' → Q (.error e) h' s)
    (hq : ∀ db b, rows db = .ok b → Q (.ok b) (h++[⟨db, [], []⟩]) s) :
    Acts me D Q (query name .pool (Queries.select rows)) h s := by
  refine acts_query me D h s Q name _ (fun e db => he e _ (waits_snoc (waits_refl h hs) _ rfl))
    fun t db b ws hf => ?_
  rw [Queries.select] at hf
  cases hr : rows db with
  | error e =>
    rw [hr] at hf
    cases hf
  | ok b' =>
    rw [hr] at hf
    cases hf
    exact ⟨fun hne => absurd rfl hne, hq db _ hr⟩

theorem acts_respond (Q : Unit → List ApiDeed → Ses → Prop) (status : ℕ) (body : Body)
    (hq : ∀ db, Q () (h++[⟨db, [], [.response status body]⟩])
      { s with out := s.out++[.response status body] }) :
    Acts me D Q (respond status body) h s :=
  conduct_emit backend me D Q h s _ _ hq

/-! ## Transactions -/

/-- A statement of a transaction sees the rows with the pending images on top. -/
theorem acts_tx {β : Type} (Q : Except DbError β → List ApiDeed → Ses → Prop) (name : Stmt) (d : ℕ)
    (f : Queries.Sql β) (ws : List Image) (hp : Pends s ws) (hs : Spared h)
    (he : ∀ e h' s', s'.aborted = true → Waits h h' → s'.out = s.out → Q (.error e) h' s')
    (hok : ∀ t db b ws' s', f t (db.replay ws) = .ok (b, ws') →
      Waits h (h++[⟨db, [], []⟩]) → s'.out = s.out → Pends s' (ws++ws') →
      Q (.ok b) (h++[⟨db, [], []⟩]) s') :
    Acts me D Q (query name (.tx d) f) h s := by
  have hw : ∀ db, Waits h (h++[⟨db, [], []⟩]) := fun db => waits_snoc (waits_refl h hs) _ rfl
  refine conduct_tx backend me D Q h s name d f _ hp.opened
    (fun e db s' hab hout => he e _ _ hab (hw db) hout) fun t db b ws' hf => ?_
  rw [Session.view, hp.pending] at hf
  exact hok t db b ws' _ hf (hw db) (push_out s ws') (pends_push hp ws')

abbrev Finishes (Q : Except DbError α → List ApiDeed → Ses → Prop) (d : ℕ) (r : Except DbError α)
    (h : List ApiDeed) (s : Ses) : Prop :=
  Acts me D Q (finish (.tx d) r) h s

variable (Q : Except DbError α → List ApiDeed → Ses → Prop)

theorem acts_runTx (f : Handle → Api (Except DbError α)) (hs : Spared h)
    (hn : ∀ h', Waits h h' → Q (.error .refused) h' s)
    (hf : ∀ h' s', Waits h h' → s'.out = s.out → Pends s' [] →
      Acts me D (Finishes me D Q 1) (f (.tx 1)) h' s') :
    Acts me D Q (runTx .pool f) h s := by
  rw [runTx_eq]
  have hw : ∀ db, Waits h (h++[⟨db, [], []⟩]) := fun db => waits_snoc (waits_refl h hs) _ rfl
  refine conduct_begin backend me D Q h s _ (fun db => hn _ (hw db)) fun db s' hl hout => ?_
  exact acts_bind me D _ _ Q (f (.tx 1)) _ (hf _ s' (hw db) hout (pends_begin hl))

theorem acts_savepoint (d : ℕ) (f : Handle → Api (Except DbError α)) (ws : List Image)
    (hp : Pends s ws) (hs : Spared h)
    (hn : ∀ h' s', Waits h h' → s'.out = s.out → Q (.error .refused) h' s')
    (hf : ∀ h' s', Waits h h' → s'.out = s.out → Pends s' ws →
      Acts me D (Finishes me D Q (d+2)) (f (.tx (d+2))) h' s') :
    Acts me D Q (runTx (.tx (d+1)) f) h s := by
  rw [runTx_eq]
  have hw : ∀ db, Waits h (h++[⟨db, [], []⟩]) := fun db => waits_snoc (waits_refl h hs) _ rfl
  refine conduct_savepoint backend me D Q h s (d+1) _ (fun db s' hout => hn _ _ (hw db) hout)
    fun db s' hl hout => ?_
  exact acts_bind me D _ _ Q (f (.tx (d+2))) _ (hf _ s' (hw db) hout (pends_savepoint hp hl))

/-- An error undoes the transaction or the savepoint. -/
theorem finishes_error (d : ℕ) (e : DbError) (hs : Spared h)
    (hq : ∀ h' s', Waits h h' → s'.out = s.out → Q (.error e) h' s') :
    Finishes me D Q d (.error e) h s :=
  conduct_rollback backend me D Q h s (.tx d) _ fun _ s' hout =>
    hq _ s' (waits_snoc (waits_refl h hs) _ rfl) hout

theorem finishes_commit (a : α) (ws : List Image) (hp : Pends s ws) (hs : Spared h)
    (hn : ∀ h' s', Waits h h' → s'.out = s.out → Q (.error .refused) h' s')
    (hc : ∀ db, (ws ≠ [] → D h ⟨db, ws, []⟩) ∧
      ∀ s', s'.out = s.out → Q (.ok a) (h++[⟨db, ws, []⟩]) s') :
    Finishes me D Q 1 (.ok a) h s := by
  refine conduct_commit backend me D Q h s _
    (fun db => hn _ _ (waits_snoc (waits_refl h hs) _ rfl) rfl) fun db _ => ?_
  rw [hp.pending]
  exact ⟨(hc db).1, (hc db).2 _ rfl⟩

/-- An aborted transaction cannot be committed. -/
theorem finishes_aborted (a : α) (hab : s.aborted = true) (hs : Spared h)
    (hn : ∀ h' s', Waits h h' → s'.out = s.out → Q (.error .refused) h' s') :
    Finishes me D Q 1 (.ok a) h s :=
  conduct_commit backend me D Q h s _
    (fun db => hn _ _ (waits_snoc (waits_refl h hs) _ rfl) rfl)
    fun _ hlive => absurd (hab.symm.trans hlive) (by simp)

theorem finishes_release (d : ℕ) (a : α) (ws : List Image) (hp : Pends s ws) (hs : Spared h)
    (hn : ∀ h' s', Waits h h' → s'.out = s.out → Q (.error .refused) h' s')
    (hr : ∀ h' s', Waits h h' → s'.out = s.out → Pends s' ws → Q (.ok a) h' s') :
    Finishes me D Q (d+2) (.ok a) h s := by
  have hw : ∀ db, Waits h (h++[⟨db, [], []⟩]) := fun db => waits_snoc (waits_refl h hs) _ rfl
  exact conduct_release backend me D Q h s (d+2) (by omega) _
    (fun db s' hout => hn _ s' (hw db) hout)
    (fun db => hr _ _ (hw db) (release_out s) (pends_release hp))

end Rules

/-! ## Revisions, events and gateways -/

section Functions
variable {σ : Type} (me : σ) (D : List ApiDeed → ApiDeed → Prop)
variable (h : List ApiDeed) (s : Ses) (ws : List Image)

theorem acts_createDeploymentRevision (Q : Except DbError DeploymentRevision → List ApiDeed →
    Ses → Prop) (d : ℕ) (dr : Queries.NewRevision) (hp : Pends s ws) (hs : Spared h)
    (he : ∀ e h' s', Waits h h' → s'.out = s.out → Q (.error e) h' s')
    (hok : ∀ t (db₁ : Db) res ws₁ t' (db₂ : Db) ws₂ h' s',
      Queries.insertDeploymentRevision dr t (db₁.replay ws) = .ok (res, ws₁) →
      Queries.updateLatestDeploymentRevision res.id res.projectID t' (db₂.replay (ws++ws₁)) =
        .ok ((), ws₂) → Waits h h' → Saw h' (fun db => db = db₂) → s'.out = s.out →
      Pends s' (ws++ws₁++ws₂) → Q (.ok res) h' s') :
    Acts me D Q (createDeploymentRevision (.tx (d+1)) dr) h s := by
  have herror : ∀ e h' s', Waits h h' → s'.out = s.out →
      Finishes me D Q (d+2) (.error e) h' s' := fun e h' s' hw hout =>
    finishes_error me D h' s' Q _ e hw.spared
      fun h'' s'' hw' hout' => he e h'' s'' (waits_trans hw hw') (hout'.trans hout)
  refine acts_savepoint me D h s Q d _ ws hp hs (fun h' s' hw hout => he _ h' s' hw hout)
    fun h' s' hw hout hp => ?_
  refine acts_bind me D _ _ _ _ _ (acts_tx me D h' s' _ _ _ _ ws hp hw.spared
    (fun e h'' s'' _ hw' hout' => herror e _ _ (waits_trans hw hw') (hout'.trans hout))
    fun t db₁ res ws₁ s₁ hins hw₁ hout₁ hp₁ => ?_)
  refine acts_bind me D _ _ _ _ _ (acts_tx me D _ s₁ _ _ _ _ _ hp₁ hw₁.spared
    (fun e h'' s'' _ hw' hout' => herror e _ _ (waits_trans hw (waits_trans hw₁ hw'))
      (hout'.trans (hout₁.trans hout)))
    fun t' db₂ b ws₂ s₂ hupd hw₂ hout₂ hp₂ => ?_)
  have hw₂' := waits_trans hw (waits_trans hw₁ hw₂)
  have hout₂' := hout₂.trans (hout₁.trans hout)
  refine finishes_release me D _ s₂ Q d res _ hp₂ hw₂.spared
    (fun h'' s'' hw' hout' => he _ _ _ (waits_trans hw₂' hw') (hout'.trans hout₂'))
    fun h'' s'' hw' hout' hp' => ?_
  exact hok t db₁ res ws₁ t' db₂ ws₂ h'' s'' hins hupd (waits_trans hw₂' hw')
    (saw_sub hw'.sub (saw_last _ _ _ rfl)) (hout'.trans hout₂') hp'

theorem acts_addDeploymentRevisionEvent (Q : Except DbError Unit → List ApiDeed → Ses → Prop)
    (d : ℕ) (revisionID : UUID) (type : DeploymentRevisionEventType) (timestamp : Option Time)
    (hp : Pends s ws) (hs : Spared h)
    (he : ∀ e h' s', Waits h h' → s'.out = s.out → Q (.error e) h' s')
    (hok : ∀ t (db₁ : Db) e ws₁ t' (db₂ : Db) ws₂ h' s',
      Queries.insertDeploymentRevisionEvent revisionID type timestamp t (db₁.replay ws) =
        .ok (e, ws₁) →
      Queries.updateLatestDeploymentRevisionEvent e revisionID t' (db₂.replay (ws++ws₁)) =
        .ok ((), ws₂) → Waits h h' → Saw h' (fun db => db = db₂) → s'.out = s.out →
      Pends s' (ws++ws₁++ws₂) → Q (.ok ()) h' s') :
    Acts me D Q (addDeploymentRevisionEvent (.tx d) revisionID type timestamp) h s := by
  refine acts_bind me D _ _ _ _ _ (acts_tx me D h s _ _ _ _ ws hp hs
    (fun e h' s' _ => he e h' s') fun t db₁ e ws₁ s₁ hins hw₁ hout₁ hp₁ => ?_)
  refine acts_tx me D _ s₁ Q _ _ _ _ hp₁ hw₁.spared
    (fun e h'' s'' _ hw' hout' => he e _ _ (waits_trans hw₁ hw') (hout'.trans hout₁))
    fun t' db₂ b ws₂ s₂ hupd hw₂ hout₂ hp₂ => ?_
  exact hok t db₁ e ws₁ t' db₂ ws₂ _ s₂ hins hupd (waits_trans hw₁ hw₂) (saw_last _ _ _ rfl)
    (hout₂.trans hout₁) hp₂

/-- The gateway of an organization is applied from rows that are only read. -/
theorem acts_applyGateway (Q : Except DbError Unit → List ApiDeed → Ses → Prop) (env : Env)
    (org : Organization)
    (hq : ∀ r q s', Hushed q → s'.out = s.out → Q r (h++q) s') :
    Acts me D Q (applyGateway env .pool org) h s := by
  have hone : ∀ db : Db, Hushed [(⟨db, [], []⟩ : ApiDeed)] := fun db =>
    hushed_single _ ⟨rfl, rfl⟩
  refine acts_bind me D _ _ _ _ _ (acts_query me D h s _ _ _ (fun e db => hq _ _ s (hone db) rfl)
    fun t db pss ws hf => ?_)
  rw [Queries.getProjectSummaries, Queries.select] at hf
  obtain rfl : ws = [] := Ownership.read_ok _ pss ws hf
  refine ⟨fun hne => absurd rfl hne, ?_⟩
  refine conduct_call backend me D _ _ _ _ _ fun ok db' s' _ hout => ?_
  rw [List.append_assoc]
  cases ok with
  | false => exact hq _ _ s' (hushed_append _ _ (hone db) (hone db')) hout
  | true => exact hq _ _ s' (hushed_append _ _ (hone db) (hone db')) hout

theorem acts_applyGateway_tx (Q : Except DbError Unit → List ApiDeed → Ses → Prop) (d : ℕ)
    (env : Env) (org : Organization) (hp : Pends s ws) (hs : Spared h)
    (he : ∀ e h' s', s'.aborted = true → Waits h h' → s'.out = s.out → Q (.error e) h' s')
    (hq : ∀ r h' s', Waits h h' → s'.out = s.out → Pends s' ws → Q r h' s') :
    Acts me D Q (applyGateway env (.tx d) org) h s := by
  refine acts_bind me D _ _ _ _ _ (acts_tx me D h s _ _ _ _ ws hp hs he
    fun t db pss ws' s₁ hf hw₁ hout₁ hp₁ => ?_)
  rw [Queries.getProjectSummaries, Queries.select] at hf
  obtain rfl : ws' = [] := Ownership.read_ok _ pss ws' hf
  rw [List.append_nil] at hp₁
  refine conduct_call backend me D _ _ _ _ _ fun ok db' s' hl hout => ?_
  have hp' : Pends s' ws := ⟨by rw [hl]; exact hp₁.opened, by
    rw [Session.pending, hl]
    exact hp₁.pending⟩
  have hw := waits_snoc hw₁ ⟨db', [], []⟩ rfl
  cases ok with
  | false => exact hq _ _ s' hw (hout.trans hout₁) hp'
  | true => exact hq _ _ s' hw (hout.trans hout₁) hp'

/-! ## Access -/

variable (user : UserAccount) (Q : Unit → List ApiDeed → Ses → Prop)

theorem acts_withProject (projectID : Param UUID) (f : UUID → Api Unit) (hs : Spared h)
    (hq : ∀ h' s', Waits h h' → Declined s.out s'.out → Q () h' s')
    (hf : ∀ id h', projectID = .value id → Waits h h' →
      Saw h' (fun db => Requests.Accessible db user.id id) → Acts me D Q (f id) h' s) :
    Acts me D Q (withProject user projectID f) h s := by
  have hdeclined : ∀ status text h', 400 ≤ status → Waits h h' →
      Acts me D (fun id h s => Acts me D Q (if id = 0 then pure () else f id) h s)
        (show Api UUID from do
          respond status (.text text)
          return 0) h' s := by
    intro status text h' hstatus hw
    refine acts_bind me D _ _ _ _ _ (acts_respond me D h' s _ status (.text text) fun db => ?_)
    exact hq _ _ (waits_snoc hw _ rfl) (Or.inr ⟨status, _, hstatus, rfl⟩)
  refine acts_bind me D _ _ _ _ _ ?_
  cases projectID with
  | absent => exact hq h s (waits_refl h hs) (Or.inl rfl)
  | invalid => exact hdeclined 400 _ h (by decide) (waits_refl h hs)
  | value id =>
    refine acts_bind me D _ _ _ _ _ (acts_select me D h s _ _ _ hs
      (fun e h' hw => hdeclined 500 _ h' (by decide) hw) fun db b hr => ?_)
    have hw : Waits h (h++[⟨db, [], []⟩]) := waits_snoc (waits_refl h hs) _ rfl
    cases b with
    | false => exact hdeclined 404 _ _ (by decide) hw
    | true =>
      change Acts me D Q (if id = 0 then pure () else f id) _ s
      split
      · exact hq _ s hw (Or.inl rfl)
      · refine hf id _ rfl hw (saw_last _ _ _ ?_)
        cases hp : db.row .project id with
        | none => simp [hp] at hr
        | some p => exact ⟨p, hp, by simpa [hp] using hr⟩

def Admitted (user : UserAccount) (org : Organization) (db : Db) : Prop :=
  Queries.organization db org.id = some org ∧ Queries.isMember db user.id org.id = true

theorem acts_withOrganization (organizationID : Param UUID) (f : Organization → Api Unit)
    (hs : Spared h) (hq : ∀ h' s', Waits h h' → Declined s.out s'.out → Q () h' s')
    (hf : ∀ org h', organizationID = .value org.id → Waits h h' →
      Saw h' (Admitted user org) → Acts me D Q (f org) h' s) :
    Acts me D Q (withOrganization user organizationID f) h s := by
  have hdeclined : ∀ (k : Option Organization → Api Unit), k none = pure () →
      ∀ status text h', 400 ≤ status → Waits h h' →
      Acts me D (fun r h s => Acts me D Q (k r) h s)
        (respond status (.text text) >>= fun _ => pure none) h' s := by
    intro k hk status text h' hstatus hw
    refine acts_bind me D _ _ _ _ _ (acts_respond me D h' s _ status (.text text) fun db => ?_)
    rw [Prog.pure_eq, Acts, Prog.Conduct, hk]
    exact hq _ _ (waits_snoc hw _ rfl) (Or.inr ⟨status, _, hstatus, rfl⟩)
  refine acts_bind me D _ _ _ _ _ ?_
  cases organizationID with
  | absent => exact hq h s (waits_refl h hs) (Or.inl rfl)
  | invalid => exact hdeclined _ rfl 400 _ h (by decide) (waits_refl h hs)
  | value orgID =>
    refine acts_bind me D _ _ _ _ _ (acts_select me D h s _ _ _ hs
      (fun e h' hw => hdeclined _ rfl 500 _ h' (by decide) hw) fun db b hr => ?_)
    have hw : Waits h (h++[⟨db, [], []⟩]) := waits_snoc (waits_refl h hs) _ rfl
    obtain ⟨member, org⟩ := b
    cases member with
    | false => exact hdeclined _ rfl 404 _ _ (by decide) hw
    | true =>
      obtain ⟨hid, hm, ho⟩ := Queries.partOfOrg_true db user.id orgID org hr
      subst hid
      exact hf org _ rfl hw (saw_last _ _ _ ⟨ho, hm⟩)

end Functions

/-! ## Programs that only read -/

/-- A program without statements that write commits nothing. -/
theorem built_spared {σ : Type} (me : σ) (D : List ApiDeed → ApiDeed → Prop) (env : Env)
    {α : Type} (p : Api α)
    (hp : Reachability.Built env (fun _ => False) (fun _ => True) p) (h : List ApiDeed)
    (s : Ses) (hl : s.levels = []) (hs : Spared h) : Acts me D (fun _ h _ => Spared h) p h s := by
  have hnone : ∀ d : ApiDeed, (∀ w ∈ d.made, False) → d.made = [] :=
    fun d hd => List.eq_nil_iff_forall_not_mem.mpr hd
  refine conduct_mono backend me D _ _ (fun _ h _ hh d hd => hnone d (hh d hd)) _ _ _
    (conduct_footprint backend me D (fun _ => False) (fun h d hd hne => absurd (hnone d hd) hne) p
      (Requests.built_footprint (fun _ => False) env p hp) h s ?_ fun d hd w hw => ?_)
  · simp [Session.pending, hl]
  · rw [hs d hd] at hw
    cases hw

end Jetski.Conduct
