import Jetski.Relational.Alone

/-!
# Disciplined clients

Clients that run interleaved are followed by a mode for each of them: no
transaction is open, one is open with what it has read and what it will write,
or one has failed. The duty of a client says which images it may commit, given
its reads and the rows at that moment. A row with a pending image is locked, so
nobody else commits one until its transaction ends. Every run of clients that
obey their duties leaves a log in which every commit was due when it was made.
-/

set_option autoImplicit false

namespace Relational

variable {T : Type} {Key Row : T → Type} {L ε C O G σ α β : Type}

/-! ## Modes and duties -/

/-- What is known of a client between two of its actions. -/
inductive Mode (Key Row : T → Type) where
  | closed (committed sent : Bool) (reads : List (Store Key Row))
  | opened (sent : Bool) (reads : List (Store Key Row)) (ws : List (Write Key Row))
  | aborted
  | undone

/-- Whether steps of the client may fail, the images it may commit by a statement
on the pool and by a transaction, and how it may end. -/
structure Duty (Key Row : T → Type) where
  fallible : Prop
  pool : List (Store Key Row) → List (Write Key Row) → Prop
  commit : Bool → List (Store Key Row) → List (Write Key Row) → Store Key Row → Prop
  done : Bool → Bool → Prop

/-- Every row that has a pending image is as it was read. -/
def Held (reads : List (Store Key Row)) (ws : List (Write Key Row)) (db : Store Key Row) : Prop :=
  ∀ w ∈ ws, ∃ d ∈ reads, d.row w.table w.key = db.row w.table w.key

section Obeys
variable [DecidableEq T] [∀ t, DecidableEq (Key t)]
variable (J : Store Key Row → Prop) (du : Duty Key Row)

def Action.Obeys : {β : Type} → Action Key Row L ε C O β → (β → Mode Key Row → Prop) →
    Mode Key Row → Prop
  | _, .stmt _ .pool f, K, .closed c s reads =>
    (du.fallible → ∀ e, K (.error e) (.closed c s reads)) ∧
    ∀ t db, J db → (∀ e, f t db = .error e → K (.error e) (.closed c s reads)) ∧
      ∀ b ws, f t db = .ok (b, ws) → ws = [] ∧ K (.ok b) (.closed c s (db::reads)) ∨
        ws ≠ [] ∧ c = false ∧ s = false ∧ du.pool (db::reads) ws ∧ J (db.replay ws) ∧
          K (.ok b) (.closed true false (db::reads))
  | _, .stmt _ (.tx _) f, K, .opened s reads ws => s = false ∧
    (du.fallible → ∀ e, K (.error e) .aborted) ∧
    ∀ t db, J db → (∀ e, f t (db.replay ws) = .error e → K (.error e) .aborted) ∧
      ∀ b ws', f t (db.replay ws) = .ok (b, ws') → K (.ok b) (.opened s (db::reads) (ws++ws'))
  | _, .begin .pool, K, .closed c s reads => c = false ∧ s = false ∧
    (du.fallible → K none (.closed false false reads)) ∧ K (some (.tx 1)) (.opened false [] [])
  | _, .begin (.tx d), K, .opened s reads ws => s = false ∧ (du.fallible → K none .aborted) ∧
    K (some (.tx (d+1))) (.opened s reads ws)
  | _, .commit (.tx 1), K, .opened s reads ws => (du.fallible → K false (.closed false s [])) ∧
    (ws = [] ∧ s = false ∧ K true (.closed false false []) ∨
      ws ≠ [] ∧ (∀ db, J db → Held reads ws db → du.commit s reads ws db ∧ J (db.replay ws)) ∧
        K true (.closed true s []))
  | _, .commit (.tx 1), K, .aborted => K false (.closed false false [])
  | _, .commit (.tx _), K, .opened s reads ws => s = false ∧ (du.fallible → K false .aborted) ∧
    K true (.opened s reads ws)
  | _, .commit (.tx _), K, .aborted => K false .aborted
  | _, .rollback (.tx 1), K, .opened s _ _ => s = false ∧ K () (.closed false false [])
  | _, .rollback (.tx 1), K, .aborted => K () (.closed false false [])
  | _, .rollback (.tx 1), K, .undone => K () (.closed false false [])
  | _, .rollback (.tx _), K, .opened s _ _ => s = false ∧ K () .undone
  | _, .rollback (.tx _), K, .aborted => K () .undone
  | _, .rollback (.tx _), K, .undone => K () .undone
  | _, .call _, K, .closed c s reads => s = false ∧ (du.fallible → K false (.closed c s reads)) ∧
    K true (.closed c true reads)
  | _, .call _, K, .opened s reads ws => s = false ∧ (du.fallible → K false (.opened s reads ws)) ∧
    K true (.opened true reads ws)
  | _, .emit _, K, m => K () m
  | _, _, _, _ => False

def Prog.Obeys : Prog Key Row L ε C O α → (α → Mode Key Row → Prop) → Mode Key Row → Prop
  | .ret a, Q, m => Q a m
  | .act a k, Q, m => a.Obeys J du (fun b m => (k b).Obeys Q m) m

theorem action_obeys_mono (K K' : β → Mode Key Row → Prop) (hK : ∀ b m, K b m → K' b m)
    (a : Action Key Row L ε C O β) (m : Mode Key Row) (h : a.Obeys J du K m) :
    a.Obeys J du K' m := by
  cases a with
  | stmt name hd f =>
    cases hd with
    | pool =>
      cases m with
      | closed c s reads =>
        refine ⟨fun hf e => hK _ _ (h.1 hf e), fun t db hd => ⟨fun e hf =>
          hK _ _ ((h.2 t db hd).1 e hf), fun b ws hf => ?_⟩⟩
        rcases (h.2 t db hd).2 b ws hf with ⟨hw, hk⟩ | ⟨hw, hc, hs, hp, hj, hk⟩
        · exact Or.inl ⟨hw, hK _ _ hk⟩
        · exact Or.inr ⟨hw, hc, hs, hp, hj, hK _ _ hk⟩
      | opened | aborted | undone => exact h
    | tx d =>
      cases m with
      | opened s reads ws =>
        exact ⟨h.1, fun hf e => hK _ _ (h.2.1 hf e), fun t db hd => ⟨fun e hf =>
          hK _ _ ((h.2.2 t db hd).1 e hf), fun b ws' hf => hK _ _ ((h.2.2 t db hd).2 b ws' hf)⟩⟩
      | closed | aborted | undone => exact h
  | begin hd =>
    cases hd with
    | pool =>
      cases m with
      | closed c s reads => exact ⟨h.1, h.2.1, fun hf => hK _ _ (h.2.2.1 hf), hK _ _ h.2.2.2⟩
      | opened | aborted | undone => exact h
    | tx d =>
      cases m with
      | opened s reads ws => exact ⟨h.1, fun hf => hK _ _ (h.2.1 hf), hK _ _ h.2.2⟩
      | closed | aborted | undone => exact h
  | commit hd =>
    cases hd with
    | pool => cases m <;> exact h
    | tx d =>
      cases m with
      | closed | undone => rcases d with _ | _ | d <;> exact h
      | aborted => rcases d with _ | _ | d <;> exact hK _ _ h
      | opened s reads ws =>
        rcases d with _ | _ | d
        · exact ⟨h.1, fun hf => hK _ _ (h.2.1 hf), hK _ _ h.2.2⟩
        · refine ⟨fun hf => hK _ _ (h.1 hf), ?_⟩
          rcases h.2 with ⟨hw, hs, hk⟩ | ⟨hw, hc, hk⟩
          · exact Or.inl ⟨hw, hs, hK _ _ hk⟩
          · exact Or.inr ⟨hw, hc, hK _ _ hk⟩
        · exact ⟨h.1, fun hf => hK _ _ (h.2.1 hf), hK _ _ h.2.2⟩
  | rollback hd =>
    cases hd with
    | pool => cases m <;> exact h
    | tx d =>
      cases m with
      | closed => rcases d with _ | _ | d <;> exact h
      | aborted | undone => rcases d with _ | _ | d <;> exact hK _ _ h
      | opened s reads ws => rcases d with _ | _ | d <;> exact ⟨h.1, hK _ _ h.2⟩
  | call c =>
    cases m with
    | closed | opened => exact ⟨h.1, fun hf => hK _ _ (h.2.1 hf), hK _ _ h.2.2⟩
    | aborted | undone => exact h
  | emit o => exact hK _ _ h

section Levels
variable {m : Mode Key Row}

theorem obeys_release (K : Bool → Mode Key Row → Prop) (hd : Handle) (hne : hd ≠ .tx 1)
    (h : (Action.commit hd : Action Key Row L ε C O Bool).Obeys J du K m) :
    (∃ reads ws, m = .opened false reads ws ∧ (du.fallible → K false .aborted) ∧
      K true (.opened false reads ws)) ∨ m = .aborted ∧ K false .aborted := by
  have hcases : ∃ d, hd = .tx d ∧ d ≠ 1 := by
    cases hd with
    | pool => exact h.elim
    | tx d => exact ⟨d, rfl, fun hd => hne (hd ▸ rfl)⟩
  obtain ⟨d, rfl, hd⟩ := hcases
  cases m with
  | opened s reads ws =>
    have hs : s = false ∧ (du.fallible → K false .aborted) ∧ K true (.opened s reads ws) := by
      rcases d with _ | _ | d
      · exact h
      · exact absurd rfl hd
      · exact h
    obtain ⟨rfl, hs⟩ := hs
    exact Or.inl ⟨reads, ws, rfl, hs⟩
  | aborted =>
    rcases d with _ | _ | d
    · exact Or.inr ⟨rfl, h⟩
    · exact absurd rfl hd
    · exact Or.inr ⟨rfl, h⟩
  | closed | undone => rcases d with _ | _ | d <;> exact h.elim

/-- A rollback is due at any time before the client has sent a call. -/
theorem obeys_rollback (K : Unit → Mode Key Row → Prop) (d : ℕ)
    (h : (Action.rollback (.tx d) : Action Key Row L ε C O Unit).Obeys J du K m) :
    ((∃ reads ws, m = .opened false reads ws) ∨ m = .aborted ∨ m = .undone) ∧
      K () (if d = 1 then .closed false false [] else .undone) := by
  cases m with
  | opened s reads ws =>
    have hs : s = false ∧ K () (if d = 1 then .closed false false [] else .undone) := by
      rcases d with _ | _ | d <;> exact h
    obtain ⟨rfl, hk⟩ := hs
    exact ⟨Or.inl ⟨reads, ws, rfl⟩, hk⟩
  | aborted => rcases d with _ | _ | d <;> exact ⟨Or.inr (Or.inl rfl), h⟩
  | undone => rcases d with _ | _ | d <;> exact ⟨Or.inr (Or.inr rfl), h⟩
  | closed => rcases d with _ | _ | d <;> exact h.elim

end Levels

theorem obeys_mono (Q Q' : α → Mode Key Row → Prop) (hQ : ∀ a m, Q a m → Q' a m)
    (p : Prog Key Row L ε C O α) (m : Mode Key Row) (h : p.Obeys J du Q m) : p.Obeys J du Q' m := by
  induction p generalizing m with
  | ret a => exact hQ a m h
  | act a k ih => exact action_obeys_mono J du _ _ (fun b m hk => ih b m hk) a m h

theorem obeys_bind (Q : β → Mode Key Row → Prop) (p : Prog Key Row L ε C O α)
    (f : α → Prog Key Row L ε C O β) (m : Mode Key Row)
    (h : p.Obeys J du (fun a m => (f a).Obeys J du Q m) m) : (p.bind f).Obeys J du Q m := by
  induction p generalizing m with
  | ret a => exact h
  | act a k ih => exact action_obeys_mono J du _ _ (fun b m hk => ih b m hk) a m h

end Obeys

/-! ## Logs -/

section Log
variable [DecidableEq T] [∀ t, DecidableEq (Key t)]

def Store.settle (db : Store Key Row) (log : List (Commit Key Row σ)) : Store Key Row :=
  db.replay (log.flatMap (fun c => c.images))

theorem settle_append (db : Store Key Row) (log cs : List (Commit Key Row σ)) :
    db.settle (log++cs) = (db.settle log).settle cs := by
  rw [Store.settle, Store.settle, Store.settle, List.flatMap_append, Store.replay_append]

@[simp] theorem settle_single (db : Store Key Row) (c : Commit Key Row σ) :
    db.settle [c] = db.replay c.images := by
  simp [Store.settle]

variable (srv₀ : Server Key Row G σ)

/-- The rows were committed at some moment since the given number of commits. -/
def Past (log : List (Commit Key Row σ)) (since : ℕ) (d : Store Key Row) : Prop :=
  ∃ cs, cs <+: log ∧ since ≤ srv₀.wal.length+cs.length ∧ d = srv₀.db.settle cs

theorem past_append (log cs : List (Commit Key Row σ)) (since : ℕ) (d : Store Key Row)
    (h : Past srv₀ log since d) : Past srv₀ (log++cs) since d := by
  obtain ⟨pre, hp, hn, hd⟩ := h
  exact ⟨pre, hp.trans (List.prefix_append log cs), hn, hd⟩

/-- The images of a client's commit after the log were due: they are those of a
statement on the pool, given what the client has read since its start, or those
of a transaction, given what it has read since it began. -/
def Due (start : ℕ) (du : Duty Key Row) (log : List (Commit Key Row σ)) (c : Commit Key Row σ) :
    Prop :=
  (∃ reads, (∀ d ∈ reads, Past srv₀ log start d) ∧ du.pool reads c.images) ∨
    ∃ sent reads, (∀ d ∈ reads, Past srv₀ log c.since d) ∧
      du.commit sent reads c.images (srv₀.db.settle log)

/-- The server has gone through the log. -/
structure Logged (srv : Server Key Row G σ) (log : List (Commit Key Row σ)) : Prop where
  wal : srv.wal = srv₀.wal++log
  db : srv.db = srv₀.db.settle log

/-- What the mode of a client says of its session. -/
def Stays (start : ℕ) (log : List (Commit Key Row σ)) (db : Store Key Row) (i : σ)
    (s : Session Key Row C O) : Mode Key Row → Prop
  | .closed committed sent reads => s.levels = [] ∧ (sent = false ↔ s.sent = []) ∧
    (committed = false → ∀ c ∈ log, c.client ≠ i) ∧ ∀ d ∈ reads, Past srv₀ log start d
  | .opened sent reads ws => (s.levels ≠ [] ∧ s.aborted = false ∧ s.pending = ws) ∧
    (sent = false ↔ s.sent = []) ∧ (∀ c ∈ log, c.client ≠ i) ∧
    s.since ≤ srv₀.wal.length+log.length ∧ (∀ d ∈ reads, Past srv₀ log s.since d) ∧
    Held reads ws db
  | .aborted => (s.levels ≠ [] ∧ s.aborted = true) ∧ s.sent = [] ∧ ∀ c ∈ log, c.client ≠ i
  | .undone => s.sent = [] ∧ ∀ c ∈ log, c.client ≠ i

/-- Commits of others that leave the rows with pending images alone keep the mode. -/
theorem stays_other (start : ℕ) (log cs : List (Commit Key Row σ)) (db db' : Store Key Row)
    (i : σ) (s : Session Key Row C O) (m : Mode Key Row) (h : Stays srv₀ start log db i s m)
    (hcs : ∀ c ∈ cs, c.client ≠ i)
    (hdb : ∀ w ∈ s.pending, db'.row w.table w.key = db.row w.table w.key) :
    Stays srv₀ start (log++cs) db' i s m := by
  have hun : (∀ c ∈ log, c.client ≠ i) → ∀ c ∈ log++cs, c.client ≠ i := fun hlog c hc =>
    (List.mem_append.mp hc).elim (hlog c) (hcs c)
  cases m with
  | closed committed sent reads =>
    exact ⟨h.1, h.2.1, fun hc => hun (h.2.2.1 hc),
      fun d hd => past_append srv₀ log cs _ d (h.2.2.2 d hd)⟩
  | opened sent reads ws =>
    obtain ⟨hs, hsent, hlog, hsince, hpast, hheld⟩ := h
    refine ⟨hs, hsent, hun hlog, by rw [List.length_append]; omega,
      fun d hd => past_append srv₀ log cs _ d (hpast d hd), fun w hw => ?_⟩
    obtain ⟨d, hd, he⟩ := hheld w hw
    exact ⟨d, hd, he.trans (hdb w (hs.2.2 ▸ hw)).symm⟩
  | aborted => exact ⟨h.1, h.2.1, hun h.2.2⟩
  | undone => exact ⟨h.1, hun h.2⟩

end Log

/-! ## One action -/

section Exec
variable [DecidableEq T] [∀ t, DecidableEq (Key t)]
variable (be : Backend ε C G) (srv₀ : Server Key Row G σ)

/-- What an action of a client does to the rows, the log and the external service. -/
inductive Effect (start : ℕ) (du : Duty Key Row) (log : List (Commit Key Row σ)) (i : σ)
    (fail : Bool) (srv : Server Key Row G σ) (s : Session Key Row C O) (srv' : Server Key Row G σ)
    (s' : Session Key Row C O) :
    {β : Type} → Action Key Row L ε C O β → List (Commit Key Row σ) → Prop
  | silent {β : Type} (a : Action Key Row L ε C O β) : srv'.db = srv.db → srv'.wal = srv.wal →
      srv'.ext = srv.ext → s'.sent = s.sent →
      (¬ du.fallible → s.sent ≠ [] → (s'.levels = [] ↔ s.levels = []) ∧ s'.pending = s.pending) →
      Effect start du log i fail srv s srv' s' a []
  | pool {β : Type} (a : Action Key Row L ε C O β) (reads : List (Store Key Row))
      (ws : List (Write Key Row)) : du.pool reads ws → (∀ d ∈ reads, Past srv₀ log start d) →
      s.levels = [] → s.sent = [] → s' = s → srv'.db = srv.db.replay ws →
      srv'.wal = srv.wal++[⟨i, srv.wal.length, ws⟩] → srv'.ext = srv.ext →
      Effect start du log i fail srv s srv' s' a [⟨i, srv.wal.length, ws⟩]
  | commit {β : Type} (a : Action Key Row L ε C O β) (sent : Bool)
      (reads : List (Store Key Row)) : du.commit sent reads s.pending srv.db →
      Held reads s.pending srv.db → (∀ d ∈ reads, Past srv₀ log s.since d) →
      (sent = false ↔ s.sent = []) → s.levels ≠ [] → s.pending ≠ [] → s' = s.close →
      srv'.db = srv.db.replay s.pending → srv'.wal = srv.wal++[⟨i, s.since, s.pending⟩] →
      srv'.ext = srv.ext → Effect start du log i fail srv s srv' s' a [⟨i, s.since, s.pending⟩]
  | call (c : C) : fail = false → s.sent = [] → s' = { s with sent := [c] } →
      srv' = { srv with ext := be.react c srv.ext } →
      Effect start du log i fail srv s srv' s' (.call c) []

/-- An obedient action leads from a mode to a mode. -/
theorem exec_obeys (start : ℕ) (J : Store Key Row → Prop) (du : Duty Key Row)
    (log : List (Commit Key Row σ)) (i : σ) (fail : Bool) (a : Action Key Row L ε C O β)
    (K : β → Mode Key Row → Prop)
    (m : Mode Key Row) (h : a.Obeys J du K m) (srv : Server Key Row G σ) (s : Session Key Row C O)
    (hl : Logged srv₀ srv log) (hJ : J srv.db) (hst : Stays srv₀ start log srv.db i s m)
    (hstart : start ≤ srv.wal.length) (hfail : ¬ du.fallible → fail = false) :
    ∃ m' cs, K (a.exec be i fail srv s).1 m' ∧
      Effect be srv₀ start du log i fail srv s (a.exec be i fail srv s).2.1
        (a.exec be i fail srv s).2.2 a cs ∧
      J (a.exec be i fail srv s).2.1.db ∧ (cs ≠ [] → ∀ c ∈ log, c.client ≠ i) ∧
      Stays srv₀ start (log++cs) (a.exec be i fail srv s).2.1.db i
      (a.exec be i fail srv s).2.2 m' := by
  have hall : ¬ du.fallible → s.sent ≠ [] →
      (s.levels = [] ↔ s.levels = []) ∧ s.pending = s.pending := fun _ _ => ⟨Iff.rfl, rfl⟩
  have hnil : ([] : List (Commit Key Row σ)) ≠ [] → ∀ c ∈ log, c.client ≠ i := fun h => absurd rfl h
  have hmay : fail = true → du.fallible := fun hf => by
    by_contra hn
    simp [hfail hn] at hf
  have hnow : Past srv₀ log start srv.db := by
    refine ⟨log, List.prefix_rfl, ?_, hl.db⟩
    rwa [hl.wal, List.length_append] at hstart
  cases a with
  | stmt name hd f =>
    cases hd with
    | pool =>
      cases m with
      | closed c sent reads =>
        obtain ⟨hfault, hstmt⟩ := h
        obtain ⟨he, hok⟩ := hstmt (s.tick srv .pool) _ hJ
        rw [Action.exec]
        split
        · next hf => exact ⟨_, [], hfault (hmay hf) _, .silent _ rfl rfl rfl rfl hall, hJ, hnil,
            by rwa [List.append_nil]⟩
        · split
          · next hf => exact ⟨_, [], he _ hf, .silent _ rfl rfl rfl rfl hall, hJ, hnil,
              by rwa [List.append_nil]⟩
          · next b ws hf =>
            have hpast : ∀ d ∈ srv.db::reads, Past srv₀ log start d := by
              intro d hd
              rcases List.mem_cons.mp hd with rfl | hd
              · exact hnow
              · exact hst.2.2.2 d hd
            rcases hok b ws hf with ⟨rfl, hk⟩ | ⟨hne, rfl, rfl, hp, hj, hk⟩
            · refine ⟨_, [], hk, .silent _ rfl rfl rfl rfl hall, hJ, hnil, ?_⟩
              rw [List.append_nil]
              exact ⟨hst.1, hst.2.1, hst.2.2.1, hpast⟩
            · refine ⟨_, _, hk, .pool _ _ ws hp hpast hst.1 (hst.2.1.mp rfl) rfl rfl ?_ rfl, hj,
                fun _ => hst.2.2.1 rfl, hst.1, hst.2.1, by simp,
                fun d hd => past_append srv₀ log _ _ d (hpast d hd)⟩
              exact if_neg (by simpa using hne)
      | opened | aborted | undone => exact h.elim
    | tx d =>
      cases m with
      | opened sent reads ws =>
        obtain ⟨rfl, hfault, hstmt⟩ := h
        obtain ⟨⟨hopen, hlive, rfl⟩, hsent, hun, hsince, hpast, hheld⟩ := hst
        obtain ⟨he, hok⟩ := hstmt (s.tick srv (.tx d)) _ hJ
        have hs := hsent.mp rfl
        have hall : ∀ s' : Session Key Row C O, ¬ du.fallible → s.sent ≠ [] →
            (s'.levels = [] ↔ s.levels = []) ∧ s'.pending = s.pending := fun _ _ h => absurd hs h
        rw [Action.exec, if_neg (by simp [hopen, hlive])]
        split
        · next hf => exact ⟨_, [], hfault (hmay hf) _, .silent _ rfl rfl rfl rfl (hall _), hJ, hnil,
            ⟨hopen, rfl⟩, hs, by rwa [List.append_nil]⟩
        · split
          · next hf => exact ⟨_, [], he _ hf, .silent _ rfl rfl rfl rfl (hall _), hJ, hnil,
              ⟨hopen, rfl⟩, hs, by rwa [List.append_nil]⟩
          · next b ws' hf =>
            have hp := s.pending_push ws' hopen
            obtain ⟨ls, hpush, hne⟩ := s.push_shape ws' hopen
            refine ⟨_, [], hok b ws' hf, .silent _ rfl rfl rfl (by rw [hpush]) (hall _),
              hJ, hnil, ⟨by rw [hpush]; exact hne, by rw [hpush]; exact hlive, hp⟩,
              by rw [hpush]; exact hsent,
              by rwa [List.append_nil], by rw [hpush]; simpa using hsince, ?_, ?_⟩
            · rw [List.append_nil, hpush]
              rintro d hd
              rcases List.mem_cons.mp hd with rfl | hd
              · exact ⟨log, List.prefix_rfl, hsince, hl.db⟩
              · exact hpast d hd
            · intro w hw
              rcases List.mem_append.mp hw with hw | hw
              · obtain ⟨d, hd, he⟩ := hheld w hw
                exact ⟨d, List.mem_cons_of_mem _ hd, he⟩
              · exact ⟨srv.db, List.mem_cons_self, rfl⟩
      | closed | aborted | undone => exact h.elim
  | begin hd =>
    cases hd with
    | pool =>
      cases m with
      | closed c sent reads =>
        obtain ⟨rfl, rfl, hn, hk⟩ := h
        obtain ⟨hclosed, hsent, hun, hpast⟩ := hst
        have hs := hsent.mp rfl
        rw [Action.exec]
        split
        · next hf => exact ⟨_, [], hn (hmay (by simpa [hclosed] using hf)),
            .silent _ rfl rfl rfl rfl hall, hJ, hnil, hclosed, hsent,
            by rw [List.append_nil]; exact ⟨hun, hpast⟩⟩
        · refine ⟨_, [], hk, .silent _ rfl rfl rfl rfl (fun _ h => absurd hs h), hJ, hnil,
            ⟨by simp, rfl, rfl⟩, hsent, by simpa using hun rfl, ?_, by simp, ?_⟩
          · simp [hl.wal]
          · intro w hw
            cases hw
      | opened | aborted | undone => exact h.elim
    | tx d =>
      cases m with
      | opened sent reads ws =>
        obtain ⟨rfl, hn, hk⟩ := h
        obtain ⟨⟨hopen, hlive, hp⟩, hsent, hun, hrest⟩ := hst
        have hs := hsent.mp rfl
        rw [Action.exec]
        split
        · next hf => exact ⟨_, [], hn (hmay (by simpa [hopen, hlive] using hf)),
            .silent _ rfl rfl rfl rfl (fun _ h => absurd hs h), hJ, hnil, ⟨hopen, rfl⟩, hs,
            by rwa [List.append_nil]⟩
        · refine ⟨_, [], hk, .silent _ rfl rfl rfl rfl (fun _ h => absurd hs h), hJ, hnil, ?_⟩
          rw [List.append_nil]
          exact ⟨⟨by simp, hlive, by simpa [Session.pending] using hp⟩, hsent, hun, hrest⟩
      | closed | aborted | undone => exact h.elim
  | commit hd =>
    by_cases hne : hd = .tx 1
    · subst hne
      rw [Action.exec]
      cases m with
      | opened sent reads ws =>
        obtain ⟨hfault, hdone⟩ := h
        obtain ⟨⟨hopen, hlive, rfl⟩, hsent, hun, hsince, hpast, hheld⟩ := hst
        split
        · next hc =>
          have hmay : du.fallible := hmay (by simpa [hlive] using hc)
          exact ⟨_, [], hfault hmay, .silent _ rfl rfl rfl rfl (fun hn => absurd hmay hn), hJ, hnil,
            rfl, hsent, by simpa using hun, by simp⟩
        · rcases hdone with ⟨hnone, rfl, hk⟩ | ⟨hne, hc, hk⟩
          · have hs := hsent.mp rfl
            refine ⟨_, [], hk, .silent _ ?_ ?_ rfl rfl (fun _ h => absurd hs h), ?_, hnil,
              rfl, hsent, by simpa using hun, by simp⟩
            all_goals simp [hnone, Server.apply, Server.tock, hJ]
          · obtain ⟨hcommit, hj⟩ := hc srv.db hJ hheld
            refine ⟨_, _, hk, .commit _ sent reads hcommit hheld hpast hsent hopen hne rfl rfl ?_
              rfl, hj, fun _ => hun, rfl, hsent, by simp, by simp⟩
            exact if_neg (by simpa using hne)
      | aborted =>
        obtain ⟨⟨hopen, hab⟩, hs, hun⟩ := hst
        rw [if_pos (Or.inr hab)]
        exact ⟨_, [], h, .silent _ rfl rfl rfl rfl (fun _ h => absurd hs h), hJ, hnil, rfl,
          ⟨fun _ => hs, fun _ => rfl⟩, by simpa using hun, by simp⟩
      | closed | undone => exact h.elim
    · rw [exec_release be i fail srv s hd hne]
      rcases obeys_release J du K hd hne h with ⟨reads, ws, rfl, hn, hk⟩ | ⟨rfl, hk⟩
      · obtain ⟨⟨hopen, hlive, hp⟩, hsent, hun, hrest⟩ := hst
        have hs := hsent.mp rfl
        split
        · next hf => exact ⟨_, [], hn (hmay (by simpa [hlive] using hf)),
            .silent _ rfl rfl rfl rfl (fun _ h => absurd hs h), hJ, hnil, ⟨hopen, rfl⟩, hs,
            by rwa [List.append_nil]⟩
        · have hrel := s.pending_release
          obtain ⟨ls, hr, hne⟩ := s.release_shape hopen
          refine ⟨_, [], hk, .silent _ rfl rfl rfl (by rw [hr]) (fun _ h => absurd hs h), hJ, hnil,
            ?_⟩
          rw [List.append_nil]
          refine ⟨⟨by rw [hr]; exact hne, by rw [hr]; exact hlive, hrel.trans hp⟩, ?_⟩
          rw [hr]
          exact ⟨hsent, hun, hrest⟩
      · obtain ⟨⟨hopen, hab⟩, hs, hun⟩ := hst
        rw [if_pos (Or.inr hab)]
        exact ⟨_, [], hk, .silent _ rfl rfl rfl rfl (fun _ h => absurd hs h), hJ, hnil,
          ⟨hopen, rfl⟩, hs, by rwa [List.append_nil]⟩
  | rollback hd =>
    have hquiet : ((∃ reads ws, m = .opened false reads ws) ∨ m = .aborted ∨ m = .undone) →
        s.sent = [] ∧ ∀ c ∈ log, c.client ≠ i := by
      rintro (⟨reads, ws, rfl⟩ | rfl | rfl)
      · exact ⟨hst.2.1.mp rfl, hst.2.2.1⟩
      · exact hst.2
      · exact hst
    induction hd using Handle.level_cases with
    | pool => exact h.elim
    | outer =>
      obtain ⟨hm, hk⟩ := obeys_rollback J du K 1 h
      obtain ⟨hs, hun⟩ := hquiet hm
      exact ⟨_, [], hk, .silent _ rfl rfl rfl rfl (fun _ h => absurd hs h), hJ, hnil, rfl,
        ⟨fun _ => hs, fun _ => rfl⟩, by simpa using hun, by simp⟩
    | inner d hne =>
      obtain ⟨hm, hk⟩ := obeys_rollback J du K d h
      obtain ⟨hs, hun⟩ := hquiet hm
      rw [if_neg hne] at hk
      rw [exec_rollback_inner be i fail srv s d hne]
      exact ⟨_, [], hk, .silent _ rfl rfl rfl rfl (fun _ h => absurd hs h), hJ, hnil, hs,
        by simpa using hun⟩
  | call c =>
    cases m with
    | closed committed sent reads =>
      obtain ⟨rfl, hfault, hk⟩ := h
      have hs := hst.2.1.mp rfl
      rw [Action.exec]
      split
      · next hf => exact ⟨_, [], hfault (hmay hf), .silent _ rfl rfl rfl rfl hall, hJ, hnil,
          by rwa [List.append_nil]⟩
      · next hf =>
        refine ⟨_, [], hk, .call c (by simpa using hf) hs (by simp [hs]) rfl, hJ, hnil,
          hst.1, ?_, ?_⟩
        · simp
        · simpa using hst.2.2
    | opened sent reads ws =>
      obtain ⟨rfl, hfault, hk⟩ := h
      obtain ⟨hopen, hsent, hun, hrest⟩ := hst
      have hs := hsent.mp rfl
      rw [Action.exec]
      split
      · next hf => exact ⟨_, [], hfault (hmay hf), .silent _ rfl rfl rfl rfl hall, hJ, hnil,
          by rw [List.append_nil]; exact ⟨hopen, hsent, hun, hrest⟩⟩
      · next hf =>
        refine ⟨_, [], hk, .call c (by simpa using hf) hs (by simp [hs]) rfl, hJ, hnil, ?_⟩
        rw [List.append_nil]
        exact ⟨hopen, by simp, hun, hrest⟩
    | aborted | undone => exact h.elim
  | emit o =>
    refine ⟨m, [], h, .silent _ rfl rfl rfl rfl hall, hJ, hnil, ?_⟩
    rw [List.append_nil]
    cases m <;> exact hst

section Effects
variable {start : ℕ} {du : Duty Key Row} {log cs : List (Commit Key Row σ)} {i : σ} {fail : Bool}
variable {srv srv' : Server Key Row G σ} {s s' : Session Key Row C O}
variable {a : Action Key Row L ε C O β} (h : Effect be srv₀ start du log i fail srv s srv' s' a cs)
include h

theorem effect_logged (hl : Logged srv₀ srv log) : Logged srv₀ srv' (log++cs) := by
  cases h with
  | silent _ hdb hwal =>
    exact ⟨by rw [hwal, hl.wal, List.append_nil], by rw [hdb, hl.db, List.append_nil]⟩
  | pool _ reads ws _ _ _ _ _ hdb hwal =>
    exact ⟨by rw [hwal, hl.wal, List.append_assoc],
      by rw [hdb, hl.db, settle_append, settle_single]⟩
  | commit _ sent reads _ _ _ _ _ _ _ hdb hwal =>
    exact ⟨by rw [hwal, hl.wal, List.append_assoc],
      by rw [hdb, hl.db, settle_append, settle_single]⟩
  | call c _ _ _ hsrv =>
    exact ⟨by rw [hsrv, hl.wal, List.append_nil], by rw [hsrv, hl.db, List.append_nil]⟩

/-- There is at most one commit; it is one of the client and due. -/
theorem effect_commits (hl : Logged srv₀ srv log) :
    cs = [] ∨ ∃ c, cs = [c] ∧ c.client = i ∧ Due srv₀ start du log c := by
  cases h with
  | silent | call => exact Or.inl rfl
  | pool _ reads ws hp hpast => exact Or.inr ⟨_, rfl, rfl, Or.inl ⟨reads, hpast, hp⟩⟩
  | commit _ sent reads hc _ hpast =>
    exact Or.inr ⟨_, rfl, rfl, Or.inr ⟨sent, reads, hpast, hl.db ▸ hc⟩⟩

end Effects

theorem past_nil (since : ℕ) (d : Store Key Row) (h : Past srv₀ [] since d) :
    d = srv₀.db ∧ since ≤ srv₀.wal.length := by
  obtain ⟨cs, hcs, hn, rfl⟩ := h
  rw [List.prefix_nil] at hcs
  subst hcs
  exact ⟨rfl, by simpa using hn⟩

/-- A client that runs alone commits at most once, and then what was due. -/
theorem run_obeys (J : Store Key Row → Prop) (du : Duty Key Row) (i : σ)
    (fails : StepName L → Bool) (hfails : ¬ du.fallible → ∀ st, fails st = false)
    (p : Prog Key Row L ε C O Unit) (Q : Unit → Mode Key Row → Prop) (m : Mode Key Row)
    (h : p.Obeys J du Q m)
    (srv : Server Key Row G σ) (s : Session Key Row C O) (log : List (Commit Key Row σ))
    (hl : Logged srv₀ srv log) (hJ : J srv.db) (hst : Stays srv₀ 0 log srv.db i s m)
    (hlog : log = [] ∨ ∃ c, log = [c] ∧ c.client = i ∧ Due srv₀ 0 du [] c) :
    ∃ log', Logged srv₀ (p.run be i fails srv s).2.1 log' ∧ J (p.run be i fails srv s).2.1.db ∧
      (log' = [] ∨ ∃ c, log' = [c] ∧ c.client = i ∧ Due srv₀ 0 du [] c) := by
  induction p generalizing m srv s log with
  | ret a => exact ⟨log, hl, hJ, hlog⟩
  | act a k ih =>
    obtain ⟨m', cs, hk, heff, hJ', hun, hst'⟩ := exec_obeys be srv₀ 0 J du log i (fails a.name) a
      _ m h srv s hl hJ hst (Nat.zero_le _) (fun hf => hfails hf _)
    refine ih _ m' hk _ _ (log++cs) (effect_logged be srv₀ heff hl) hJ' hst' ?_
    rcases effect_commits be srv₀ heff hl with rfl | ⟨c, rfl, hc, hdue⟩
    · simpa using hlog
    · rcases hlog with rfl | ⟨c', rfl, hc', -⟩
      · exact Or.inr ⟨c, rfl, hc, hdue⟩
      · exact absurd hc' (hun (by simp) c' (by simp))

end Exec

/-! ## All clients -/

section Clients
variable [DecidableEq T] [∀ t, DecidableEq (Key t)]

/-- No row has pending images of two clients. -/
def Exclusive (x : Config Key Row C O G σ) : Prop :=
  ∀ i j, i ≠ j → ∀ w ∈ (x.ses i).pending, ∀ w' ∈ (x.ses j).pending,
    ¬ Store.Touches w w'.table w'.key

/-- A program ends without a transaction and as its duty allows. -/
def Ended (du : Duty Key Row) : Unit → Mode Key Row → Prop :=
  fun _ m => ∃ committed sent reads, m = .closed committed sent reads ∧ du.done committed sent

/-- The server has gone through a log of due commits, and every client is in
some mode in which the rest of its program is obedient. -/
structure Disciplined (srv₀ : Server Key Row G σ) (start : σ → ℕ) (J : Store Key Row → Prop)
    (du : σ → Duty Key Row) (w : World Key Row L ε C O G σ) (log : List (Commit Key Row σ)) :
    Prop where
  logged : Logged srv₀ w.cfg.srv log
  rows : J w.cfg.srv.db
  exclusive : Exclusive w.cfg
  clients : (log.map (fun c => c.client)).Nodup
  due : ∀ pre c post, log = pre++c::post → Due srv₀ (start c.client) (du c.client) pre c
  mode : ∀ i, ∃ m, Stays srv₀ (start i) log w.cfg.srv.db i (w.cfg.ses i) m ∧
    (w.prog i).Obeys J (du i) (Ended (du i)) m

/-- Clients that are idle and whose programs are obedient. -/
theorem disciplined_idle (start : σ → ℕ) (J : Store Key Row → Prop) (du : σ → Duty Key Row)
    (w : World Key Row L ε C O G σ) (hJ : J w.cfg.srv.db)
    (hidle : ∀ i, (w.cfg.ses i).levels = [] ∧ (w.cfg.ses i).sent = [])
    (h : ∀ i, (w.prog i).Obeys J (du i) (Ended (du i)) (.closed false false [])) :
    Disciplined w.cfg.srv start J du w [] where
  logged := ⟨by simp, rfl⟩
  rows := hJ
  exclusive i j _ v hv := by simp [Session.pending, (hidle i).1] at hv
  clients := List.nodup_nil
  due := by simp
  mode i := ⟨.closed false false [], ⟨(hidle i).1, by simp [(hidle i).2], by simp, by simp⟩, h i⟩

variable [DecidableEq σ] (be : Backend ε C G) (srv₀ : Server Key Row G σ)

section Step
variable {x : Config Key Row C O G σ} {i : σ} {a : Action Key Row L ε C O β}
variable (fail : Bool) (hx : Exclusive x) (hu : x.Unlocked i a)
include hx hu

theorem exec_exclusive : Exclusive (x.exec be i fail a).2 := by
  have hother : ∀ j, j ≠ i → ∀ w ∈ ((x.exec be i fail a).2.ses i).pending,
      ∀ w' ∈ (x.ses j).pending, ¬ Store.Touches w w'.table w'.key := by
    intro j hj w hw w' hw'
    simp only [Config.exec, Function.update_self] at hw
    rcases exec_pending be i fail a x.srv (x.ses i) w hw with hw | hw
    · exact hx i j (Ne.symm hj) w hw w' hw'
    · exact hu j hj w hw w' hw'
  have hsame : ∀ j, j ≠ i → (x.exec be i fail a).2.ses j = x.ses j :=
    fun j hj => Function.update_of_ne hj _ _
  intro j k hjk w hw w' hw' htouch
  by_cases hj : j = i
  · subst hj
    exact hother k (Ne.symm hjk) w hw w' (hsame k (Ne.symm hjk) ▸ hw') htouch
  · by_cases hk : k = i
    · subst hk
      exact hother j hj w' hw' w (hsame j hj ▸ hw) (Eq.symm htouch)
    · exact hx j k hjk w (hsame j hj ▸ hw) w' (hsame k hk ▸ hw') htouch

/-- The row of a pending image stays as it is while others act. -/
theorem exec_locked (j : σ) (hj : j ≠ i) (w : Write Key Row) (hw : w ∈ (x.ses j).pending) :
    (x.exec be i fail a).2.srv.db.row w.table w.key = x.srv.db.row w.table w.key := by
  obtain ⟨ws, he, hws⟩ := exec_replay be i fail a x.srv (x.ses i)
  change (a.exec be i fail x.srv (x.ses i)).2.1.db.row _ _ = _
  rw [he]
  refine Store.replay_untouched _ _ _ _ fun w' hw' => ?_
  rcases hws w' hw' with hp | hp
  · exact hx i j (Ne.symm hj) w' hp w hw
  · exact hu j hj w' hp w hw

end Step

variable (start : σ → ℕ) (J : Store Key Row → Prop) (du : σ → Duty Key Row)
variable (permit : Admit Key Row L ε C O G σ)
variable (hpermit : ∀ x i fail β (a : Action Key Row L ε C O β), permit x i fail β a →
  x.Unlocked i a ∧ (¬ (du i).fallible → fail = false) ∧ start i ≤ x.srv.wal.length)
include hpermit

/-- Whichever client takes an action, all of them stay disciplined. -/
theorem step_disciplined (w : World Key Row L ε C O G σ) (log : List (Commit Key Row σ))
    (h : Disciplined srv₀ start J du w log) (i : σ) (fail : Bool) (a : Action Key Row L ε C O β)
    (k : β → Prog Key Row L ε C O Unit) (hp : w.prog i = .act a k)
    (hadm : permit w.cfg i fail β a) : ∃ cs,
      Effect be srv₀ (start i) (du i) log i fail w.cfg.srv (w.cfg.ses i)
        (w.cfg.exec be i fail a).2.srv ((w.cfg.exec be i fail a).2.ses i) a cs ∧
      (∀ j, j ≠ i → (w.cfg.exec be i fail a).2.ses j = w.cfg.ses j) ∧
      Disciplined srv₀ start J du ⟨(w.cfg.exec be i fail a).2,
        Function.update w.prog i (k (w.cfg.exec be i fail a).1)⟩ (log++cs) := by
  obtain ⟨hu, hfail, hstart⟩ := hpermit _ _ _ _ a hadm
  obtain ⟨m, hst, hob⟩ := h.mode i
  rw [hp] at hob
  obtain ⟨m', cs, hk, heff, hJ, hun, hst'⟩ :=
    exec_obeys be srv₀ (start i) J (du i) log i fail a _ m hob
    w.cfg.srv (w.cfg.ses i) h.logged h.rows hst hstart hfail
  have hself : (w.cfg.exec be i fail a).2.ses i = (a.exec be i fail w.cfg.srv (w.cfg.ses i)).2.2 :=
    Function.update_self _ _ _
  have hsame : ∀ j, j ≠ i → (w.cfg.exec be i fail a).2.ses j = w.cfg.ses j :=
    fun j hj => Function.update_of_ne hj _ _
  refine ⟨cs, by rw [hself]; exact heff, hsame, ?_⟩
  have hcs := effect_commits be srv₀ heff h.logged
  have hclient : ∀ c ∈ cs, c.client = i := by
    rcases hcs with rfl | ⟨c, rfl, hc, -⟩ <;> simp [*]
  refine ⟨effect_logged be srv₀ heff h.logged, hJ,
    exec_exclusive be fail h.exclusive hu, ?_, ?_, ?_⟩
  · rcases hcs with rfl | ⟨c, rfl, hc, -⟩
    · simpa using h.clients
    · have := hun (by simp)
      rw [List.map_append, List.nodup_append]
      refine ⟨h.clients, by simp, ?_⟩
      simpa [hc] using this
  · intro pre c post he
    rcases hcs with rfl | ⟨c', rfl, hc, hdue⟩
    · exact h.due pre c post (by simpa using he)
    · rcases List.eq_nil_or_concat post with rfl | ⟨post, c₂, rfl⟩
      · obtain ⟨rfl, hcc⟩ := List.append_inj' he rfl
        cases hcc
        rw [hc]
        exact hdue
      · rw [List.concat_eq_append, ← List.cons_append, ← List.append_assoc] at he
        exact h.due pre c post (List.append_inj' he rfl).1
  · intro j
    by_cases hj : j = i
    · subst hj
      exact ⟨m', by rw [hself]; exact hst', by simp only [Function.update_self]; exact hk⟩
    · obtain ⟨mj, hstj, hobj⟩ := h.mode j
      refine ⟨mj, ?_, by simpa [hj] using hobj⟩
      rw [hsame j hj]
      exact stays_other srv₀ (start j) log cs _ _ j _ mj hstj
        (fun c hc => (hclient c hc).trans_ne (Ne.symm hj)) (exec_locked be fail h.exclusive hu j hj)

/-- Along every run the clients stay disciplined, and whatever the effects of
their actions preserve holds in the end. -/
theorem run_disciplined (I : World Key Row L ε C O G σ → List (Commit Key Row σ) → Prop)
    (hI : ∀ w w' log, Disciplined srv₀ start J du w log → I w log → ∀ (β : Type)
      (a : Action Key Row L ε C O β) (i : σ) (fail : Bool) (cs : List (Commit Key Row σ)),
      permit w.cfg i fail β a →
      Effect be srv₀ (start i) (du i) log i fail w.cfg.srv (w.cfg.ses i) w'.cfg.srv
      (w'.cfg.ses i) a cs →
      (∀ j, j ≠ i → w'.cfg.ses j = w.cfg.ses j) → I w' (log++cs))
    (w w' : World Key Row L ε C O G σ) (log : List (Commit Key Row σ))
    (h : Disciplined srv₀ start J du w log) (hw : I w log) (hr : Run be permit w w') :
    ∃ log', Disciplined srv₀ start J du w' log' ∧ I w' log' := by
  induction hr with
  | refl => exact ⟨log, h, hw⟩
  | tail _ hs ih =>
    obtain ⟨log', hd, hi⟩ := ih
    obtain ⟨i, fail, a, k, hp, hadm⟩ := hs
    obtain ⟨cs, heff, hsame, hd'⟩ :=
      step_disciplined be srv₀ start J du permit hpermit _ log' hd i fail a k hp hadm
    exact ⟨log'++cs, hd', hI _ _ log' hd hi _ a i fail cs hadm heff hsame⟩

end Clients
end Relational
