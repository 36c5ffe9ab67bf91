import Jetski.Relational.Store

/-!
# Database clients as programs

A client is a tree of actions: statements on a handle, transaction control,
calls to an external service and emitted outputs. A statement on the pool
commits at once. A transaction keeps its row images to itself until its commit
and reads the committed rows underneath them; savepoints stack such levels. A
failed statement aborts the transaction it runs in, up to the savepoint that is
rolled back. The names of the steps let an execution choose which of them fail.
-/

set_option autoImplicit false

namespace Relational

/-- The connection pool, or a transaction at its nesting depth from one on. -/
inductive Handle where
  | pool
  | tx (depth : ℕ)
  deriving DecidableEq, Repr

/-- What a statement gets from the server besides the rows. -/
structure Tick where
  fresh : ℕ
  start : ℕ
  now : ℕ

inductive StepName (L : Type) where
  | stmt (name : L)
  | begin
  | savepoint
  | commit
  | release
  | rollback
  | call
  | emit
  deriving DecidableEq, Repr

variable {T : Type}

inductive Action (Key Row : T → Type) (L ε C O : Type) : Type → Type 1 where
  | stmt {β : Type} (name : L) (h : Handle)
      (f : Tick → Store Key Row → Except ε (β × List (Write Key Row))) :
      Action Key Row L ε C O (Except ε β)
  | begin (h : Handle) : Action Key Row L ε C O (Option Handle)
  | commit (h : Handle) : Action Key Row L ε C O Bool
  | rollback (h : Handle) : Action Key Row L ε C O Unit
  | call (c : C) : Action Key Row L ε C O Bool
  | emit (o : O) : Action Key Row L ε C O Unit

inductive Prog (Key Row : T → Type) (L ε C O : Type) (α : Type) : Type 1 where
  | ret (a : α)
  | act {β : Type} (a : Action Key Row L ε C O β) (k : β → Prog Key Row L ε C O α)

/-- A set of row images that became visible together, with the number of
commits before the transaction of its client began. -/
structure Commit (Key Row : T → Type) (σ : Type) where
  client : σ
  since : ℕ
  images : List (Write Key Row)

/-- The committed rows, the commits in their order, the clock, the next fresh
key and the state of the external service. -/
structure Server (Key Row : T → Type) (G σ : Type) where
  db : Store Key Row
  wal : List (Commit Key Row σ) := []
  clock : ℕ := 0
  next : ℕ := 1
  ext : G

/-- One client: the open levels of its transaction with the innermost first,
the clock and the number of commits when it began, the calls it has sent and
what it has emitted. -/
structure Session (Key Row : T → Type) (C O : Type) where
  levels : List (List (Write Key Row)) := []
  aborted : Bool := false
  start : ℕ := 0
  since : ℕ := 0
  sent : List C := []
  out : List O := []

/-- How the external service reacts and what a refused statement returns. -/
structure Backend (ε C G : Type) where
  react : C → G → G
  refused : ε

section
variable {Key Row : T → Type} {L ε C O G σ α β : Type}

namespace Prog

def bind (p : Prog Key Row L ε C O α) (f : α → Prog Key Row L ε C O β) :
    Prog Key Row L ε C O β :=
  match p with
  | .ret a => f a
  | .act a k => .act a (fun b => (k b).bind f)

instance : Monad (Prog Key Row L ε C O) where
  pure := .ret
  bind := .bind

@[simp] theorem bind_ret (a : α) (f : α → Prog Key Row L ε C O β) : (ret a).bind f = f a := rfl

@[simp] theorem bind_act {γ : Type} (a : Action Key Row L ε C O γ)
    (k : γ → Prog Key Row L ε C O α) (f : α → Prog Key Row L ε C O β) :
    (act a k).bind f = act a (fun b => (k b).bind f) := rfl

@[simp] theorem pure_eq (a : α) : (pure a : Prog Key Row L ε C O α) = ret a := rfl

@[simp] theorem bind_eq (p : Prog Key Row L ε C O α) (f : α → Prog Key Row L ε C O β) :
    p >>= f = p.bind f := rfl

theorem bind_assoc {γ : Type} (p : Prog Key Row L ε C O α) (f : α → Prog Key Row L ε C O β)
    (g : β → Prog Key Row L ε C O γ) :
    (p.bind f).bind g = p.bind (fun a => (f a).bind g) := by
  induction p with
  | ret a => rfl
  | act a k ih =>
    simp only [bind_act]
    congr 1
    funext b
    exact ih b

end Prog

def Action.lift (a : Action Key Row L ε C O α) : Prog Key Row L ε C O α := .act a .ret

def Action.name : {β : Type} → Action Key Row L ε C O β → StepName L
  | _, .stmt n _ _ => .stmt n
  | _, .begin .pool => .begin
  | _, .begin (.tx _) => .savepoint
  | _, .commit (.tx 1) => .commit
  | _, .commit _ => .release
  | _, .rollback _ => .rollback
  | _, .call _ => .call
  | _, .emit _ => .emit

namespace Session

/-- The row images that the open transaction has not committed, oldest first. -/
def pending (s : Session Key Row C O) : List (Write Key Row) := s.levels.reverse.flatten

def push (s : Session Key Row C O) (ws : List (Write Key Row)) : Session Key Row C O :=
  match s.levels with
  | [] => s
  | l::ls => { s with levels := (l++ws)::ls }

/-- `RELEASE SAVEPOINT`: the innermost level becomes part of the one around it. -/
def release (s : Session Key Row C O) : Session Key Row C O :=
  match s.levels with
  | l::l'::ls => { s with levels := (l'++l)::ls }
  | _ => s

def close (s : Session Key Row C O) : Session Key Row C O :=
  { s with levels := [], aborted := false }

theorem pending_push (s : Session Key Row C O) (ws : List (Write Key Row)) (h : s.levels ≠ []) :
    (s.push ws).pending = s.pending++ws := by
  cases hl : s.levels with
  | nil => exact absurd hl h
  | cons l ls => simp [push, pending, hl]

theorem pending_release (s : Session Key Row C O) : s.release.pending = s.pending := by
  unfold release
  split
  · next l l' ls hl => simp [pending, hl]
  · rfl

theorem push_shape (s : Session Key Row C O) (ws : List (Write Key Row)) (h : s.levels ≠ []) :
    ∃ ls, s.push ws = { s with levels := ls } ∧ ls ≠ [] := by
  obtain ⟨l, ls, hl⟩ := List.exists_cons_of_ne_nil h
  exact ⟨(l++ws)::ls, by rw [push, hl], by simp⟩

theorem release_shape (s : Session Key Row C O) (h : s.levels ≠ []) :
    ∃ ls, s.release = { s with levels := ls } ∧ ls ≠ [] := by
  unfold release
  split
  · next l l' ls hl => exact ⟨(l'++l)::ls, rfl, by simp⟩
  · exact ⟨s.levels, rfl, h⟩

@[simp] theorem pending_close (s : Session Key Row C O) : s.close.pending = [] := rfl

end Session

variable [DecidableEq T] [∀ t, DecidableEq (Key t)]

def Session.view (s : Session Key Row C O) (db : Store Key Row) : Store Key Row :=
  db.replay s.pending

/-- The handle and rows a statement works on. -/
def Session.visible (s : Session Key Row C O) (srv : Server Key Row G σ) : Handle → Store Key Row
  | .pool => srv.db
  | .tx _ => s.view srv.db

def Session.tick (s : Session Key Row C O) (srv : Server Key Row G σ) : Handle → Tick
  | .pool => ⟨srv.next, srv.clock, srv.clock⟩
  | .tx _ => ⟨srv.next, s.start, srv.clock⟩

def Server.tock (srv : Server Key Row G σ) : Server Key Row G σ :=
  { srv with clock := srv.clock+1, next := srv.next+1 }

/-- Makes row images visible; without an image nothing is committed. -/
def Server.apply (srv : Server Key Row G σ) (c : Commit Key Row σ) : Server Key Row G σ :=
  { srv with
    db := srv.db.replay c.images
    wal := if c.images.isEmpty then srv.wal else srv.wal++[c] }

/-- One action of a client. A step that is chosen to fail has no effect but the
state in which it leaves the connection. -/
def Action.exec (be : Backend ε C G) (me : σ) (fail : Bool) :
    {β : Type} → Action Key Row L ε C O β → Server Key Row G σ → Session Key Row C O →
      β × Server Key Row G σ × Session Key Row C O
  | _, .stmt _ .pool f, srv, s =>
    if fail then (.error be.refused, srv.tock, s) else
    match f (s.tick srv .pool) (s.visible srv .pool) with
    | .error e => (.error e, srv.tock, s)
    | .ok (b, ws) => (.ok b, (srv.apply ⟨me, srv.wal.length, ws⟩).tock, s)
  | _, .stmt _ (.tx d) f, srv, s =>
    if s.aborted ∨ s.levels = [] then (.error be.refused, srv.tock, s) else
    if fail then (.error be.refused, srv.tock, { s with aborted := true }) else
    match f (s.tick srv (.tx d)) (s.visible srv (.tx d)) with
    | .error e => (.error e, srv.tock, { s with aborted := true })
    | .ok (b, ws) => (.ok b, srv.tock, s.push ws)
  | _, .begin .pool, srv, s =>
    if fail ∨ s.levels ≠ [] then (none, srv.tock, s) else
    (some (.tx 1), srv.tock, { s with
      levels := [[]], aborted := false, start := srv.clock, since := srv.wal.length })
  | _, .begin (.tx d), srv, s =>
    if fail ∨ s.aborted ∨ s.levels = [] then (none, srv.tock, { s with aborted := true }) else
    (some (.tx (d+1)), srv.tock, { s with levels := []::s.levels })
  | _, .commit (.tx 1), srv, s =>
    if fail ∨ s.aborted then (false, srv.tock, s.close) else
    (true, (srv.apply ⟨me, s.since, s.pending⟩).tock, s.close)
  | _, .commit _, srv, s =>
    if fail ∨ s.aborted then (false, srv.tock, { s with aborted := true }) else
    (true, srv.tock, s.release)
  | _, .rollback (.tx 1), srv, s => ((), srv.tock, s.close)
  | _, .rollback .pool, srv, s => ((), srv.tock, s)
  | _, .rollback (.tx d), srv, s =>
    ((), srv.tock, { s with levels := s.levels.drop (s.levels.length-(d-1)), aborted := false })
  | _, .call c, srv, s =>
    if fail then (false, srv, s) else
    (true, { srv with ext := be.react c srv.ext }, { s with sent := s.sent++[c] })
  | _, .emit o, srv, s => ((), srv, { s with out := s.out++[o] })

/-- The pool, the outermost level and the levels inside of it. -/
@[elab_as_elim] theorem Handle.level_cases {motive : Handle → Prop} (pool : motive .pool)
    (outer : motive (.tx 1)) (inner : ∀ d, d ≠ 1 → motive (.tx d)) (h : Handle) : motive h := by
  cases h with
  | pool => exact pool
  | tx d =>
    by_cases hd : d = 1
    · subst hd
      exact outer
    · exact inner d hd

section Levels
variable (be : Backend ε C G) (me : σ) (fail : Bool) (srv : Server Key Row G σ)
variable (s : Session Key Row C O)

theorem exec_release (h : Handle) (hne : h ≠ .tx 1) :
    (Action.commit h : Action Key Row L ε C O Bool).exec be me fail srv s =
      if fail ∨ s.aborted then (false, srv.tock, { s with aborted := true })
      else (true, srv.tock, s.release) := by
  unfold Action.exec
  split <;> first | rfl | simp_all

theorem exec_rollback_inner (d : ℕ) (hd : d ≠ 1) :
    (Action.rollback (.tx d) : Action Key Row L ε C O Unit).exec be me fail srv s =
      ((), srv.tock, { s with
        levels := s.levels.drop (s.levels.length-(d-1)), aborted := false }) := by
  unfold Action.exec
  split <;> simp_all

end Levels

/-- A client executed alone, with the steps in `fails` failing. -/
def Prog.run (be : Backend ε C G) (me : σ) (fails : StepName L → Bool) :
    Prog Key Row L ε C O α → Server Key Row G σ → Session Key Row C O →
      α × Server Key Row G σ × Session Key Row C O
  | .ret a, srv, s => (a, srv, s)
  | .act a k, srv, s =>
    let r := a.exec be me (fails a.name) srv s
    (k r.1).run be me fails r.2.1 r.2.2

theorem Prog.run_bind (be : Backend ε C G) (me : σ) (fails : StepName L → Bool)
    (p : Prog Key Row L ε C O α) (f : α → Prog Key Row L ε C O β) (srv : Server Key Row G σ)
    (s : Session Key Row C O) : (p.bind f).run be me fails srv s =
      (f (p.run be me fails srv s).1).run be me fails (p.run be me fails srv s).2.1
        (p.run be me fails srv s).2.2 := by
  induction p generalizing srv s with
  | ret a => rfl
  | act a k ih => exact ih _ _ _

end
end Relational
