import Jetski.Relational.Chronicle
import Jetski.Relational.Vetted

/-!
# What clients recall

The rows are divided into parts, and the name of a statement tells which parts it
reads. A client keeps what it has read last of every part, and calls the external
service because of that. Unless another client has committed an image in a part
since then, the client still sees of it what it has read.
-/

set_option autoImplicit false

namespace Relational

variable {T : Type} {Key Row : T → Type} {L ε C O G σ ι α β : Type}

/-- The rows that a part consists of, and the statements that read it. -/
structure Parts (Key : T → Type) (L ι : Type) where
  holds : ι → (t : T) → Key t → Bool
  reads : L → ι → Bool

/-- The rows at the end of the last statement that has read a part. -/
abbrev Memory (Key Row : T → Type) (ι : Type) := ι → Option (Store Key Row)

namespace Parts
variable (pt : Parts Key L ι) (p : ι)

def touched (ws : List (Write Key Row)) : Bool := ws.any (fun w => pt.holds p w.table w.key)

def after (name : L) (db : Store Key Row) (m : Memory Key Row ι) : Memory Key Row ι :=
  fun p => if pt.reads name p then some db else m p

variable [DecidableEq T] [∀ t, DecidableEq (Key t)]

end Parts

/-! ## Programs -/

section Programs
variable [DecidableEq T] [∀ t, DecidableEq (Key t)]
variable (pt : Parts Key L ι) (P : (t : T) → Key t → Row t → Prop)
variable (justified : Memory Key Row ι → C → Prop)

/-- A statement leaves alone the parts that are recalled, unless it reads them. A
client that has undone images, or may have, recalls nothing. -/
def Action.Recalls : {β : Type} → Action Key Row L ε C O β → (β → Memory Key Row ι → Prop) →
    Memory Key Row ι → Prop
  | _, .stmt name _ f, K, m => (∀ e, K (.error e) m) ∧ ∀ t db, VettedRows P db → ∀ b ws,
    f t db = .ok (b, ws) → VettedImages P ws ∧
      (∀ p, pt.reads name p = false → (m p).isSome → pt.touched p ws = false) ∧
      K (.ok b) (pt.after name (db.replay ws) m)
  | _, .begin _, K, m => ∀ tx, K tx m
  | _, .commit _, K, m => K true m ∧ K false (fun _ => none)
  | _, .rollback _, K, _ => K () (fun _ => none)
  | _, .call c, K, m => justified m c ∧ ∀ ok, K ok m
  | _, .emit _, K, m => K () m

def Prog.Recalls : Prog Key Row L ε C O α → (α → Memory Key Row ι → Prop) → Memory Key Row ι → Prop
  | .ret a, Q, m => Q a m
  | .act a k, Q, m => a.Recalls pt P justified (fun b m => (k b).Recalls Q m) m

variable (Q Q' : α → Memory Key Row ι → Prop)

end Programs

/-! ## Steps -/

section Steps
variable (pt : Parts Key L ι)

/-- The parts that an action has read. -/
def Action.learns : {β : Type} → Action Key Row L ε C O β → β → ι → Bool
  | _, .stmt name _ _, .ok _, p => pt.reads name p
  | _, _, _, _ => false

variable (m : Memory Key Row ι) (stale : ι → Bool)

variable [DecidableEq T] [∀ t, DecidableEq (Key t)]

variable (P : (t : T) → Key t → Row t → Prop) (justified : Memory Key Row ι → C → Prop)
variable (be : Backend ε C G) (me : σ) (fail : Bool) (srv : Server Key Row G σ)
variable (s : Session Key Row C O)

end Steps
end Relational
