import Jetski.Duties
import Jetski.Settings
import Jetski.Relational.Updates

/-!
# Handlers one after another

What a handler leaves when it runs alone on a server that the API has brought
about. Its rows stay labelled, so that a later handler finds its identifiers
fresh, and a list of handlers can be executed one after another.
-/

set_option autoImplicit false

namespace Jetski.Serial

open Relational Schema Jetski.Types Database Ownership Reachability

variable {σ : Type}

/-- A server that the API has brought about, without open transactions. -/
structure Settled (srv : Srv σ) : Prop where
  labelled : Labelled labelling (⟨srv, fun _ => {}⟩ : Conf σ)
  sound : Sound schema srv.db

theorem labelled_closed (x : Conf σ) (h : Labelled labelling x) :
    Labelled labelling (⟨x.srv, fun _ => {}⟩ : Conf σ) := by
  refine labelled_fewer labelling x _ rfl (fun t k v hv => ?_) h
  rcases hv with hv | ⟨j, hv⟩
  · exact Or.inl hv
  · simp [Session.pending] at hv

/-- The server after handlers that run one after another in the given order. -/
def serially (handler : σ → Api Unit) (order : List σ) (srv : Srv σ) : Srv σ :=
  order.foldl (fun srv i => ((handler i).run backend i (fun _ => false) srv {}).2.1) srv

theorem serially_append (handler : σ → Api Unit) (order rest : List σ) (srv : Srv σ) :
    serially handler (order++rest) srv = serially handler rest (serially handler order srv) :=
  List.foldl_append

theorem serially_snoc (handler : σ → Api Unit) (order : List σ) (i : σ) (srv : Srv σ) :
    serially handler (order++[i]) srv =
      ((handler i).run backend i (fun _ => false) (serially handler order srv) {}).2.1 := by
  rw [serially_append]
  rfl

variable [DecidableEq σ]

theorem reaches_settled (env : Env) (w : ApiWorld σ) (h : Reaches env w) : Settled w.cfg.srv := by
  obtain ⟨hl, hs⟩ := reaches_labelled env w h
  exact ⟨labelled_closed w.cfg hl, hs⟩

/-- The rows stay labelled while a client runs alone. -/
theorem labelled_alone (env : Env) (T : Table → Prop) (p : Api Unit)
    (hp : Built env T (fun _ => True) p) (i : σ)
    (fails : StepName Stmt → Bool) (srv : Srv σ)
    (h : Labelled labelling (⟨srv, fun _ => {}⟩ : Conf σ)) :
    Labelled labelling (⟨(p.run backend i fails srv {}).2.1, fun _ => {}⟩ : Conf σ) := by
  have hrun := alone_run backend (fun _ _ _ _ _ => True) i fails (fun _ _ _ _ => trivial) p
    (⟨⟨srv, fun _ => {}⟩, Function.update (fun _ => .ret ()) i p⟩ : ApiWorld σ)
    (by simp)
  have hbuilt : ∀ j, Built env T (fun _ => True)
      (Function.update (fun _ => .ret () : σ → Api Unit) i p j) := by
    intro j
    by_cases hj : j = i
    · subst hj
      rw [Function.update_self]
      exact hp
    · rw [Function.update_of_ne hj]
      exact .ret ()
  have hend := (run_safe backend _ _ _ (fun i y => Labelled labelling y ∧ True)
    (lawful_compatible labelling) (Labelled labelling) (fun _ x y hxy hx => (hxy hx).1) _ _ hrun
    (fun j => built_keeping j _ env T _ (hbuilt j) _ h) h).2
  exact labelled_closed _ hend

/-! ## Logs of updates -/

section Updates
variable {F : Type} {V : F → Type} (update : σ → Update V) (contents : Db → Fields V)
variable (handler : σ → Api Unit) (srv₀ : Srv σ) (Inv : Srv σ → Prop)

def after (i : σ) (srv : Srv σ) : Srv σ :=
  ((handler i).run backend i (fun _ => false) srv {}).2.1

omit [DecidableEq σ] in
/-- If every handler of an undisturbed log commits its update when it runs alone,
the handlers leave the contents of the log in the order of the log. -/
theorem serially_contents (log : List (Commit Key Row σ)) (h₀ : Inv srv₀)
    (hund : Undisturbed (fun c => update c.client) (fun pre => contents (srv₀.db.settle pre)) log)
    (halone : ∀ pre c post srv, log = pre++c::post → Inv srv →
      (update c.client).apply (contents srv.db) = contents (srv₀.db.settle (pre++[c])) →
      Inv (after handler c.client srv) ∧
        contents (after handler c.client srv).db = (update c.client).apply (contents srv.db) ∧
        (after handler c.client srv).wal.length = srv.wal.length+1) :
    Inv (serially handler (log.map (fun c => c.client)) srv₀) ∧
      contents (serially handler (log.map (fun c => c.client)) srv₀).db =
        contents (srv₀.db.settle log) ∧
      (serially handler (log.map (fun c => c.client)) srv₀).wal.length =
        srv₀.wal.length+log.length := by
  have hstep := undisturbed_step _ _ log hund
  have hpre : ∀ pre, pre <+: log → Inv (serially handler (pre.map (fun c => c.client)) srv₀) ∧
      contents (serially handler (pre.map (fun c => c.client)) srv₀).db =
        contents (srv₀.db.settle pre) ∧
      (serially handler (pre.map (fun c => c.client)) srv₀).wal.length =
        srv₀.wal.length+pre.length := by
    intro pre
    induction pre using List.reverseRecOn with
    | nil => exact fun _ => ⟨h₀, rfl, rfl⟩
    | append_singleton pre c ih =>
      rintro ⟨post, hlog⟩
      rw [List.append_assoc] at hlog
      obtain ⟨hinv, hcont, hlen⟩ := ih ⟨_, hlog⟩
      have hnew := hstep pre.length pre c post rfl hlog.symm
      have hsame : (update c.client).apply
          (contents (serially handler (pre.map (fun c => c.client)) srv₀).db) =
            contents (srv₀.db.settle (pre++[c])) := by
        rw [hcont]
        exact hnew.symm
      obtain ⟨hinv', hcont', hlen'⟩ := halone pre c post _ hlog.symm hinv hsame
      rw [List.map_append, List.map_singleton, serially_snoc]
      refine ⟨hinv', hcont'.trans hsame, ?_⟩
      rw [List.length_append, List.length_singleton, ← Nat.add_assoc, ← hlen]
      exact hlen'
  exact hpre log List.prefix_rfl

end Updates

end Jetski.Serial
