/-!
Programs that share a state with other programs. A process is a sequence of atomic steps: between two of
its steps the others may change the state. `Process.run` takes all steps of one process with nobody in
between; what holds for every interleaving is said about the steps.
-/
namespace Switchboard

/-- A program on a shared state: it has finished, or it takes a step that changes the state and chooses
how to go on by what the state was. -/
inductive Process (σ α : Type) : Type where
  | done (a : α)
  | step (next : σ → Process σ α) (effect : σ → σ)

namespace Process

variable {σ τ α β : Type}

/-- Goes on with a second program once the first has finished. -/
def bind : Process σ α → (α → Process σ β) → Process σ β
  | .done a, f => f a
  | .step next effect, f => .step (fun s => (next s).bind f) effect

instance : Monad (Process σ) where
  pure := .done
  bind := bind

/-- One atomic step. -/
def atomic (m : StateM σ α) : Process σ α :=
  .step (fun s => .done (m s).1) fun s => (m s).2

/-- All steps, with nobody in between. -/
def run : Process σ α → StateM σ α
  | .done a => fun s => (a, s)
  | .step next effect => fun s => (next s).run (effect s)

/-- A program on a part of a state. -/
def within (get : σ → τ) (set : τ → σ → σ) : Process τ α → Process σ α
  | .done a => .done a
  | .step next effect => .step (fun s => (next (get s)).within get set) fun s => set (effect (get s)) s

@[simp] theorem run_pure (a : α) (s : σ) : (pure a : Process σ α).run s = (a, s) := rfl

@[simp] theorem run_atomic (m : StateM σ α) (s : σ) : (atomic m).run s = m s := rfl

@[simp] theorem run_bind (p : Process σ α) (f : α → Process σ β) (s : σ) :
    (p >>= f).run s = (f (p.run s).1).run (p.run s).2 := by
  induction p generalizing s with
  | done a => rfl
  | step next effect ih => exact ih s (effect s)

@[simp] theorem run_discard (p : Process σ α) (s : σ) : (discard p).run s = ((), (p.run s).2) := by
  have hbind : discard p = p >>= fun _ => pure () := rfl
  rw [hbind, run_bind, run_pure]

end Process

section StateM

variable {σ α β : Type}

@[simp] theorem stateM_pure (a : α) (s : σ) : (pure a : StateM σ α) s = (a, s) := rfl

@[simp] theorem stateM_bind (m : StateM σ α) (f : α → StateM σ β) (s : σ) :
    (m >>= f) s = f (m s).1 (m s).2 := rfl

@[simp] theorem stateM_map (f : α → β) (m : StateM σ α) (s : σ) :
    (f <$> m) s = (f (m s).1, (m s).2) := rfl

@[simp] theorem stateM_get (s : σ) : (get : StateM σ σ) s = (s, s) := rfl

@[simp] theorem stateM_modify (f : σ → σ) (s : σ) : (modify f : StateM σ Unit) s = ((), f s) := rfl

end StateM

end Switchboard
