import Mathlib.Tactic.Choose
import ToolDialogue.Proofs.Policies
import ToolDialogue.Proofs.Simulation

/-! Tools carried over to a monad that can do more. What a strategy does with them there is what it
does with the tools themselves, carried over as a whole. -/
namespace ToolDialogue

variable {m n : Type → Type} [MonadLiftT m n]

/-- The same tools in the other monad. -/
def Toolbox.lift (box : Toolbox m) : Toolbox n :=
  box.withBodies fun tool => tool.lift.run

theorem Toolbox.names_lift (box : Toolbox m) : (box.lift : Toolbox n).names = box.names := by
  simp [names, lift, withBodies, Tool.withBody, Tool.name, Function.comp_def]

def ReadyCall.lift (ready : ReadyCall m) : ReadyCall n :=
  ⟨ready.tool.lift, ready.args⟩

/-- Does what a computation that may fail does, in the other monad. -/
def raise {α : Type} (x : ExceptT CallError m α) : ExceptT CallError n α :=
  ExceptT.mk (monadLift x.run)

section raised

variable [Monad m] {α β γ δ : Type} {R : α → β → Prop} {x : ExceptT CallError m α}
  {y : ExceptT CallError n β}

/-- Both computations come from one in the monad below, which gives what both of them give. -/
def Raised (R : α → β → Prop) (x : ExceptT CallError m α) (y : ExceptT CallError n β) : Prop :=
  ∃ z : ExceptT CallError m {p : α × β // R p.1 p.2},
    x = (·.1.1) <$> z ∧ y = raise ((·.1.2) <$> z)

variable [LawfulMonad m]

theorem raised_self (x : ExceptT CallError m α) :
    Raised Eq x (raise x : ExceptT CallError n α) :=
  ⟨(fun a => ⟨(a, a), rfl⟩) <$> x, by simp, by simp⟩

/-- If what is below determines what is above, it does so for all of the computation. -/
theorem Raised.eq_map (h : Raised R x y) {f : α → β} (hf : ∀ a b, R a b → b = f a) :
    y = raise (f <$> x) := by
  obtain ⟨z, rfl, rfl⟩ := h
  rw [← comp_map]
  exact congrArg (fun g => raise (g <$> z)) (funext fun p => hf p.1.1 p.1.2 p.2)

theorem map_throw (f : α → β) (e : CallError) :
    f <$> (throw e : ExceptT CallError m α) = throw e :=
  ExceptT.ext (by simp)

end raised

section lawful

variable [Monad m] [Monad n] [LawfulMonadLiftT m n] {α β γ δ : Type}

theorem raise_pure (a : α) :
    raise (pure a : ExceptT CallError m α) = (pure a : ExceptT CallError n α) :=
  monadLift_pure (m := m) (n := n) (Except.ok a)

theorem raise_throw (e : CallError) :
    raise (throw e : ExceptT CallError m α) = (throw e : ExceptT CallError n α) :=
  monadLift_pure (m := m) (n := n) (Except.error e)

theorem raise_bind (x : ExceptT CallError m α) (f : α → ExceptT CallError m β) :
    raise (x >>= f) = (raise x >>= fun a => raise (f a) : ExceptT CallError n β) := by
  apply ExceptT.ext
  simp only [raise, ExceptT.run_mk, ExceptT.run_bind, monadLift_bind]
  congr 1
  funext r
  cases r with
  | ok a => rfl
  | error e => exact monadLift_pure _

theorem run_lift (ready : ReadyCall m) : (ready.lift : ReadyCall n).run = raise ready.run := by
  apply ExceptT.ext
  simp only [raise, ReadyCall.run, ExceptT.run_mk, monadLift_bind]
  congr 1
  funext r
  cases r with
  | ok output => exact (monadLift_pure _).symm
  | error failure => exact (monadLift_pure _).symm

variable [LawfulMonad m] [LawfulMonad n] {R : α → β → Prop} {S : γ → δ → Prop}

theorem raise_map (f : α → β) (x : ExceptT CallError m α) :
    raise (f <$> x) = (f <$> raise x : ExceptT CallError n β) := by
  simp only [← bind_pure_comp, raise_bind, raise_pure]

theorem Raised.bind {x : ExceptT CallError m α} {y : ExceptT CallError n β}
    {f : α → ExceptT CallError m γ} {g : β → ExceptT CallError n δ} (h : Raised R x y)
    (hf : ∀ a b, R a b → Raised S (f a) (g b)) : Raised S (x >>= f) (y >>= g) := by
  obtain ⟨z, rfl, rfl⟩ := h
  -- `w` continues each result of `z` below, in a way that both sides come from
  choose w hleft hright using fun p : {p : α × β // R p.1 p.2} => hf p.1.1 p.1.2 p.2
  refine ⟨z >>= w, ?_, ?_⟩
  · rw [bind_map_left, map_bind]
    exact congrArg (z >>= ·) (funext hleft)
  · rw [raise_map, bind_map_left, map_bind, raise_bind]
    exact congrArg (raise z >>= ·) (funext hright)

def lifting : Simulation m n where
  Rel := Raised
  pure {_ _ _ a b} h := ⟨pure ⟨(a, b), h⟩, by simp, by simp [raise_pure]⟩
  throw e := ⟨throw e, (map_throw _ e).symm, by rw [map_throw, raise_throw]⟩
  bind := Raised.bind

variable (box : Toolbox m)

theorem ready_lift (call : Call) :
    (box.lift : Toolbox n).ready call = raise (ReadyCall.lift <$> box.ready call) := by
  have hruns : ∀ tool ∈ box.tools, ∀ args, (lifting (m := m) (n := n)).Rel Eq
      (ReadyCall.run ⟨tool, args⟩) (ReadyCall.run ⟨tool.withBody tool.lift.run, args⟩) :=
    fun tool _ args => run_lift (n := n) ⟨tool, args⟩ ▸ raised_self _
  have hready : Raised _ (box.ready call) ((box.lift : Toolbox n).ready call) :=
    lifting.ready hruns call
  exact hready.eq_map fun _ _ h => h.2

theorem callOnce_lift (call : Call) (log : CallLog) :
    (box.lift : Toolbox n).callOnce call log = monadLift (box.callOnce call log) := by
  rw [Toolbox.callOnce, Toolbox.callOnce, ready_lift, raise, ExceptT.run_mk, ExceptT.run_map,
    monadLift_map, bind_map_left, monadLift_bind]
  congr 1
  funext r
  cases r with
  | error e => exact (monadLift_pure _).symm
  | ok ready =>
    have hkey : (ready.lift : ReadyCall n).key = ready.key := rfl
    dsimp only [Except.map]
    rw [hkey, run_lift, raise, ExceptT.run_mk]
    cases log.find? ready.key with
    | some previous => exact (monadLift_pure _).symm
    | none =>
      dsimp only
      rw [monadLift_bind]
      congr 1
      funext r
      cases r with
      | error e => exact (monadLift_pure _).symm
      | ok result => exact (monadLift_pure _).symm

theorem tryCalls_lift (halts : CallOutcome → Bool) (calls : List Call) (log : CallLog) :
    (box.lift : Toolbox n).tryCalls halts calls log = monadLift (box.tryCalls halts calls log) := by
  induction calls generalizing log with
  | nil => exact (monadLift_pure _).symm
  | cons call rest ih =>
    rw [Toolbox.tryCalls, Toolbox.tryCalls, callOnce_lift, monadLift_bind]
    congr 1
    funext out
    obtain ⟨outcome, log⟩ := out
    cases hhalts : halts outcome <;> simp [hhalts, ih]

theorem Policy.process_lift (policy : Policy) (conversation : Conversation) (response : Response)
    (log : CallLog) : policy.strategy.process (box.lift : Toolbox n) conversation response log =
      monadLift (policy.strategy.process box conversation response log) := by
  rw [process_eq, process_eq, tries, tries, tryCalls_lift, Toolbox.names_lift, monadLift_map]

end lawful

end ToolDialogue
