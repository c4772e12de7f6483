import ToolDialogue.Proofs.Attempt
import ToolDialogue.Proofs.Course
import ToolDialogue.Strategy.TurnByTurn

/-! What the turn-by-turn strategy makes of a response: the calls that succeed up to the first that
does not, and the turn that follows from them. -/
namespace ToolDialogue

variable {σ : Type}

def Performed.entry (p : Performed) : Entry :=
  ⟨p.key, p.result⟩

/-- The ways in which a list of calls goes. -/
inductive MakesCalls (box : Toolbox (StateM σ)) :
    List Call → CallLog → σ → List Performed → Stop → CallLog → σ → Prop
  | done (log : CallLog) (s : σ) : MakesCalls box [] log s [] .none log s
  | ran {call : Call} {rest : List Call} {log log₁ log' : CallLog} {s s₁ s' : σ}
      {key result : String} {performed : List Performed} {stop : Stop}
      (hstep : CallStep box call log s (.ran key result) log₁ s₁)
      (hrest : MakesCalls box rest log₁ s₁ performed stop log' s') :
      MakesCalls box (call :: rest) log s (⟨call, key, result⟩ :: performed) stop log' s'
  | known {call : Call} {rest : List Call} {log log' : CallLog} {s s' : σ} {key previous : String}
      (hstep : CallStep box call log s (.known key previous) log' s') :
      MakesCalls box (call :: rest) log s [] (.repeated key previous) log' s'
  | failed {call : Call} {rest : List Call} {log log' : CallLog} {s s' : σ} {error : CallError}
      (hstep : CallStep box call log s (.failed error) log' s') :
      MakesCalls box (call :: rest) log s [] (.failed call error) log' s'

section calls

variable {box : Toolbox (StateM σ)} {calls : List Call} {log log' : CallLog} {s s' : σ}
  {performed : List Performed} {stop : Stop}

theorem MakesCalls.run_eq (h : MakesCalls box calls log s performed stop log' s') :
    StateT.run (runCalls box calls log) s = ((performed, stop, log'), s') := by
  induction h with
  | done => rfl
  | ran hstep _ ih =>
    rw [runCalls, run_bind_of_run hstep.run_eq]
    dsimp only
    rw [run_bind_of_run ih]
    rfl
  | known hstep =>
    rw [runCalls, run_bind_of_run hstep.run_eq]
    rfl
  | failed hstep =>
    rw [runCalls, run_bind_of_run hstep.run_eq]
    rfl

theorem exists_makesCalls (box : Toolbox (StateM σ)) (calls : List Call) (log : CallLog) (s : σ) :
    ∃ performed stop log' s', MakesCalls box calls log s performed stop log' s' := by
  induction calls generalizing log s with
  | nil => exact ⟨_, _, _, _, .done log s⟩
  | cons call rest ih =>
    obtain ⟨outcome, log₁, s₁, hstep⟩ := exists_callStep box call log s
    cases outcome with
    | ran key result =>
      obtain ⟨_, _, _, _, hrest⟩ := ih log₁ s₁
      exact ⟨_, _, _, _, .ran hstep hrest⟩
    | known key previous => exact ⟨_, _, _, _, .known hstep⟩
    | failed error => exact ⟨_, _, _, _, .failed hstep⟩

theorem entries_of_makesCalls (h : MakesCalls box calls log s performed stop log' s') :
    log'.entries = log.entries ++ performed.map Performed.entry := by
  induction h with
  | done => exact (List.append_nil _).symm
  | ran hstep _ ih =>
    rw [ih, entries_of_callStep hstep, List.append_assoc]
    rfl
  | known hstep => exact entries_of_callStep hstep
  | failed hstep => exact entries_of_callStep hstep

theorem find?_of_repeated {key previous : String}
    (h : MakesCalls box calls log s performed (.repeated key previous) log' s') :
    log'.find? key = some previous := by
  generalize hstop : Stop.repeated key previous = stop at h
  induction h with
  | done => contradiction
  | ran _ _ ih => exact ih hstop
  | known hstep =>
    cases hstop
    rw [log_of_entry?_eq_none hstep rfl]
    exact (known_of_callStep hstep).1
  | failed => contradiction

end calls

namespace TurnByTurn

theorem next_turn_eq_restart_iff (nudging : Bool) (conversation : Conversation)
    (response : Response) (names : List String) (performed : List Performed) (stop : Stop)
    (log : CallLog) :
    (turn nudging conversation response names performed stop log).next = .restart ↔
      ∃ key previous, stop = .repeated key previous := by
  cases stop with
  | none => simp [turn]
  | repeated key previous => simp [turn]
  | failed call error => simp [turn]

/-- The turns that a response can lead to. -/
inductive Processes (nudging : Bool) (box : Toolbox (StateM σ)) (conversation : Conversation)
    (response : Response) (log : CallLog) (s : σ) : Turn → CallLog → σ → Prop
  | finish (hcalls : response.calls = []) :
      Processes nudging box conversation response log s
        ⟨.finish, [.assistant response.text], []⟩ log s
  | called {performed : List Performed} {stop : Stop} {log' : CallLog} {s' : σ}
      (hcalls : response.calls ≠ [])
      (hmade : MakesCalls box response.calls log s performed stop log' s') :
      Processes nudging box conversation response log s
        (turn nudging conversation response box.names performed stop log') log' s'

variable {nudging : Bool} {box : Toolbox (StateM σ)} {conversation : Conversation}
  {response : Response} {log log' : CallLog} {s s' : σ} {turn : Turn}

theorem Processes.run_eq (h : Processes nudging box conversation response log s turn log' s') :
    StateT.run ((Strategy.turnByTurn nudging).process box conversation response log) s =
      ((.ok turn, log'), s') := by
  have hprocess : StateT.run (process nudging box conversation response log) s =
      ((turn, log'), s') := by
    cases h with
    | finish hcalls =>
      rw [process, if_pos (by rw [hcalls]; rfl)]
      rfl
    | called hcalls hmade =>
      rw [process, if_neg (by simpa using hcalls), run_bind_of_run hmade.run_eq]
      rfl
  rw [Strategy.turnByTurn, run_bind_of_run hprocess]
  rfl

/-- The strategy always makes a turn, and in exactly one of these ways. -/
theorem run_process_iff {made : Except CallError Turn} :
    StateT.run ((Strategy.turnByTurn nudging).process box conversation response log) s =
      ((made, log'), s') ↔
    ∃ turn, made = .ok turn ∧ Processes nudging box conversation response log s turn log' s' := by
  constructor
  · intro h
    obtain ⟨turn, log₁, s₁, hturn⟩ : ∃ turn log₁ s₁,
        Processes nudging box conversation response log s turn log₁ s₁ := by
      by_cases hcalls : response.calls = []
      · exact ⟨_, _, _, .finish hcalls⟩
      · obtain ⟨_, _, _, _, hmade⟩ := exists_makesCalls box response.calls log s
        exact ⟨_, _, _, .called hcalls hmade⟩
    have heq : ((.ok turn, log₁), s₁) = ((made, log'), s') := hturn.run_eq.symm.trans h
    cases heq
    exact ⟨turn, rfl, hturn⟩
  · rintro ⟨turn, rfl, hturn⟩
    exact hturn.run_eq

end TurnByTurn

def Runner.turnByTurn (provider : Provider (StateM σ)) (box : Toolbox (StateM σ)) (nudging : Bool)
    (limits : Limits) : Runner (StateM σ) :=
  ⟨provider, box, .turnByTurn nudging, limits⟩

namespace TurnByTurn

inductive RoundOf (r : Runner (StateM σ)) (nudging : Bool) : Round → Prop
  | overdue {p : Progress} {delay limit : Nat}
      (hpassed : r.limits.passed? (p.elapsedMs + delay) = some limit) :
      RoundOf r nudging ⟨p, delay, .overdue limit⟩
  | refused (p : Progress) (delay : Nat) (error : RunError) :
      RoundOf r nudging ⟨p, delay, .refused error⟩
  | finish {p : Progress} {delay : Nat} {response : Response} (hcalls : response.calls = []) :
      RoundOf r nudging
        ⟨p, delay, .answered response ⟨.finish, [.assistant response.text], []⟩ p.log⟩
  | called {p : Progress} {delay : Nat} {response : Response} {performed : List Performed}
      {stop : Stop} {log : CallLog} {s s' : σ} (hcalls : response.calls ≠ [])
      (hmade : MakesCalls r.toolbox response.calls p.log s performed stop log s') :
      RoundOf r nudging ⟨p, delay, .answered response
        (turn nudging p.conversation response r.toolbox.names performed stop log) log⟩

theorem roundOf_of_takes {provider : Provider (StateM σ)} {box : Toolbox (StateM σ)}
    {nudging : Bool} {limits : Limits} {round : Round} {s s' : σ}
    (h : (Runner.turnByTurn provider box nudging limits).Takes s round s') :
    RoundOf (.turnByTurn provider box nudging limits) nudging round := by
  cases h with
  | overdue _ hpassed => exact .overdue hpassed
  | refused => exact .refused _ _ _
  | stopped _ hprocess =>
    obtain ⟨_, herror, -⟩ := run_process_iff.1 hprocess
    contradiction
  | answered _ hprocess _ =>
    obtain ⟨turn, hturn, hmade⟩ := run_process_iff.1 hprocess
    cases hturn
    cases hmade with
    | finish hcalls => exact .finish hcalls
    | called hcalls hmade => exact .called hcalls hmade

end TurnByTurn

end ToolDialogue
