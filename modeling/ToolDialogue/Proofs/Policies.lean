import ToolDialogue.Strategy.FillIn
import ToolDialogue.Strategy.TurnByTurn

/-! The strategies in one form. Each tries the calls that a response asks for, in order and up to
the first whose outcome halts it, and its turn follows from what became of them. -/
namespace ToolDialogue

variable {m : Type → Type} [Monad m]

/-- A call that was made against a log, with what became of it. -/
structure Tried where
  call : Call
  outcome : CallOutcome
  deriving DecidableEq, Repr

namespace Tried

def performed? (tried : Tried) : Option Performed :=
  match tried.outcome with
  | .ran key result => some ⟨tried.call, key, result⟩
  | _ => none

def success? (tried : Tried) : Option (Call × String) :=
  tried.performed?.map fun p => (p.call, p.result)

end Tried

def successes (tried : List Tried) : List (Call × String) :=
  tried.filterMap Tried.success?

@[simp] theorem successes_nil : successes [] = [] := rfl

@[simp] theorem successes_append (a b : List Tried) :
    successes (a ++ b) = successes a ++ successes b :=
  List.filterMap_append

theorem successes_cons (first : Tried) (rest : List Tried) :
    successes (first :: rest) = first.success?.toList ++ successes rest := by
  rw [successes, List.filterMap_cons]
  cases first.success? <;> rfl

namespace CallOutcome

def isRan : CallOutcome → Bool
  | ran _ _ => true
  | _ => false

def isFailed : CallOutcome → Bool
  | failed _ => true
  | _ => false

end CallOutcome

/-- Makes calls in order up to the first whose outcome halts them. -/
def Toolbox.tryCalls (box : Toolbox m) (halts : CallOutcome → Bool) :
    List Call → CallLog → m (List Tried × CallLog)
  | [], log => return ([], log)
  | call :: rest, log => do
    let (outcome, log) ← box.callOnce call log
    if halts outcome then return ([⟨call, outcome⟩], log)
    else
      let (tried, log) ← box.tryCalls halts rest log
      return (⟨call, outcome⟩ :: tried, log)

/-- Which calls have been tried: all of them, or those up to one whose outcome halts them. -/
inductive UpTo (halts : CallOutcome → Bool) : List Call → List Tried → Prop
  | done : UpTo halts [] []
  | halted {call : Call} {rest : List Call} {outcome : CallOutcome} (h : halts outcome = true) :
      UpTo halts (call :: rest) [⟨call, outcome⟩]
  | next {call : Call} {rest : List Call} {outcome : CallOutcome} {tried : List Tried}
      (h : halts outcome = false) (hrest : UpTo halts rest tried) :
      UpTo halts (call :: rest) (⟨call, outcome⟩ :: tried)

/-- What was made of the calls tried: it gives those that ran with their results, or the error of
the last one. -/
def Concludes {α : Type} (results : α → List (Call × String)) (tried : List Tried) :
    Except CallError α → Prop
  | .ok a => results a = successes tried
  | .error e => ∃ before call, tried = before ++ [⟨call, .failed e⟩]

namespace Concludes

variable {α β : Type} {results : α → List (Call × String)} {results' : β → List (Call × String)}
  {tried : List Tried} {r : Except CallError α} {f : α → β}

theorem map (h : Concludes results tried r) (hf : ∀ a, results' (f a) = results a) :
    Concludes results' tried (r.map f) := by
  cases r with
  | error e => exact h
  | ok a => exact (hf a).trans h

theorem cons (h : Concludes results tried r) (first : Tried)
    (hf : ∀ a, results' (f a) = first.success?.toList ++ results a) :
    Concludes results' (first :: tried) (r.map f) := by
  cases r with
  | error e =>
    obtain ⟨before, call, rfl⟩ := h
    exact ⟨first :: before, call, rfl⟩
  | ok a =>
    have ha : results a = successes tried := h
    exact (hf a).trans (by rw [ha, successes_cons])

end Concludes

namespace TurnByTurn

def performedIn (tried : List Tried) : List Performed :=
  tried.filterMap Tried.performed?

theorem map_performedIn (tried : List Tried) :
    (performedIn tried).map (fun p => (p.call, p.result)) = successes tried :=
  List.map_filterMap

def stopIn : List Tried → Stop
  | [] => .none
  | ⟨call, outcome⟩ :: rest =>
    match outcome with
    | .ran _ _ => stopIn rest
    | .known key previous => .repeated key previous
    | .failed error => .failed call error

theorem results_turn (nudging : Bool) (conversation : Conversation) (response : Response)
    (names : List String) (tried : List Tried) (stop : Stop) (log : CallLog) :
    (turn nudging conversation response names (performedIn tried) stop log).results =
      successes tried := by
  rw [← map_performedIn]
  cases stop <;> rfl

theorem runCalls_eq [LawfulMonad m] (box : Toolbox m) (calls : List Call) (log : CallLog) :
    runCalls box calls log = (fun (tried, log) => (performedIn tried, stopIn tried, log)) <$>
      box.tryCalls (!·.isRan) calls log := by
  induction calls generalizing log with
  | nil => simp [runCalls, Toolbox.tryCalls, performedIn, stopIn]
  | cons call rest ih =>
    rw [runCalls, Toolbox.tryCalls, map_bind]
    congr 1
    funext ⟨outcome, log⟩
    cases outcome with
    | ran key result => simp [ih, CallOutcome.isRan, performedIn, stopIn, Tried.performed?]
    | known key previous =>
      simp [CallOutcome.isRan, performedIn, stopIn, List.filterMap_cons, Tried.performed?]
    | failed error =>
      simp [CallOutcome.isRan, performedIn, stopIn, List.filterMap_cons, Tried.performed?]

end TurnByTurn

namespace FillIn

def callsIn : List Segment → List Call
  | [] => []
  | .literal _ :: rest => callsIn rest
  | .expression text :: rest =>
    match Call.read text with
    | .error _ => callsIn rest
    | .ok call => call :: callsIn rest

def filled (d : Delimiters) :
    List Segment → List Tried → Except CallError (List Char × List (Call × String))
  | [], _ => .ok ([], [])
  | .literal text :: rest, tried => (filled d rest tried).map (Prod.map (text ++ ·) id)
  | .expression text :: rest, tried =>
    match Call.read text with
    | .error _ => (filled d rest tried).map (Prod.map ((Segment.expression text).source d ++ ·) id)
    | .ok _ =>
      match tried with
      | [] => .ok ([], [])
      | ⟨call, .ran _ result⟩ :: tried =>
        (filled d rest tried).map (Prod.map (result.toList ++ ·) ((call, result) :: ·))
      | ⟨_, .known _ previous⟩ :: tried =>
        (filled d rest tried).map (Prod.map (previous.toList ++ ·) id)
      | ⟨_, .failed error⟩ :: _ => .error error

theorem fill_eq [LawfulMonad m] (d : Delimiters) (box : Toolbox m) (segments : List Segment)
    (log : CallLog) :
    fill d box segments log = (fun (tried, log) => (filled d segments tried, log)) <$>
      box.tryCalls (·.isFailed) (callsIn segments) log := by
  induction segments generalizing log with
  | nil => simp [fill, callsIn, Toolbox.tryCalls, filled]
  | cons segment rest ih =>
    cases segment with
    | literal text => simp [fill, callsIn, ih, filled]
    | expression text =>
      rw [fill, callsIn]
      cases hread : Call.read text with
      | error e => simp [ih, filled, hread]
      | ok call =>
        dsimp only
        rw [Toolbox.tryCalls, map_bind]
        congr 1
        funext ⟨outcome, log⟩
        cases outcome with
        | ran key result => simp [ih, CallOutcome.isFailed, filled, hread]
        | known key previous => simp [ih, CallOutcome.isFailed, filled, hread]
        | failed error => simp [CallOutcome.isFailed, filled, hread]

theorem concludes_filled (d : Delimiters) {segments : List Segment} {tried : List Tried}
    (h : UpTo (·.isFailed) (callsIn segments) tried) :
    Concludes Prod.snd tried (filled d segments tried) := by
  induction segments generalizing tried with
  | nil =>
    cases h
    rfl
  | cons segment rest ih =>
    cases segment with
    | literal text => exact (ih h).map fun _ => rfl
    | expression text =>
      rw [callsIn] at h
      cases hread : Call.read text with
      | error e =>
        rw [hread] at h
        unfold filled
        simp only [hread]
        exact (ih h).map fun _ => rfl
      | ok call =>
        rw [hread] at h
        cases h with
        | @halted _ _ outcome hfailed =>
          cases outcome with
          | failed e =>
            simp only [filled, hread]
            exact ⟨[], call, rfl⟩
          | _ => contradiction
        | @next _ _ outcome tried hfailed hrest =>
          cases outcome with
          | ran key result =>
            simp only [filled, hread]
            exact (ih hrest).cons _ fun _ => rfl
          | known key previous =>
            simp only [filled, hread]
            exact (ih hrest).cons _ fun _ => rfl
          | failed e => contradiction

end FillIn

inductive Policy where
  | turnByTurn (nudging : Bool)
  | fillIn (delimiters : Delimiters)

namespace Policy

def strategy : Policy → Strategy m
  | turnByTurn nudging => .turnByTurn nudging
  | fillIn d => .fillIn d

def asked : Policy → Response → List Call
  | turnByTurn _, response => response.calls
  | fillIn d, response => FillIn.callsIn (Segment.split d response.text.toList)

/-- Turn by turn, a repeated call halts as well as one that fails. -/
def halts : Policy → CallOutcome → Bool
  | turnByTurn _ => (!·.isRan)
  | fillIn _ => (·.isFailed)

def tries (policy : Policy) (box : Toolbox m) (response : Response) (log : CallLog) :
    m (List Tried × CallLog) :=
  box.tryCalls policy.halts (policy.asked response) log

/-- What a strategy makes of a response once its calls have been tried. -/
def conclude (policy : Policy) (names : List String) (conversation : Conversation)
    (response : Response) (tried : List Tried) (log : CallLog) : Except CallError Turn :=
  match policy with
  | turnByTurn nudging =>
    .ok <| if response.calls.isEmpty then ⟨.finish, [.assistant response.text], []⟩
      else TurnByTurn.turn nudging conversation response names (TurnByTurn.performedIn tried)
        (TurnByTurn.stopIn tried) log
  | fillIn d =>
    (FillIn.filled d (Segment.split d response.text.toList) tried).map fun (text, results) =>
      ⟨.finishFilled, [.assistant (String.ofList text)], results⟩

theorem turn_of_conclude_fillIn {d : Delimiters} {names : List String} {conversation : Conversation}
    {response : Response} {tried : List Tried} {log : CallLog} {turn : Turn}
    (h : (fillIn d).conclude names conversation response tried log = .ok turn) :
    ∃ answer results, turn = ⟨.finishFilled, [.assistant answer], results⟩ := by
  rw [conclude] at h
  cases hfilled : FillIn.filled d (Segment.split d response.text.toList) tried with
  | error e =>
    rw [hfilled] at h
    contradiction
  | ok filled =>
    rw [hfilled] at h
    cases h
    exact ⟨_, _, rfl⟩

/-- The turn gives the calls that ran, or the run ends with the call that failed; turn by turn there
always is a turn. -/
theorem concludes_conclude (policy : Policy) (names : List String) (conversation : Conversation)
    {response : Response} {tried : List Tried} (log : CallLog)
    (h : UpTo policy.halts (policy.asked response) tried) :
    Concludes Turn.results tried (policy.conclude names conversation response tried log) := by
  cases policy with
  | turnByTurn nudging =>
    cases hcalls : response.calls with
    | nil =>
      rw [asked, hcalls] at h
      cases h
      simp [conclude, hcalls, Concludes, successes]
    | cons call rest =>
      simp only [conclude, hcalls, List.isEmpty_cons]
      exact TurnByTurn.results_turn ..
  | fillIn d => exact (FillIn.concludes_filled d h).map fun _ => rfl

theorem process_eq [LawfulMonad m] (policy : Policy) (box : Toolbox m) (conversation : Conversation)
    (response : Response) (log : CallLog) :
    policy.strategy.process box conversation response log =
      (fun (tried, log) => (policy.conclude box.names conversation response tried log, log)) <$>
        policy.tries box response log := by
  cases policy with
  | turnByTurn nudging =>
    cases hcalls : response.calls with
    | nil =>
      simp [strategy, Strategy.turnByTurn, TurnByTurn.process, tries, asked, hcalls,
        Toolbox.tryCalls, conclude]
    | cons call rest =>
      simp [strategy, Strategy.turnByTurn, TurnByTurn.process, tries, asked, hcalls, conclude,
        TurnByTurn.runCalls_eq, halts]
  | fillIn d =>
    simp [strategy, Strategy.fillIn, FillIn.process, FillIn.fill_eq, tries, asked, halts, conclude]

end Policy

end ToolDialogue
