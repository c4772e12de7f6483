import Mathlib.Data.List.Basic
import ToolDialogue.Proofs.RunRecord

/-! What a run of the fill-in strategy leaves in the thread: one message, its answer, or nothing. The
first response decides it. -/
namespace ToolDialogue

variable {σ : Type}

namespace FillIn

inductive RoundOf (d : Delimiters) (box : Toolbox (StateM σ)) (limits : Limits) : Round → Prop
  | overdue {p : Progress} {delay limit : Nat}
      (hpassed : limits.passed? (p.elapsedMs + delay) = some limit) :
      RoundOf d box limits ⟨p, delay, .overdue limit⟩
  | refused (p : Progress) (delay : Nat) (error : RunError) :
      RoundOf d box limits ⟨p, delay, .refused error⟩
  | stopped {p : Progress} {delay : Nat} {response : Response} {error : CallError} {log : CallLog}
      {s s' : σ}
      (hprocess : StateT.run (process d box response p.log) s = ((.error error, log), s')) :
      RoundOf d box limits ⟨p, delay, .stopped response error⟩
  | filled {p : Progress} {delay : Nat} {response : Response} {answer : String}
      {results : List (Call × String)} {log : CallLog} {s s' : σ}
      (hprocess : StateT.run (process d box response p.log) s =
        ((.ok ⟨.finishFilled, [.assistant answer], results⟩, log), s')) :
      RoundOf d box limits
        ⟨p, delay, .answered response ⟨.finishFilled, [.assistant answer], results⟩ log⟩

/-- How a run from `start` ends when the provider has refused with `errors` so far: with which
replies, to what result, and with which conversation. A response decides the run by what filling it
in comes to. -/
inductive Ends (d : Delimiters) (box : Toolbox (StateM σ)) (limits : Limits) (start : Conversation)
    (errors : List RunError) :
    List (Except RunError Response) → Except RunError Outcome → Conversation → Prop
  | answered {response : Response} {answer : String} {results : List (Call × String)}
      {log : CallLog} {s s' : σ}
      (hprocess : StateT.run (process d box response .empty) s =
        ((.ok ⟨.finishFilled, [.assistant answer], results⟩, log), s')) :
      Ends d box limits start errors (errors.map .error ++ [.ok response])
        (.ok ⟨answer, errors.length + 1, log, 0⟩) (start.append [.assistant answer])
  | failed {response : Response} {error : CallError} {log : CallLog} {s s' : σ}
      (hprocess : StateT.run (process d box response .empty) s = ((.error error, log), s')) :
      Ends d box limits start errors (errors.map .error ++ [.ok response])
        (.error (.callFailed (.call error))) start
  | overdue {limit : Nat} (hlimit : limits.timeoutMs = some limit) :
      Ends d box limits start errors (errors.map .error) (.error (.timeout limit)) start
  | spent (lastError : Option String) (hspent : errors.length = limits.maxTurns) :
      Ends d box limits start errors (errors.map .error)
        (.error (.outOfTurns limits.maxTurns lastError)) start

section rounds

variable {d : Delimiters} {provider : Provider (StateM σ)} {box : Toolbox (StateM σ)}
  {limits : Limits} {round : Round} {s s' : σ}

theorem roundOf_of_takes (h : ((Policy.fillIn d).runner provider box limits).Takes s round s') :
    RoundOf d box limits round := by
  obtain ⟨record, -, hadds⟩ := takes_recorded h .empty
  cases h with
  | overdue _ hpassed => exact .overdue hpassed
  | refused => exact .refused _ _ _
  | stopped _ hprocess => exact .stopped hprocess
  | answered _ hprocess _ =>
    cases hadds with
    | answered _ hmade =>
      obtain ⟨answer, results, rfl⟩ := Policy.turn_of_conclude_fillIn hmade
      exact .filled hprocess

theorem timeoutMs_of_passed? {elapsedMs limit : Nat} (h : limits.passed? elapsedMs = some limit) :
    limits.timeoutMs = some limit :=
  (Option.filter_eq_some_iff.1 h).1

end rounds

/-- The state of a run from `start` that has no response after these rounds. -/
structure Unanswered (start : Conversation) (rounds : List Round) (p : Progress) : Prop where
  conversation : p.conversation = start
  log : p.log = .empty
  interventions : p.interventions = 0
  turns : p.turns = rounds.length
  replies : ∃ errors : List RunError, replies rounds = errors.map .error ∧
    errors.length = rounds.length

theorem preserves_unanswered (d : Delimiters) (provider : Provider (StateM σ))
    (box : Toolbox (StateM σ)) (limits : Limits) (start : Conversation) :
    ((Policy.fillIn d).runner provider box limits).Preserves (Unanswered start) := by
  intro rounds round s s' q h htakes hnext
  cases roundOf_of_takes htakes with
  | overdue => contradiction
  | stopped => contradiction
  | filled => contradiction
  | refused p delay error =>
    cases hnext
    obtain ⟨errors, hreplies, hlength⟩ := h.replies
    refine ⟨h.conversation, h.log, h.interventions, ?_, errors ++ [error], ?_, ?_⟩
    · rw [List.length_append, ← h.turns]
      rfl
    · rw [replies_concat rounds rfl, hreplies, List.map_append]
      rfl
    · rw [List.length_append, List.length_append, hlength]
      rfl

theorem ends_of_round {d : Delimiters} {box : Toolbox (StateM σ)} {limits : Limits}
    {start final : Conversation} {before : List Round} {round : Round}
    {result : Except RunError Outcome} (hround : RoundOf d box limits round)
    (h : Unanswered start before round.progress) (hdone : round.result = .done final result) :
    ∃ errors, Ends d box limits start errors (replies (before ++ [round])) result final := by
  obtain ⟨errors, hreplies, hlength⟩ := h.replies
  refine ⟨errors, ?_⟩
  cases hround with
  | refused => contradiction
  | @overdue p delay limit hpassed =>
    cases hdone
    have hnone : replies [⟨p, delay, .overdue limit⟩] = [] := rfl
    rw [replies_append, hnone, List.append_nil, hreplies, h.conversation]
    exact .overdue (timeoutMs_of_passed? hpassed)
  | stopped hprocess =>
    cases hdone
    rw [replies_concat before rfl, hreplies, h.conversation]
    rw [h.log] at hprocess
    exact .failed hprocess
  | @filled p _ _ _ _ _ _ _ hprocess =>
    cases hdone
    obtain ⟨_, _, _, _, _, _⟩ := p
    obtain ⟨rfl, rfl, rfl, rfl, -⟩ := h
    rw [replies_concat before rfl, hreplies, ← hlength]
    exact .answered hprocess

theorem ends_of_course {d : Delimiters} {provider : Provider (StateM σ)} {box : Toolbox (StateM σ)}
    {limits : Limits} {start final : Conversation} {s s' : σ} {rounds : List Round}
    {result : Except RunError Outcome}
    (h : Course ((Policy.fillIn d).runner provider box limits) limits.maxTurns (.start start) s rounds
      (result, final) s') :
    (∃ errors, Ends d box limits start errors (replies rounds) result final) ∧
      ∀ round ∈ rounds, round.progress.conversation = start := by
  have hpreserves := preserves_unanswered d provider box limits start
  have hstart : Unanswered start [] (.start start) := ⟨rfl, rfl, rfl, rfl, [], rfl, rfl⟩
  constructor
  · rcases h.ends hpreserves hstart with ⟨q, hq, hlength, hout⟩ | ⟨before, last, rfl, hdone⟩
    · cases hout
      obtain ⟨errors, hreplies, herrors⟩ := hq.replies
      rw [hreplies, hq.conversation, hq.turns, hlength]
      exact ⟨errors, .spent q.lastError (herrors.trans hlength)⟩
    · obtain ⟨hbefore, s₁, s₂, htakes⟩ := h.holds_before hpreserves hstart rfl
      exact ends_of_round (roundOf_of_takes htakes) hbefore hdone
  · intro round hmem
    obtain ⟨before, later, hsplit⟩ := List.append_of_mem hmem
    exact (h.holds_before hpreserves hstart hsplit).1.conversation

theorem sent_of_same {tools : List Signature} {rounds : List Round} {start : Conversation}
    (h : ∀ round ∈ rounds, round.progress.conversation = start) :
    rounds.filterMap (Round.sent? tools) =
      List.replicate (replies rounds).length ⟨start.messages, tools⟩ := by
  have hsent : ∀ round ∈ rounds, round.sent? tools =
      round.event.reply?.map fun _ => ⟨start.messages, tools⟩ := by
    intro round hmem
    rw [Round.sent?, h round hmem]
  rw [List.filterMap_congr hsent, ← List.map_filterMap, List.map_const']
  rfl

/-- A run of the fill-in strategy is all or nothing. It goes on only while the provider has errors
instead of a response. With the first response it ends, and with an answer only then; the one
message that the run adds to the thread is that answer. A run that ends in any other way, or is cut
in any of its rounds, leaves the conversation as it was, but for the preamble. -/
theorem fillIn_all_or_nothing (d : Delimiters) (provider : Provider (StateM σ))
    (box : Toolbox (StateM σ)) (limits : Limits) (conversation : Conversation) (s : σ) :
    ∃ rounds result final s' record start errors,
      RunsTo (.fillIn d) provider box limits conversation s rounds (result, final) s' record ∧
      start = { conversation with
        preamble := (instructions d box.signatures).or conversation.preamble } ∧
      Ends d box limits start errors (replies rounds) result final ∧
      record.sent = List.replicate (replies rounds).length ⟨start.messages, box.signatures⟩ ∧
      ∀ round ∈ rounds, round.progress.conversation = start := by
  obtain ⟨rounds, ⟨result, final⟩, s', record, hruns, hrecorded⟩ :=
    exists_runsTo (.fillIn d) provider box limits conversation s
  obtain ⟨⟨errors, hends⟩, hsame⟩ := ends_of_course hruns.course
  have hstart := ((Policy.fillIn d).runner provider box limits).opening_eq conversation
  have hsent := hrecorded.sent.trans (sent_of_same hsame)
  exact ⟨rounds, result, final, s', record, _, errors, hruns, hstart, hends, hsent, hsame⟩

end FillIn

end ToolDialogue
