import ToolDialogue.Proofs.ResponseTurns

/-! What decides a turn-by-turn run without a time limit: the first response that asks for no calls
is its answer, and if there is none, all turns are used. Nothing else ends it. -/
namespace ToolDialogue

variable {σ : Type}

/-- A response came back, and it asks for no calls. -/
def AsksNothing (reply : Except RunError Response) : Prop :=
  ∃ response, reply = .ok response ∧ response.calls = []

theorem passed?_of_unlimited {limits : Limits} (h : limits.timeoutMs = none) (elapsed : Nat) :
    limits.passed? elapsed = none := by
  rw [Limits.passed?, h]
  rfl

section rounds

variable {r : Runner (StateM σ)} {nudging : Bool} {round : Round}

theorem result_of_round (hround : TurnByTurn.RoundOf r nudging round)
    (hlimits : r.limits.timeoutMs = none) :
    (∃ response, round.event.reply? = some (.ok response) ∧ response.calls = [] ∧
      round.result = .done (round.progress.conversation.append [.assistant response.text])
        (.ok ⟨response.text, round.progress.turns + 1, round.progress.log,
          round.progress.interventions⟩)) ∨
    ∃ reply p, round.event.reply? = some reply ∧ ¬ AsksNothing reply ∧ round.result = .next p ∧
      p.turns = round.progress.turns + 1 := by
  cases hround with
  | overdue hpassed =>
    rw [passed?_of_unlimited hlimits] at hpassed
    contradiction
  | refused p delay error =>
    refine .inr ⟨.error error, _, rfl, ?_, rfl, rfl⟩
    rintro ⟨response, h, -⟩
    contradiction
  | @finish p delay response hcalls => exact .inl ⟨response, rfl, hcalls, rfl⟩
  | @called p delay response performed stop log s s' hcalls hmade =>
    have hasks : ¬ AsksNothing (.ok response) := by
      rintro ⟨_, h, hnone⟩
      cases h
      exact hcalls hnone
    cases stop with
    | none => exact .inr ⟨.ok response, _, rfl, hasks, rfl, rfl⟩
    | repeated key previous => exact .inr ⟨.ok response, _, rfl, hasks, rfl, rfl⟩
    | failed call error => exact .inr ⟨.ok response, _, rfl, hasks, rfl, rfl⟩

end rounds

structure Undecided (rounds : List Round) (p : Progress) : Prop where
  turns : p.turns = rounds.length
  sent : (replies rounds).length = rounds.length
  asks : ∀ reply ∈ replies rounds, ¬ AsksNothing reply

theorem preserves_undecided {r : Runner (StateM σ)} {nudging : Bool}
    (hround : ∀ {s round s'}, r.Takes s round s' → TurnByTurn.RoundOf r nudging round)
    (hlimits : r.limits.timeoutMs = none) : r.Preserves Undecided := by
  intro rounds round s s' p h htakes hnext
  rcases result_of_round (hround htakes) hlimits with
    ⟨response, -, -, hdone⟩ | ⟨reply, q, hreply, hasks, hresult, hturns⟩
  · rw [hnext] at hdone
    contradiction
  · rw [hnext] at hresult
    cases hresult
    have hreplies := replies_concat rounds hreply
    refine ⟨?_, ?_, ?_⟩
    · rw [hturns, h.turns, List.length_append, List.length_singleton]
    · rw [hreplies, List.length_append, List.length_append, h.sent]
      rfl
    · rw [hreplies]
      exact List.forall_mem_append.2 ⟨h.asks, List.forall_mem_singleton.2 hasks⟩

/-- How the replies that came back within `maxTurns` turns decide a run. -/
structure Decides (maxTurns : Nat) (replies : List (Except RunError Response))
    (result : Except RunError Outcome) : Prop where
  within : replies.length ≤ maxTurns
  answered_iff : (∃ outcome, result = .ok outcome) ↔ ∃ reply ∈ replies, AsksNothing reply
  /-- The last reply, and none before it, is the response that asks for nothing. -/
  answered : ∀ outcome, result = .ok outcome → ∃ earlier response,
    replies = earlier ++ [.ok response] ∧ response.calls = [] ∧
    (∀ reply ∈ earlier, ¬ AsksNothing reply) ∧
    outcome.turns = replies.length ∧ outcome.answer = response.text
  exhausted : ∀ error, result = .error error → replies.length = maxTurns ∧
    ∃ lastError, error = .outOfTurns maxTurns lastError

namespace Decides

variable {maxTurns : Nat} {replies earlier : List (Except RunError Response)}

theorem of_answer {response : Response} {outcome : Outcome}
    (hwithin : earlier.length + 1 ≤ maxTurns) (hcalls : response.calls = [])
    (hearlier : ∀ reply ∈ earlier, ¬ AsksNothing reply)
    (hturns : outcome.turns = earlier.length + 1) (hanswer : outcome.answer = response.text) :
    Decides maxTurns (earlier ++ [.ok response]) (.ok outcome) := by
  have hlength : (earlier ++ [(.ok response : Except RunError Response)]).length =
      earlier.length + 1 := List.length_append
  refine ⟨hlength ▸ hwithin, ⟨fun _ => ?_, fun _ => ⟨outcome, rfl⟩⟩, ?_, ?_⟩
  · exact ⟨.ok response, by simp, response, rfl, hcalls⟩
  · rintro outcome' h
    cases h
    exact ⟨earlier, response, rfl, hcalls, hearlier, hturns.trans hlength.symm, hanswer⟩
  · intro error h
    contradiction

theorem of_none {lastError : Option String} (hlength : replies.length = maxTurns)
    (hnone : ∀ reply ∈ replies, ¬ AsksNothing reply) :
    Decides maxTurns replies (.error (.outOfTurns maxTurns lastError)) := by
  refine ⟨Nat.le_of_eq hlength, ⟨?_, ?_⟩, ?_, ?_⟩
  · rintro ⟨outcome, h⟩
    contradiction
  · rintro ⟨reply, hmem, hasks⟩
    exact absurd hasks (hnone reply hmem)
  · intro outcome h
    contradiction
  · rintro error h
    cases h
    exact ⟨hlength, lastError, rfl⟩

end Decides

/-- A turn-by-turn run without a time limit ends with the text of the first response that asks for
no calls, in the turn in which that comes back. Without such a response it uses all its turns, each
for one send. -/
theorem turnByTurn_decides (provider : Provider (StateM σ)) (box : Toolbox (StateM σ))
    (nudging : Bool) (maxTurns : Nat) (conversation : Conversation) (s : σ) :
    ∃ rounds result final s',
      StateT.run ((Runner.turnByTurn provider box nudging ⟨maxTurns, none⟩).run conversation) s =
        ((result, final), s') ∧
      Course (.turnByTurn provider box nudging ⟨maxTurns, none⟩) maxTurns (.start conversation) s
        rounds (result, final) s' ∧
      Decides maxTurns (replies rounds) result := by
  obtain ⟨rounds, ⟨result, final⟩, s', hcourse⟩ := exists_course
    (.turnByTurn provider box nudging ⟨maxTurns, none⟩) maxTurns (.start conversation) s
  refine ⟨rounds, result, final, s', hcourse.run_eq, hcourse, ?_⟩
  have hround : ∀ {s round s'},
      (Runner.turnByTurn provider box nudging ⟨maxTurns, none⟩).Takes s round s' →
        TurnByTurn.RoundOf (.turnByTurn provider box nudging ⟨maxTurns, none⟩) nudging round :=
    TurnByTurn.roundOf_of_takes
  have hpreserves := preserves_undecided hround rfl
  have hstart : Undecided [] (.start conversation) := ⟨rfl, rfl, by simp [replies]⟩
  rcases hcourse.ends hpreserves hstart with ⟨q, hq, hlength, hout⟩ | ⟨before, last, rfl, hdone⟩
  · cases hout
    rw [hq.turns, hlength]
    exact .of_none (hq.sent.trans hlength) hq.asks
  · obtain ⟨hbefore, s₁, s₂, htakes⟩ := hcourse.holds_before hpreserves hstart rfl
    rcases result_of_round (hround htakes) rfl with
      ⟨response, hreply, hcalls, hresult⟩ | ⟨_, _, _, _, hnext, _⟩
    · rw [hdone] at hresult
      cases hresult
      have hwithin := hcourse.length_le
      rw [List.length_append, ← hbefore.sent] at hwithin
      rw [replies_concat before hreply]
      exact .of_answer hwithin hcalls hbefore.asks (by rw [hbefore.sent, ← hbefore.turns]) rfl
    · rw [hdone] at hnext
      contradiction

end ToolDialogue
