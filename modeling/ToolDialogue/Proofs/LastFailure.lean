import ToolDialogue.Proofs.Restatement

/-! The failure that a run tells of once its turns are used up. It is that of the last turn: a later
turn that goes on makes the run forget what failed before it. -/
namespace ToolDialogue

variable {σ : Type}

namespace Round

/-- The provider has no response, or the strategy asks again because of a call that failed or was
repeated. -/
inductive Failed : Round → Prop
  | refused (p : Progress) (delay : Nat) (error : RunError) : Failed ⟨p, delay, .refused error⟩
  | retried {p : Progress} {delay : Nat} {response : Response} {turn : Turn} {log : CallLog}
      (h : turn.next = .retry) : Failed ⟨p, delay, .answered response turn log⟩
  | restarted {p : Progress} {delay : Nat} {response : Response} {turn : Turn} {log : CallLog}
      (h : turn.next = .restart) : Failed ⟨p, delay, .answered response turn log⟩

def report? (round : Round) : Option String :=
  match round.event with
  | .refused error => some error.message
  | .answered _ turn _ =>
    match turn.next with
    | .retry => turn.messages.getLast?.map Message.content
    | .restart => some "repeated an identical call"
    | _ => none
  | _ => none

variable {round : Round}

theorem report?_eq_none (h : ¬ round.Failed) : round.report? = none := by
  obtain ⟨p, delay, event⟩ := round
  cases event with
  | overdue limit => rfl
  | refused error => exact absurd (.refused p delay error) h
  | stopped response error => rfl
  | answered response turn log =>
    unfold report?
    dsimp only
    split
    · rename_i hretry
      exact absurd (.retried hretry) h
    · rename_i hrestart
      exact absurd (.restarted hrestart) h
    · rfl

theorem report_of_next {p : Progress} (h : round.result = .next p) :
    p.turns = round.progress.turns + 1 ∧ p.lastError = round.report? := by
  obtain ⟨q, delay, event⟩ := round
  cases event with
  | overdue limit => contradiction
  | refused error =>
    cases h
    exact ⟨rfl, rfl⟩
  | stopped response error => contradiction
  | answered response turn log =>
    simp only [result, Progress.after] at h
    simp only [report?]
    cases hnext : turn.next with
    | finish | finishFilled =>
      rw [hnext] at h
      contradiction
    | proceed | retry | restart =>
      rw [hnext] at h
      cases h
      exact ⟨rfl, rfl⟩

theorem result_ne_outOfTurns (round : Round) (conversation : Conversation) (turns : Nat)
    (lastError : Option String) :
    round.result ≠ .done conversation (.error (.outOfTurns turns lastError)) := by
  obtain ⟨p, delay, event⟩ := round
  intro h
  cases event with
  | overdue limit => cases h
  | refused error => cases h
  | stopped response error => cases h
  | answered response turn log =>
    simp only [result, Progress.after] at h
    split at h <;> cases h

end Round

structure Reports (rounds : List Round) (p : Progress) : Prop where
  turns : p.turns = rounds.length
  lastError : p.lastError = rounds.getLast?.bind Round.report?

theorem preserves_reports (r : Runner (StateM σ)) : r.Preserves Reports := by
  intro rounds round s s' p h _ hnext
  obtain ⟨hturns, hlast⟩ := Round.report_of_next hnext
  constructor
  · rw [hturns, h.turns, List.length_append, List.length_singleton]
  · rw [hlast, List.getLast?_concat, Option.bind_some]

/-- The latest failure is told, and no failure only if there was none. -/
structure TellsLatest (rounds : List Round) (lastError : Option String) : Prop where
  none_failed : lastError = none → ∀ round ∈ rounds, ¬ round.Failed
  latest : ∀ before round later, rounds = before ++ round :: later → round.Failed →
    (∀ next ∈ later, ¬ next.Failed) → lastError = round.report?

theorem tellsLatest_iff {rounds : List Round} :
    TellsLatest rounds (rounds.getLast?.bind Round.report?) ↔
      (∀ round ∈ rounds, ¬ round.Failed) ∨
        ∃ before last, rounds = before ++ [last] ∧ last.Failed ∧ last.report? ≠ none := by
  rcases List.eq_nil_or_concat rounds with rfl | ⟨before, last, rfl⟩
  · constructor
    · intro _
      exact .inl (by simp)
    · intro _
      exact ⟨by simp, by simp⟩
  rw [List.concat_eq_append, List.getLast?_concat, Option.bind_some]
  constructor
  · intro h
    by_cases hreport : last.report? = none
    · exact .inl (h.none_failed hreport)
    · refine .inr ⟨before, last, rfl, ?_, hreport⟩
      by_contra hfailed
      exact hreport (Round.report?_eq_none hfailed)
  · rintro (hnone | ⟨before', last', hsplit, hfailed, hreport⟩)
    · refine ⟨fun _ => hnone, fun front round later hrounds hround _ => ?_⟩
      exact absurd hround (hnone round (by simp [hrounds]))
    · obtain ⟨rfl, hlast⟩ := List.append_inj' hsplit rfl
      cases hlast
      refine ⟨fun hno => absurd hno hreport, fun front round later hrounds _ hlater => ?_⟩
      -- nothing follows the latest failure, since the last turn would be among what does
      rcases append_cons_eq_concat_iff.1 hrounds.symm with ⟨rfl, rfl, rfl⟩ | ⟨rest, rfl, -⟩
      · rfl
      · exact absurd hfailed (hlater last (by simp))

theorem Course.reports {r : Runner (StateM σ)} {left turns : Nat} {p : Progress} {s s' : σ}
    {rounds : List Round} {lastError : Option String} {final : Conversation}
    (h : Course r left p s rounds (.error (.outOfTurns turns lastError), final) s')
    (hstart : Reports [] p) :
    turns = left ∧ rounds.length = left ∧ lastError = rounds.getLast?.bind Round.report? := by
  rcases h.ends (preserves_reports r) hstart with ⟨q, hq, hlength, hout⟩ | ⟨before, last, -, hdone⟩
  · cases hout
    exact ⟨hq.turns.trans hlength, hlength, hq.lastError⟩
  · exact absurd hdone (last.result_ne_outOfTurns _ _ _)

/-- A run that uses up its turns tells what its last turn reports. So it tells the latest failure
exactly if the last turn failed and left a report, or no turn failed; with a turn behind it that
went on, a failure is not told. -/
theorem exhausted_tells_last_turn (r : Runner (StateM σ)) (conversation : Conversation) (s : σ) :
    ∃ rounds result final s',
      StateT.run (r.run conversation) s = ((result, final), s') ∧
      Course r r.limits.maxTurns (.start (r.opening conversation)) s rounds (result, final) s' ∧
      ∀ turns lastError, result = .error (.outOfTurns turns lastError) →
        turns = r.limits.maxTurns ∧ rounds.length = r.limits.maxTurns ∧
        lastError = rounds.getLast?.bind Round.report? ∧
        (TellsLatest rounds lastError ↔ (∀ round ∈ rounds, ¬ round.Failed) ∨
          ∃ before last, rounds = before ++ [last] ∧ last.Failed ∧ last.report? ≠ none) := by
  obtain ⟨rounds, ⟨result, final⟩, s', hcourse⟩ :=
    exists_course r r.limits.maxTurns (.start (r.opening conversation)) s
  refine ⟨rounds, result, final, s', hcourse.run_eq, hcourse, ?_⟩
  rintro turns lastError rfl
  obtain ⟨hturns, hlength, rfl⟩ := hcourse.reports ⟨rfl, rfl⟩
  exact ⟨hturns, hlength, rfl, tellsLatest_iff⟩

namespace TurnByTurn

theorem report?_ne_none {r : Runner (StateM σ)} {nudging : Bool} {round : Round}
    (hround : RoundOf r nudging round) (h : round.Failed) : round.report? ≠ none := by
  cases hround with
  | overdue => cases h
  | refused p delay error => simp [Round.report?]
  | finish => cases h <;> contradiction
  | @called p delay response performed stop log s s' hcalls hmade =>
    cases stop with
    | none => cases h <;> contradiction
    | repeated key previous => simp [Round.report?, turn]
    | failed call error => simp [Round.report?, turn]

/-- Turn by turn, the latest failure is told unless a turn that went on came behind it. -/
theorem tells_latest_iff {provider : Provider (StateM σ)} {box : Toolbox (StateM σ)}
    {nudging : Bool} {limits : Limits} {left turns : Nat} {p : Progress} {s s' : σ}
    {rounds : List Round} {lastError : Option String} {final : Conversation}
    (h : Course (.turnByTurn provider box nudging limits) left p s rounds
      (.error (.outOfTurns turns lastError), final) s') (hstart : Reports [] p) :
    TellsLatest rounds lastError ↔ (∀ round ∈ rounds, ¬ round.Failed) ∨
      ∃ before last, rounds = before ++ [last] ∧ last.Failed := by
  obtain ⟨-, -, rfl⟩ := h.reports hstart
  rw [tellsLatest_iff]
  refine or_congr_right (exists_congr fun before => exists_congr fun last => ?_)
  constructor
  · rintro ⟨hsplit, hfailed, -⟩
    exact ⟨hsplit, hfailed⟩
  · rintro ⟨hsplit, hfailed⟩
    obtain ⟨-, s₁, s₂, htakes⟩ := h.holds_before (preserves_reports _) hstart hsplit
    exact ⟨hsplit, hfailed, report?_ne_none (roundOf_of_takes htakes) hfailed⟩

end TurnByTurn

namespace Counter

def busyFirst : Provider (StateM Nat) where
  name := "busy first"
  wait := pure 0
  send _ _ := fun n =>
    pure (if n = 0 then (.error (.provider "busy" true), 1) else (.ok response, n))
  notice _ _ := pure ()

def faltering : Runner (StateM Nat) :=
  .turnByTurn busyFirst box true ⟨2, none⟩

def busyRound : Round :=
  ⟨opening, 0, .refused (.provider "busy" true)⟩

def retrying : Progress :=
  { opening with turns := 1, lastError := some "Provider error: busy" }

/-- The first of two turns failed, but the run tells of no failure. -/
theorem busy_untold : ∃ final,
    StateT.run (faltering.run opening.conversation) 0 = ((.error (.outOfTurns 2 none), final), 2) ∧
      Course faltering 2 opening 0 [busyRound, tickRound retrying 1]
        (.error (.outOfTurns 2 none), final) 2 ∧
      busyRound.Failed ∧ busyRound.report? = some "Provider error: busy" ∧
      ¬ TellsLatest [busyRound, tickRound retrying 1] none := by
  have hbusy : faltering.Takes 0 busyRound 1 := .refused ⟨0, rfl, rfl, rfl⟩
  have htick : faltering.Takes 1 (tickRound retrying 1) 2 :=
    .answered ⟨1, rfl, rfl, rfl⟩ (processes_tick retrying.conversation 1).run_eq rfl
  have hcourse : Course faltering 2 opening 0 [busyRound, tickRound retrying 1]
      (.error (.outOfTurns 2 none), (afterTick retrying 1).conversation) 2 :=
    .next hbusy rfl (.next htick rfl (.spent _ _))
  have hfailed : busyRound.Failed := .refused _ _ _
  refine ⟨_, hcourse.run_eq, hcourse, hfailed, rfl, fun htells => ?_⟩
  exact htells.none_failed rfl busyRound (by simp) hfailed

end Counter

end ToolDialogue
