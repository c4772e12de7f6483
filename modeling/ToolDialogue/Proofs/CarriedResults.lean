import Mathlib.Data.List.Induction
import ToolDialogue.Proofs.RunRecord
import ToolDialogue.Proofs.ThreadResults

/-! The results that a turn-by-turn run states at a restart: those that it obtained since the last
restart, and no earlier ones. -/
namespace ToolDialogue

def Entry.line (e : Entry) : String :=
  s!"- {e.key} = {e.result}\n"

theorem CallLog.lines_eq (log : CallLog) : log.lines = String.join (log.entries.map Entry.line) :=
  rfl

/-- The entries that the log gains in a round. -/
def Round.gained (round : Round) : List Entry :=
  match round.event with
  | .answered _ _ log => log.entries.drop round.progress.log.entries.length
  | _ => []

/-- What is left of the entries before a round, and those it gains, once it is done. -/
def Round.carry (before : List Entry) (round : Round) : List Entry :=
  if round.restarts then [] else before ++ round.gained

/-- What these rounds gained since the last restart among them. -/
def carried (rounds : List Round) : List Entry :=
  rounds.foldl Round.carry []

section carried

variable {rounds : List Round} {round : Round}

theorem carried_concat (rounds : List Round) (round : Round) :
    carried (rounds ++ [round]) = round.carry (carried rounds) := by
  simp [carried]

theorem carried_suffix (rounds : List Round) : carried rounds <:+ rounds.flatMap Round.gained := by
  induction rounds using List.reverseRecOn with
  | nil => exact List.suffix_refl []
  | append_singleton rounds round ih =>
    rw [carried_concat, List.flatMap_append, List.flatMap_singleton, Round.carry]
    split
    · exact List.nil_suffix
    · obtain ⟨dropped, hdropped⟩ := ih
      exact ⟨dropped, by rw [← List.append_assoc, hdropped]⟩

theorem carried_of_no_restart (h : ∀ round ∈ rounds, round.restarts = false) :
    carried rounds = rounds.flatMap Round.gained := by
  induction rounds using List.reverseRecOn with
  | nil => rfl
  | append_singleton rounds round ih =>
    obtain ⟨hrounds, hround⟩ := List.forall_mem_append.1 h
    rw [carried_concat, List.flatMap_append, List.flatMap_singleton, Round.carry,
      List.forall_mem_singleton.1 hround, ih hrounds]
    rfl

end carried

namespace TurnByTurn

variable {σ : Type} {r : Runner (StateM σ)} {nudging : Bool} {round : Round}
  {box : Toolbox (StateM σ)} {p : Progress} {delay : Nat} {response : Response} {turn : Turn}
  {performed : List Performed} {stop : Stop} {log : CallLog} {s s' : σ} {before : List Entry}

theorem gained_of_makesCalls (h : MakesCalls box response.calls p.log s performed stop log s')
    (delay : Nat) (turn : Turn) :
    Round.gained ⟨p, delay, .answered response turn log⟩ = performed.map Performed.entry := by
  simp [Round.gained, entries_of_makesCalls h]

theorem gained_of_round (h : RoundOf r nudging ⟨p, delay, .answered response turn log⟩) (s : σ) :
    ∃ performed stop s₁ s₂,
      StateT.run (runCalls r.toolbox response.calls p.log) s₁ = ((performed, stop, log), s₂) ∧
      Round.gained ⟨p, delay, .answered response turn log⟩ = performed.map Performed.entry := by
  cases h with
  | finish hcalls =>
    refine ⟨[], .none, s, s, ?_, List.drop_length⟩
    rw [hcalls]
    rfl
  | called hcalls hmade => exact ⟨_, _, _, _, hmade.run_eq, gained_of_makesCalls hmade ..⟩

theorem entries_of_round (h : RoundOf r nudging round)
    (hlog : round.progress.log.entries = before) {q : Progress} (hnext : round.result = .next q) :
    q.log.entries = round.carry before := by
  cases h with
  | overdue => contradiction
  | refused =>
    cases hnext
    exact hlog.trans (List.append_nil before).symm
  | finish => contradiction
  | @called p delay response performed stop log s s' hcalls hmade =>
    have hgained := gained_of_makesCalls hmade delay (TurnByTurn.turn nudging p.conversation
      response r.toolbox.names performed stop log)
    have hentries := entries_of_makesCalls hmade
    cases stop with
    | none =>
      cases hnext
      rw [Round.carry, hgained, ← hlog]
      exact hentries
    | repeated key previous =>
      cases hnext
      rfl
    | failed call error =>
      cases hnext
      rw [Round.carry, hgained, ← hlog]
      exact hentries

theorem exists_restated (conversation : Conversation) (log : CallLog) (key : String) :
    ∃ request, restated conversation log key = restatement request log key :=
  ⟨_, rfl⟩

theorem messages_of_restart (h : RoundOf r nudging round)
    (hlog : round.progress.log.entries = before) (hrestart : round.restarts = true) :
    ∃ response turn log key previous request, round.event = .answered response turn log ∧
      turn.messages = [reminder key previous, .user (requestHeading ++ request ++ resultsHeading ++
        String.join ((before ++ round.gained).map Entry.line) ++ warning key)] := by
  cases h with
  | overdue => contradiction
  | refused => contradiction
  | finish => contradiction
  | @called p delay response performed stop log s s' hcalls hmade =>
    have hnext := of_decide_eq_true hrestart
    obtain ⟨key, previous, rfl⟩ := (next_turn_eq_restart_iff ..).1 hnext
    have hentries := entries_of_makesCalls hmade
    obtain ⟨request, hrequest⟩ := exists_restated p.conversation log key
    refine ⟨_, _, _, key, previous, request, rfl, ?_⟩
    rw [gained_of_makesCalls hmade, ← hlog, ← hentries, ← CallLog.lines_eq, ← restatement,
      ← hrequest]
    rfl

/-- Every restart of a turn-by-turn run states, line by line, the results of the calls that
succeeded since the restart before it. These are the latest results of the run, and all of them if
it is the first restart. -/
theorem restarts_state_results (provider : Provider (StateM σ)) (box : Toolbox (StateM σ))
    (nudging : Bool) (limits : Limits) (conversation : Conversation) (s : σ) :
    ∃ rounds out s',
      StateT.run ((Runner.turnByTurn provider box nudging limits).run conversation) s = (out, s') ∧
      Course (.turnByTurn provider box nudging limits) limits.maxTurns (.start conversation) s
        rounds out s' ∧
      ∀ before round later, rounds = before ++ round :: later →
        (∀ response turn log, round.event = .answered response turn log →
          ∃ performed stop s₁ s₂,
            StateT.run (runCalls box response.calls round.progress.log) s₁ =
              ((performed, stop, log), s₂) ∧
            round.gained = performed.map Performed.entry) ∧
        (round.restarts = true →
          ∃ response turn log key previous request, round.event = .answered response turn log ∧
            turn.messages = [reminder key previous, .user (requestHeading ++ request ++
              resultsHeading ++ String.join ((carried before ++ round.gained).map Entry.line) ++
              warning key)]) ∧
        carried before <:+ before.flatMap Round.gained ∧
        ((∀ earlier ∈ before, earlier.restarts = false) →
          carried before = before.flatMap Round.gained) := by
  obtain ⟨rounds, out, s', hcourse⟩ := exists_course
    (.turnByTurn provider box nudging limits) limits.maxTurns (.start conversation) s
  have hpreserves : (Runner.turnByTurn provider box nudging limits).Preserves fun rounds p =>
      p.log.entries = carried rounds := by
    intro rounds round s s' p h htakes hnext
    rw [carried_concat]
    exact entries_of_round (roundOf_of_takes htakes) h hnext
  refine ⟨rounds, out, s', hcourse.run_eq, hcourse, ?_⟩
  intro before round later hsplit
  obtain ⟨hlog, s₁, s₂, htakes⟩ := hcourse.holds_before hpreserves rfl hsplit
  have hround := roundOf_of_takes htakes
  refine ⟨?_, messages_of_restart hround hlog, carried_suffix before, carried_of_no_restart⟩
  intro response turn log hevent
  obtain ⟨p, delay, event⟩ := round
  cases hevent
  exact gained_of_round hround s₁

end TurnByTurn

namespace Counter

def tock : Tool (StateM Nat) :=
  { tick with signature := .named "tock" "" }

def clock : Toolbox (StateM Nat) :=
  .ofList [tick, tock]

def twice (name : String) : Response :=
  ⟨"", [⟨name, []⟩, ⟨name, []⟩]⟩

/-- Asks twice for a tick in one response, twice for a tock in the next, and then is done. -/
def repetitive : Provider (StateM Nat) where
  name := "repetitive"
  wait := pure 0
  send _ _ := return .ok <|
    match ← get with
    | 0 => twice "tick"
    | 1 => twice "tock"
    | _ => ⟨"Done.", []⟩
  notice _ _ := pure ()

/-- The second restart no longer states the result of the tick, which ran before the first. -/
theorem restart_without_tick : ∃ out s' record restated,
    StateT.run (((Policy.turnByTurn true).recordedRunner repetitive clock .standard).run
      (Conversation.empty.append [.user "Count."])) (0, .empty) = (out, (s', record)) ∧
      record.noticed = [(⟨"tick", []⟩, "1"), (⟨"tock", []⟩, "2")] ∧
      record.sent.getLast?.map Sent.messages =
        some [TurnByTurn.reminder "tock()" "2", .user restated] ∧
      ¬ "- tick() = 1".toList <:+: restated.toList :=
  ⟨_, _, _, TurnByTurn.requestHeading ++ "Count." ++ TurnByTurn.resultsHeading ++
    "- tock() = 2\n" ++ TurnByTurn.warning "tock()", rfl, by decide +kernel, by decide +kernel,
    by decide +kernel⟩

end Counter

end ToolDialogue
