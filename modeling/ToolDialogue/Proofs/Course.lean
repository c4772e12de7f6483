import ToolDialogue.Evaluation
import ToolDialogue.Run.Runner

/-! Runs round by round. A round is a turn with all that happened in it, and the course of a run is
the list of its rounds. What every round preserves holds at each round of every run. -/
namespace ToolDialogue

variable {σ α β : Type}

theorem run_bind_of_run {x : StateM σ α} {f : α → StateM σ β} {s s' : σ} {a : α}
    (h : StateT.run x s = (a, s')) : StateT.run (x >>= f) s = StateT.run (f a) s' := by
  have hx : StateT.run x s = pure (a, s') := h
  rw [StateT.run_bind, hx, pure_bind]

/-- What happens in a turn. -/
inductive Event where
  /-- The time is up, so nothing is sent. -/
  | overdue (limitMs : Nat)
  /-- The provider has no response. -/
  | refused (error : RunError)
  /-- The strategy ends the run. -/
  | stopped (response : Response) (error : CallError)
  /-- The strategy makes a turn of the response; the log comes to be `log`. -/
  | answered (response : Response) (turn : Turn) (log : CallLog)
  deriving DecidableEq, Repr

def Event.reply? : Event → Option (Except RunError Response)
  | overdue _ => none
  | refused error => some (.error error)
  | stopped response _ => some (.ok response)
  | answered response _ _ => some (.ok response)

/-- A turn with the state of the run before it. -/
structure Round where
  progress : Progress
  delayMs : Nat
  event : Event
  deriving DecidableEq, Repr

namespace Round

def begun (round : Round) : Progress :=
  { round.progress with
    turns := round.progress.turns + 1
    elapsedMs := round.progress.elapsedMs + round.delayMs }

def result (round : Round) : TurnEnd :=
  match round.event with
  | .overdue limit => .done round.progress.conversation (.error (.timeout limit))
  | .refused error => .next { round.begun with lastError := some error.message }
  | .stopped _ error => .done round.progress.conversation (.error (.callFailed (.call error)))
  | .answered _ turn log => round.begun.after turn log

end Round

def replies (rounds : List Round) : List (Except RunError Response) :=
  rounds.filterMap fun round => round.event.reply?

theorem replies_append (before later : List Round) :
    replies (before ++ later) = replies before ++ replies later :=
  List.filterMap_append

theorem replies_concat (rounds : List Round) {round : Round} {reply : Except RunError Response}
    (h : round.event.reply? = some reply) :
    replies (rounds ++ [round]) = replies rounds ++ [reply] := by
  rw [replies_append]
  simp [replies, h]

/-- A run goes on after a turn that asks again, with the messages of the turn behind its own, or
after one that restarts, with those alone. -/
theorem Progress.next_of_after {p q : Progress} {turn : Turn} {log : CallLog}
    (h : p.after turn log = .next q) : q.elapsedMs = p.elapsedMs ∧
      ((turn.next = .proceed ∨ turn.next = .retry) ∧
          q.conversation = p.conversation.append turn.messages ∨
        turn.next = .restart ∧ q.conversation = p.conversation.restart.append turn.messages) := by
  unfold Progress.after at h
  cases hnext : turn.next with
  | finish | finishFilled =>
    rw [hnext] at h
    contradiction
  | proceed =>
    rw [hnext] at h
    cases h
    exact ⟨rfl, .inl ⟨.inl rfl, rfl⟩⟩
  | retry =>
    rw [hnext] at h
    cases h
    exact ⟨rfl, .inl ⟨.inr rfl, rfl⟩⟩
  | restart =>
    rw [hnext] at h
    cases h
    exact ⟨rfl, .inr ⟨rfl, rfl⟩⟩

theorem Progress.conversation_of_after {p q : Progress} {turn : Turn} {log : CallLog}
    (h : p.after turn log = .next q) (hgoes : turn.next ≠ .restart) :
    q.conversation = p.conversation.append turn.messages := by
  rcases (Progress.next_of_after h).2 with ⟨-, hconversation⟩ | ⟨hrestart, -⟩
  · exact hconversation
  · exact absurd hrestart hgoes

theorem Runner.opening_eq (r : Runner (StateM σ)) (conversation : Conversation) :
    r.opening conversation = { conversation with
      preamble := (r.strategy.preamble r.toolbox.signatures).or conversation.preamble } := by
  unfold Runner.opening
  cases r.strategy.preamble r.toolbox.signatures <;> rfl

def Runner.Sends (r : Runner (StateM σ)) (p : Progress) (delay : Nat) (s : σ)
    (reply : Except RunError Response) (s' : σ) : Prop :=
  ∃ s₁, StateT.run r.provider.wait s = (delay, s₁) ∧
    r.limits.passed? (p.elapsedMs + delay) = none ∧
    StateT.run (r.provider.send p.conversation.messages r.toolbox.signatures) s₁ = (reply, s')

/-- The ways in which a turn can go from `s`. -/
inductive Runner.Takes (r : Runner (StateM σ)) (s : σ) : Round → σ → Prop
  | overdue {p : Progress} {delay limit : Nat} {s' : σ}
      (hwait : StateT.run r.provider.wait s = (delay, s'))
      (hpassed : r.limits.passed? (p.elapsedMs + delay) = some limit) :
      r.Takes s ⟨p, delay, .overdue limit⟩ s'
  | refused {p : Progress} {delay : Nat} {error : RunError} {s' : σ}
      (hsend : r.Sends p delay s (.error error) s') : r.Takes s ⟨p, delay, .refused error⟩ s'
  | stopped {p : Progress} {delay : Nat} {response : Response} {error : CallError} {log : CallLog}
      {s₁ s' : σ} (hsend : r.Sends p delay s (.ok response) s₁)
      (hprocess : StateT.run (r.strategy.process r.toolbox p.conversation response p.log) s₁ =
        ((.error error, log), s')) :
      r.Takes s ⟨p, delay, .stopped response error⟩ s'
  | answered {p : Progress} {delay : Nat} {response : Response} {turn : Turn} {log : CallLog}
      {s₁ s₂ s' : σ} (hsend : r.Sends p delay s (.ok response) s₁)
      (hprocess : StateT.run (r.strategy.process r.toolbox p.conversation response p.log) s₁ =
        ((.ok turn, log), s₂))
      (hnotice : StateT.run (turn.results.forM fun result =>
        r.provider.notice result.1 result.2) s₂ = ((), s')) :
      r.Takes s ⟨p, delay, .answered response turn log⟩ s'

namespace Runner

variable {r : Runner (StateM σ)} {p : Progress} {delay : Nat} {s s₁ s' s'' : σ}

theorem run_turn_of_error {error : RunError} (h : r.Sends p delay s (.error error) s') :
    StateT.run (r.turn p) s = (Round.result ⟨p, delay, .refused error⟩, s') := by
  obtain ⟨s₁, hwait, hpassed, hsend⟩ := h
  rw [Runner.turn, run_bind_of_run hwait]
  dsimp only
  rw [hpassed]
  dsimp only
  rw [run_bind_of_run hsend]
  rfl

theorem run_turn_of_response {response : Response} (h : r.Sends p delay s (.ok response) s₁) :
    StateT.run (r.turn p) s =
      StateT.run (r.answered { p with turns := p.turns + 1, elapsedMs := p.elapsedMs + delay }
        response) s₁ := by
  obtain ⟨s₁, hwait, hpassed, hsend⟩ := h
  rw [Runner.turn, run_bind_of_run hwait]
  dsimp only
  rw [hpassed]
  dsimp only
  rw [run_bind_of_run hsend]

theorem Takes.run_eq {round : Round} (h : r.Takes s round s') :
    StateT.run (r.turn round.progress) s = (round.result, s') := by
  cases h with
  | overdue hwait hpassed =>
    rw [Runner.turn, run_bind_of_run hwait]
    dsimp only
    rw [hpassed]
    rfl
  | refused hsend => exact run_turn_of_error hsend
  | stopped hsend hprocess =>
    rw [run_turn_of_response hsend, Runner.answered, run_bind_of_run hprocess]
    rfl
  | answered hsend hprocess hnotice =>
    rw [run_turn_of_response hsend, Runner.answered, run_bind_of_run hprocess]
    dsimp only
    rw [run_bind_of_run hnotice]
    rfl

theorem exists_takes (r : Runner (StateM σ)) (p : Progress) (s : σ) :
    ∃ round s', round.progress = p ∧ r.Takes s round s' := by
  cases hwait : StateT.run r.provider.wait s with | mk delay s₁ =>
  cases hpassed : r.limits.passed? (p.elapsedMs + delay) with
  | some limit => exact ⟨_, _, rfl, .overdue hwait hpassed⟩
  | none =>
    cases hsend : StateT.run (r.provider.send p.conversation.messages r.toolbox.signatures) s₁ with
    | mk reply s₂ =>
    have hsends : r.Sends p delay s reply s₂ := ⟨s₁, hwait, hpassed, hsend⟩
    cases reply with
    | error e => exact ⟨_, _, rfl, .refused hsends⟩
    | ok response =>
      cases hprocess : StateT.run (r.strategy.process r.toolbox p.conversation response p.log) s₂
        with | mk made s₃ =>
      obtain ⟨made, log⟩ := made
      cases made with
      | error e => exact ⟨_, _, rfl, .stopped hsends hprocess⟩
      | ok turn => exact ⟨_, _, rfl, .answered hsends hprocess rfl⟩

theorem Takes.unique {round round' : Round} (h : r.Takes s round s') (h' : r.Takes s round' s'')
    (hp : round.progress = round'.progress) : round = round' ∧ s' = s'' := by
  cases h <;> cases h' <;> cases hp <;> grind [Runner.Sends]

end Runner

/-- Up to `left` turns from `p` on, with their rounds and what they come to. -/
inductive Course (r : Runner (StateM σ)) : Nat → Progress → σ → List Round →
    Except RunError Outcome × Conversation → σ → Prop
  | spent (p : Progress) (s : σ) :
      Course r 0 p s [] (.error (.outOfTurns p.turns p.lastError), p.conversation) s
  | done {left : Nat} {s s' : σ} {round : Round} {conversation : Conversation}
      {result : Except RunError Outcome} (htakes : r.Takes s round s')
      (hdone : round.result = .done conversation result) :
      Course r (left + 1) round.progress s [round] (result, conversation) s'
  | next {left : Nat} {s s₁ s' : σ} {round : Round} {p : Progress} {rounds : List Round}
      {out : Except RunError Outcome × Conversation} (htakes : r.Takes s round s₁)
      (hnext : round.result = .next p) (hrest : Course r left p s₁ rounds out s') :
      Course r (left + 1) round.progress s (round :: rounds) out s'

namespace Course

variable {r : Runner (StateM σ)} {left : Nat} {p : Progress} {s s' : σ} {rounds : List Round}
  {out : Except RunError Outcome × Conversation}

theorem run_eq (h : Course r left p s rounds out s') :
    StateT.run (r.turns left p) s = (out, s') := by
  induction h with
  | spent p s => rfl
  | done htakes hdone =>
    have hrun := htakes.run_eq
    rw [hdone] at hrun
    rw [Runner.turns, run_bind_of_run hrun]
    rfl
  | next htakes hnext _ ih =>
    have hrun := htakes.run_eq
    rw [hnext] at hrun
    rw [Runner.turns, run_bind_of_run hrun]
    exact ih

theorem length_le (h : Course r left p s rounds out s') : rounds.length ≤ left := by
  induction h with
  | spent => exact Nat.le_refl 0
  | done => exact Nat.succ_le_succ (Nat.zero_le _)
  | next _ _ _ ih => exact Nat.succ_le_succ ih

end Course

theorem exists_course (r : Runner (StateM σ)) (left : Nat) (p : Progress) (s : σ) :
    ∃ rounds out s', Course r left p s rounds out s' := by
  induction left generalizing p s with
  | zero => exact ⟨_, _, _, .spent p s⟩
  | succ left ih =>
    obtain ⟨round, s₁, rfl, htakes⟩ := r.exists_takes p s
    cases hresult : round.result with
    | next p =>
      obtain ⟨rounds, out, s', hrest⟩ := ih p s₁
      exact ⟨_, _, _, .next htakes hresult hrest⟩
    | done conversation result => exact ⟨_, _, _, .done htakes hresult⟩

theorem Course.unique {r : Runner (StateM σ)} {left : Nat} {p : Progress} {s s' s'' : σ}
    {rounds rounds' : List Round} {out out' : Except RunError Outcome × Conversation}
    (h : Course r left p s rounds out s') (h' : Course r left p s rounds' out' s'') :
    rounds = rounds' ∧ out = out' ∧ s' = s'' := by
  induction h generalizing rounds' with
  | spent =>
    cases h'
    exact ⟨rfl, rfl, rfl⟩
  | done htakes hdone =>
    -- both courses start where the round `done` starts, which the cases on `h'` must not lose
    generalize hp : Round.progress _ = p at h'
    cases h' with
    | done htakes' hdone' =>
      obtain ⟨rfl, rfl⟩ := htakes.unique htakes' hp
      rw [hdone] at hdone'
      cases hdone'
      exact ⟨rfl, rfl, rfl⟩
    | next htakes' hnext' _ =>
      obtain ⟨rfl, rfl⟩ := htakes.unique htakes' hp
      rw [hdone] at hnext'
      contradiction
  | next htakes hnext _ ih =>
    generalize hp : Round.progress _ = p at h'
    cases h' with
    | done htakes' hdone' =>
      obtain ⟨rfl, rfl⟩ := htakes.unique htakes' hp
      rw [hnext] at hdone'
      contradiction
    | next htakes' hnext' hrest' =>
      obtain ⟨rfl, rfl⟩ := htakes.unique htakes' hp
      rw [hnext] at hnext'
      cases hnext'
      obtain ⟨rfl, rfl, rfl⟩ := ih hrest'
      exact ⟨rfl, rfl, rfl⟩

theorem run_turns_iff {r : Runner (StateM σ)} {left : Nat} {p : Progress} {s s' : σ}
    {out : Except RunError Outcome × Conversation} :
    StateT.run (r.turns left p) s = (out, s') ↔ ∃ rounds, Course r left p s rounds out s' := by
  constructor
  · intro h
    obtain ⟨rounds, out₁, s₁, hcourse⟩ := exists_course r left p s
    have heq : (out₁, s₁) = (out, s') := hcourse.run_eq.symm.trans h
    cases heq
    exact ⟨rounds, hcourse⟩
  · rintro ⟨rounds, hcourse⟩
    exact hcourse.run_eq

/-- `I`, told of a run after some rounds, survives one round more. -/
def Runner.Preserves (r : Runner (StateM σ)) (I : List Round → Progress → Prop) : Prop :=
  ∀ ⦃rounds round s s' p⦄, I rounds round.progress → r.Takes s round s' → round.result = .next p →
    I (rounds ++ [round]) p

namespace Course

variable {r : Runner (StateM σ)} {I : List Round → Progress → Prop} {left : Nat} {p : Progress}
  {s s' : σ} {rounds : List Round} {out : Except RunError Outcome × Conversation}

theorem holds_before (hI : r.Preserves I) (h : Course r left p s rounds out s') (hstart : I [] p)
    {before later : List Round} {round : Round} (hsplit : rounds = before ++ round :: later) :
    I before round.progress ∧ ∃ s₁ s₂, r.Takes s₁ round s₂ := by
  -- the rounds already seen grow as the course is walked
  suffices hseen : ∀ {seen}, I seen p →
      I (seen ++ before) round.progress ∧ ∃ s₁ s₂, r.Takes s₁ round s₂ from hseen hstart
  clear hstart
  intro seen hseen
  induction h generalizing seen before with
  | spent => simp at hsplit
  | done htakes hdone =>
    cases before with
    | nil =>
      obtain ⟨rfl, -⟩ := List.cons.inj hsplit
      rw [List.append_nil]
      exact ⟨hseen, _, _, htakes⟩
    | cons => simp at hsplit
  | next htakes hnext _ ih =>
    cases before with
    | nil =>
      obtain ⟨rfl, rfl⟩ := List.cons.inj hsplit
      rw [List.append_nil]
      exact ⟨hseen, _, _, htakes⟩
    | cons first before =>
      obtain ⟨rfl, hrest⟩ := List.cons.inj hsplit
      have hlater := ih hrest (hI hseen htakes hnext)
      rwa [List.append_assoc] at hlater

theorem ends (hI : r.Preserves I) (h : Course r left p s rounds out s') (hstart : I [] p) :
    (∃ q, I rounds q ∧ rounds.length = left ∧
      out = (.error (.outOfTurns q.turns q.lastError), q.conversation)) ∨
    ∃ before round, rounds = before ++ [round] ∧ round.result = .done out.2 out.1 := by
  suffices hseen : ∀ {seen}, I seen p → (∃ q, I (seen ++ rounds) q ∧ rounds.length = left ∧
      out = (.error (.outOfTurns q.turns q.lastError), q.conversation)) ∨
      ∃ before round, rounds = before ++ [round] ∧ round.result = .done out.2 out.1
    from hseen hstart
  clear hstart
  intro seen hseen
  induction h generalizing seen with
  | spent p s =>
    rw [List.append_nil]
    exact .inl ⟨p, hseen, rfl, rfl⟩
  | done htakes hdone => exact .inr ⟨[], _, rfl, hdone⟩
  | @next left s s₁ s' round p rounds out htakes hnext _ ih =>
    rcases ih (hI hseen htakes hnext) with ⟨q, hq, hlength, hout⟩ | ⟨before, last, rfl, hlast⟩
    · rw [List.append_assoc] at hq
      exact .inl ⟨q, hq, congrArg (· + 1) hlength, hout⟩
    · exact .inr ⟨round :: before, last, rfl, hlast⟩

end Course

end ToolDialogue
