import ToolDialogue.Proofs.RunRecord
import ToolDialogue.Proofs.ThreadResults

/-! What a provider is shown: behind one preamble a history that only grows, until a restart puts
its two messages in the place of all others. -/
namespace ToolDialogue

variable {σ : Type}

theorem Round.written_answered (p : Progress) (delay : Nat) (response : Response) (turn : Turn)
    (log : CallLog) (before : List Message) :
    Round.written before ⟨p, delay, .answered response turn log⟩ =
      if turn.next = .restart then turn.messages else before ++ turn.messages := rfl

/-- Which history the send after a round shows, when the round's own showed `history`. -/
inductive Follows (preamble : Option Message) : Round → List Message → List Message → Prop
  | refused {p : Progress} {delay : Nat} {error : RunError} (history : List Message) :
      Follows preamble ⟨p, delay, .refused error⟩ history history
  | answered {p : Progress} {delay : Nat} {response : Response} {turn : Turn} {log : CallLog}
      (history : List Message) (hnext : turn.next = .proceed ∨ turn.next = .retry) :
      Follows preamble ⟨p, delay, .answered response turn log⟩ history (history ++ turn.messages)
  | restarted {p : Progress} {delay : Nat} {response : Response} {turn : Turn} {log : CallLog}
      {key previous : String} (history : List Message) (hnext : turn.next = .restart)
      (hmessages : turn.messages =
        [TurnByTurn.reminder key previous, TurnByTurn.restated p.conversation log key]) :
      Follows preamble ⟨p, delay, .answered response turn log⟩ history
        (preamble.toList ++ turn.messages)

/-- What was sent in these rounds, where the first send shows this history and all offer these
tools. -/
inductive Shows (preamble : Option Message) (tools : List Signature) :
    List Message → List Round → List Sent → Prop
  | spent (history : List Message) : Shows preamble tools history [] []
  | overdue {p : Progress} {delay limit : Nat} (history : List Message) :
      Shows preamble tools history [⟨p, delay, .overdue limit⟩] []
  | last {round : Round} (history : List Message) (hreply : round.event.reply?.isSome = true) :
      Shows preamble tools history [round] [⟨history, tools⟩]
  | next {round : Round} {rounds : List Round} {history history' : List Message}
      {sent : List Sent} (hfollows : Follows preamble round history history')
      (hrest : Shows preamble tools history' rounds sent) :
      Shows preamble tools history (round :: rounds) (⟨history, tools⟩ :: sent)

section shows

variable {preamble : Option Message} {tools : List Signature} {round : Round}
  {rounds before later : List Round} {history history' thread : List Message} {sent : List Sent}

theorem Follows.eq_written (h : Follows preamble round history history')
    (hhistory : history = preamble.toList ++ thread) :
    history' = preamble.toList ++ round.written thread := by
  cases h with
  | refused => exact hhistory
  | answered _ hnext =>
    rw [Round.written_answered, if_neg (by rcases hnext with h | h <;> simp [h]), hhistory,
      List.append_assoc]
  | restarted _ hnext => rw [Round.written_answered, if_pos hnext]

theorem Shows.getElem? (h : Shows preamble tools history rounds sent)
    (hhistory : history = preamble.toList ++ thread) (hsplit : rounds = before ++ round :: later)
    (hreply : round.event.reply?.isSome = true) :
    sent[before.length]? =
      some ⟨preamble.toList ++ before.foldl Round.written thread, tools⟩ := by
  induction h generalizing before thread with
  | spent => simp at hsplit
  | overdue =>
    cases before with
    | nil =>
      obtain ⟨rfl, -⟩ := List.cons.inj hsplit
      contradiction
    | cons => simp at hsplit
  | last =>
    cases before with
    | nil => rw [hhistory]; rfl
    | cons => simp at hsplit
  | next hfollows _ ih =>
    cases before with
    | nil => rw [hhistory]; rfl
    | cons first before =>
      obtain ⟨rfl, hrest⟩ := List.cons.inj hsplit
      exact ih (hfollows.eq_written hhistory) hrest

end shows

section runs

variable {policy : Policy} {provider : Provider (StateM σ)} {box : Toolbox (StateM σ)}
  {limits : Limits} {left : Nat} {p q : Progress} {s s' : σ} {round : Round} {rounds : List Round}
  {out : Except RunError Outcome × Conversation} {record record' : RunRecord}

theorem messages_of_conclude {names : List String} {conversation : Conversation}
    {response : Response} {tried : List Tried} {log : CallLog} {turn : Turn}
    (h : policy.conclude names conversation response tried log = .ok turn)
    (hrestart : turn.next = .restart) : ∃ key previous, turn.messages =
      [TurnByTurn.reminder key previous, TurnByTurn.restated conversation log key] := by
  cases policy with
  | turnByTurn nudging =>
    rw [Policy.conclude] at h
    split at h
    · cases h
      contradiction
    · cases h
      obtain ⟨key, previous, hstop⟩ := (TurnByTurn.next_turn_eq_restart_iff ..).1 hrestart
      exact ⟨key, previous, by rw [hstop]; rfl⟩
  | fillIn d =>
    obtain ⟨answer, results, rfl⟩ := Policy.turn_of_conclude_fillIn h
    contradiction

theorem Conversation.messages_append (c : Conversation) (messages : List Message) :
    (c.append messages).messages = c.messages ++ messages :=
  (List.append_assoc ..).symm

theorem follows_of_adds (h : round.Adds policy box record record') (hnext : round.result = .next q) :
    q.conversation.preamble = round.progress.conversation.preamble ∧
      Follows round.progress.conversation.preamble round round.progress.conversation.messages
        q.conversation.messages ∧
      record'.sent = record.sent ++ [⟨round.progress.conversation.messages, box.signatures⟩] := by
  cases h with
  | overdue => contradiction
  | refused =>
    cases hnext
    exact ⟨rfl, .refused _, rfl⟩
  | stopped => contradiction
  | @answered p delay response turn log _ tried htried hmade =>
    obtain ⟨-, ⟨hgoes, hq⟩ | ⟨hrestart, hq⟩⟩ := Progress.next_of_after hnext
    · rw [hq, Conversation.messages_append]
      exact ⟨rfl, .answered _ hgoes, rfl⟩
    · obtain ⟨key, previous, hmessages⟩ := messages_of_conclude hmade hrestart
      rw [hq]
      exact ⟨rfl, .restarted _ hrestart hmessages, rfl⟩

theorem shows_of_course (h : Course (policy.runner provider box limits) left p s rounds out s')
    (hrecorded : Recorded policy box rounds record record') : ∃ sent,
      Shows p.conversation.preamble box.signatures p.conversation.messages rounds sent ∧
      record'.sent = record.sent ++ sent := by
  induction h generalizing record with
  | spent p s =>
    cases hrecorded
    exact ⟨[], .spent _, (List.append_nil _).symm⟩
  | done htakes hdone =>
    obtain _ | ⟨hadds, _ | _⟩ := hrecorded
    cases hadds with
    | overdue => exact ⟨[], .overdue _, (List.append_nil _).symm⟩
    | refused => contradiction
    | stopped => exact ⟨_, .last _ rfl, rfl⟩
    | answered => exact ⟨_, .last _ rfl, rfl⟩
  | next htakes hnext _ ih =>
    obtain _ | ⟨hadds, hrest⟩ := hrecorded
    obtain ⟨hpreamble, hfollows, hsent⟩ := follows_of_adds hadds hnext
    obtain ⟨sent, hshows, hrecord⟩ := ih hrest
    rw [hpreamble] at hshows
    refine ⟨_, .next hfollows hshows, ?_⟩
    rw [hrecord, hsent, List.append_assoc]
    rfl

theorem messages_opening (r : Runner (StateM σ)) (conversation : Conversation) :
    (r.opening conversation).preamble =
        (r.strategy.preamble r.toolbox.signatures).or conversation.preamble ∧
      (r.opening conversation).thread = conversation.thread := by
  rw [r.opening_eq]
  exact ⟨rfl, rfl⟩

end runs

/-- The sends of a run show a chain of histories. The first is the preamble, of the strategy if it
has one, and the thread that the run starts with. Each further one is the one before it, followed by
the messages of the turn between, or the preamble and the two messages of a restart. So behind the
preamble stand the messages of the thread in order, each once, and the tools offered are always the
same. -/
theorem sends_chain (policy : Policy) (provider : Provider (StateM σ)) (box : Toolbox (StateM σ))
    (limits : Limits) (conversation : Conversation) (s : σ) :
    ∃ rounds out s' record preamble,
      RunsTo policy provider box limits conversation s rounds out s' record ∧
      preamble = ((policy.strategy (m := StateM σ)).preamble box.signatures).or
        conversation.preamble ∧
      Shows preamble box.signatures (preamble.toList ++ conversation.thread) rounds record.sent ∧
      ∀ before round later, rounds = before ++ round :: later →
        round.event.reply?.isSome = true → record.sent[before.length]? =
          some ⟨preamble.toList ++ before.foldl Round.written conversation.thread,
            box.signatures⟩ := by
  obtain ⟨rounds, out, s', record, hruns, hrecorded⟩ :=
    exists_runsTo policy provider box limits conversation s
  obtain ⟨sent, hshows, hsent⟩ := shows_of_course hruns.course hrecorded
  -- the preamble is set before the first turn, and no turn changes it
  obtain ⟨hpreamble, hthread⟩ := messages_opening (policy.runner provider box limits) conversation
  have hmessages : ((policy.runner provider box limits).opening conversation).messages =
      ((policy.runner provider box limits).opening conversation).preamble.toList ++
        conversation.thread := by
    rw [Conversation.messages, hthread]
  have hrecord : record.sent = sent := hsent
  have hchain : Shows _ box.signatures (_ ++ conversation.thread) rounds record.sent :=
    hmessages ▸ hrecord ▸ hshows
  exact ⟨rounds, out, s', record, _, hruns, hpreamble, hchain, fun before round later hsplit =>
    hchain.getElem? rfl hsplit⟩

end ToolDialogue
