import ToolDialogue.Proofs.ResponseTurns

/-! The request in a turn-by-turn run. Every restart states it anew, and the next restart finds it
in what the last one wrote: no results that follow it can be taken for part of it. -/
namespace ToolDialogue

namespace Text

variable {mark text rest : List Char}

theorem dropMark?_eq_some_iff : dropMark? mark text = some rest ↔ text = mark ++ rest :=
  List.isPrefixOf?_eq_some_iff_append_eq.trans eq_comm

theorem dropMark?_eq_none (h : ¬ mark <+: text) : dropMark? mark text = none := by
  cases hdrop : dropMark? mark text with
  | none => rfl
  | some rest => exact absurd ⟨rest, (dropMark?_eq_some_iff.1 hdrop).symm⟩ h

theorem eq_of_cutAt? {before after : List Char} (h : cutAt? mark text = some (before, after)) :
    text = before ++ (mark ++ after) := by
  fun_induction cutAt? mark text generalizing before with
  | case1 => simp_all
  | case2 => simp_all
  | case3 c text rest hdrop =>
    obtain ⟨rfl, rfl⟩ := Prod.mk.inj (Option.some.inj h)
    rw [List.nil_append]
    exact dropMark?_eq_some_iff.1 hdrop
  | case4 c text hdrop ih =>
    obtain ⟨⟨inner, behind⟩, hcut, heq⟩ := Option.map_eq_some_iff.1 h
    obtain ⟨rfl, rfl⟩ := Prod.mk.inj heq
    rw [ih hcut, List.cons_append]

theorem cutAt?_eq_none (h : ¬ mark <:+: text) : cutAt? mark text = none := by
  cases hcut : cutAt? mark text with
  | none => rfl
  | some parts =>
    refine absurd ⟨parts.1, parts.2, ?_⟩ h
    rw [List.append_assoc, eq_of_cutAt? hcut]

/-- A text is cut at a mark behind it if no occurrence of the mark starts earlier. -/
theorem cutAt?_append (hne : mark ≠ [])
    (h : ∀ tail, tail <:+ text → tail ≠ [] → ¬ mark <+: tail ++ (mark ++ rest)) :
    cutAt? mark (text ++ (mark ++ rest)) = some (text, rest) := by
  have hstart : dropMark? mark (mark ++ rest) = some rest := dropMark?_eq_some_iff.2 rfl
  induction text with
  | nil =>
    obtain ⟨c, mark, rfl⟩ := List.exists_cons_of_ne_nil hne
    rw [List.nil_append, List.cons_append, cutAt?, ← List.cons_append, hstart]
  | cons c text ih =>
    have hnot := dropMark?_eq_none (h (c :: text) (List.suffix_refl _) (by simp))
    have hlater := ih fun tail htail => h tail (htail.trans (List.suffix_cons c text))
    rw [List.cons_append] at hnot ⊢
    rw [cutAt?, hnot, hlater]
    rfl

/-- If a mark starts in a text before it, then within the text and as much of itself as it can end
with. -/
theorem prefix_of_overlap {tail : List Char} (hne : tail ≠ [])
    (hborder : ∀ n, 0 < n → mark.drop n <+: mark → mark.drop n <+: ['\n'])
    (h : mark <+: tail ++ (mark ++ rest)) : mark <+: tail ++ ['\n'] := by
  rcases Nat.le_total mark.length tail.length with hlength | hlength
  · exact (List.prefix_of_prefix_length_le h (List.prefix_append tail _) hlength).trans
      (List.prefix_append tail _)
  · -- `piece` is what the two occurrences of the mark share
    obtain ⟨piece, hpiece⟩ := List.prefix_of_prefix_length_le (List.prefix_append tail _) h hlength
    have hdrop : mark.drop tail.length = piece := by
      rw [← hpiece, List.drop_left]
    have hinner : piece <+: mark := by
      have hall : piece <+: mark ++ rest := by
        rw [← List.prefix_append_right_inj tail, hpiece]
        exact h
      have hle : piece.length ≤ mark.length := by
        rw [← hdrop, List.length_drop]
        omega
      exact List.prefix_of_prefix_length_le hall (List.prefix_append mark rest) hle
    have hend := hborder tail.length (List.length_pos_of_ne_nil hne) (hdrop.symm ▸ hinner)
    rw [← hpiece]
    exact (List.prefix_append_right_inj tail).2 (hdrop ▸ hend)

end Text

namespace TurnByTurn

open Text

/-- The heading overlaps itself in its last newline at most. -/
theorem border_resultsHeading : ∀ n, 0 < n →
    resultsHeading.toList.drop n <+: resultsHeading.toList →
    resultsHeading.toList.drop n <+: ['\n'] := by
  intro n hpos hstarts
  have hall : ∀ n < resultsHeading.toList.length, 0 < n →
      resultsHeading.toList.drop n <+: resultsHeading.toList →
      resultsHeading.toList.drop n <+: ['\n'] := by decide
  rcases Nat.lt_or_ge n resultsHeading.toList.length with hn | hn
  · exact hall n hn hpos hstarts
  · rw [List.drop_eq_nil_of_le hn]
    exact List.nil_prefix

/-- The heading of the results does not stand in the request, and does not begin there. -/
def Quotable (request : String) : Prop :=
  ¬ resultsHeading.toList <:+: (request ++ "\n").toList

variable {request : String}

theorem cutAt?_quotable (h : Quotable request) (rest : List Char) :
    cutAt? resultsHeading.toList (request.toList ++ (resultsHeading.toList ++ rest)) =
      some (request.toList, rest) := by
  refine cutAt?_append (by decide) fun tail htail hne hstarts => h ?_
  obtain ⟨start, hstart⟩ := htail
  have hwithin : tail ++ ['\n'] <:+: request.toList ++ ['\n'] :=
    ⟨start, [], by rw [List.append_nil, ← List.append_assoc, hstart]⟩
  rw [String.toList_append]
  exact (prefix_of_overlap hne border_resultsHeading hstarts).isInfix.trans hwithin

theorem requestIn_restatement (h : Quotable request) (log : CallLog) (key : String) :
    requestIn (restatement request log key).content = request := by
  have hdrop : dropMark? requestHeading.toList (restatement request log key).content.toList =
      some (request.toList ++ (resultsHeading.toList ++ (log.lines ++ warning key).toList)) := by
    rw [dropMark?_eq_some_iff]
    simp [restatement, Message.user]
  rw [requestIn, hdrop, Option.bind_some, cutAt?_quotable h]
  exact String.ofList_toList

theorem requestIn_of_quotable (h : Quotable request) : requestIn request = request := by
  have hcut : (dropMark? requestHeading.toList request.toList).bind
      (cutAt? resultsHeading.toList) = none := by
    cases hdrop : dropMark? requestHeading.toList request.toList with
    | none => rfl
    | some rest =>
      have hrequest := dropMark?_eq_some_iff.1 hdrop
      refine cutAt?_eq_none fun hwithin => h (hwithin.trans ⟨requestHeading.toList, ['\n'], ?_⟩)
      rw [← hrequest, String.toList_append]
      rfl
  rw [requestIn, hcut]

end TurnByTurn

/-- The latest message of the user carries the request. -/
def Conversation.Carries (c : Conversation) (request : String) : Prop :=
  ∃ message, c.lastRequest? = some message ∧ TurnByTurn.requestIn message.content = request

theorem Conversation.lastRequest?_append (c : Conversation) {messages : List Message}
    (h : ∀ m ∈ messages, m.role ≠ .user) : (c.append messages).lastRequest? = c.lastRequest? := by
  have hnone : messages.reverse.find? (fun m => decide (m.role = .user)) = none := by
    rw [List.find?_eq_none]
    intro m hm
    simpa using h m (List.mem_reverse.1 hm)
  rw [lastRequest?, append, List.reverse_append, List.find?_append, hnone]
  rfl

namespace TurnByTurn

variable {σ : Type} {r : Runner (StateM σ)} {nudging : Bool} {request : String} {round : Round}

theorem restated_of_carries {conversation : Conversation} (h : conversation.Carries request)
    (log : CallLog) (key : String) :
    restated conversation log key = restatement request log key := by
  obtain ⟨message, hlast, hcontent⟩ := h
  rw [restated, hlast]
  dsimp only
  rw [hcontent]

theorem role_ne_user {conversation : Conversation} {response : Response} {names : List String}
    {performed : List Performed} {stop : Stop} {log : CallLog}
    (h : (turn nudging conversation response names performed stop log).next ≠ .restart) :
    ∀ m ∈ (turn nudging conversation response names performed stop log).messages,
      m.role ≠ .user := by
  have hperformed : ∀ m ∈ Message.assistant (spoken response) ::
      performed.map fun p => Message.result p.key p.result, m.role ≠ .user := by
    refine List.forall_mem_cons.2 ⟨by simp [Message.assistant], List.forall_mem_map.2 fun p _ => ?_⟩
    simp [Message.result]
  cases stop with
  | none =>
    refine List.forall_mem_append.2 ⟨hperformed, ?_⟩
    cases nudging <;> simp [Message.system]
  | repeated key previous => exact absurd rfl h
  | failed call error =>
    exact List.forall_mem_append.2 ⟨hperformed, by simp [correction, Message.system]⟩

theorem carries_of_round (hround : RoundOf r nudging round) (hquotable : Quotable request)
    (h : round.progress.conversation.Carries request) {p : Progress}
    (hnext : round.result = .next p) : p.conversation.Carries request := by
  cases hround with
  | overdue => contradiction
  | refused =>
    cases hnext
    exact h
  | finish => contradiction
  | @called p delay response performed stop log s s' hcalls hmade =>
    by_cases hrestart : (turn nudging p.conversation response r.toolbox.names performed stop
        log).next = .restart
    · -- the restatement opens the new thread, and nothing of the user follows it
      obtain ⟨key, previous, rfl⟩ := (next_turn_eq_restart_iff ..).1 hrestart
      cases hnext
      refine ⟨restatement request log key, ?_, requestIn_restatement hquotable log key⟩
      rw [← restated_of_carries h]
      rfl
    · obtain ⟨message, hlast, hcontent⟩ := h
      refine ⟨message, ?_, hcontent⟩
      rw [Progress.conversation_of_after hnext hrestart,
        Conversation.lastRequest?_append _ (role_ne_user hrestart)]
      exact hlast

/-- Every restart of a turn-by-turn run states the request that the run began with, as it was, with
the results in the log and the key that was called again. -/
theorem restarts_state_request (provider : Provider (StateM σ)) (box : Toolbox (StateM σ))
    (nudging : Bool) (limits : Limits) (conversation : Conversation) (s : σ) (request : String)
    (hrequest : conversation.lastRequest?.map Message.content = some request)
    (hquotable : Quotable request) :
    ∃ rounds out s',
      StateT.run ((Runner.turnByTurn provider box nudging limits).run conversation) s = (out, s') ∧
      Course (.turnByTurn provider box nudging limits) limits.maxTurns (.start conversation) s
        rounds out s' ∧
      ∀ p delay response turn log, ⟨p, delay, .answered response turn log⟩ ∈ rounds →
        turn.next = .restart →
        ∃ performed key previous s₁ s₂,
          StateT.run (runCalls box response.calls p.log) s₁ =
            ((performed, .repeated key previous, log), s₂) ∧
          log.find? key = some previous ∧
          turn.messages =
            [.system (s!"`{key}` was already called and returned {previous}. " ++
                "Repeating a call does not change its result."),
              .user ("Original request:\n" ++ request ++ "\n\nResults obtained so far:\n" ++
                log.lines ++
                s!"\nUse these results to answer the request. Do not call `{key}` again.")] := by
  obtain ⟨rounds, out, s', hcourse⟩ := exists_course
    (.turnByTurn provider box nudging limits) limits.maxTurns (.start conversation) s
  have hpreserves : (Runner.turnByTurn provider box nudging limits).Preserves fun _ p =>
      p.conversation.Carries request := fun _ _ _ _ _ h htakes hnext =>
    carries_of_round (roundOf_of_takes htakes) hquotable h hnext
  have hstart : conversation.Carries request := by
    obtain ⟨message, hlast, rfl⟩ := Option.map_eq_some_iff.1 hrequest
    exact ⟨message, hlast, requestIn_of_quotable hquotable⟩
  refine ⟨rounds, out, s', hcourse.run_eq, hcourse, ?_⟩
  intro p delay response turn log hmem hrestart
  obtain ⟨before, later, hsplit⟩ := List.append_of_mem hmem
  obtain ⟨hcarries, s₁, s₂, htakes⟩ := hcourse.holds_before hpreserves hstart hsplit
  have hround := roundOf_of_takes htakes
  cases hround with
  | finish => contradiction
  | @called _ _ _ performed stop _ s₁ s₂ hcalls hmade =>
    obtain ⟨key, previous, rfl⟩ := (next_turn_eq_restart_iff ..).1 hrestart
    refine ⟨performed, key, previous, s₁, s₂, hmade.run_eq, find?_of_repeated hmade, ?_⟩
    change [reminder key previous, restated p.conversation log key] =
      [reminder key previous, restatement request log key]
    rw [restated_of_carries hcarries]

end TurnByTurn

namespace Counter

/-- Asks for the same call in every turn. -/
def insistent : Provider (StateM Nat) where
  name := "insistent"
  wait := pure 0
  send _ _ := pure (.ok ⟨"", [⟨"tick", []⟩]⟩)
  notice _ _ := pure ()

def insisting (turns : Nat) : Runner (StateM Nat) :=
  .turnByTurn insistent box true ⟨turns, none⟩

def response : Response :=
  ⟨"", [⟨"tick", []⟩]⟩

def ticked (n : Nat) : String :=
  (Output.ofInt64 (.ofNat (n + 1))).content

def logged (n : Nat) : CallLog :=
  CallLog.empty.put "tick()" (ticked n)

def tickTurn (c : Conversation) (n : Nat) : Turn :=
  TurnByTurn.turn true c response box.names [⟨⟨"tick", []⟩, "tick()", ticked n⟩] .none (logged n)

def repeatTurn (c : Conversation) (n : Nat) : Turn :=
  TurnByTurn.turn true c response box.names [] (.repeated "tick()" (ticked n)) (logged n)

def afterTick (p : Progress) (n : Nat) : Progress :=
  { p with
    conversation := p.conversation.append (tickTurn p.conversation n).messages
    log := logged n
    lastError := none
    turns := p.turns + 1 }

def afterRepeat (p : Progress) (n : Nat) : Progress :=
  { p with
    conversation := p.conversation.restart.append (repeatTurn p.conversation n).messages
    log := .empty
    interventions := p.interventions + 1
    lastError := some "repeated an identical call"
    turns := p.turns + 1 }

theorem processes_tick (c : Conversation) (n : Nat) : TurnByTurn.Processes true box c response
    .empty n (tickTurn c n) (logged n) (n + 1) := by
  have hran : CallStep box ⟨"tick", []⟩ .empty n (.ran "tick()" (ticked n)) (logged n) (n + 1) :=
    .ran (ready_tick n) rfl rfl
  exact .called (by simp [response]) (.ran hran (.done _ _))

theorem processes_repeat (c : Conversation) (n : Nat) : TurnByTurn.Processes true box c response
    (logged n) (n + 1) (repeatTurn c n) (logged n) (n + 1) := by
  have hknown : CallStep box ⟨"tick", []⟩ (logged n) (n + 1) (.known "tick()" (ticked n)) (logged n)
      (n + 1) := .known (ready_tick (n + 1)) rfl
  exact .called (by simp [response]) (.known hknown)

def tickRound (p : Progress) (n : Nat) : Round :=
  ⟨p, 0, .answered response (tickTurn p.conversation n) (logged n)⟩

def repeatRound (p : Progress) (n : Nat) : Round :=
  ⟨afterTick p n, 0,
    .answered response (repeatTurn (afterTick p n).conversation n) (logged n)⟩

variable {turns left n s' : Nat} {p : Progress} {rounds : List Round}
  {out : Except RunError Outcome × Conversation}

theorem course_tick (hlog : p.log = .empty)
    (h : Course (insisting turns) left (afterRepeat (afterTick p n) n) (n + 1) rounds out s') :
    Course (insisting turns) (left + 2) p n (tickRound p n :: repeatRound p n :: rounds) out
      s' := by
  have htick : (insisting turns).Takes n (tickRound p n) (n + 1) :=
    .answered ⟨n, rfl, rfl, rfl⟩ (hlog ▸ (processes_tick p.conversation n).run_eq) rfl
  have hrepeat : (insisting turns).Takes (n + 1) (repeatRound p n) (n + 1) :=
    .answered ⟨n + 1, rfl, rfl, rfl⟩ (processes_repeat _ n).run_eq rfl
  exact .next htick rfl (.next hrepeat rfl h)

def opening : Progress :=
  .start (Conversation.empty.append [.user "Count."])

def reopened : Progress :=
  afterRepeat (afterTick opening 0) 0

/-- The second restart states the request as the first found it. -/
theorem states_request_twice :
    ∃ rounds out, StateT.run ((insisting 4).run opening.conversation) 0 = (out, 2) ∧
      Course (insisting 4) 4 opening 0 rounds out 2 ∧ repeatRound reopened 1 ∈ rounds ∧
      (repeatTurn (afterTick reopened 1).conversation 1).messages =
        [⟨.system, "`tick()` was already called and returned 2. " ++
            "Repeating a call does not change its result.", none⟩,
          ⟨.user, "Original request:\nCount.\n\nResults obtained so far:\n- tick() = 2\n\n" ++
            "Use these results to answer the request. Do not call `tick()` again.", none⟩] := by
  have hquotable : TurnByTurn.Quotable "Count." := fun h => absurd h.length_le (by decide)
  obtain ⟨rounds, out, s', hrun, hcourse, hall⟩ := TurnByTurn.restarts_state_request insistent box
    true ⟨4, none⟩ opening.conversation 0 "Count." rfl hquotable
  have hfour : Course (insisting 4) 4 opening 0 [tickRound opening 0, repeatRound opening 0,
      tickRound reopened 1, repeatRound reopened 1] _ 2 :=
    course_tick rfl (course_tick rfl (.spent _ _))
  obtain ⟨rfl, rfl, rfl⟩ := hcourse.unique hfour
  have hmem : repeatRound reopened 1 ∈ [tickRound opening 0, repeatRound opening 0,
      tickRound reopened 1, repeatRound reopened 1] := by simp
  obtain ⟨_, key, previous, _, _, _, hfind, hmessages⟩ := hall _ _ _ _ _ hmem rfl
  have hentries : (logged 1).entries = [⟨"tick()", "2"⟩] := by decide +kernel
  have hentry := CallLog.find?_eq_some_iff.1 hfind
  rw [hentries, List.mem_singleton] at hentry
  cases hentry
  exact ⟨_, _, hrun, hcourse, hmem, hmessages.trans (by decide +kernel)⟩

end Counter

end ToolDialogue
