import ToolDialogue.Proofs.Course
import ToolDialogue.Proofs.Lifting
import ToolDialogue.Provider.Script

/-! Runs under a time limit, with a scripted provider. Only its sends take time, so the run is cut
between two turns or not at all. -/
namespace ToolDialogue

variable {σ α β : Type}

/-- What is done with a scripted provider and with tools that have a state of their own. -/
abbrev Rehearsal (σ : Type) := StateT Script (ExceptT Exhausted (StateM σ))

def play (x : Rehearsal σ α) (script : Script) (s : σ) : Except Exhausted (α × Script) × σ :=
  StateT.run (ExceptT.run (StateT.run x script)) s

section play

variable {x : Rehearsal σ α} {f : α → Rehearsal σ β} {a : α} {script script' : Script} {s s' : σ}

theorem play_bind (h : play x script s = (.ok (a, script'), s')) :
    play (x >>= f) script s = play (f a) script' s' := by
  have hx : StateT.run (ExceptT.run (StateT.run x script)) s = pure (.ok (a, script'), s') := h
  rw [play, StateT.run_bind, ExceptT.run_bind, StateT.run_bind, hx, pure_bind]
  rfl

theorem play_bind_error {e : Exhausted} (h : play x script s = (.error e, s')) :
    play (x >>= f) script s = (.error e, s') := by
  have hx : StateT.run (ExceptT.run (StateT.run x script)) s = pure (.error e, s') := h
  rw [play, StateT.run_bind, ExceptT.run_bind, StateT.run_bind, hx, pure_bind]
  rfl

theorem play_lift (x : StateM σ α) (script : Script) (s : σ) :
    play (monadLift x) script s = (.ok ((StateT.run x s).1, script), (StateT.run x s).2) := rfl

end play

/-- A strategy with its tools, neither of which touches the script. -/
structure Players (σ : Type) where
  strategy : Strategy (Rehearsal σ)
  toolbox : Toolbox (Rehearsal σ)
  apart : ∀ conversation response log, ∃ x : StateM σ (Except CallError Turn × CallLog),
    strategy.process toolbox conversation response log = monadLift x

def Policy.players (policy : Policy) (box : Toolbox (StateM σ)) : Players σ :=
  ⟨policy.strategy, box.lift, fun _ _ _ => ⟨_, policy.process_lift box ..⟩⟩

def Players.runner (players : Players σ) (name : String) (maxTurns : Nat) (timeoutMs : Option Nat) :
    Runner (Rehearsal σ) :=
  ⟨Script.provider name, players.toolbox, players.strategy, ⟨maxTurns, timeoutMs⟩⟩

namespace Script

/-- The time that the next `n` sends take. -/
def elapsed (script : Script) (n : Nat) : Nat :=
  (script.delays.take n).foldr (· + ·) 0

def delay (script : Script) : Nat :=
  script.delays.headD 0

def waited (script : Script) : Script :=
  { script with delays := script.delays.tail }

theorem wait_eq (script : Script) : script.wait = (script.delay, script.waited) := by
  obtain ⟨info, replies, delays, sent, noticed⟩ := script
  cases delays <;> rfl

@[simp] theorem elapsed_zero (script : Script) : script.elapsed 0 = 0 := rfl

theorem elapsed_succ (script : Script) (n : Nat) :
    script.elapsed (n + 1) = script.delay + script.waited.elapsed n := by
  obtain ⟨info, replies, delays, sent, noticed⟩ := script
  cases delays <;> simp [elapsed, delay, waited]

/-- How often a run sent that began with this script; a send without a reply counts as one. -/
def SentTimes (script : Script) : Except Exhausted (α × Script) → Nat → Prop
  | .ok (_, after), n => after.sent.length = script.sent.length + n
  | .error .noReply, n => n = script.replies.length + 1

/-- What a send and what follows it up to the next one change. -/
structure Sends (script script' : Script) : Prop where
  replies : script.replies.length = script'.replies.length + 1
  sent : script'.sent.length = script.sent.length + 1
  delays : script'.delays = script.delays

theorem Sends.sentTimes_succ {script script' : Script} {out : Except Exhausted (α × Script)} {n : Nat}
    (h : script.Sends script') (hn : script'.SentTimes out n) : script.SentTimes out (n + 1) := by
  cases out with
  | ok after =>
    have hafter : after.2.sent.length = script'.sent.length + n := hn
    have hsent := h.sent
    show after.2.sent.length = script.sent.length + (n + 1)
    omega
  | error e =>
    cases e
    have hcount : n = script'.replies.length + 1 := hn
    have hreplies := h.replies
    show n + 1 = script.replies.length + 1
    omega

end Script

namespace Runner

variable {m : Type → Type} [Monad m]

/-- The part of a turn that starts with the send. -/
def sending (r : Runner m) (p : Progress) : m TurnEnd := do
  match ← r.provider.send p.conversation.messages r.toolbox.signatures with
  | .error e => return .next { p with lastError := some e.message }
  | .ok response => r.answered p response

def advance (r : Runner m) : Nat → Progress → m TurnEnd
  | 0, p => return .next p
  | k + 1, p => do
    match ← r.turn p with
    | .next p => r.advance k p
    | .done conversation result => return .done conversation result

end Runner

section turns

variable {players : Players σ} {name : String} {maxTurns limit : Nat} {p : Progress}
  {script : Script}

theorem play_notices (name : String) (results : List (Call × String)) (script : Script) (s : σ) :
    play (results.forM fun result => (Script.provider (m := StateM σ) name).notice result.1 result.2)
      script s = (.ok ((), { script with noticed := script.noticed ++ results }), s) := by
  rw [List.forM_eq_forM]
  induction results generalizing script with
  | nil =>
    rw [List.append_nil]
    rfl
  | cons first rest ih =>
    have hfirst : play ((Script.provider (m := StateM σ) name).notice first.1 first.2) script s =
        (.ok ((), script.notice first.1 first.2), s) := rfl
    rw [List.forM_cons, play_bind hfirst, ih]
    simp [Script.notice]

theorem play_answered (players : Players σ) (name : String) (maxTurns : Nat)
    (timeoutMs : Option Nat) (p : Progress) (response : Response) (script : Script) (s : σ) :
    ∃ ending noticed s', play ((players.runner name maxTurns timeoutMs).answered p response)
        script s = (.ok (ending, { script with noticed := noticed }), s') ∧
      ∀ q, ending = .next q → q.elapsedMs = p.elapsedMs := by
  obtain ⟨x, hx⟩ := players.apart p.conversation response p.log
  cases hrun : StateT.run x s with | mk out s' =>
  obtain ⟨made, log⟩ := out
  have hprocess : play (players.strategy.process players.toolbox p.conversation response p.log)
      script s = (.ok ((made, log), script), s') := by
    rw [hx, play_lift, hrun]
  cases made with
  | error e => exact ⟨_, _, s', play_bind hprocess, fun q hq => by contradiction⟩
  | ok turn =>
    have hnotices := play_notices name turn.results script s'
    exact ⟨p.after turn log, _, s', (play_bind hprocess).trans (play_bind hnotices),
      fun q hq => (Progress.next_of_after hq).1⟩

theorem play_sending (players : Players σ) (name : String) (maxTurns : Nat)
    (timeoutMs : Option Nat) (p : Progress) (script : Script) (s : σ) :
    (script.replies = [] ∧
      play ((players.runner name maxTurns timeoutMs).sending p) script s = (.error .noReply, s)) ∨
    ∃ ending script' s', play ((players.runner name maxTurns timeoutMs).sending p) script s =
        (.ok (ending, script'), s') ∧ script.Sends script' ∧
      ∀ q, ending = .next q → q.elapsedMs = p.elapsedMs := by
  obtain ⟨info, replies, delays, sent, noticed⟩ := script
  cases replies with
  | nil => exact .inl ⟨rfl, rfl⟩
  | cons reply rest =>
    right
    cases reply with
    | error e => exact ⟨_, _, _, rfl, ⟨rfl, List.length_append, rfl⟩, fun q hq => by cases hq; rfl⟩
    | ok response =>
      obtain ⟨ending, results, s', hanswered, helapsed⟩ := play_answered players name maxTurns
        timeoutMs p response ⟨info, rest, delays, _, noticed⟩ s
      exact ⟨ending, _, s', hanswered, ⟨rfl, List.length_append, rfl⟩, helapsed⟩

def Progress.waiting (p : Progress) (delay : Nat) : Progress :=
  { p with turns := p.turns + 1, elapsedMs := p.elapsedMs + delay }

theorem play_wait (players : Players σ) (name : String) (maxTurns : Nat) (timeoutMs : Option Nat)
    (script : Script) (s : σ) : play (players.runner name maxTurns timeoutMs).provider.wait script s =
      (.ok (script.delay, script.waited), s) := by
  rw [← script.wait_eq]
  rfl

theorem play_turn (players : Players σ) (name : String) (maxTurns : Nat) (timeoutMs : Option Nat)
    (p : Progress) (script : Script) (s : σ) :
    play ((players.runner name maxTurns timeoutMs).turn p) script s =
      match Limits.passed? ⟨maxTurns, timeoutMs⟩ (p.elapsedMs + script.delay) with
      | some limit => (.ok (.done p.conversation (.error (.timeout limit)), script.waited), s)
      | none => play ((players.runner name maxTurns timeoutMs).sending (p.waiting script.delay))
          script.waited s := by
  have hlimits : (players.runner name maxTurns timeoutMs).limits = ⟨maxTurns, timeoutMs⟩ := rfl
  rw [Runner.turn, play_bind (play_wait ..)]
  dsimp only
  rw [hlimits]
  cases Limits.passed? ⟨maxTurns, timeoutMs⟩ (p.elapsedMs + script.delay) <;> rfl

theorem passed?_some (maxTurns limit elapsedMs : Nat) :
    Limits.passed? ⟨maxTurns, some limit⟩ elapsedMs =
      if limit < elapsedMs then some limit else none := by
  simp [Limits.passed?, Option.filter]

theorem play_turn_in_time (hle : p.elapsedMs + script.delay ≤ limit) (s : σ) :
    play ((players.runner name maxTurns (some limit)).turn p) script s =
      play ((players.runner name maxTurns none).turn p) script s := by
  rw [play_turn, passed?_some, if_neg (Nat.not_lt.2 hle), play_turn]
  rfl

theorem play_turn_late (hlate : limit < p.elapsedMs + script.delay) (s : σ) :
    play ((players.runner name maxTurns (some limit)).turn p) script s =
      (.ok (.done p.conversation (.error (.timeout limit)), script.waited), s) := by
  rw [play_turn, passed?_some, if_pos hlate]

end turns

section runs

variable {r : Runner (Rehearsal σ)} {left : Nat} {p q : Progress} {script script' : Script} {s s' : σ}

theorem play_turns_error {e : Exhausted} (h : play (r.turn p) script s = (.error e, s')) :
    play (r.turns (left + 1) p) script s = (.error e, s') :=
  play_bind_error h

theorem play_turns_done {conversation : Conversation} {result : Except RunError Outcome}
    (h : play (r.turn p) script s = (.ok (.done conversation result, script'), s')) :
    play (r.turns (left + 1) p) script s = (.ok ((result, conversation), script'), s') :=
  play_bind h

theorem play_turns_next (h : play (r.turn p) script s = (.ok (.next q, script'), s')) :
    play (r.turns (left + 1) p) script s = play (r.turns left q) script' s' :=
  play_bind h

theorem play_advance_next (h : play (r.turn p) script s = (.ok (.next q, script'), s')) (k : Nat) :
    play (r.advance (k + 1) p) script s = play (r.advance k q) script' s' :=
  play_bind h

end runs

/-- The first `k` turns of the run of `r` are in time, and its next send is too late. There the run
of `t` ends, and leaves all as those turns left it. -/
structure CutAfter (r t : Runner (Rehearsal σ)) (limit left : Nat) (p : Progress) (script : Script)
    (s : σ) (k : Nat) (q : Progress) (script' : Script) (s' : σ) : Prop where
  inTime : p.elapsedMs + script.elapsed k ≤ limit
  late : limit < p.elapsedMs + script.elapsed (k + 1)
  reached : play (r.advance k p) script s = (.ok (.next q, script'), s')
  sent : script'.sent.length = script.sent.length + k
  goesOn : play (r.turns (left - k) q) script' s' = play (r.turns left p) script s
  cut : play (t.turns left p) script s =
    (.ok ((.error (.timeout limit), q.conversation), script'.waited), s')

/-- If the time that `n` sends take is within the limit, the runs of `r` and `t` come to the same;
otherwise that of `t` is cut. -/
structure Limited (r t : Runner (Rehearsal σ)) (limit left : Nat) (p : Progress) (script : Script)
    (s : σ) (n : Nat) : Prop where
  same : p.elapsedMs + script.elapsed n ≤ limit →
    play (t.turns left p) script s = play (r.turns left p) script s
  cut : limit < p.elapsedMs + script.elapsed n →
    ∃ k < n, ∃ q script' s', CutAfter r t limit left p script s k q script' s'

section limited

variable {players : Players σ} {name : String} {maxTurns limit left n : Nat} {p q : Progress}
  {script script' : Script} {s s' : σ}

theorem limited_of_first (hstart : p.elapsedMs ≤ limit) (hn : 0 < n)
    (h : p.elapsedMs + script.delay ≤ limit → Limited (players.runner name maxTurns none)
      (players.runner name maxTurns (some limit)) limit (left + 1) p script s n) :
    Limited (players.runner name maxTurns none) (players.runner name maxTurns (some limit)) limit
      (left + 1) p script s n := by
  by_cases hle : p.elapsedMs + script.delay ≤ limit
  · exact h hle
  have hlate := Nat.not_le.1 hle
  refine ⟨fun hall => ?_, fun _ => ⟨0, hn, p, script, s, hstart, ?_, rfl, rfl, rfl, ?_⟩⟩
  · obtain ⟨n, rfl⟩ := Nat.exists_eq_succ_of_ne_zero (Nat.ne_of_gt hn)
    rw [Script.elapsed_succ] at hall
    omega
  · rwa [Script.elapsed_succ, Script.elapsed_zero, Nat.add_zero]
  · exact play_turns_done (play_turn_late hlate s)

theorem limited_of_last {r t : Runner (Rehearsal σ)} (hle : p.elapsedMs + script.delay ≤ limit)
    (hsame : play (t.turns left p) script s = play (r.turns left p) script s) :
    Limited r t limit left p script s 1 := by
  refine ⟨fun _ => hsame, fun hlt => ?_⟩
  rw [Script.elapsed_succ, Script.elapsed_zero] at hlt
  omega

theorem limited_of_next {r t : Runner (Rehearsal σ)}
    (hr : play (r.turn p) script s = (.ok (.next q, script'), s'))
    (ht : play (t.turn p) script s = (.ok (.next q, script'), s'))
    (hsends : script.waited.Sends script') (helapsed : q.elapsedMs = p.elapsedMs + script.delay)
    (hrest : Limited r t limit left q script' s' n) :
    Limited r t limit (left + 1) p script s (n + 1) := by
  have htime : ∀ k, p.elapsedMs + script.elapsed (k + 1) = q.elapsedMs + script'.elapsed k := by
    intro k
    rw [Script.elapsed_succ, helapsed, Nat.add_assoc, Script.elapsed, Script.elapsed, hsends.delays]
  refine ⟨fun hle => ?_, fun hlt => ?_⟩
  · rw [play_turns_next hr, play_turns_next ht]
    exact hrest.same (htime n ▸ hle)
  · obtain ⟨k, hk, q', script'', s'', h⟩ := hrest.cut (htime n ▸ hlt)
    refine ⟨k + 1, Nat.succ_lt_succ hk, q', script'', s'', ?_, ?_, ?_, ?_, ?_, ?_⟩
    · rw [htime]
      exact h.inTime
    · rw [htime]
      exact h.late
    · rw [play_advance_next hr]
      exact h.reached
    · rw [h.sent, hsends.sent]
      simp only [Script.waited]
      omega
    · rw [play_turns_next hr, Nat.add_sub_add_right]
      exact h.goesOn
    · rw [play_turns_next ht]
      exact h.cut

/-- The sends are counted beyond the limit as well: a run without one goes on there, and its count
says that the send that is too late is made. -/
theorem exists_limited (players : Players σ) (name : String) (maxTurns limit left : Nat)
    (p : Progress) (script : Script) (s : σ) :
    ∃ n, script.SentTimes (play ((players.runner name maxTurns none).turns left p) script s).1 n ∧
      (0 < left → 0 < n) ∧ (p.elapsedMs ≤ limit → Limited (players.runner name maxTurns none)
        (players.runner name maxTurns (some limit)) limit left p script s n) := by
  induction left generalizing p script s with
  | zero =>
    refine ⟨0, rfl, fun h => h, fun hstart => ⟨fun _ => rfl, fun hlt => ?_⟩⟩
    rw [Script.elapsed_zero] at hlt
    omega
  | succ left ih =>
    -- the run without a limit takes its first turn; that it is late matters to the other run only
    have hturn := play_turn players name maxTurns none p script s
    rcases play_sending players name maxTurns none (p.waiting script.delay) script.waited s with
      ⟨hreplies, hsend⟩ | ⟨ending, script', s', hsend, hsends, helapsed⟩
    · have hrun := hturn.trans hsend
      refine ⟨1, ?_, fun _ => Nat.one_pos, fun hstart => limited_of_first hstart Nat.one_pos
        fun hle => limited_of_last hle ?_⟩
      · rw [play_turns_error hrun]
        exact (congrArg (List.length · + 1) hreplies).symm
      · rw [play_turns_error hrun, play_turns_error ((play_turn_in_time hle s).trans hrun)]
    have hrun := hturn.trans hsend
    cases ending with
    | done conversation result =>
      refine ⟨1, ?_, fun _ => Nat.one_pos, fun hstart => limited_of_first hstart Nat.one_pos
        fun hle => limited_of_last hle ?_⟩
      · rw [play_turns_done hrun]
        exact hsends.sent
      · rw [play_turns_done hrun, play_turns_done ((play_turn_in_time hle s).trans hrun)]
    | next q =>
      obtain ⟨n, hn, -, hlimited⟩ := ih q script' s'
      have hq := helapsed q rfl
      refine ⟨n + 1, ?_, fun _ => n.succ_pos, fun hstart => limited_of_first hstart n.succ_pos
        fun hle => limited_of_next hrun ((play_turn_in_time hle s).trans hrun) hsends hq ?_⟩
      · rw [play_turns_next hrun]
        exact hsends.sentTimes_succ hn
      · exact hlimited (hq ▸ hle)

end limited

/-- A run under a time limit is the run without one, or a cut of it. If the time that the sends of
the run without one take is within the limit, both come to the same. Otherwise there is a first send
with which the limit passes, and the run under the limit ends there: with the conversation that the
turns before it left, and with nothing sent, noticed or done by the tools but in those turns. -/
theorem timed_run_is_cut (players : Players σ) (name : String) (maxTurns limit : Nat)
    (conversation : Conversation) (script : Script) (s : σ) :
    let untimed := players.runner name maxTurns none
    let timed := players.runner name maxTurns (some limit)
    ∃ n, script.SentTimes (play (untimed.run conversation) script s).1 n ∧
      (script.elapsed n ≤ limit →
        play (timed.run conversation) script s = play (untimed.run conversation) script s) ∧
      (limit < script.elapsed n → ∃ k < n, ∃ q script' s',
        CutAfter untimed timed limit maxTurns (.start (untimed.opening conversation)) script s k q
          script' s') := by
  intro untimed timed
  obtain ⟨n, hn, -, hlimited⟩ := exists_limited players name maxTurns limit maxTurns
    (.start (untimed.opening conversation)) script s
  have hlimited := hlimited (Nat.zero_le limit)
  have htime : (Progress.start (untimed.opening conversation)).elapsedMs + script.elapsed n =
      script.elapsed n := Nat.zero_add _
  refine ⟨n, hn, fun hle => hlimited.same ?_, fun hlt => hlimited.cut ?_⟩
  · rwa [htime]
  · rwa [htime]

/-- The first reply, an error, comes after 5 ms; the second would come 7 ms later. -/
example : play ((((Policy.turnByTurn true).players .empty).runner "" 10 (some 10)).run .empty)
    ⟨default, [.error (.provider "busy" true), .ok ⟨"Done.", []⟩], [5, 7], [], []⟩ () =
    (.ok ((.error (.timeout 10), .empty),
      ⟨default, [.ok ⟨"Done.", []⟩], [], [⟨[], []⟩], []⟩), ()) := rfl

end ToolDialogue
