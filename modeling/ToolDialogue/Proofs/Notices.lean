import ToolDialogue.Proofs.Attempt
import ToolDialogue.Proofs.RunRecord

/-! What a provider is told of in a run: every call that ran, once and in order, except for those in
a response whose filling in fails. -/
namespace ToolDialogue

variable {σ : Type}

def RunRecord.Complete (record : RunRecord) : Prop :=
  record.noticed = successes record.tried.flatten

/-- What a provider was told of in a run that came to `result`. -/
structure Told (policy : Policy) (record : RunRecord) (result : Except RunError Outcome) :
    Prop where
  complete : (∀ cause, result ≠ .error (.callFailed cause)) → record.Complete
  /-- Only the fill-in strategy lets a call end the run. The provider is not told of the calls that
  ran before it in its own response. -/
  failed : ∀ cause, result = .error (.callFailed cause) → (∃ d, policy = .fillIn d) ∧
    ∃ earlier last call error, cause = .call error ∧
      record.tried = earlier ++ [last ++ [⟨call, .failed error⟩]] ∧
      record.noticed = successes earlier.flatten ∧
      (record.Complete ↔ successes last = [])

section rounds

variable {policy : Policy} {box : Toolbox (StateM σ)} {round : Round} {record record' : RunRecord}

theorem fillIn_of_conclude_error {names : List String} {conversation : Conversation}
    {response : Response} {tried : List Tried} {log : CallLog} {error : CallError}
    (h : policy.conclude names conversation response tried log = .error error) :
    ∃ d, policy = .fillIn d := by
  cases policy with
  | turnByTurn nudging => contradiction
  | fillIn d => exact ⟨d, rfl⟩

theorem callFailed_of_result {conversation : Conversation} {cause : Cause}
    (h : round.result = .done conversation (.error (.callFailed cause))) :
    ∃ response error, round.event = .stopped response error ∧ cause = .call error := by
  obtain ⟨p, delay, event⟩ := round
  cases event with
  | overdue limit => cases h
  | refused error => cases h
  | stopped response error =>
    cases h
    exact ⟨response, error, rfl, rfl⟩
  | answered response turn log =>
    simp only [Round.result, Progress.after] at h
    split at h <;> cases h

theorem complete_of_adds (h : round.Adds policy box record record') (hrecord : record.Complete)
    (hgoes : ∀ response error, round.event ≠ .stopped response error) : record'.Complete := by
  cases h with
  | overdue => exact hrecord
  | refused => exact hrecord
  | stopped => exact absurd rfl (hgoes _ _)
  | @answered p delay response turn log _ tried htried hmade =>
    have hresults := policy.concludes_conclude box.names p.conversation log htried
    rw [hmade] at hresults
    have hturn : turn.results = successes tried := hresults
    unfold RunRecord.Complete at hrecord ⊢
    simp [RunRecord.notice, RunRecord.respond, RunRecord.send, hrecord, hturn]

theorem failed_of_adds (h : round.Adds policy box record record') (hrecord : record.Complete)
    {response : Response} {error : CallError} (hstopped : round.event = .stopped response error) :
    (∃ d, policy = .fillIn d) ∧ ∃ last call,
      record'.tried = record.tried ++ [last ++ [⟨call, .failed error⟩]] ∧
      record'.noticed = successes record.tried.flatten ∧
      (record'.Complete ↔ successes last = []) := by
  cases h with
  | overdue => cases hstopped
  | refused => cases hstopped
  | answered => cases hstopped
  | @stopped p delay _ _ _ tried log htried hmade =>
    cases hstopped
    have hlast := policy.concludes_conclude box.names p.conversation log htried
    rw [hmade] at hlast
    obtain ⟨last, call, rfl⟩ := hlast
    refine ⟨fillIn_of_conclude_error hmade, last, call, rfl, hrecord, ?_⟩
    have hnoticed : record.noticed = successes record.tried.flatten := hrecord
    simp [RunRecord.Complete, RunRecord.respond, RunRecord.send, hnoticed, successes_cons,
      Tried.success?, Tried.performed?]

end rounds

theorem told_of_course {policy : Policy} {provider : Provider (StateM σ)} {box : Toolbox (StateM σ)}
    {limits : Limits} {left : Nat} {p : Progress} {s s' : σ} {rounds : List Round}
    {out : Except RunError Outcome × Conversation} {record record' : RunRecord}
    (h : Course (policy.runner provider box limits) left p s rounds out s')
    (hrecorded : Recorded policy box rounds record record') (hrecord : record.Complete) :
    Told policy record' out.1 := by
  induction h generalizing record with
  | spent p s =>
    cases hrecorded
    exact ⟨fun _ => hrecord, fun cause hcause => by cases hcause⟩
  | @done left s s' round conversation result htakes hdone =>
    obtain _ | ⟨hadds, _ | _⟩ := hrecorded
    constructor
    · intro hresult
      refine complete_of_adds hadds hrecord fun response error hevent => ?_
      simp only [Round.result, hevent] at hdone
      cases hdone
      exact hresult _ rfl
    · rintro cause rfl
      obtain ⟨response, error, hevent, rfl⟩ := callFailed_of_result hdone
      obtain ⟨hpolicy, last, call, htried, hnoticed, hiff⟩ := failed_of_adds hadds hrecord hevent
      exact ⟨hpolicy, _, last, call, error, rfl, htried, hnoticed, hiff⟩
  | next htakes hnext _ ih =>
    obtain _ | ⟨hadds, hrest⟩ := hrecorded
    refine ih hrest (complete_of_adds hadds hrecord fun response error hevent => ?_)
    simp only [Round.result, hevent] at hnext
    cases hnext

/-- A provider is told, in order and once each, of the calls that ran in a run, unless a call makes
the run fail. Then it is not told of those that ran before that call in the same response. -/
theorem notices_successes (policy : Policy) (provider : Provider (StateM σ))
    (box : Toolbox (StateM σ)) (limits : Limits) (conversation : Conversation) (s : σ) :
    ∃ rounds result final s' record,
      RunsTo policy provider box limits conversation s rounds (result, final) s' record ∧
      Told policy record result := by
  obtain ⟨rounds, ⟨result, final⟩, s', record, hruns, hrecorded⟩ :=
    exists_runsTo policy provider box limits conversation s
  exact ⟨rounds, result, final, s', record, hruns, told_of_course hruns.course hrecorded rfl⟩

namespace Counter

def saying (text : String) : Provider (StateM Nat) where
  name := "saying"
  wait := pure 0
  send _ _ := pure (.ok ⟨text, []⟩)
  notice _ _ := pure ()

/-- The first expression is filled in, but the second names no tool, so the provider is not told of
the tick. -/
theorem tick_unnoticed : ∃ out s' record,
    StateT.run (((Policy.fillIn .braces).recordedRunner (saying "\x7btick()\x7d\x7bnope()\x7d") box
      .standard).run (Conversation.empty.append [.user "Count."])) (0, .empty) =
        (out, (s', record)) ∧
      successes record.tried.flatten = [(⟨"tick", []⟩, "1")] ∧ record.noticed = [] :=
  ⟨_, _, _, rfl, by decide +kernel, by decide +kernel⟩

end Counter

end ToolDialogue
