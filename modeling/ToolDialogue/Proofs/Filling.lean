import ToolDialogue.Proofs.ResponseTurns
import ToolDialogue.Proofs.Policies
import ToolDialogue.Proofs.Segments

/-! What the fill-in strategy makes of a text. Segment by segment, literal text and expressions that
are no calls stand as they were, and a call gives way to the result that the log has for it. The
first call that fails ends the filling there. -/
namespace ToolDialogue

variable {σ : Type}

/-- Calls one after another against one log. Each starts from the state in which the one before it
left the tools. -/
inductive Chain (box : Toolbox (StateM σ)) : CallLog → σ → List (Step σ) → CallLog → σ → Prop
  | done (log : CallLog) (s : σ) : Chain box log s [] log s
  | call {step : Step σ} {rest : List (Step σ)} {log' : CallLog} {s' : σ}
      (hvalid : step.Valid box) (hrest : Chain box step.log' step.state' rest log' s') :
      Chain box step.log step.state (step :: rest) log' s'

theorem Chain.attempt {box : Toolbox (StateM σ)} {log log' : CallLog} {s s' : σ}
    {steps : List (Step σ)} (h : Chain box log s steps log' s') : Attempt box log steps log' := by
  induction h with
  | done log s => exact .done log
  | call hvalid _ ih => exact .call hvalid ih

def Step.performed? (step : Step σ) : Option Performed :=
  Tried.performed? ⟨step.call, step.outcome⟩

theorem map_entry_performed (steps : List (Step σ)) :
    (steps.filterMap Step.performed?).map Performed.entry = entered steps := by
  rw [List.map_filterMap, entered]
  congr 1
  funext step
  obtain ⟨call, log, s, outcome, log', s'⟩ := step
  cases outcome <;> rfl

namespace FillIn

/-- A segment, what stands in its place, and the call that it is, if it is one. -/
structure Place (σ : Type) where
  segment : Segment
  shown : List Char
  step? : Option (Step σ)

def shown (places : List (Place σ)) : List Char :=
  places.flatMap Place.shown

def steps (places : List (Place σ)) : List (Step σ) :=
  places.filterMap Place.step?

def performed (places : List (Place σ)) : List Performed :=
  (steps places).filterMap Step.performed?

def results (places : List (Place σ)) : List (Call × String) :=
  (performed places).map fun p => (p.call, p.result)

theorem shown_cons (place : Place σ) (places : List (Place σ)) :
    shown (place :: places) = place.shown ++ shown places :=
  List.flatMap_cons

theorem results_cons (place : Place σ) (places : List (Place σ)) :
    results (place :: places) = results [place] ++ results places := by
  have hsteps : steps (place :: places) = steps [place] ++ steps places :=
    List.filterMap_append (l := [place])
  rw [results, performed, hsteps, List.filterMap_append, List.map_append]
  rfl

theorem results_called (segment : Segment) (text : List Char) (step : Step σ) :
    results [⟨segment, text, some step⟩] =
      (Tried.success? ⟨step.call, step.outcome⟩).toList := by
  have hsteps : steps [⟨segment, text, some step⟩] = [step] := rfl
  rw [results, performed, hsteps, List.filterMap_cons, Tried.success?, Step.performed?]
  cases Tried.performed? ⟨step.call, step.outcome⟩ <;> rfl

/-- What stands in the place of a segment, once the log has come to be `final`. -/
inductive Place.Stands (d : Delimiters) (box : Toolbox (StateM σ)) (final : CallLog) :
    Place σ → Prop
  | literal (text : List Char) : Stands d box final ⟨.literal text, text, none⟩
  | kept {text : List Char} {error : NotACall} (hread : Call.read text = .error error) :
      Stands d box final ⟨.expression text, d.opener :: text ++ [d.closer], none⟩
  | called {text : List Char} {step : Step σ} {ready : ReadyCall (StateM σ)} {s : σ}
      {result : String} (hread : Call.read text = .ok step.call)
      (hready : runFrom (box.ready step.call) step.state = (.ok ready, s))
      (houtcome : step.outcome = .ran ready.key result ∨ step.outcome = .known ready.key result)
      (hfinal : final.find? ready.key = some result) :
      Stands d box final ⟨.expression text, result.toList, some step⟩

/-- The ways in which segments are filled in. -/
inductive Fills (d : Delimiters) (box : Toolbox (StateM σ)) :
    CallLog → σ → List (Place σ) → CallLog → σ → Prop
  | done (log : CallLog) (s : σ) : Fills d box log s [] log s
  | literal {log log' : CallLog} {s s' : σ} {rest : List (Place σ)} (text : List Char)
      (hrest : Fills d box log s rest log' s') :
      Fills d box log s (⟨.literal text, text, none⟩ :: rest) log' s'
  | kept {log log' : CallLog} {s s' : σ} {rest : List (Place σ)} {text : List Char}
      {error : NotACall} (hread : Call.read text = .error error)
      (hrest : Fills d box log s rest log' s') :
      Fills d box log s
        (⟨.expression text, d.opener :: text ++ [d.closer], none⟩ :: rest) log' s'
  | called {log' : CallLog} {s' : σ} {rest : List (Place σ)} {text : List Char} {step : Step σ}
      {result : String} (hread : Call.read text = .ok step.call) (hvalid : step.Valid box)
      (hresult : step.outcome.result? = some result)
      (hrest : Fills d box step.log' step.state' rest log' s') :
      Fills d box step.log step.state
        (⟨.expression text, result.toList, some step⟩ :: rest) log' s'

section fills

variable {d : Delimiters} {box : Toolbox (StateM σ)} {log log' : CallLog} {s s' : σ}
  {places : List (Place σ)}

theorem Fills.chain (h : Fills d box log s places log' s') :
    Chain box log s (steps places) log' s' := by
  induction h with
  | done log s => exact .done log s
  | literal _ _ ih => exact ih
  | kept _ _ ih => exact ih
  | called _ hvalid _ _ ih => exact .call hvalid ih

theorem Fills.entries (h : Fills d box log s places log' s') :
    log'.entries = log.entries ++ (performed places).map Performed.entry := by
  rw [entries_of_attempt h.chain.attempt, performed, map_entry_performed]

theorem Fills.stands (h : Fills d box log s places log' s') :
    ∀ place ∈ places, place.Stands d box log' := by
  induction h with
  | done => simp
  | literal text _ ih => exact List.forall_mem_cons.2 ⟨.literal text, ih⟩
  | kept hread _ ih => exact List.forall_mem_cons.2 ⟨.kept hread, ih⟩
  | called hread hvalid hresult hrest ih =>
    obtain ⟨ready, s₁, hready, houtcome, hfind⟩ :=
      find?_of_result (run_callOnce_iff.1 hvalid) hresult
    have hfinal := find?_of_entries hrest.entries hfind
    exact List.forall_mem_cons.2 ⟨.called hread hready houtcome hfinal, ih⟩

/-- Puts what stands in these places in front of what is made of the segments behind them. -/
def before (places : List (Place σ))
    (behind : Except CallError (List Char × List (Call × String))) :
    Except CallError (List Char × List (Call × String)) :=
  behind.map (Prod.map (shown places ++ ·) (results places ++ ·))

theorem before_nil (behind : Except CallError (List Char × List (Call × String))) :
    before ([] : List (Place σ)) behind = behind := by
  cases behind <;> rfl

theorem before_cons (place : Place σ) (places : List (Place σ))
    (behind : Except CallError (List Char × List (Call × String))) :
    before (place :: places) behind =
      (before places behind).map (Prod.map (place.shown ++ ·) (results [place] ++ ·)) := by
  cases behind with
  | error e => rfl
  | ok made =>
    rw [before, before, shown_cons, results_cons]
    simp [Except.map, Prod.map]

theorem Fills.run_append (h : Fills d box log s places log' s') {later : List Segment}
    {behind : Except CallError (List Char × List (Call × String))} {final : CallLog} {s'' : σ}
    (hlater : StateT.run (fill d box later log') s' = ((behind, final), s'')) :
    StateT.run (fill d box (places.map Place.segment ++ later) log) s =
      ((before places behind, final), s'') := by
  induction h with
  | done log s => rw [List.map_nil, List.nil_append, hlater, before_nil]
  | literal text _ ih =>
    rw [List.map_cons, List.cons_append, fill, run_bind_of_run (ih hlater), before_cons]
    rfl
  | kept hread _ ih =>
    rw [List.map_cons, List.cons_append, fill, hread]
    dsimp only
    rw [run_bind_of_run (ih hlater), before_cons]
    rfl
  | @called _ _ _ text step result hread hvalid hresult _ ih =>
    have hstep : StateT.run (box.callOnce step.call step.log) step.state =
      ((step.outcome, step.log'), step.state') := hvalid
    rw [List.map_cons, List.cons_append, fill, hread]
    dsimp only
    rw [run_bind_of_run hstep, before_cons, results_called]
    cases houtcome : step.outcome with
    | ran =>
      rw [houtcome] at hresult
      cases hresult
      dsimp only
      rw [run_bind_of_run (ih hlater)]
      rfl
    | known =>
      rw [houtcome] at hresult
      cases hresult
      dsimp only
      rw [run_bind_of_run (ih hlater)]
      rfl
    | failed =>
      rw [houtcome] at hresult
      contradiction

/-- Segments are filled in all, or up to the leftmost call that fails. -/
inductive Goes (d : Delimiters) (box : Toolbox (StateM σ)) (segments : List Segment)
    (log : CallLog) (s : σ) : Prop
  | through {places : List (Place σ)} {log' : CallLog} {s' : σ}
      (hsegments : segments = places.map Place.segment) (hfills : Fills d box log s places log' s') :
      Goes d box segments log s
  | fails {places : List (Place σ)} {text : List Char} {later : List Segment} {call : Call}
      {error : CallError} {log' : CallLog} {s₁ s' : σ}
      (hsegments : segments = places.map Place.segment ++ .expression text :: later)
      (hfills : Fills d box log s places log' s₁) (hread : Call.read text = .ok call)
      (hfailed : CallStep box call log' s₁ (.failed error) log' s') : Goes d box segments log s

theorem Goes.cons {place : Place σ} {segments : List Segment} {log₁ : CallLog} {s₁ : σ}
    (h : Goes d box segments log₁ s₁)
    (hplace : ∀ {rest log' s'}, Fills d box log₁ s₁ rest log' s' →
      Fills d box log s (place :: rest) log' s') : Goes d box (place.segment :: segments) log s := by
  cases h with
  | through hsegments hfills =>
    rw [hsegments]
    exact .through rfl (hplace hfills)
  | fails hsegments hfills hread hfailed =>
    rw [hsegments]
    exact .fails rfl (hplace hfills) hread hfailed

theorem goes (d : Delimiters) (box : Toolbox (StateM σ)) (segments : List Segment)
    (log : CallLog) (s : σ) : Goes d box segments log s := by
  induction segments generalizing log s with
  | nil => exact .through rfl (.done log s)
  | cons segment rest ih =>
    cases segment with
    | literal text => exact (ih log s).cons (.literal text)
    | expression text =>
      cases hread : Call.read text with
      | error e => exact (ih log s).cons (.kept hread)
      | ok call =>
        obtain ⟨outcome, log₁, s₁, hstep⟩ := exists_callStep box call log s
        have hvalid : Step.Valid box ⟨call, log, s, outcome, log₁, s₁⟩ := hstep.run_eq
        cases outcome with
        | ran key result => exact (ih log₁ s₁).cons (.called hread hvalid rfl)
        | known key previous => exact (ih log₁ s₁).cons (.called hread hvalid rfl)
        | failed error =>
          obtain rfl := log_of_entry?_eq_none hstep rfl
          exact .fails (List.nil_append _) (.done _ s) hread hstep

/-- What filling segments in comes to. Each segment has a place, in order, and the calls among them
were made one after another. The log grows by those that ran. -/
structure Filled (d : Delimiters) (box : Toolbox (StateM σ)) (segments : List Segment)
    (log : CallLog) (s : σ) (places : List (Place σ)) (log' : CallLog) (s' : σ) : Prop where
  segments : segments = places.map Place.segment
  stands : ∀ place ∈ places, place.Stands d box log'
  chain : Chain box log s (steps places) log' s'
  entries : log'.entries = log.entries ++ (performed places).map Performed.entry

theorem Fills.filled (h : Fills d box log s places log' s') :
    Filled d box (places.map Place.segment) log s places log' s' :=
  ⟨rfl, h.stands, h.chain, h.entries⟩

end fills

section responses

variable {m : Type → Type} [Monad m] [LawfulMonad m]

theorem fill_of_no_calls (d : Delimiters) (box : Toolbox m) {segments : List Segment}
    (h : callsIn segments = []) (log : CallLog) :
    fill d box segments log = pure (.ok (segments.flatMap (Segment.source d), []), log) := by
  induction segments with
  | nil => rfl
  | cons segment rest ih =>
    cases segment with
    | literal text =>
      rw [fill, ih h, pure_bind]
      rfl
    | expression text =>
      rw [callsIn] at h
      rw [fill]
      cases hread : Call.read text with
      | error e =>
        rw [hread] at h
        dsimp only
        rw [ih h, pure_bind]
        rfl
      | ok call =>
        rw [hread] at h
        contradiction

theorem process_of_no_calls (d : Delimiters) (box : Toolbox m) {response : Response}
    (h : callsIn (Segment.split d response.text.toList) = []) (log : CallLog) :
    process d box response log = pure (.ok ⟨.finishFilled, [.assistant response.text], []⟩, log) := by
  rw [process, fill_of_no_calls d box h, pure_bind, Segment.flatMap_source_split]
  simp [Except.map]

end responses

theorem run_process {d : Delimiters} {box : Toolbox (StateM σ)} {response : Response}
    {log log' : CallLog} {s s' : σ} {made : Except CallError (List Char × List (Call × String))}
    (h : StateT.run (fill d box (Segment.split d response.text.toList) log) s =
      ((made, log'), s')) :
    StateT.run (process d box response log) s =
      ((made.map fun (text, results) =>
        ⟨.finishFilled, [.assistant (String.ofList text)], results⟩, log'), s') := by
  rw [process, run_bind_of_run h]
  rfl

/-- Filling in substitutes in the segments of the response. If it succeeds, its one message has the
segments in order: literal text and expressions that are no calls as they were, and for each call
the result that the log has in the end under the key of the call. If it fails, it does so at the
leftmost call that fails. What stands before that was filled in, and it does not matter what follows.
Without a call among its segments, the text stays as it was. -/
theorem fillIn_substitutes (d : Delimiters) (box : Toolbox (StateM σ)) (conversation : Conversation)
    (response : Response) (log : CallLog) (s : σ) :
    ∃ made log' s',
      StateT.run ((Strategy.fillIn d).process box conversation response log) s =
        ((made, log'), s') ∧
      (∀ turn, made = .ok turn → ∃ places,
        Filled d box (Segment.split d response.text.toList) log s places log' s' ∧
        turn = ⟨.finishFilled, [.assistant (String.ofList (shown places))], results places⟩) ∧
      (∀ error, made = .error error → ∃ earlier text later call places s₁,
        Segment.split d response.text.toList = earlier ++ .expression text :: later ∧
        Filled d box earlier log s places log' s₁ ∧ Call.read text = .ok call ∧
        StateT.run (box.callOnce call log') s₁ = ((.failed error, log'), s') ∧
        ∀ later', StateT.run (fill d box (earlier ++ .expression text :: later') log) s =
          ((.error error, log'), s')) ∧
      (callsIn (Segment.split d response.text.toList) = [] →
        made = .ok ⟨.finishFilled, [.assistant response.text], []⟩ ∧ log' = log ∧ s' = s) := by
  have hunchanged : ∀ {made log' s'}, StateT.run (process d box response log) s =
      ((made, log'), s') → callsIn (Segment.split d response.text.toList) = [] →
      made = .ok ⟨.finishFilled, [.assistant response.text], []⟩ ∧ log' = log ∧ s' = s := by
    intro made log' s' hrun hcalls
    rw [process_of_no_calls d box hcalls] at hrun
    cases hrun
    exact ⟨rfl, rfl, rfl⟩
  cases goes d box (Segment.split d response.text.toList) log s with
  | @through places log' s' hsegments hfills =>
    have hnothing : StateT.run (fill d box [] log') s' = ((.ok ([], []), log'), s') := rfl
    have hfill := hfills.run_append hnothing
    rw [List.append_nil, ← hsegments] at hfill
    have hrun := run_process hfill
    refine ⟨_, log', s', hrun, ?_, ?_, hunchanged hrun⟩
    · intro turn hturn
      cases hturn
      refine ⟨places, hsegments ▸ hfills.filled, ?_⟩
      simp
    · intro error herror
      contradiction
  | @fails places text later call error log' s₁ s' hsegments hfills hread hfailed =>
    have hends : ∀ later', StateT.run (fill d box (places.map Place.segment ++
        .expression text :: later') log) s = ((.error error, log'), s') := by
      intro later'
      have hfailing : StateT.run (fill d box (.expression text :: later') log') s₁ =
          ((.error error, log'), s') := by
        rw [fill, hread]
        dsimp only
        rw [run_bind_of_run hfailed.run_eq]
        rfl
      exact hfills.run_append hfailing
    have hfill := hends later
    rw [← hsegments] at hfill
    have hrun := run_process hfill
    refine ⟨_, log', s', hrun, ?_, ?_, hunchanged hrun⟩
    · intro turn hturn
      contradiction
    · intro error' herror
      cases herror
      exact ⟨_, text, later, call, places, s₁, hsegments, hfills.filled, hread, hfailed.run_eq,
        hends⟩

end FillIn

end ToolDialogue
