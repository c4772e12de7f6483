import ToolDialogue.Proofs.Failures
import ToolDialogue.Proofs.Order
import ToolDialogue.Proofs.ResultText

/-! The limit of nesting, met exactly by the calls of tools that stand below too many others. Lists
that are written as calls take up levels but do not meet the limit, and groups take up none. -/
namespace ToolDialogue

open Json (Value)

section levels

variable {m : Type → Type}

/-- The second call stands in the tree of the first, below this many calls. -/
inductive Call.AtLevel : Call → Nat → Call → Prop
  | top (c : Call) : AtLevel c 0 c
  | under {c inner d : Call} {level : Nat} :
      inner ∈ c.inner → AtLevel inner level d → AtLevel c (level + 1) d

theorem Call.mem_postorder_iff {c d : Call} : d ∈ c.postorder ↔ ∃ level, c.AtLevel level d := by
  constructor
  · intro h
    induction hweight : c.weight using Nat.strongRecOn generalizing c with
    | ind weight ih =>
      rw [postorder_eq] at h
      rcases List.mem_append.1 h with h | h
      · obtain ⟨inner, hinner, hd⟩ := List.mem_flatMap.1 h
        have hlt := weight_lt_of_mem_inner hinner
        obtain ⟨level, hlevel⟩ := ih inner.weight (hweight ▸ hlt) hd rfl
        exact ⟨level + 1, .under hinner hlevel⟩
      · rw [List.mem_singleton.1 h]
        exact ⟨0, .top c⟩
  · rintro ⟨level, h⟩
    induction h with
    | top c => exact c.mem_postorder_self
    | under hinner _ ih => exact mem_postorder_of_mem_inner hinner ih

/-- Calls of tools stand in the tree below fewer than `room` calls. -/
def Call.ToolsWithin (box : Toolbox m) (c : Call) (room : Nat) : Prop :=
  ∀ level d, c.AtLevel level d → box.contains d.name = true → level < room

variable {box : Toolbox m} {c : Call} {room : Nat}

theorem Call.ToolsWithin.of_mem_inner (h : c.ToolsWithin box (room + 1)) :
    ∀ inner ∈ c.inner, inner.ToolsWithin box room :=
  fun _ hinner _ d hlevel hd => Nat.lt_of_succ_lt_succ (h _ d (.under hinner hlevel) hd)

theorem Call.toolsWithin_of_inner (hc : box.contains c.name = true → 0 < room)
    (h : ∀ inner ∈ c.inner, inner.ToolsWithin box (room - 1)) : c.ToolsWithin box room := by
  intro level d hlevel hd
  cases hlevel with
  | top => exact hc hd
  | under hinner hlevel =>
    have hlt := h _ hinner _ d hlevel hd
    omega

theorem descends_toolsWithin (room : Nat) :
    Descends fun passed c => c.ToolsWithin box (room - passed) := by
  intro passed c h inner hinner level d hlevel hd
  have hlt := h (level + 1) d (.under hinner hlevel) hd
  omega

end levels

section within

variable {σ : Type} {box : Toolbox (StateM σ)}

theorem usual_ne_limit : Usual (· ≠ .nestedTooDeep) where
  unknownTool _ := by simp
  argumentCount _ _ _ := by simp
  toolFailed _ _ := by simp
  conversion _ _ := by simp

theorem failsOnly_of_toolsWithin (room : Nat) {c : Call} (h : c.ToolsWithin box (room + 1)) :
    FailsOnly (box.readyWithin (room + 1) c) (· ≠ .nestedTooDeep) := by
  induction room using Nat.strongRecOn generalizing c with
  | ind room ih =>
    rw [Toolbox.readyWithin_succ]
    refine failsOnly_readyWith usual_ne_limit (descends_toolsWithin room)
      (fun passed d hd hbox => ?_) h.of_mem_inner
    -- a call of a tool finds room for itself, as it stands at the top of its own tree
    obtain ⟨below, hbelow⟩ : ∃ below, room - passed = below + 1 :=
      Nat.exists_eq_succ_of_ne_zero (Nat.ne_of_gt (hd 0 d (.top d) hbox))
    rw [hbelow] at hd
    rw [Toolbox.runWithin, hbelow]
    exact (ih below (by omega) hd).bind (failsOnly_run usual_ne_limit)

end within

section reached

variable {σ : Type} {box : Toolbox (StateM σ)}
  {run : Nat → Call → ExceptT CallError (StateM σ) String} {Q : Nat → Call → Prop}
  (hrun : ∀ passed c, Ensures (run passed c) fun _ => Q passed c)
  (hlist : ∀ passed c, box.contains c.name = false → (∀ inner ∈ c.inner, Q (passed + 1) inner) →
    Q passed c)
include hrun hlist

/-- Once an argument is settled, each call in it has been run or was a list; but the calls in a
group where no list is allowed are left. -/
theorem ensures_reached (lists passed : Nat) (arg : Argument) :
    Ensures (box.settle run lists passed arg) fun settled =>
      settled.Fits lists → ∀ c ∈ arg.calls, Q passed c := by
  induction lists, passed, arg using box.settle_induct with
  | known lists passed c hbox =>
    rw [Toolbox.settle_known _ _ hbox]
    refine (hrun passed c).bind fun _ hc => .pure fun _ d hd => ?_
    exact Argument.mem_calls_call.1 hd ▸ hc
  | unknown passed c hbox =>
    rw [Toolbox.settle_unknown _ hbox]
    exact .throw _
  | listed lists passed c hbox ih =>
    rw [Toolbox.settle_listed _ _ hbox]
    refine (Ensures.mapM ih).bind fun settled hall => .pure fun hfits d hd => ?_
    obtain rfl := Argument.mem_calls_call.1 hd
    refine hlist passed d hbox fun inner hinner => ?_
    obtain ⟨arg, harg, hinner⟩ := List.mem_flatMap.1 hinner
    exact forall_of_forall₂ hall.flip (fun item hitem _ h => h (hfits item hitem)) arg harg
      inner hinner
  | closed passed items =>
    rw [Toolbox.settle_group_zero]
    exact .pure False.elim
  | group lists passed items ih =>
    rw [Toolbox.settle_group]
    refine (Ensures.mapM ih).bind fun settled hall => .pure fun hfits d hd => ?_
    obtain ⟨item, hitem, hd⟩ := Argument.mem_calls_group.1 hd
    exact forall_of_forall₂ hall.flip (fun item hitem _ h => h (hfits item hitem)) item hitem d hd
  | plain lists passed arg hcall hgroup =>
    rw [Toolbox.settle_plain _ _ hcall hgroup]
    exact .pure fun _ => by simp [Argument.calls_plain hcall hgroup]

theorem ensures_reached_valueOf (param : String) (type : ValueType) (arg : String) :
    Ensures (box.valueOf run param type arg) fun _ => ∀ c ∈ (Argument.ofText arg).calls, Q 0 c :=
  (ensures_reached hrun hlist type.listDepth 0 (.ofText arg)).bind fun _ h =>
    ensures_fits.imp fun _ hfits => h hfits

theorem ensures_reached_listOf (param : String) (elem : ValueType) (args : List String) :
    Ensures (box.listOf run param elem args) fun _ =>
      ∀ arg ∈ args, ∀ c ∈ (Argument.ofText arg).calls, Q 0 c := by
  unfold Toolbox.listOf
  split
  · rename_i arg helem
    refine (ensures_reached hrun hlist 1 0 (.ofText arg)).bind fun settled h => ?_
    split
    · refine ensures_fits.imp fun _ hfits => List.forall_mem_singleton.2 (h ?_)
      exact ValueType.listDepth_variadic helem ▸ hfits
    · have hfits : settled.Fits 1 := fits_of_ne_group (by assumption) 1
      exact .bind_last fun _ => .pure (List.forall_mem_singleton.2 (h hfits))
  · exact (Ensures.mapM_forall fun arg => ensures_reached_valueOf hrun hlist param elem arg).bind
      fun _ hall => .pure hall

theorem ensures_reached_fill (slot : String × Slot) :
    Ensures (box.fill run slot) fun _ =>
      ∀ arg ∈ slot.2.args, ∀ c ∈ (Argument.ofText arg).calls, Q 0 c := by
  obtain ⟨param, ⟨type, arg⟩ | ⟨elem, args⟩⟩ := slot
  · exact (ensures_reached_valueOf hrun hlist param type arg).imp fun _ h =>
      List.forall_mem_singleton.2 h
  · exact ensures_reached_listOf hrun hlist param elem args

theorem ensures_reached_readyWith (call : Call) :
    Ensures (box.readyWith run call) fun _ => ∀ inner ∈ call.inner, Q 0 inner := by
  cases htool : box.find? call.name with
  | none =>
    rw [Toolbox.readyWith_unknown htool]
    exact .throw _
  | some tool =>
    cases hslots : assign? tool.signature.params call.args with
    | none =>
      rw [Toolbox.readyWith_count htool hslots]
      exact .throw _
    | some slots =>
      rw [Toolbox.readyWith_slots htool hslots]
      refine (Ensures.mapM_forall fun slot => ensures_reached_fill hrun hlist slot).bind
        fun args hall => .pure fun inner hinner => ?_
      obtain ⟨arg, harg, hinner⟩ := List.mem_flatMap.1 hinner
      rw [← flatMap_args_assign? hslots] at harg
      obtain ⟨slot, hslot, harg⟩ := List.mem_flatMap.1 harg
      exact hall slot hslot arg harg inner hinner

end reached

section beyond

variable {σ : Type} {box : Toolbox (StateM σ)}

theorem ensures_toolsWithin (room : Nat) (c : Call) :
    Ensures (box.readyWithin room c) fun _ => c.ToolsWithin box room := by
  induction room using Nat.strongRecOn generalizing c with
  | ind room ih =>
    cases room with
    | zero =>
      rw [Toolbox.readyWithin_zero]
      exact .throw _
    | succ room =>
      have hrun : ∀ passed d, Ensures (box.runWithin room passed d) fun _ =>
          d.ToolsWithin box (room - passed) :=
        fun passed d => (ih (room - passed) (by omega) d).bind fun _ h _ _ _ _ => h
      have hlist : ∀ (passed : Nat) (d : Call), box.contains d.name = false →
          (∀ inner ∈ d.inner, inner.ToolsWithin box (room - (passed + 1))) →
          d.ToolsWithin box (room - passed) := by
        intro passed d hbox h
        refine Call.toolsWithin_of_inner (fun hknown => ?_) h
        rw [hbox] at hknown
        contradiction
      rw [Toolbox.readyWithin_succ]
      refine (ensures_reached_readyWith hrun hlist c).imp fun _ h => ?_
      exact Call.toolsWithin_of_inner (fun _ => Nat.succ_pos room) h

end beyond

def Toolbox.takesOne {m : Type → Type} (box : Toolbox m) (name : String) : Bool :=
  (box.signature? name).any (·.accepts 1)

/-- So many calls of tools in one another, each the only argument of the one around it. -/
inductive Tower {m : Type → Type} (box : Toolbox m) : Nat → Call → Prop
  | innermost {name arg : String} : box.takesOne name = true →
      (Argument.ofText arg).calls = [] → Tower box 1 ⟨name, [arg]⟩
  | around {n : Nat} {name arg : String} {inner : Call} : box.takesOne name = true →
      Argument.ofText arg = .call inner → Tower box n inner → Tower box (n + 1) ⟨name, [arg]⟩

section towers

variable {σ : Type} {box : Toolbox (StateM σ)} {n room : Nat} {c : Call}

theorem exists_find?_of_takesOne {m : Type → Type} {box : Toolbox m} {name : String}
    (h : box.takesOne name = true) :
    ∃ tool, box.find? name = some tool ∧ tool.signature.accepts 1 = true := by
  unfold Toolbox.takesOne Toolbox.signature? at h
  cases htool : box.find? name with
  | none =>
    rw [htool] at h
    contradiction
  | some tool =>
    rw [htool] at h
    exact ⟨tool, rfl, h⟩

theorem Tower.contains (h : Tower box n c) : box.contains c.name = true := by
  cases h with
  | innermost hone | around hone =>
    obtain ⟨tool, htool, -⟩ := exists_find?_of_takesOne hone
    rw [Toolbox.contains, htool]
    rfl

theorem Tower.toolsWithin (h : Tower box n c) : c.ToolsWithin box n := by
  induction h with
  | innermost _ hplain =>
    refine Call.toolsWithin_of_inner (fun _ => Nat.one_pos) fun inner hinner => ?_
    rw [Call.inner, List.flatMap_singleton, hplain] at hinner
    contradiction
  | @around n name arg inner _ harg _ ih =>
    refine Call.toolsWithin_of_inner (fun _ => Nat.succ_pos n) fun d hd => ?_
    rw [Call.inner, List.flatMap_singleton, harg, Argument.mem_calls_call] at hd
    exact hd ▸ ih

theorem exists_slot_of_assign? {params : List Param} {arg : String} {slots : List (String × Slot)}
    (h : assign? params [arg] = some slots) :
    ∃ slot rest, slots = slot :: rest ∧ slot.2.args = [arg] := by
  generalize hargs : [arg] = args at h
  fun_cases assign? params args with
  | case1 => contradiction
  | case2 => contradiction
  | case3 name elem description =>
    rw [assign?] at h
    cases h
    exact ⟨_, [], rfl, rfl⟩
  | case4 => contradiction
  | case5 param params arg' args' hv =>
    rw [assign?] at h
    · obtain ⟨rest, -, rfl⟩ := Option.map_eq_some_iff.1 h
      obtain ⟨rfl, rfl⟩ := List.cons.inj hargs
      exact ⟨_, rest, rfl, rfl⟩
    · exact hv

theorem fill_of_failing {run : Nat → Call → ExceptT CallError (StateM σ) String}
    {slot : String × Slot} {arg : String} {inner : Call} {e : CallError} {s s' : σ}
    (hargs : slot.2.args = [arg]) (hcall : Argument.ofText arg = .call inner)
    (hknown : box.contains inner.name = true) (hrun : runFrom (run 0 inner) s = (.error e, s')) :
    runFrom (box.fill run slot) s = (.error e, s') := by
  have hsettle : ∀ lists, runFrom (box.settle run lists 0 (.ofText arg)) s = (.error e, s') := by
    intro lists
    rw [hcall, Toolbox.settle_known _ _ hknown]
    exact runFrom_bind_error hrun
  have hvalue : ∀ param type, runFrom (box.valueOf run param type arg) s = (.error e, s') :=
    fun _ _ => runFrom_bind_error (hsettle _)
  obtain ⟨param, ⟨type, arg'⟩ | ⟨elem, args⟩⟩ := slot
  · obtain rfl := List.singleton_inj.1 hargs
    exact hvalue param type
  · obtain rfl : args = [arg] := hargs
    show runFrom (box.listOf run param elem [arg]) s = _
    unfold Toolbox.listOf
    cases elem.isList with
    | false => exact runFrom_bind_error (hsettle 1)
    | true =>
      refine runFrom_bind_error ?_
      rw [List.mapM_cons]
      exact runFrom_bind_error (hvalue param elem)

/-- A tower that is too high meets the limit before any of its tools runs. -/
theorem Tower.meets_limit (h : Tower box n c) (hroom : room < n) (s : σ) :
    runFrom (box.readyWithin room c) s = (.error .nestedTooDeep, s) := by
  induction room generalizing n c with
  | zero =>
    rw [Toolbox.readyWithin_zero]
    rfl
  | succ room ih =>
    cases h with
    | innermost => omega
    | @around n name arg inner hone harg hinner =>
      obtain ⟨tool, htool, haccepts⟩ := exists_find?_of_takesOne hone
      have hassign : (assign? tool.signature.params [arg]).isSome = true :=
        (isSome_assign? tool.signature.name tool.signature.description _ [arg]).trans haccepts
      obtain ⟨slots, hslots⟩ := Option.isSome_iff_exists.1 hassign
      obtain ⟨slot, rest, rfl, hargs⟩ := exists_slot_of_assign? hslots
      have hrun : runFrom (box.runWithin room 0 inner) s = (.error .nestedTooDeep, s) :=
        runFrom_bind_error (ih hinner (by omega))
      rw [Toolbox.readyWithin_succ, Toolbox.readyWith_slots htool hslots]
      refine runFrom_bind_error ?_
      rw [List.mapM_cons]
      exact runFrom_bind_error (fill_of_failing hargs harg hinner.contains hrun)

/-- If calls of tools stand below fewer calls than the limit, none fails by the limit. If one of
them does not, the call fails. A tower of calls fails by the limit exactly if it is higher. -/
theorem nesting_limit_exact (box : Toolbox (StateM σ)) (call : Call) :
    ((∀ level c, call.AtLevel level c → box.contains c.name = true → level < nestingLimit) →
      (∀ s s', runFrom (box.evaluate call) s ≠ (.error .nestedTooDeep, s')) ∧
      ∀ log s log' s',
        StateT.run (box.callOnce call log) s ≠ ((.failed .nestedTooDeep, log'), s')) ∧
    ((∃ level c, call.AtLevel level c ∧ box.contains c.name = true ∧ nestingLimit ≤ level) →
      (∀ s, ∃ e s', runFrom (box.evaluate call) s = (.error e, s')) ∧
      ∀ log s, ∃ e s', StateT.run (box.callOnce call log) s = ((.failed e, log), s')) ∧
    ∀ n, Tower box n call → ∀ s,
      (runFrom (box.evaluate call) s).1 ≠ .error .nestedTooDeep ↔ n ≤ nestingLimit := by
  have hready : ∀ {c : Call}, c.ToolsWithin box nestingLimit →
      FailsOnly (box.ready c) (· ≠ .nestedTooDeep) := failsOnly_of_toolsWithin (nestingLimit - 1)
  refine ⟨fun h => ⟨?_, ?_⟩, ?_, fun n htower s => ⟨fun h => ?_, fun h heq => ?_⟩⟩
  · intro s s' heq
    exact (hready h).bind (failsOnly_run usual_ne_limit) s _ s' heq rfl
  · intro log s log' s' heq
    exact failsOnly_callOnce usual_ne_limit (hready h) heq rfl
  · rintro ⟨level, c, hlevel, hbox, hdeep⟩
    -- a call that is too deep could not have been made ready
    have hunready : ∀ s, ∃ e s', runFrom (box.ready call) s = (.error e, s') := by
      intro s
      cases hr : runFrom (box.ready call) s with | mk r s' =>
      cases r with
      | error e => exact ⟨e, s', rfl⟩
      | ok ready =>
        have hlt := ensures_toolsWithin nestingLimit call s ready s' hr level c hlevel hbox
        omega
    refine ⟨fun s => ?_, fun log s => ?_⟩
    · obtain ⟨e, s', he⟩ := hunready s
      exact ⟨e, s', evaluate_of_unready he⟩
    · obtain ⟨e, s', he⟩ := hunready s
      exact ⟨e, s', (CallStep.unready he).run_eq⟩
  · by_contra hn
    exact h (congrArg Prod.fst (evaluate_of_unready (htower.meets_limit (by omega) s)))
  · have hwithin : call.ToolsWithin box nestingLimit :=
      fun level c hlevel hbox => Nat.lt_of_lt_of_le (htower.toolsWithin level c hlevel hbox) h
    exact (hready hwithin).bind (failsOnly_run usual_ne_limit) s _ _ (Prod.ext heq rfl) rfl

end towers

def Call.nested (name arg : String) : Nat → Call
  | 0 => ⟨name, [arg]⟩
  | n + 1 => ⟨name, [(nested name arg n).text]⟩

theorem tower_nested {m : Type → Type} {box : Toolbox m} {name arg : String}
    (hone : box.takesOne name = true) (hname : isIdentifier name.toList = true)
    (harg : Piece arg.toList) (hplain : (Argument.ofText arg).calls = []) (n : Nat) :
    Tower box (n + 1) (.nested name arg n) := by
  have hstep : ∀ {arg : String}, Piece arg.toList →
      Argument.ofText (Call.text ⟨name, [arg]⟩) = .call ⟨name, [arg]⟩ ∧
        Piece (Call.text ⟨name, [arg]⟩).toList := by
    intro arg harg
    have hall : ∀ a ∈ [arg], Piece a.toList := List.forall_mem_singleton.2 harg
    refine ⟨Argument.ofText_call hall hname, ?_⟩
    rw [Call.text_eq_callChars]
    exact piece_callChars hname (Argument.neutral_pieces hall)
  have hnested : ∀ n, Argument.ofText (Call.nested name arg n).text = .call (.nested name arg n) ∧
      Piece (Call.nested name arg n).text.toList := by
    intro n
    induction n with
    | zero => exact hstep harg
    | succ n ih => exact hstep ih.2
  induction n with
  | zero => exact .innermost hone hplain
  | succ n ih => exact .around hone (hnested n).1 ih

namespace Echo

/-- Sixteen echoes in one another are made, seventeen are not. -/
theorem echoes_of_seven :
    Tower box 16 (.nested "echo" "7" 15) ∧
      (runFrom (box.evaluate (.nested "echo" "7" 15)) ()).1 ≠ .error .nestedTooDeep ∧
    Tower box 17 (.nested "echo" "7" 16) ∧
      (runFrom (box.evaluate (.nested "echo" "7" 16)) ()).1 = .error .nestedTooDeep := by
  have hplain : (Argument.ofText "7").calls = [] := by
    have hread : Argument.ofText "7" = .number (.integer 7 (by decide)) :=
      @Argument.read_intChars true groupLimit 7 (by decide)
    rw [hread, Argument.calls] <;> simp
  have htower : ∀ n, Tower box (n + 1) (.nested "echo" "7" n) :=
    tower_nested rfl (by decide) (Json.Number.piece_intChars 7) hplain
  refine ⟨htower 15, ?_, htower 16, ?_⟩
  · exact ((nesting_limit_exact box _).2.2 16 (htower 15) ()).2 (by decide)
  · by_contra hne
    exact absurd (((nesting_limit_exact box _).2.2 17 (htower 16) ()).1 hne) (by decide)

end Echo

end ToolDialogue
