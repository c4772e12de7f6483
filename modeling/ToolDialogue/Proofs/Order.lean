import ToolDialogue.Proofs.CallTree
import ToolDialogue.Proofs.Replay

/-! The tools that a call runs: those of the calls in its tree, each once and in order. -/
namespace ToolDialogue

open Json (Value)

variable {σ α β : Type}

/-- The execution is the run of the tool of this call. -/
def Runs (box : Toolbox (StateM σ)) (call : Call) (e : Execution) : Prop :=
  e.name = call.name ∧ ∃ results, box.Binds call results e.args

/-- The executions are those of some of the calls, in order, and of all of them if `complete`. -/
def Made (box : Toolbox (StateM σ)) (calls : List Call) (complete : Prop) (trace : List Execution) :
    Prop :=
  ∃ made, made.Sublist calls ∧ (complete → made = calls) ∧ List.Forall₂ (Runs box) made trace

/-- Where a computation that makes these calls may end. It has made all of them if it comes to a
value with the property; only the last tool may have failed, and only if there is an error. -/
def Ended (box : Toolbox (StateM σ)) (calls : List Call) (P : α → Prop) (trace : List Execution) :
    Except CallError α → Prop
  | .ok a => Made box calls (P a) trace ∧ ∀ e ∈ trace, e.succeeded = true
  | .error _ => Made box calls False trace ∧ ∀ e ∈ trace.dropLast, e.succeeded = true

/-- The computation makes these calls. -/
def Makes (box : Toolbox (StateM σ)) (x : ExceptT CallError (StateM (σ × List Execution)) α)
    (calls : List Call) (P : α → Prop) : Prop :=
  ∀ s trace, ∃ r s' new, runFrom x (s, trace) = (r, (s', trace ++ new)) ∧ Ended box calls P new r

section made

variable {box : Toolbox (StateM σ)} {calls more : List Call} {p q : Prop}
  {trace later : List Execution}

theorem Made.nil (h : p → calls = []) : Made box calls p [] :=
  ⟨[], List.nil_sublist calls, fun hp => (h hp).symm, .nil⟩

theorem Made.append (h : Made box calls p trace) (h' : Made box more q later) :
    Made box (calls ++ more) (p ∧ q) (trace ++ later) := by
  obtain ⟨made, hsub, hall, hruns⟩ := h
  obtain ⟨made', hsub', hall', hruns'⟩ := h'
  refine ⟨made ++ made', hsub.append hsub', fun ⟨hp, hq⟩ => ?_, List.rel_append hruns hruns'⟩
  rw [hall hp, hall' hq]

theorem Made.imp (h : Made box calls p trace) (hqp : q → p) : Made box calls q trace := by
  obtain ⟨made, hsub, hall, hruns⟩ := h
  exact ⟨made, hsub, fun hq => hall (hqp hq), hruns⟩

theorem mem_dropLast_append {e : Execution} (h : e ∈ (trace ++ later).dropLast) :
    e ∈ trace ∨ e ∈ later.dropLast := by
  cases later with
  | nil =>
    rw [List.append_nil] at h
    exact .inl (List.dropLast_subset trace h)
  | cons first rest =>
    rw [List.dropLast_append_of_ne_nil (List.cons_ne_nil first rest)] at h
    exact List.mem_append.1 h

end made

namespace Makes

variable {box : Toolbox (StateM σ)} {x : ExceptT CallError (StateM (σ × List Execution)) α}
  {f : α → ExceptT CallError (StateM (σ × List Execution)) β} {calls more : List Call}
  {P A : α → Prop} {Q : β → Prop}

theorem pure {a : α} (h : P a → calls = []) :
    Makes box (Pure.pure a : ExceptT CallError (StateM (σ × List Execution)) α) calls P := by
  intro s trace
  exact ⟨.ok a, s, [], by simp, .nil h, by simp⟩

theorem throw (e : CallError) :
    Makes box (MonadExcept.throw e : ExceptT CallError (StateM (σ × List Execution)) α) calls P := by
  intro s trace
  exact ⟨.error e, s, [], by simp, .nil False.elim, by simp⟩

/-- One computation after another makes the calls of both. That the second one makes all of its
calls has to show that the first one did. -/
theorem bind_of_ensures (hx : Makes box x calls P) (hA : Ensures x A)
    (hf : ∀ a, A a → Makes box (f a) more Q) (hQ : ∀ a, Ensures (f a) fun b => Q b → P a) :
    Makes box (x >>= f) (calls ++ more) Q := by
  intro s trace
  obtain ⟨r, s₁, new, hrun, hended⟩ := hx s trace
  cases r with
  | error e =>
    refine ⟨.error e, s₁, new, runFrom_bind_error hrun, ?_⟩
    obtain ⟨hmade, hlast⟩ := hended
    have hnone : Made box more False [] := .nil False.elim
    refine ⟨?_, hlast⟩
    have hboth := hmade.append hnone
    rw [List.append_nil] at hboth
    exact hboth.imp False.elim
  | ok a =>
    obtain ⟨hmade, hall⟩ := hended
    obtain ⟨r, s', later, hrun', hended'⟩ := hf a (hA _ _ _ hrun) s₁ (trace ++ new)
    refine ⟨r, s', new ++ later, ?_, ?_⟩
    · rw [runFrom_bind_ok hrun, hrun', List.append_assoc]
    · cases r with
      | error e =>
        obtain ⟨hmade', hlast⟩ := hended'
        refine ⟨(hmade.append hmade').imp False.elim, fun e he => ?_⟩
        rcases mem_dropLast_append he with he | he
        · exact hall e he
        · exact hlast e he
      | ok b =>
        obtain ⟨hmade', hall'⟩ := hended'
        have hPQ := hQ a _ _ _ hrun'
        refine ⟨(hmade.append hmade').imp fun hb => ⟨hPQ hb, hb⟩, fun e he => ?_⟩
        rcases List.mem_append.1 he with he | he
        · exact hall e he
        · exact hall' e he

theorem bind (hx : Makes box x calls P) (hf : ∀ a, Makes box (f a) more Q)
    (hQ : ∀ a, Ensures (f a) fun b => Q b → P a) : Makes box (x >>= f) (calls ++ more) Q := by
  have hA : Ensures x fun _ => True := fun _ _ _ _ => trivial
  exact hx.bind_of_ensures hA (fun a _ => hf a) hQ

theorem bind_last (hx : Makes box x calls P) (hf : ∀ a, Makes box (f a) [] Q)
    (hQ : ∀ a, Ensures (f a) fun b => Q b → P a) : Makes box (x >>= f) calls Q := by
  rw [← List.append_nil calls]
  exact hx.bind hf hQ

theorem mapM {callsOf : α → List Call} {items : List α}
    (h : ∀ item ∈ items, Makes box (f item) (callsOf item) Q) :
    Makes box (items.mapM f) (items.flatMap callsOf) (fun bs => ∀ b ∈ bs, Q b) := by
  induction items with
  | nil => exact pure fun _ => rfl
  | cons item rest ih =>
    obtain ⟨hitem, hrest⟩ := List.forall_mem_cons.1 h
    rw [List.mapM_cons, List.flatMap_cons]
    refine hitem.bind (fun b => ?_) fun b => ?_
    · refine (ih hrest).bind_last (fun bs => pure fun _ => rfl) fun bs => .pure fun hall => ?_
      exact (List.forall_mem_cons.1 hall).2
    · exact .bind_last fun bs => .pure fun hall => (List.forall_mem_cons.1 hall).1

end Makes

/-- Groups stand at most `lists` deep in one another. -/
def Argument.Fits : Nat → Argument → Prop
  | 0, .group _ => False
  | lists + 1, .group items => ∀ item ∈ items, item.Fits lists
  | _, _ => True

theorem fits_of_ne_group {arg : Argument} (h : ∀ items, arg ≠ .group items) (lists : Nat) :
    arg.Fits lists := by
  cases arg with
  | group items => exact absurd rfl (h items)
  | _ => cases lists <;> trivial

theorem fits_of_convert {param : String} {type : ValueType} {arg : Argument} {v : Value}
    (h : convert param type arg = .ok v) : arg.Fits type.listDepth := by
  induction type generalizing arg v with
  | integer | float | boolean | char | string =>
    cases arg with
    | group items =>
      rw [convert_scalar rfl (by simp)] at h
      contradiction
    | _ => exact fits_of_ne_group (by simp) _
  | array elem ih | variadic elem ih =>
    cases arg with
    | group items =>
      obtain ⟨values, rfl, hvalues⟩ := items_of_convert rfl h
      exact forall_of_forall₂ hvalues.flip fun v _ item hitem => ih hitem
    | _ => exact fits_of_ne_group (by simp) _

theorem ensures_fits {param : String} {type : ValueType} {arg : Argument} :
    Ensures (converted param type arg : ExceptT CallError (StateM σ) Value)
      fun _ => arg.Fits type.listDepth := by
  unfold converted
  split
  · exact .pure (fits_of_convert (by assumption))
  · exact .throw _

section arguments

variable {box : Toolbox (StateM σ)}
  {run : Nat → Call → ExceptT CallError (StateM (σ × List Execution)) String}

theorem contains_recorded (name : String) : box.recorded.contains name = box.contains name :=
  box.contains_withBodies Tool.record name

theorem makes_converted {param : String} {type : ValueType} {arg : Argument} :
    Makes box (converted param type arg) [] fun _ => True := by
  unfold converted
  split
  · exact .pure fun _ => rfl
  · exact .throw _

variable (hrun : ∀ passed call, Makes box (run passed call) (call.requested box) fun _ => True)
include hrun

theorem makes_settle (lists passed : Nat) (arg : Argument) :
    Makes box (box.recorded.settle run lists passed arg) (arg.requested box) (Argument.Fits lists) := by
  induction lists, passed, arg using box.settle_induct with
  | known lists passed call h =>
    rw [Toolbox.settle_known _ _ (by rw [contains_recorded, h]), requested_call]
    exact (hrun passed call).bind_last (fun _ => .pure fun _ => rfl) fun _ => .pure fun _ => trivial
  | unknown passed call h =>
    rw [Toolbox.settle_unknown _ (by rw [contains_recorded, h])]
    exact .throw _
  | listed lists passed call h ih =>
    rw [Toolbox.settle_listed _ _ (by rw [contains_recorded, h]), requested_call,
      requested_unknown h]
    refine (Makes.mapM fun arg _ => ih arg).bind_last ?_ ?_
    · exact fun items => .pure fun _ => rfl
    · exact fun items => .pure fun hfits => hfits
  | closed passed items =>
    -- the calls in the group are not made; such an argument cannot be converted
    rw [Toolbox.settle_group_zero]
    exact .pure False.elim
  | group lists passed items ih =>
    rw [Toolbox.settle_group, requested_group]
    refine (Makes.mapM fun item _ => ih item).bind_last ?_ ?_
    · exact fun items => .pure fun _ => rfl
    · exact fun items => .pure fun hfits => hfits
  | plain lists passed arg hcall hgroup =>
    rw [Toolbox.settle_plain _ _ hcall hgroup, requested_plain hcall hgroup]
    exact .pure fun _ => rfl

theorem makes_valueOf (param : String) (type : ValueType) (arg : String) :
    Makes box (box.recorded.valueOf run param type arg) ((Argument.ofText arg).requested box)
      fun _ => True :=
  (makes_settle hrun type.listDepth 0 (.ofText arg)).bind_last (fun _ => makes_converted)
    fun _ => ensures_fits.imp fun _ hfits _ => hfits

theorem makes_listOf (param : String) (elem : ValueType) (args : List String) :
    Makes box (box.recorded.listOf run param elem args)
      (args.flatMap fun arg => (Argument.ofText arg).requested box) fun _ => True := by
  unfold Toolbox.listOf
  split
  · rename_i arg helem
    rw [List.flatMap_singleton]
    refine (makes_settle hrun 1 0 (.ofText arg)).bind_last (fun settled => ?_) fun settled => ?_
    · split
      · exact makes_converted
      · exact makes_converted.bind_last (fun _ => .pure fun _ => rfl) fun _ => .pure fun _ => trivial
    · split
      · rw [← ValueType.listDepth_variadic helem]
        exact ensures_fits.imp fun _ hfits _ => hfits
      · exact .bind_last fun _ => .pure fun _ => fits_of_ne_group (by assumption) 1
  · exact (Makes.mapM fun arg _ => makes_valueOf hrun param elem arg).bind_last
      (fun _ => .pure fun _ => rfl) fun _ => .pure fun _ _ _ => trivial

theorem makes_fill (slot : String × Slot) : Makes box (box.recorded.fill run slot)
    (slot.2.args.flatMap fun arg => (Argument.ofText arg).requested box) fun _ => True := by
  obtain ⟨param, ⟨type, arg⟩ | ⟨elem, args⟩⟩ := slot
  · rw [Slot.args, List.flatMap_singleton]
    exact makes_valueOf hrun param type arg
  · exact makes_listOf hrun param elem args

end arguments

section calls

variable {box : Toolbox (StateM σ)}

def Call.prepared (box : Toolbox (StateM σ)) (call : Call) : List Call :=
  call.args.flatMap fun arg => (Argument.ofText arg).requested box

theorem makes_readyWith {run : Nat → Call → ExceptT CallError (StateM (σ × List Execution)) String}
    (hrun : ∀ passed call, Makes box (run passed call) (call.requested box) fun _ => True)
    (call : Call) : Makes box (box.recorded.readyWith run call) (call.prepared box) fun _ => True := by
  cases htool : box.recorded.find? call.name with
  | none =>
    rw [Toolbox.readyWith_unknown htool]
    exact .throw _
  | some tool =>
    cases hslots : assign? tool.signature.params call.args with
    | none =>
      rw [Toolbox.readyWith_count htool hslots]
      exact .throw _
    | some slots =>
      rw [Toolbox.readyWith_slots htool hslots, Call.prepared, ← flatMap_args_assign? hslots,
        List.flatMap_assoc]
      exact (Makes.mapM fun slot _ => makes_fill hrun slot).bind_last
        (fun _ => .pure fun _ => rfl) fun _ => .pure fun _ _ _ => trivial

def ReadyFor (box : Toolbox (StateM σ)) (call : Call) (ready : ReadyCall (StateM (σ × List Execution))) :
    Prop :=
  box.contains call.name = true ∧ ∃ tool : Tool (StateM σ), tool.name = call.name ∧
    ready.tool = tool.withBody tool.record ∧ ∃ results, box.Binds call results ready.args

theorem ensures_readyFor {run : Nat → Call → ExceptT CallError (StateM (σ × List Execution)) String}
    (call : Call) : Ensures (box.recorded.readyWith run call) (ReadyFor box call) := by
  intro s ready s' h
  obtain ⟨hfind, -⟩ := ensures_readyWith call s ready s' h
  obtain ⟨results, hbinds⟩ := binds_of_readyWith h
  rw [Toolbox.recorded, Toolbox.find?_withBodies] at hfind
  obtain ⟨tool, htool, heq⟩ := Option.map_eq_some_iff.1 hfind
  refine ⟨by rw [Toolbox.contains, htool]; rfl, tool, Toolbox.name_of_find? htool, heq.symm,
    results, ?_⟩
  rw [Toolbox.Binds, Toolbox.recorded, Toolbox.idle_withBodies] at hbinds
  exact hbinds

theorem makes_run {call : Call} {ready : ReadyCall (StateM (σ × List Execution))}
    (h : ReadyFor box call ready) : Makes box ready.run [call] fun _ => True := by
  obtain ⟨-, tool, hname, htool, hbinds⟩ := h
  obtain ⟨_, args⟩ := ready
  subst htool
  intro s trace
  refine ⟨_, _, [tool.execution args s], runFrom_record tool args s trace, ?_⟩
  have hmade : ∀ p, Made box [call] p [tool.execution args s] := fun p =>
    ⟨[call], List.Sublist.refl _, fun _ => rfl, .cons ⟨hname, hbinds⟩ .nil⟩
  cases hresult : (tool.execution args s).result with
  | error e => exact ⟨hmade False, by simp⟩
  | ok content =>
    refine ⟨hmade True, fun e he => ?_⟩
    obtain rfl := List.mem_singleton.1 he
    exact Execution.succeeded_of_result hresult

theorem makes_ready_run {call : Call} {x : ExceptT CallError (StateM (σ × List Execution)) (ReadyCall _)}
    (hx : Makes box x (call.prepared box) fun _ => True) (hready : Ensures x (ReadyFor box call)) :
    Makes box (x >>= ReadyCall.run) (call.requested box) fun _ => True := by
  have hQ : ∀ ready : ReadyCall (StateM (σ × List Execution)),
      Ensures ready.run fun _ => True → True := fun _ _ _ _ _ _ => trivial
  cases h : box.contains call.name with
  | true =>
    rw [requested_known h]
    exact hx.bind_of_ensures hready (fun ready hr => makes_run hr) hQ
  | false =>
    rw [requested_unknown h, ← List.append_nil (List.flatMap _ _)]
    refine hx.bind_of_ensures hready (fun ready hr => ?_) hQ
    rw [hr.1] at h
    contradiction

theorem readyWithin_spec (room : Nat) (call : Call) :
    Makes box (box.recorded.readyWithin room call) (call.prepared box) (fun _ => True) ∧
      Ensures (box.recorded.readyWithin room call) (ReadyFor box call) := by
  -- a list written as a call takes a level too, so a call below may have much less room
  induction room using Nat.strongRecOn generalizing call with
  | ind room ih =>
    cases room with
    | zero =>
      rw [Toolbox.readyWithin_zero]
      exact ⟨.throw _, .throw _⟩
    | succ room =>
      rw [Toolbox.readyWithin_succ]
      refine ⟨makes_readyWith (fun passed inner => ?_) call, ensures_readyFor call⟩
      obtain ⟨hmakes, hready⟩ := ih (room - passed) (by omega) inner
      exact makes_ready_run hmakes hready

theorem ready_spec (call : Call) :
    Makes box (box.recorded.ready call) (call.prepared box) (fun _ => True) ∧
      Ensures (box.recorded.ready call) (ReadyFor box call) :=
  readyWithin_spec nestingLimit call

theorem makes_evaluate (call : Call) :
    Makes box (box.recorded.evaluate call) (call.requested box) fun _ => True := by
  obtain ⟨hmakes, hready⟩ := @ready_spec σ box call
  exact makes_ready_run hmakes hready

end calls

end ToolDialogue
