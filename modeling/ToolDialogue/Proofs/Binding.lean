import ToolDialogue.Evaluation

/-! How the arguments of a call are shared out to the parameters of its tool. -/
namespace ToolDialogue

open Json (Value)

def Slot.type : Slot → ValueType
  | single type _ => type
  | rest elem _ => .variadic elem

def Slot.args : Slot → List String
  | single _ arg => [arg]
  | rest _ args => args

/-- The slot at a position, looked up in the lists by its index; none if an index is out of
range. A variadic parameter takes all arguments from its own position on if it is the last. -/
def slotAt? (params : List Param) (args : List String) (i : Nat) : Option (String × Slot) := do
  let param ← params[i]?
  match param.type with
  | .variadic elem =>
    if i + 1 = params.length then
      if i ≤ args.length then some (param.name, .rest elem (args.drop i)) else none
    else return (param.name, .single param.type (← args[i]?))
  | _ => return (param.name, .single param.type (← args[i]?))

section assign

variable {param : Param} {params : List Param} {arg : String} {args : List String}
  {slots : List (String × Slot)}

theorem map_type_assign? (h : assign? params args = some slots) :
    slots.map (fun slot => slot.2.type) = params.map Param.type := by
  fun_induction assign? params args generalizing slots with
  | case1 =>
    cases h
    rfl
  | case2 | case4 => contradiction
  | case3 name elem description args =>
    cases h
    rfl
  | case5 p params arg args _ ih =>
    obtain ⟨rest, hrest, rfl⟩ := Option.map_eq_some_iff.1 h
    rw [List.map_cons, List.map_cons, ih hrest]
    rfl

theorem flatMap_args_assign? (h : assign? params args = some slots) :
    slots.flatMap (fun slot => slot.2.args) = args := by
  fun_induction assign? params args generalizing slots with
  | case1 =>
    cases h
    rfl
  | case2 | case4 => contradiction
  | case3 name elem description args =>
    cases h
    simp [Slot.args]
  | case5 p params arg args _ ih =>
    obtain ⟨rest, hrest, rfl⟩ := Option.map_eq_some_iff.1 h
    rw [List.flatMap_cons, ih hrest]
    rfl

theorem isVariadic_eq_false {params : List Param}
    (h : ∀ (name : String) (elem : ValueType) (description : Option String),
      param = ⟨name, .variadic elem, description⟩ → params = [] → False) :
    params = [] → param.type.isVariadic = false := by
  obtain ⟨name, type, description⟩ := param
  intro hnil
  cases type with
  | variadic elem => exact (h name elem description rfl hnil).elim
  | _ => rfl

section accepts

variable {name description : String}

theorem length_pos_of_isVariadic (hv : Signature.isVariadic ⟨name, description, params⟩ = true) :
    0 < params.length := by
  cases params with
  | nil => simp [Signature.isVariadic] at hv
  | cons next rest => exact Nat.succ_pos _

variable (h : params = [] → param.type.isVariadic = false)
include h

theorem isVariadic_cons : Signature.isVariadic ⟨name, description, param :: params⟩ =
    Signature.isVariadic ⟨name, description, params⟩ := by
  cases params with
  | nil => simpa [Signature.isVariadic] using h rfl
  | cons next rest => simp [Signature.isVariadic]

theorem accepts_cons_zero :
    Signature.accepts ⟨name, description, param :: params⟩ 0 = false := by
  unfold Signature.accepts Signature.minArgs
  rw [isVariadic_cons h]
  split
  · have hpos := length_pos_of_isVariadic (by assumption)
    simp only [List.length_cons, decide_eq_false_iff_not]
    omega
  · simp

theorem accepts_cons_succ (count : Nat) :
    Signature.accepts ⟨name, description, param :: params⟩ (count + 1) =
      Signature.accepts ⟨name, description, params⟩ count := by
  unfold Signature.accepts Signature.minArgs
  rw [isVariadic_cons h]
  split
  · have hpos := length_pos_of_isVariadic (by assumption)
    simp only [List.length_cons, decide_eq_decide]
    omega
  · simp

end accepts

theorem isSome_assign? (name description : String) (params : List Param) (args : List String) :
    (assign? params args).isSome = Signature.accepts ⟨name, description, params⟩ args.length := by
  fun_induction assign? params args with
  | case1 => rfl
  | case2 arg args => simp [Signature.accepts, Signature.isVariadic]
  | case3 param elem text args =>
    simp [Signature.accepts, Signature.isVariadic, Signature.minArgs, ValueType.isVariadic]
  | case4 param params h => rw [List.length_nil, accepts_cons_zero (isVariadic_eq_false h)]; rfl
  | case5 param params arg args h ih =>
    rw [List.length_cons, accepts_cons_succ (isVariadic_eq_false h), ← ih, Option.isSome_map]

theorem slotAt?_cons_zero (h : params = [] → param.type.isVariadic = false) :
    slotAt? (param :: params) (arg :: args) 0 = some (param.name, .single param.type arg) := by
  obtain ⟨name, type, description⟩ := param
  cases type with
  | variadic elem =>
    have hne : params.length ≠ 0 := by
      intro hlen
      exact absurd (h (List.length_eq_zero_iff.1 hlen)) (by simp [ValueType.isVariadic])
    simp [slotAt?, hne]
  | _ => simp [slotAt?]

theorem slotAt?_cons_succ (i : Nat) :
    slotAt? (param :: params) (arg :: args) (i + 1) = slotAt? params args i := by
  simp [slotAt?]

/-- Each slot is the one found by its index, so no index of it is out of range. -/
theorem getElem?_assign? (h : assign? params args = some slots) (i : Nat) :
    slots[i]? = slotAt? params args i := by
  fun_induction assign? params args generalizing slots i with
  | case1 =>
    cases h
    rfl
  | case2 | case4 => contradiction
  | case3 name elem description args =>
    cases h
    cases i <;> simp [slotAt?]
  | case5 param params arg args hv ih =>
    obtain ⟨rest, hrest, rfl⟩ := Option.map_eq_some_iff.1 h
    cases i with
    | zero => rw [List.getElem?_cons_zero, slotAt?_cons_zero (isVariadic_eq_false hv)]
    | succ i => rw [List.getElem?_cons_succ, slotAt?_cons_succ, ih hrest]

theorem assign?_of_fixed (hv : ∀ p ∈ params, p.type.isVariadic = false)
    (hlen : args.length = params.length) : assign? params args =
      some ((args.zip params).map fun p => (p.2.name, .single p.2.type p.1)) := by
  fun_induction assign? params args with
  | case1 => rfl
  | case2 | case4 => contradiction
  | case3 => simp [ValueType.isVariadic] at hv
  | case5 param params arg args _ ih =>
    rw [ih (fun p hp => hv p (List.mem_cons_of_mem _ hp)) (Nat.succ.inj hlen)]
    rfl

/-- A variadic parameter at the end takes what the parameters before it leave. -/
theorem assign?_variadic {fixed : List Param} (hlen : args.length = fixed.length) (name : String)
    (elem : ValueType) (description : Option String) (others : List String) :
    assign? (fixed ++ [⟨name, .variadic elem, description⟩]) (args ++ others) =
      some ((args.zip fixed).map (fun p => (p.2.name, .single p.2.type p.1)) ++
        [(name, .rest elem others)]) := by
  induction fixed generalizing args with
  | nil =>
    obtain rfl := List.length_eq_zero_iff.1 hlen
    rw [List.nil_append, assign?]
    rfl
  | cons param fixed ih =>
    cases args with
    | nil => contradiction
    | cons arg args =>
      rw [List.cons_append, List.cons_append, assign?, ih (Nat.succ.inj hlen)]
      · rfl
      · intro _ _ _ _ hnil
        exact absurd hnil (List.append_ne_nil_of_right_ne_nil fixed (List.cons_ne_nil _ _))

end assign

namespace Toolbox

variable {m : Type → Type} {box : Toolbox m} {tool : Tool m}

theorem name_of_find? {name : String} (h : box.find? name = some tool) : tool.name = name := by
  simpa using List.find?_some h

theorem mem_of_find? {name : String} (h : box.find? name = some tool) : tool ∈ box.tools :=
  List.mem_of_find?_eq_some h

variable [Monad m] {run : Nat → Call → ExceptT CallError m String} {call : Call}
  {slots : List (String × Slot)}

theorem settle_known (lists passed : Nat) (h : box.contains call.name = true) :
    box.settle run lists passed (.call call) = do return .ofResult (← run passed call) := by
  cases lists <;> rw [settle, if_pos h]

theorem settle_unknown (passed : Nat) (h : box.contains call.name = false) :
    box.settle run 0 passed (.call call) = throw (.unknownTool call.name) := by
  rw [settle, if_neg (by simp [h])]

theorem settle_listed (lists passed : Nat) (h : box.contains call.name = false) :
    box.settle run (lists + 1) passed (.call call) = do
      return .group (← call.args.mapM fun arg => box.settle run lists (passed + 1) (.ofText arg)) := by
  rw [settle, if_neg (by simp [h])]

theorem settle_group (lists passed : Nat) (items : List Argument) :
    box.settle run (lists + 1) passed (.group items) = do
      return .group (← items.mapM (box.settle run lists passed)) := by
  rw [settle]

theorem settle_group_zero (passed : Nat) (items : List Argument) :
    box.settle run 0 passed (.group items) = pure (.group items) := by
  rw [settle] <;> simp

theorem settle_plain (lists passed : Nat) {arg : Argument} (hc : ∀ c, arg ≠ .call c)
    (hg : ∀ items, arg ≠ .group items) : box.settle run lists passed arg = pure arg := by
  cases arg with
  | call c => exact absurd rfl (hc c)
  | group items => exact absurd rfl (hg items)
  | _ => rw [settle] <;> simp

/-- Where no list is allowed only calls are evaluated. -/
theorem settle_zero (passed : Nat) {arg : Argument} (hc : ∀ c, arg ≠ .call c) :
    box.settle run 0 passed arg = pure arg := by
  cases arg with
  | call c => exact absurd rfl (hc c)
  | group items => exact settle_group_zero passed items
  | _ => exact settle_plain 0 passed hc (by simp)

omit [Monad m] in
/-- The cases that settling tells apart. What is shown may be used of the items of a list. -/
theorem settle_induct (box : Toolbox m) {motive : Nat → Nat → Argument → Prop}
    (known : ∀ lists passed call, box.contains call.name = true →
      motive lists passed (.call call))
    (unknown : ∀ passed call, box.contains call.name = false → motive 0 passed (.call call))
    (listed : ∀ lists passed call, box.contains call.name = false →
      (∀ arg, motive lists (passed + 1) (.ofText arg)) → motive (lists + 1) passed (.call call))
    (closed : ∀ passed items, motive 0 passed (.group items))
    (group : ∀ lists passed items, (∀ item, motive lists passed item) →
      motive (lists + 1) passed (.group items))
    (plain : ∀ lists passed arg, (∀ c, arg ≠ .call c) → (∀ items, arg ≠ .group items) →
      motive lists passed arg)
    (lists passed : Nat) (arg : Argument) : motive lists passed arg := by
  induction lists generalizing passed arg with
  | zero =>
    cases arg with
    | call call =>
      cases h : box.contains call.name with
      | true => exact known 0 passed call h
      | false => exact unknown passed call h
    | group items => exact closed passed items
    | _ => exact plain 0 passed _ (by simp) (by simp)
  | succ lists ih =>
    cases arg with
    | call call =>
      cases h : box.contains call.name with
      | true => exact known (lists + 1) passed call h
      | false => exact listed lists passed call h fun arg => ih (passed + 1) (.ofText arg)
    | group items => exact group lists passed items fun item => ih passed item
    | _ => exact plain (lists + 1) passed _ (by simp) (by simp)

def fill (box : Toolbox m) (run : Nat → Call → ExceptT CallError m String) :
    String × Slot → ExceptT CallError m Value
  | (param, .single type arg) => box.valueOf run param type arg
  | (param, .rest elem args) => box.listOf run param elem args

theorem readyWith_unknown (h : box.find? call.name = none) :
    box.readyWith run call = throw (.unknownTool call.name) := by
  rw [readyWith, h]

theorem readyWith_count (h : box.find? call.name = some tool)
    (hs : assign? tool.signature.params call.args = none) : box.readyWith run call =
      throw (.argumentCount call.name tool.signature.arity call.args.length) := by
  rw [readyWith, h]
  simp only [hs]

theorem readyWith_slots (h : box.find? call.name = some tool)
    (hs : assign? tool.signature.params call.args = some slots) :
    box.readyWith run call = do return ⟨tool, ← slots.mapM (box.fill run)⟩ := by
  rw [readyWith, h]
  simp only [hs]
  rfl

/-- Evaluates a call that stands below `passed` levels of nesting out of `room`. -/
def runWithin (box : Toolbox m) (room passed : Nat) (call : Call) : ExceptT CallError m String := do
  (← box.readyWithin (room - passed) call).run

theorem readyWithin_zero : box.readyWithin 0 call = throw .nestedTooDeep := by
  rw [readyWithin]

theorem readyWithin_succ (room : Nat) :
    box.readyWithin (room + 1) call = box.readyWith (box.runWithin room) call := by
  rw [readyWithin]
  rfl

end Toolbox

end ToolDialogue
