import ToolDialogue.Proofs.Balance
import ToolDialogue.Proofs.Nesting
import ToolDialogue.Proofs.ValueText

/-! The ways in which the values of a variadic parameter can be written: one argument for each,
one group of them all, or one call of a name that no tool has. -/
namespace ToolDialogue

open Json (Number Value)
open Text

section success

variable {α β γ : Type}

theorem pure_eq_pure {a b : α} : (pure a : ExceptT CallError Id α) = pure b ↔ a = b :=
  iff_of_eq (Except.ok.injEq a b)

theorem throw_ne_pure (e : CallError) (a : α) : (throw e : ExceptT CallError Id α) ≠ pure a := by
  intro h
  contradiction

theorem bind_eq_pure {x : ExceptT CallError Id α} {f : α → ExceptT CallError Id β} {b : β} :
    x >>= f = pure b ↔ ∃ a, x = pure a ∧ f a = pure b := by
  rcases eq_pure_or_throw x with ⟨a, rfl⟩ | ⟨e, rfl⟩
  · rw [pure_bind]
    constructor
    · exact fun h => ⟨a, rfl, h⟩
    · rintro ⟨a', ha, hf⟩
      rwa [pure_eq_pure.1 ha]
  · constructor
    · exact fun h => absurd h (throw_ne_pure e b)
    · rintro ⟨a, ha, -⟩
      exact absurd ha (throw_ne_pure e a)

theorem mapM_eq_pure {f : α → ExceptT CallError Id β} {items : List α} {values : List β} :
    items.mapM f = pure values ↔
      List.Forall₂ (fun item value => f item = pure value) items values := by
  induction items generalizing values with
  | nil => rw [List.mapM_nil, pure_eq_pure, List.forall₂_nil_left_iff, eq_comm]
  | cons item rest ih =>
    simp only [List.mapM_cons, bind_eq_pure, List.forall₂_cons_left_iff, pure_eq_pure, ih]
    constructor
    · rintro ⟨value, hvalue, tail, htail, rfl⟩
      exact ⟨value, tail, hvalue, htail, rfl⟩
    · rintro ⟨value, tail, hvalue, htail, rfl⟩
      exact ⟨value, hvalue, tail, htail, rfl⟩

theorem converted_eq_pure {param : String} {type : ValueType} {arg : Argument} {v : Value} :
    (converted param type arg : ExceptT CallError Id Value) = pure v ↔
      convert param type arg = .ok v := by
  unfold converted
  cases convert param type arg with
  | ok w => rw [Except.ok.injEq]; exact pure_eq_pure
  | error e => exact iff_of_false (throw_ne_pure _ v) (by simp)

theorem forall₂_comp {R : α → β → Prop} {S : β → γ → Prop} {as : List α} {cs : List γ} :
    (∃ bs, List.Forall₂ R as bs ∧ List.Forall₂ S bs cs) ↔
      List.Forall₂ (fun a c => ∃ b, R a b ∧ S b c) as cs := by
  constructor
  · rintro ⟨bs, hR, hS⟩
    induction hR generalizing cs with
    | nil =>
      cases hS
      exact .nil
    | cons hab _ ih =>
      cases hS with
      | cons hbc hrest => exact .cons ⟨_, hab, hbc⟩ (ih hrest)
  · intro h
    induction h with
    | nil => exact ⟨[], .nil, .nil⟩
    | cons hac _ ih =>
      obtain ⟨b, hab, hbc⟩ := hac
      obtain ⟨bs, hR, hS⟩ := ih
      exact ⟨b :: bs, .cons hab hR, .cons hbc hS⟩

end success

theorem convert_variadic_iff {param : String} {elem : ValueType} {items : List Argument} {v : Value} :
    convert param (.variadic elem) (.group items) = .ok v ↔ ∃ values, v = .array values ∧
      List.Forall₂ (fun item value => convert param elem item = .ok value) items values := by
  rw [convert_list_iff rfl (by simp), Argument.items]

namespace Toolbox

variable {box : Toolbox Id} {run : Nat → Call → ExceptT CallError Id String} {passed : Nat}
  {param : String} {elem : ValueType} {v : Value}

/-- The value of an item of a scalar type below `passed` levels of nesting. -/
def itemValue (box : Toolbox Id) (run : Nat → Call → ExceptT CallError Id String) (passed : Nat)
    (param : String) (elem : ValueType) (arg : Argument) : ExceptT CallError Id Value := do
  converted param elem (← box.settle run 0 passed arg)

theorem itemValue_group_ne_pure (hscalar : elem.isList = false) (items : List Argument)
    (v : Value) : box.itemValue run passed param elem (.group items) ≠ pure v := by
  rw [itemValue, settle_group_zero, pure_bind, ne_eq, converted_eq_pure]
  exact convert_group_ne_ok hscalar param items v

theorem itemValue_read_eq_pure (hscalar : elem.isList = false) (text : List Char) (v : Value) :
    box.itemValue run passed param elem (.read true (groupLimit - 1) text) = pure v ↔
      box.itemValue run passed param elem (.read true groupLimit text) = pure v := by
  rcases Argument.read_limits true text with ⟨arg, harg⟩ | ⟨inner, hinner⟩
  · rw [harg, harg]
  · rw [groupLimit, hinner, hinner]
    exact iff_of_false (itemValue_group_ne_pure hscalar _ v) (itemValue_group_ne_pure hscalar _ v)

def valuesOf (box : Toolbox Id) (run : Nat → Call → ExceptT CallError Id String) (passed : Nat)
    (param : String) (elem : ValueType) (args : List Argument) : ExceptT CallError Id Value := do
  converted param (.variadic elem) (.group (← args.mapM (box.settle run 0 passed)))

theorem valuesOf_eq_pure {args : List Argument} : box.valuesOf run passed param elem args = pure v ↔
    ∃ values, v = .array values ∧ List.Forall₂
      (fun arg value => box.itemValue run passed param elem arg = pure value) args values := by
  simp only [valuesOf, itemValue, bind_eq_pure, mapM_eq_pure, converted_eq_pure,
    convert_variadic_iff, ← forall₂_comp]
  constructor
  · rintro ⟨settled, hsettled, values, rfl, hvalues⟩
    exact ⟨values, rfl, settled, hsettled, hvalues⟩
  · rintro ⟨values, rfl, settled, hsettled, hvalues⟩
    exact ⟨settled, hsettled, values, rfl, hvalues⟩

/-- An argument settles to the same where a list is allowed, unless it is one, and then it is no
item of a scalar type. -/
theorem settle_one (hscalar : elem.isList = false) (arg : Argument) :
    box.settle run 1 0 arg = box.settle run 0 0 arg ∨
      (∀ a, box.settle run 1 0 arg = pure a → ∃ items, a = .group items) ∧
        ∀ v, box.itemValue run 0 param elem arg ≠ pure v := by
  cases arg with
  | call c =>
    cases hname : box.contains c.name with
    | true => exact .inl (by rw [settle_known _ _ hname, settle_known _ _ hname])
    | false =>
      refine .inr ⟨fun a h => ?_, fun v => ?_⟩
      · rw [settle_listed _ _ hname, bind_eq_pure] at h
        obtain ⟨items, -, h⟩ := h
        exact ⟨items, (pure_eq_pure.1 h).symm⟩
      · rw [itemValue, settle_unknown _ hname]
        exact throw_ne_pure _ v
  | group items =>
    refine .inr ⟨fun a h => ?_, itemValue_group_ne_pure hscalar items⟩
    rw [settle_group, bind_eq_pure] at h
    obtain ⟨items, -, h⟩ := h
    exact ⟨items, (pure_eq_pure.1 h).symm⟩
  | _ =>
    rw [settle_plain _ _ (by simp) (by simp), settle_plain _ _ (by simp) (by simp)]
    exact .inl rfl

theorem valueOf_scalar (hscalar : elem.isList = false) (arg : String) :
    box.valueOf run param elem arg = box.itemValue run 0 param elem (.ofText arg) := by
  cases elem with
  | array | variadic => contradiction
  | _ => rfl

theorem listOf_one (hscalar : elem.isList = false) (arg : String) :
    box.listOf run param elem [arg] = do
      match ← box.settle run 1 0 (.ofText arg) with
      | .group items => converted param (.variadic elem) (.group items)
      | arg => return .array [← converted param elem arg] := by
  unfold listOf
  rewrite [hscalar]
  rfl

theorem listOf_of_length_ne (hscalar : elem.isList = false) {args : List String}
    (hlen : args.length ≠ 1) : box.listOf run param elem args = do
      return .array (← args.mapM (box.valueOf run param elem)) := by
  unfold listOf
  rw [hscalar]
  match args with
  | [] | _ :: _ :: _ => rfl
  | [_] => exact absurd rfl hlen

theorem listOf_one_eq_pure (hscalar : elem.isList = false) {arg : String}
    (hlist : ∀ items, box.settle run 1 0 (.ofText arg) ≠ pure (.group items)) :
    box.listOf run param elem [arg] = pure v ↔
      ∃ value, v = .array [value] ∧ box.itemValue run 0 param elem (.ofText arg) = pure value := by
  rw [listOf_one hscalar]
  rcases @settle_one box run param elem hscalar (.ofText arg) with hsame | ⟨hgroup, hnone⟩
  · rw [itemValue, ← hsame]
    rcases eq_pure_or_throw (box.settle run 1 0 (.ofText arg)) with ⟨a, ha⟩ | ⟨e, he⟩
    · rw [ha, pure_bind, pure_bind]
      cases a with
      | group items => exact absurd ha (hlist items)
      | _ =>
        rw [bind_eq_pure]
        constructor
        · rintro ⟨value, hvalue, hv⟩
          exact ⟨value, (pure_eq_pure.1 hv).symm, hvalue⟩
        · rintro ⟨value, rfl, hvalue⟩
          exact ⟨value, hvalue, rfl⟩
    · rw [he]
      refine iff_of_false (throw_ne_pure e v) ?_
      rintro ⟨value, -, hvalue⟩
      exact throw_ne_pure e value hvalue
  · refine iff_of_false (fun h => ?_) fun ⟨value, _, hvalue⟩ => hnone value hvalue
    obtain ⟨a, ha, -⟩ := bind_eq_pure.1 h
    obtain ⟨items, rfl⟩ := hgroup a ha
    exact hlist items ha

theorem listOf_eq_pure (hscalar : elem.isList = false) {args : List String}
    (hlist : ∀ arg, args = [arg] → ∀ items,
      box.settle run 1 0 (.ofText arg) ≠ pure (.group items)) :
    box.listOf run param elem args = pure v ↔ ∃ values, v = .array values ∧
      List.Forall₂ (fun arg value => box.itemValue run 0 param elem (.ofText arg) = pure value)
        args values := by
  by_cases hlen : args.length = 1
  · obtain ⟨arg, rfl⟩ := List.length_eq_one_iff.1 hlen
    rw [listOf_one_eq_pure hscalar (hlist arg rfl)]
    constructor
    · rintro ⟨value, rfl, hvalue⟩
      exact ⟨[value], rfl, .cons hvalue .nil⟩
    · rintro ⟨values, rfl, hvalues⟩
      cases hvalues with
      | cons hvalue hrest =>
        cases hrest
        exact ⟨_, rfl, hvalue⟩
  · simp only [listOf_of_length_ne hscalar hlen, bind_eq_pure, mapM_eq_pure, pure_eq_pure,
      valueOf_scalar hscalar]
    constructor
    · rintro ⟨values, hvalues, rfl⟩
      exact ⟨values, rfl, hvalues⟩
    · rintro ⟨values, rfl, hvalues⟩
      exact ⟨values, hvalues, rfl⟩

section spellings

variable {name : String} {args : List String}

theorem listOf_group (hscalar : elem.isList = false) (h : ∀ arg ∈ args, Piece arg.toList) :
    box.listOf run param elem ["[" ++ ", ".intercalate args ++ "]"] =
      box.valuesOf run 0 param elem
        (args.map fun arg => .read true (groupLimit - 1) arg.toList) := by
  rw [listOf_one hscalar, Argument.ofText_list h, settle_group, bind_assoc]
  rfl

theorem listOf_call (hscalar : elem.isList = false) (h : ∀ arg ∈ args, Piece arg.toList)
    (hname : isIdentifier name.toList = true) (hfree : box.contains name = false) :
    box.listOf run param elem [Call.text ⟨name, args⟩] =
      box.valuesOf run 1 param elem (args.map .ofText) := by
  have hargs : args.mapM (fun arg => box.settle run 0 (0 + 1) (.ofText arg)) =
      (args.map Argument.ofText).mapM (box.settle run 0 1) :=
    mapM_congr (List.forall₂_map_right_iff.2 (List.forall₂_same.2 fun _ _ => rfl))
  rw [listOf_one hscalar, Argument.ofText_call h hname, settle_listed _ _ hfree, bind_assoc, hargs]
  rfl

end spellings

/-- A level further down, an argument either settles to the same or meets the limit. -/
theorem limited_settle (room passed : Nat) (arg : Argument) :
    limited.Rel Eq (box.settle (box.runWithin room) 0 (passed + 1) arg)
      (box.settle (box.runWithin room) 0 passed arg) := by
  cases arg with
  | call c =>
    cases hname : box.contains c.name with
    | true =>
      rw [settle_known _ _ hname, settle_known _ _ hname]
      exact limited.bind (limited_runWithin room passed c) fun r _ h => h ▸ limited_refl _
    | false =>
      rw [settle_unknown _ hname, settle_unknown _ hname]
      exact limited_refl _
  | _ =>
    rw [settle_zero _ (by simp), settle_zero _ (by simp)]
    exact limited_refl _

theorem limited_valuesOf (room passed : Nat) (args : List Argument) :
    limited.Rel Eq (box.valuesOf (box.runWithin room) (passed + 1) param elem args)
      (box.valuesOf (box.runWithin room) passed param elem args) := by
  refine limited.bind (limited.mapM fun arg _ => limited_settle room passed arg) fun a _ h => ?_
  exact h ▸ limited_refl _

/-- The call whose last value is still to come. -/
def readyWithLast (box : Toolbox Id) (run : Nat → Call → ExceptT CallError Id String)
    (tool : Tool Id) (slots : List (String × Slot)) (last : ExceptT CallError Id Value) :
    ExceptT CallError Id (ReadyCall Id) := do
  let values ← slots.mapM (box.fill run)
  return ⟨tool, values ++ [← last]⟩

section calls

variable {tool : Tool Id} {f name : String} {fixed : List Param} {description : Option String}
  {ps : List String}

theorem readyWith_variadic (htool : box.find? f = some tool)
    (hparams : tool.signature.params = fixed ++ [⟨param, .variadic elem, description⟩])
    (hlen : ps.length = fixed.length) (es : List String) :
    box.readyWith run ⟨f, ps ++ es⟩ = box.readyWithLast run tool
      ((ps.zip fixed).map fun p => (p.2.name, .single p.2.type p.1))
      (box.listOf run param elem es) := by
  have hslots : assign? tool.signature.params (ps ++ es) =
      some ((ps.zip fixed).map (fun p => (p.2.name, .single p.2.type p.1)) ++
        [(param, .rest elem es)]) := by
    rw [hparams]
    exact assign?_variadic hlen param elem description es
  rw [readyWith_slots htool hslots, List.mapM_append, readyWithLast]
  simp [fill]

theorem readyWithLast_eq_pure {slots : List (String × Slot)} {last : ExceptT CallError Id Value}
    {ready : ReadyCall Id} : box.readyWithLast run tool slots last = pure ready ↔
      ∃ values, slots.mapM (box.fill run) = pure values ∧
        ∃ v, last = pure v ∧ ⟨tool, values ++ [v]⟩ = ready := by
  simp only [readyWithLast, bind_eq_pure, pure_eq_pure]

theorem readyWithLast_congr {slots : List (String × Slot)} {last last' : ExceptT CallError Id Value}
    (h : ∀ v, last = pure v ↔ last' = pure v) (ready : ReadyCall Id) :
    box.readyWithLast run tool slots last = pure ready ↔
      box.readyWithLast run tool slots last' = pure ready := by
  simp only [readyWithLast_eq_pure, h]

theorem limited_readyWithLast (slots : List (String × Slot))
    {last last' : ExceptT CallError Id Value} (h : limited.Rel Eq last last') :
    limited.Rel Eq (box.readyWithLast run tool slots last)
      (box.readyWithLast run tool slots last') := by
  refine limited.bind (limited_refl _) fun values _ hvalues => ?_
  subst hvalues
  exact limited.bind h fun v _ hv => hv ▸ limited_refl _

/-- The three spellings of a list make the same call: if one of them is ready, the others are, with
the same values and so under the same key. -/
theorem list_spellings {es : List String} (htool : box.find? f = some tool)
    (hparams : tool.signature.params = fixed ++ [⟨param, .variadic elem, description⟩])
    (hscalar : elem.isList = false) (hps : ps.length = fixed.length)
    (hname : isIdentifier name.toList = true) (hfree : box.contains name = false)
    (hes : ∀ e ∈ es, Solid e.toList ∧ Balanced e.toList)
    (hone : ∀ e, es = [e] → ∀ items,
      box.settle (box.runWithin (nestingLimit - 1)) 1 0 (.ofText e) ≠ pure (.group items))
    (hlimit : box.ready ⟨f, ps ++ [Call.text ⟨name, es⟩]⟩ ≠ throw .nestedTooDeep)
    (ready : ReadyCall Id) :
    (box.ready ⟨f, ps ++ ["[" ++ ", ".intercalate es ++ "]"]⟩ = pure ready ↔
        box.ready ⟨f, ps ++ es⟩ = pure ready) ∧
      (box.ready ⟨f, ps ++ [Call.text ⟨name, es⟩]⟩ = pure ready ↔
        box.ready ⟨f, ps ++ es⟩ = pure ready) := by
  have hpieces : ∀ e ∈ es, Piece e.toList := fun e he => ⟨(hes e he).1, (hes e he).2.neutral⟩
  have hready : ∀ args, box.ready ⟨f, ps ++ args⟩ =
      box.readyWithLast (box.runWithin (nestingLimit - 1)) tool
        ((ps.zip fixed).map fun p => (p.2.name, .single p.2.type p.1))
        (box.listOf (box.runWithin (nestingLimit - 1)) param elem args) :=
    fun args => (readyWithin_succ 15).trans (readyWith_variadic htool hparams hps args)
  rw [hready] at hlimit
  rw [hready, hready, hready]
  constructor
  · -- in the group the items are read with room for one group less
    refine readyWithLast_congr (fun v => ?_) ready
    rw [listOf_group hscalar hpieces, valuesOf_eq_pure, listOf_eq_pure hscalar hone]
    simp only [List.forall₂_map_left_iff, itemValue_read_eq_pure hscalar]
    rfl
  · -- in the call the items stand one level further down
    rw [listOf_call hscalar hpieces hname hfree] at hlimit ⊢
    rw [eq_of_limited (limited_readyWithLast _ (limited_valuesOf _ 0 _)) hlimit]
    refine readyWithLast_congr (fun v => ?_) ready
    rw [valuesOf_eq_pure, listOf_eq_pure hscalar hone]
    simp only [List.forall₂_map_left_iff]

end calls

end Toolbox

namespace Totals

theorem itemValue_integer (run : Nat → Call → ExceptT CallError Id String) (passed : Nat)
    {e : String} {n : Int64} (he : Argument.ofText e = .number (.ofInt64 n)) :
    box.itemValue run passed "ns" .integer (.ofText e) = pure (.ofInt64 n) := by
  rw [Toolbox.itemValue, he, Toolbox.settle_plain _ _ (by simp) (by simp), pure_bind]
  exact converted_eq_pure.2 (convert_integer_number "ns" n)

/-- A list of two, spelled in three ways. -/
theorem total_spelled :
    box.ready ⟨"total", ["list(2, 3)"]⟩ = pure ⟨total, [.array [.ofInt64 2, .ofInt64 3]]⟩ ∧
      box.ready ⟨"total", ["2", "3"]⟩ = pure ⟨total, [.array [.ofInt64 2, .ofInt64 3]]⟩ ∧
      box.ready ⟨"total", ["[2, 3]"]⟩ = pure ⟨total, [.array [.ofInt64 2, .ofInt64 3]]⟩ := by
  have htool : box.find? "total" = some total := rfl
  have hparams : total.signature.params = [] ++ [⟨"ns", .variadic .integer, none⟩] := rfl
  have hes : ∀ e ∈ ["2", "3"], Solid e.toList ∧ Balanced e.toList := by
    intro e he
    obtain rfl | rfl := List.mem_pair.1 he
    · exact ⟨(Number.piece_intChars 2).solid, by decide, rfl⟩
    · exact ⟨(Number.piece_intChars 3).solid, by decide, rfl⟩
  have hpieces : ∀ e ∈ ["2", "3"], Piece e.toList :=
    fun e he => ⟨(hes e he).1, (hes e he).2.neutral⟩
  have htwo : Argument.ofText "2" = .number (.ofInt64 2) :=
    @Argument.read_intChars true groupLimit 2 (by decide)
  have hthree : Argument.ofText "3" = .number (.ofInt64 3) :=
    @Argument.read_intChars true groupLimit 3 (by decide)
  have hlist : box.listOf (box.runWithin 15) "ns" .integer ["list(2, 3)"] =
      pure (.array [.ofInt64 2, .ofInt64 3]) := by
    rw [show "list(2, 3)" = Call.text ⟨"list", ["2", "3"]⟩ by decide,
      Toolbox.listOf_call rfl hpieces (by decide) rfl, Toolbox.valuesOf_eq_pure]
    refine ⟨_, rfl, .cons ?_ (.cons ?_ .nil)⟩
    · exact itemValue_integer _ 1 htwo
    · exact itemValue_integer _ 1 hthree
  have hcall : box.ready ⟨"total", ["list(2, 3)"]⟩ =
      pure ⟨total, [.array [.ofInt64 2, .ofInt64 3]]⟩ := by
    refine (Toolbox.readyWithin_succ 15).trans ?_
    refine (@Toolbox.readyWith_variadic box _ "ns" .integer total "total" [] none [] htool hparams
      rfl ["list(2, 3)"]).trans ?_
    exact Toolbox.readyWithLast_eq_pure.2 ⟨[], rfl, _, hlist, rfl⟩
  have hlimit : box.ready ⟨"total", ["list(2, 3)"]⟩ ≠ throw .nestedTooDeep := by
    rw [hcall]
    exact (throw_ne_pure _ _).symm
  have hspellings := @Toolbox.list_spellings box "ns" .integer total "total" "list" [] none []
    ["2", "3"] htool hparams rfl rfl (by decide) rfl hes (by simp) hlimit
    ⟨total, [.array [.ofInt64 2, .ofInt64 3]]⟩
  have hspread := hspellings.2.1 hcall
  exact ⟨hcall, hspread, hspellings.1.2 hspread⟩

end Totals

end ToolDialogue
