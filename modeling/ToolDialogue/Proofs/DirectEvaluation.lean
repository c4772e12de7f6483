import ToolDialogue.Proofs.Binding
import ToolDialogue.Proofs.Tree
import ToolDialogue.Tool.Stock

/-! A well-typed expression tree, written as text, read as a call and evaluated with stateless
tools, comes to what direct evaluation of the tree gives. -/
namespace ToolDialogue

open Json (Number Value)
open Text

variable {m : Type → Type} [Monad m]

/-- A stateless tool with plain parameters: its output is that of `body`, which gives values of
one plain type. -/
structure Tool.Computes (tool : Tool m) (result : ValueType)
    (body : List Value → Except ToolFailure Value) : Prop where
  params_plain : ∀ p ∈ tool.signature.params, p.type.isPlain = true
  result_plain : result.isPlain = true
  run_eq : ∀ {args : List Value}, ConformsAll (tool.signature.params.map Param.type) args →
    tool.run args = pure ((body args).map Output.ofValue)
  conforms : ∀ {args : List Value} {v : Value},
    ConformsAll (tool.signature.params.map Param.type) args → body args = .ok v → Conforms result v

section gives

variable {α β γ δ : Type}

/-- The computation has no effect and comes to the result, up to a relation of values. -/
def Gives (x : ExceptT CallError m α) (result : Except (String × ToolFailure) β)
    (R : α → β → Prop) : Prop :=
  match result with
  | .ok b => ∃ a, x = pure a ∧ R a b
  | .error failure => x = throw (.toolFailed failure.1 failure.2)

variable [LawfulMonad m] {x : ExceptT CallError m α} {result : Except (String × ToolFailure) β}
  {R : α → β → Prop} {S : γ → δ → Prop}

theorem Gives.bind {f : α → ExceptT CallError m γ} {g : β → Except (String × ToolFailure) δ}
    (hx : Gives x result R) (hf : ∀ a b, result = .ok b → R a b → Gives (f a) (g b) S) :
    Gives (x >>= f) (result >>= g) S := by
  cases result with
  | ok b =>
    obtain ⟨a, rfl, hR⟩ := hx
    rw [pure_bind]
    exact hf a b rfl hR
  | error failure =>
    have hx : x = throw (.toolFailed failure.1 failure.2) := hx
    rw [hx]
    show throw (CallError.toolFailed failure.1 failure.2) >>= f = throw _
    exact ExceptT.bind_throw f

theorem Gives.step {T : γ → β → Prop} {f : α → ExceptT CallError m γ} (hx : Gives x result R)
    (hf : ∀ a b, result = .ok b → R a b → ∃ c, f a = pure c ∧ T c b) :
    Gives (x >>= f) result T := by
  rw [← bind_pure result]
  exact hx.bind hf

theorem Gives.mapM {f : α → ExceptT CallError m γ} {g : β → Except (String × ToolFailure) δ}
    {as : List α} {bs : List β} (h : List.Forall₂ (fun a b => Gives (f a) (g b) S) as bs) :
    Gives (as.mapM f) (bs.mapM g) (List.Forall₂ S) := by
  induction h with
  | nil => exact ⟨[], rfl, .nil⟩
  | cons hab _ ih =>
    rw [List.mapM_cons, List.mapM_cons]
    refine hab.bind fun c d _ hcd => ih.bind fun cs ds _ hcds => ?_
    exact ⟨c :: cs, rfl, .cons hcd hcds⟩

omit [LawfulMonad m] in
theorem Gives.of_splits {value? : Option β} {error? : Option (String × ToolFailure)}
    (hx : Gives x result R) (hs : Tree.Splits result value? error?) :
    (∀ name failure, error? = some (name, failure) → x = throw (.toolFailed name failure)) ∧
      (error? = none → ∃ b, value? = some b ∧ ∃ a, x = pure a ∧ R a b) := by
  cases result with
  | ok b =>
    obtain ⟨hv, he⟩ := hs
    refine ⟨fun name failure h => ?_, fun _ => ⟨b, hv, hx⟩⟩
    rw [he] at h
    contradiction
  | error e =>
    obtain ⟨-, he⟩ := hs
    refine ⟨fun name failure h => ?_, fun h => ?_⟩
    · rw [he] at h
      cases h
      exact hx
    · rw [he] at h
      contradiction

end gives

theorem conformsAll_of_mapM {bodies : String → List Value → Except ToolFailure Value}
    {args : List Tree} {params : List Param} {values : List Value}
    (hlen : args.length = params.length)
    (h : ∀ p ∈ args.zip params, ∀ v, p.1.direct bodies = .ok v → Conforms p.2.type v)
    (hv : args.mapM (Tree.direct bodies) = .ok values) :
    ConformsAll (params.map Param.type) values := by
  replace hv := mapM_eq_ok_iff.1 hv
  induction hv generalizing params with
  | nil =>
    obtain rfl := List.length_eq_zero_iff.1 hlen.symm
    exact .nil
  | @cons arg value args values hfirst _ ih =>
    cases params with
    | nil => contradiction
    | cons param params =>
      have hp := h (arg, param) (by simp) value hfirst
      exact .cons hp (ih (Nat.succ.inj hlen) fun p hp => h p (List.mem_cons_of_mem _ hp))

section arguments

variable [LawfulMonad m] {box : Toolbox m} {bodies : String → List Value → Except ToolFailure Value}

theorem run_of_computes {tool : Tool m} {result : ValueType}
    {body : List Value → Except ToolFailure Value} (h : tool.Computes result body)
    {args : List Value} (hargs : ConformsAll (tool.signature.params.map Param.type) args) :
    Gives (ReadyCall.run ⟨tool, args⟩) ((body args).mapError (tool.name, ·))
      (fun content v => content = (Output.ofValue v).content) := by
  have hrun := h.run_eq hargs
  cases hbody : body args with
  | ok v =>
    refine ⟨_, ?_, rfl⟩
    rw [ReadyCall.run, hrun, hbody, pure_bind]
    rfl
  | error failure =>
    rw [ReadyCall.run, hrun, hbody, pure_bind]
    rfl

/-- How an argument stands for a value of a type. -/
def Denotes (type : ValueType) (arg : Argument) (v : Value) : Prop :=
  ∀ param, convert param type arg = .ok v

theorem gives_valueOf {run : Nat → Call → ExceptT CallError m String} {type : ValueType} {t : Tree}
    {r : Except (String × ToolFailure) Value} (param : String)
    (h : Gives (box.settle run type.listDepth 0 (.ofText t.text)) r (Denotes type)) :
    Gives (box.valueOf run param type t.text) r Eq := by
  refine h.step fun arg v _ harg => ⟨v, ?_, rfl⟩
  rw [converted, harg param]

theorem gives_slots {run : Nat → Call → ExceptT CallError m String} {args : List Tree}
    {params : List Param} (hlen : args.length = params.length)
    (hargs : ∀ p ∈ args.zip params,
      Gives (box.settle run p.2.type.listDepth 0 (.ofText p.1.text)) (p.1.direct bodies)
        (Denotes p.2.type)) :
    Gives ((((args.map Tree.text).zip params).map fun p =>
        (p.2.name, Slot.single p.2.type p.1)).mapM (box.fill run))
      (args.mapM (Tree.direct bodies)) (List.Forall₂ Eq) := by
  refine .mapM ?_
  have hfirst : args = (args.zip params).map Prod.fst := (List.map_fst_zip (Nat.le_of_eq hlen)).symm
  rw [List.zip_map_left, List.map_map]
  conv_rhs => rw [hfirst]
  rw [List.forall₂_map_left_iff, List.forall₂_map_right_iff, List.forall₂_same]
  exact fun p hp => gives_valueOf p.2.name (hargs p hp)

end arguments

section calls

variable {box : Toolbox m} {results : String → ValueType}
  {bodies : String → List Value → Except ToolFailure Value}
  (hbox : ∀ tool ∈ box.tools, tool.Computes (results tool.name) (bodies tool.name))
include hbox

theorem computes_of_find? {name : String} {tool : Tool m} (h : box.find? name = some tool) :
    tool.Computes (results name) (bodies name) := by
  have hname := Toolbox.name_of_find? h
  exact hname ▸ hbox tool (Toolbox.mem_of_find? h)

theorem conforms_direct {t : Tree} {type : ValueType} (h : t.HasType box results type) {v : Value}
    (hv : t.direct bodies = .ok v) : Conforms type v := by
  induction h generalizing v with
  | integer n =>
    rw [Tree.direct] at hv
    cases hv
    exact .integer n
  | boolean b =>
    rw [Tree.direct] at hv
    cases hv
    exact .boolean b
  | @group elem items _ ih =>
    rw [Tree.direct] at hv
    cases hitems : items.mapM (Tree.direct bodies) with
    | error e =>
      rw [hitems] at hv
      contradiction
    | ok values =>
      rw [hitems] at hv
      cases hv
      exact .array (forall_of_forall₂ (mapM_eq_ok_iff.1 hitems) fun item hitem _ => ih item hitem)
  | @call name args tool _ htool hlen _ ih =>
    rw [Tree.direct] at hv
    cases hargs : args.mapM (Tree.direct bodies) with
    | error e =>
      rw [hargs] at hv
      contradiction
    | ok values =>
      rw [hargs] at hv
      have hconf := conformsAll_of_mapM hlen (fun p hp v => ih p hp) hargs
      exact (computes_of_find? hbox htool).conforms hconf (eq_ok_of_mapError hv)

variable [LawfulMonad m]

/-- A call runs its tool on the values of its arguments. -/
theorem gives_runWithin {name : String} {args : List Tree} {tool : Tool m} {room : Nat}
    (htool : box.find? name = some tool) (hlen : args.length = tool.signature.params.length)
    (htypes : ∀ p ∈ args.zip tool.signature.params, p.1.HasType box results p.2.type)
    (hargs : ∀ p ∈ args.zip tool.signature.params,
      Gives (box.settle (box.runWithin room) p.2.type.listDepth 0 (.ofText p.1.text))
        (p.1.direct bodies) (Denotes p.2.type)) :
    Gives (box.runWithin (room + 1) 0 ⟨name, args.map Tree.text⟩) ((Tree.call name args).direct bodies)
      (fun content v => content = (Output.ofValue v).content) := by
  have hcomputes := computes_of_find? hbox htool
  have hslots : assign? tool.signature.params (args.map Tree.text) = _ :=
    assign?_of_fixed (fun p hp => ValueType.isVariadic_of_isPlain (hcomputes.params_plain p hp))
      (by rw [List.length_map, hlen])
  rw [Toolbox.runWithin, Nat.sub_zero, Toolbox.readyWithin_succ, Toolbox.readyWith_slots htool hslots,
    Tree.direct, bind_assoc]
  refine (gives_slots hlen hargs).bind fun values values' hvalues heq => ?_
  rw [List.forall₂_eq_eq_eq] at heq
  subst heq
  rw [pure_bind]
  have hconf := conformsAll_of_mapM hlen (fun p hp v => conforms_direct hbox (htypes p hp)) hvalues
  have hrun := run_of_computes hcomputes hconf
  rw [Toolbox.name_of_find? htool] at hrun
  exact hrun

theorem gives_settle {t : Tree} {type : ValueType} (h : t.HasType box results type)
    {room groups : Nat} (hc : t.CallsWithin room) (hg : t.GroupsWithin groups) :
    Gives (box.settle (box.runWithin room) type.listDepth 0 (.read true groups t.chars))
      (t.direct bodies) (Denotes type) := by
  induction h generalizing room groups with
  | integer n =>
    have hread : Argument.read true groups (Tree.integer n).chars = .number (.ofInt64 n) := by
      rw [Tree.chars]
      exact Argument.read_intChars true groups _
    rw [hread, Toolbox.settle_plain _ _ (by simp) (by simp), Tree.direct]
    exact ⟨_, rfl, fun param => convert_integer_number param n⟩
  | boolean b =>
    rw [Tree.chars, Argument.read_boolean, Toolbox.settle_plain _ _ (by simp) (by simp), Tree.direct]
    exact ⟨_, rfl, fun param => convert_boolean_boolean param b⟩
  | @group elem items hitems ih =>
    cases hc with | group hc =>
    cases hg with | @group groups _ hg =>
    have hpieces : ∀ p ∈ items.map Tree.chars, Piece p :=
      List.forall_mem_map.2 fun item hitem => Tree.piece_chars (hitems item hitem)
    have hsplit := splitArgs_intercalate blank_behind_comma hpieces
    rw [Tree.chars, Argument.read_group, hsplit, ValueType.listDepth, Toolbox.settle_group,
      Tree.direct, map_eq_pure_bind]
    have hall : Gives ((items.map Tree.chars).map (Argument.read true groups) |>.mapM
        (box.settle (box.runWithin room) elem.listDepth 0)) (items.mapM (Tree.direct bodies))
        (List.Forall₂ (Denotes elem)) := by
      refine .mapM ?_
      rw [List.map_map, List.forall₂_map_left_iff, List.forall₂_same]
      exact fun item hitem => ih item hitem (hc item hitem) (hg item hitem)
    refine hall.bind fun args values _ hvalues => ⟨_, rfl, fun param => ?_⟩
    exact convert_items rfl (by simp) (hvalues.imp fun _ _ h => h param)
  | @call name args tool hname htool hlen hargs ih =>
    cases hc with | @call room _ _ hc =>
    cases hg with | call hg =>
    have hknown : box.contains name = true := by rw [Toolbox.contains, htool]; rfl
    have hcall : (Tree.call name args).HasType box results (results name) :=
      .call hname htool hlen hargs
    rw [(Tree.read_call hcall groups).1, Toolbox.settle_known _ _ hknown]
    have hrun := gives_runWithin hbox htool hlen hargs fun p hp => by
      have harg := (List.of_mem_zip hp).1
      rw [Argument.ofText, Tree.text, String.toList_ofList]
      exact ih p hp (hc _ harg) (hg _ harg)
    -- the result is text again, which has to convert back to the value
    refine hrun.step fun content v hv hcontent => ⟨_, rfl, fun param => ?_⟩
    have hconf := conforms_direct hbox hcall hv
    have hplain := ValueType.isDiscrete_of_isPlain (computes_of_find? hbox htool).result_plain
    rw [hcontent, content_ofValue hplain hconf, Argument.ofResult, Value.text, String.toList_ofList]
    exact convert_read_chars param hplain hconf groupLimit

/-- A call in text, read and evaluated. It comes to the content of the value that direct
evaluation gives or, if a call in it fails, to the error of the first one that does. -/
theorem evaluate_text {name : String} {args : List Tree} {type : ValueType}
    (ht : (Tree.call name args).HasType box results type)
    (hc : (Tree.call name args).CallsWithin nestingLimit)
    (hg : (Tree.call name args).GroupsWithin groupLimit) :
    ∃ call, Call.ofText (Tree.call name args).text = .ok call ∧
      (∀ failing failure, (Tree.call name args).firstFailure? bodies = some (failing, failure) →
        box.evaluate call = throw (.toolFailed failing failure)) ∧
      ((Tree.call name args).firstFailure? bodies = none →
        ∃ v, (Tree.call name args).value? bodies = some v ∧
          box.evaluate call = pure (Output.ofValue v).content) := by
  refine ⟨⟨name, args.map Tree.text⟩, ?_, ?_⟩
  · rw [Call.ofText, Tree.text, String.toList_ofList]
    exact (Tree.read_call ht groupLimit).2
  · have hsplits := Tree.splits_direct bodies (.call name args)
    have hgives : Gives (box.evaluate ⟨name, args.map Tree.text⟩)
        ((Tree.call name args).direct bodies) (fun content v => content = (Output.ofValue v).content) := by
      cases ht with | @call _ _ tool hname htool hlen hargs =>
      cases hc with | call hc =>
      cases hg with | call hg =>
      refine gives_runWithin hbox htool hlen hargs fun p hp => ?_
      have harg := (List.of_mem_zip hp).1
      rw [Argument.ofText, Tree.text, String.toList_ofList]
      exact gives_settle hbox (hargs p hp) (hc _ harg) (hg _ harg)
    obtain ⟨herror, hvalue⟩ := hgives.of_splits hsplits
    refine ⟨herror, fun hnone => ?_⟩
    obtain ⟨v, hv, content, heval, rfl⟩ := hvalue hnone
    exact ⟨v, hv, heval⟩

end calls

def Tool.ofBody (signature : Signature) (body : List Value → Except ToolFailure Value) : Tool m :=
  ⟨signature, .function, fun args => pure ((body args).map Output.ofValue)⟩

namespace Sums

def sum (values : List Value) : Except ToolFailure Value :=
  Value.ofInt64 <$> Stock.sum (values.filterMap Value.toInt64?)

/-- `add` is the sum of its arguments, any other name the sum of a list. -/
def bodies (name : String) (values : List Value) : Except ToolFailure Value :=
  match name, values with
  | "add", values => sum values
  | _, [.array items] => sum items
  | _, _ => .error ⟨"no list"⟩

def box : Toolbox Id :=
  .ofList [.ofBody (((Signature.named "add" "").withParam "a" .integer).withParam "b" .integer)
      (bodies "add"),
    .ofBody ((Signature.named "sum" "").withParam "ns" (.array .integer)) (bodies "sum")]

theorem conforms_sum {values : List Value} {v : Value} (h : sum values = .ok v) :
    Conforms .integer v := by
  unfold sum at h
  cases hs : Stock.sum (values.filterMap Value.toInt64?) with
  | error failure =>
    rw [hs] at h
    contradiction
  | ok n =>
    rw [hs] at h
    cases h
    exact .integer n

theorem conforms_bodies {name : String} {values : List Value} {v : Value}
    (h : bodies name values = .ok v) : Conforms .integer v := by
  unfold bodies at h
  split at h
  · exact conforms_sum h
  · exact conforms_sum h
  · contradiction

theorem computes_box : ∀ tool ∈ box.tools, tool.Computes .integer (bodies tool.name) := by
  intro tool htool
  obtain rfl | rfl := List.mem_pair.1 htool
  all_goals
    exact {
      params_plain := by decide
      result_plain := rfl
      run_eq := fun _ => rfl
      conforms := fun _ h => conforms_bodies h }

/-- `sum([1, add(2, 3)])` -/
def nested : Tree :=
  .call "sum" [.group [.integer 1, .call "add" [.integer 2, .integer 3]]]

theorem hasType_nested : nested.HasType box (fun _ => .integer) .integer := by
  have hadd : (Tree.call "add" [.integer 2, .integer 3]).HasType box (fun _ => .integer) .integer := by
    refine .call (by decide) rfl rfl fun p hp => ?_
    obtain rfl | rfl := List.mem_pair.1 hp
    · exact .integer 2
    · exact .integer 3
  refine .call (by decide) rfl rfl fun p hp => ?_
  obtain rfl := List.mem_singleton.1 hp
  refine .group fun item hitem => ?_
  obtain rfl | rfl := List.mem_pair.1 hitem
  · exact .integer 1
  · exact hadd

theorem callsWithin_nested : nested.CallsWithin nestingLimit := by
  refine .call fun arg harg => ?_
  obtain rfl := List.mem_singleton.1 harg
  refine .group fun item hitem => ?_
  obtain rfl | rfl := List.mem_pair.1 hitem
  · exact .integer 1
  · refine .call fun arg harg => ?_
    obtain rfl | rfl := List.mem_pair.1 harg
    · exact .integer 2
    · exact .integer 3

theorem groupsWithin_nested : nested.GroupsWithin groupLimit := by
  refine .call fun arg harg => ?_
  obtain rfl := List.mem_singleton.1 harg
  refine .group fun item hitem => ?_
  obtain rfl | rfl := List.mem_pair.1 hitem
  · exact .integer 1
  · refine .call fun arg harg => ?_
    obtain rfl | rfl := List.mem_pair.1 harg
    · exact .integer 2
    · exact .integer 3

theorem evaluate_nested : ∃ call, Call.ofText "sum([1, add(2, 3)])" = .ok call ∧
    box.evaluate call = pure "6" := by
  have hadd : bodies "add" [.ofInt64 2, .ofInt64 3] = .ok (.ofInt64 5) := rfl
  have hsum : bodies "sum" [.array [.ofInt64 1, .ofInt64 5]] = .ok (.ofInt64 6) := rfl
  have htext : nested.text = "sum([1, add(2, 3)])" := by
    simp [nested, Tree.text, Tree.chars]
    rfl
  have hvalue : nested.value? bodies = some (.ofInt64 6) := by
    simp [nested, Tree.value?, hadd, hsum, Except.toOption]
  have hfailure : nested.firstFailure? bodies = none := by
    simp [nested, Tree.firstFailure?, Tree.calls, Tree.failure?, Tree.value?, hadd, hsum,
      Except.toOption]
  obtain ⟨call, hcall, -, heval⟩ :=
    evaluate_text computes_box hasType_nested callsWithin_nested groupsWithin_nested
  obtain ⟨v, hv, heval⟩ := heval hfailure
  have hv6 : v = .ofInt64 6 := Option.some.inj (hv.symm.trans hvalue)
  refine ⟨call, ?_, ?_⟩
  · exact htext ▸ hcall
  · rw [heval, hv6]
    rfl

end Sums

end ToolDialogue
