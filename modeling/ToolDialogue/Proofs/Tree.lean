import ToolDialogue.Evaluation
import ToolDialogue.Proofs.ValueText

/-! Expression trees of integers, truth values, lists and calls: their text, their types, and
what they come to when they are evaluated directly, from the leaves up. -/
namespace ToolDialogue

open Json (Number Value)
open Text

inductive Tree where
  | integer (n : Int64)
  | boolean (b : Bool)
  | group (items : List Tree)
  | call (name : String) (args : List Tree)

namespace Tree

def chars : Tree → List Char
  | integer n => Number.intChars n.toInt
  | boolean b => (if b then "true" else "false").toList
  | group items => '[' :: [',', ' '].intercalate (items.map chars) ++ [']']
  | call name args => callChars name.toList ([',', ' '].intercalate (args.map chars))

def text (t : Tree) : String :=
  String.ofList t.chars

theorem exists_mem_zip {α β : Type} {as : List α} {bs : List β} (hlen : as.length = bs.length)
    {a : α} (ha : a ∈ as) : ∃ b, (a, b) ∈ as.zip bs := by
  induction as generalizing bs with
  | nil => contradiction
  | cons first rest ih =>
    cases bs with
    | nil => contradiction
    | cons b bs =>
      rcases List.mem_cons.1 ha with rfl | ha
      · exact ⟨b, List.mem_cons_self⟩
      · obtain ⟨b', hb'⟩ := ih (Nat.succ.inj hlen) ha
        exact ⟨b', List.mem_cons_of_mem _ hb'⟩

section types

variable {m : Type → Type}

/-- `results` gives the type of the results of each tool. A call names a tool of the box and has
one argument for each parameter. -/
inductive HasType (box : Toolbox m) (results : String → ValueType) : Tree → ValueType → Prop
  | integer (n : Int64) : HasType box results (integer n) .integer
  | boolean (b : Bool) : HasType box results (boolean b) .boolean
  | group {elem : ValueType} {items : List Tree} :
      (∀ item ∈ items, HasType box results item elem) →
      HasType box results (group items) (.array elem)
  | call {name : String} {args : List Tree} {tool : Tool m} :
      isIdentifier name.toList = true →
      box.find? name = some tool →
      args.length = tool.signature.params.length →
      (∀ p ∈ args.zip tool.signature.params, HasType box results p.1 p.2.type) →
      HasType box results (call name args) (results name)

end types

section types

variable {m : Type → Type} {box : Toolbox m} {results : String → ValueType} {t : Tree}
  {type : ValueType}

theorem piece_chars (h : HasType box results t type) : Piece t.chars := by
  induction h with
  | integer n =>
    rw [chars]
    exact Number.piece_intChars n.toInt
  | boolean b =>
    rw [chars]
    exact piece_boolean b
  | @group elem items hitems ih =>
    rw [chars]
    exact piece_bracketed blank_behind_comma (List.forall_mem_map.2 ih)
  | @call name args tool hname htool hlen hargs ih =>
    rw [chars]
    refine piece_callChars hname (neutral_list blank_behind_comma (List.forall_mem_map.2 ?_))
    intro arg harg
    obtain ⟨param, hparam⟩ := exists_mem_zip hlen harg
    exact ih _ hparam

theorem read_call {name : String} {args : List Tree} {type : ValueType}
    (h : (call name args).HasType box results type) (groups : Nat) :
    Argument.read true groups (call name args).chars = .call ⟨name, args.map text⟩ ∧
      Call.read (call name args).chars = .ok ⟨name, args.map text⟩ := by
  cases h with
  | @call _ _ tool hname htool hlen hargs =>
    have hpieces : ∀ p ∈ args.map chars, Piece p := by
      refine List.forall_mem_map.2 fun arg harg => ?_
      obtain ⟨param, hparam⟩ := exists_mem_zip hlen harg
      exact piece_chars (hargs _ hparam)
    have hbody := neutral_list blank_behind_comma hpieces
    have hsplit := splitArgs_intercalate blank_behind_comma hpieces
    rw [chars, Argument.read_callChars groups hname hbody, Call.read_callChars hname hbody,
      hsplit, String.ofList_toList, List.map_map]
    exact ⟨rfl, rfl⟩

end types

/-- Calls stand at most `room` deep in one another. -/
inductive CallsWithin : Nat → Tree → Prop
  | integer {room : Nat} (n : Int64) : CallsWithin room (integer n)
  | boolean {room : Nat} (b : Bool) : CallsWithin room (boolean b)
  | group {room : Nat} {items : List Tree} :
      (∀ item ∈ items, CallsWithin room item) → CallsWithin room (group items)
  | call {room : Nat} {name : String} {args : List Tree} :
      (∀ arg ∈ args, CallsWithin room arg) → CallsWithin (room + 1) (call name args)

/-- Groups stand at most `room` deep directly in one another, and at most `groupLimit` deep in
each argument of a call. -/
inductive GroupsWithin : Nat → Tree → Prop
  | integer {room : Nat} (n : Int64) : GroupsWithin room (integer n)
  | boolean {room : Nat} (b : Bool) : GroupsWithin room (boolean b)
  | group {room : Nat} {items : List Tree} :
      (∀ item ∈ items, GroupsWithin room item) → GroupsWithin (room + 1) (group items)
  | call {room : Nat} {name : String} {args : List Tree} :
      (∀ arg ∈ args, GroupsWithin groupLimit arg) → GroupsWithin room (call name args)

section evaluation

variable (bodies : String → List Value → Except ToolFailure Value)

def value? : Tree → Option Value
  | integer n => some (.ofInt64 n)
  | boolean b => some (.bool b)
  | group items => Value.array <$> items.mapM value?
  | call name args => do
    let values ← args.mapM value?
    (bodies name values).toOption

/-- The calls in a tree from left to right, each behind the calls in its arguments. -/
def calls : Tree → List (String × List Tree)
  | integer _ | boolean _ => []
  | group items => items.flatMap calls
  | call name args => args.flatMap calls ++ [(name, args)]

/-- The failure of a call whose arguments have values. -/
def failure? (call : String × List Tree) : Option (String × ToolFailure) := do
  let values ← call.2.mapM (value? bodies)
  match bodies call.1 values with
  | .ok _ => none
  | .error failure => some (call.1, failure)

def firstFailure? (t : Tree) : Option (String × ToolFailure) :=
  t.calls.findSome? (failure? bodies)

/-- Evaluation from the leaves up that stops at the first failure. -/
def direct : Tree → Except (String × ToolFailure) Value
  | integer n => .ok (.ofInt64 n)
  | boolean b => .ok (.bool b)
  | group items => Value.array <$> items.mapM direct
  | call name args => do
    let values ← args.mapM direct
    (bodies name values).mapError (name, ·)

def Splits {ε α : Type} (result : Except ε α) (value? : Option α) (error? : Option ε) : Prop :=
  match result with
  | .ok a => value? = some a ∧ error? = none
  | .error e => value? = none ∧ error? = some e

theorem splits_mapM {α β γ ε : Type} {f : α → Except ε β} {value? : α → Option β}
    {parts : α → List γ} {error? : γ → Option ε} {items : List α}
    (h : ∀ item ∈ items, Splits (f item) (value? item) ((parts item).findSome? error?)) :
    Splits (items.mapM f) (items.mapM value?) ((items.flatMap parts).findSome? error?) := by
  induction items with
  | nil => exact ⟨rfl, rfl⟩
  | cons item rest ih =>
    obtain ⟨hitem, hrest⟩ := List.forall_mem_cons.1 h
    replace ih := ih hrest
    rw [List.mapM_cons, List.mapM_cons, List.flatMap_cons, List.findSome?_append]
    cases hf : f item with
    | error e =>
      rw [hf] at hitem
      obtain ⟨hv, he⟩ := hitem
      rw [hv, he]
      exact ⟨rfl, rfl⟩
    | ok value =>
      rw [hf] at hitem
      obtain ⟨hv, he⟩ := hitem
      rw [hv, he, Option.none_or]
      cases hr : rest.mapM f with
      | error e =>
        rw [hr] at ih
        obtain ⟨hvs, hes⟩ := ih
        rw [hvs, hes]
        exact ⟨rfl, rfl⟩
      | ok values =>
        rw [hr] at ih
        obtain ⟨hvs, hes⟩ := ih
        rw [hvs, hes]
        exact ⟨rfl, rfl⟩

theorem splits_direct (t : Tree) :
    Splits (direct bodies t) (value? bodies t) (firstFailure? bodies t) := by
  fun_induction direct bodies t with
  | case1 n => exact ⟨by rw [value?], by rw [firstFailure?, calls, List.findSome?_nil]⟩
  | case2 b => exact ⟨by rw [value?], by rw [firstFailure?, calls, List.findSome?_nil]⟩
  | case3 items ih =>
    have hitems := splits_mapM ih
    rw [firstFailure?, calls, value?]
    cases hd : items.mapM (direct bodies) with
    | error e =>
      rw [hd] at hitems
      obtain ⟨hv, he⟩ := hitems
      exact ⟨by rw [hv]; rfl, he⟩
    | ok values =>
      rw [hd] at hitems
      obtain ⟨hv, he⟩ := hitems
      exact ⟨by rw [hv]; rfl, he⟩
  | case4 name args ih =>
    have hargs := splits_mapM ih
    rw [firstFailure?, calls, value?, List.findSome?_append, List.findSome?_singleton, failure?]
    cases hd : args.mapM (direct bodies) with
    | error e =>
      rw [hd] at hargs
      obtain ⟨hv, he⟩ := hargs
      rw [hv, he]
      exact ⟨rfl, rfl⟩
    | ok values =>
      rw [hd] at hargs
      obtain ⟨hv, he⟩ := hargs
      rw [hv, he]
      cases hbody : bodies name values with
      | error failure => simp [Splits, hbody, Except.mapError, bind, Except.bind, Except.toOption]
      | ok v => simp [Splits, hbody, Except.mapError, bind, Except.bind, Except.toOption]

end evaluation

end Tree

end ToolDialogue
