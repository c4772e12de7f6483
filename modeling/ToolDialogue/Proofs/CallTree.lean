import ToolDialogue.Proofs.Binding
import ToolDialogue.Proofs.Reading

/-! The calls among the arguments of a call, at any depth, in the order in which they are to be
made: from left to right, and each behind the calls among its own arguments. -/
namespace ToolDialogue

open Text

theorem length_trim_le (text : List Char) : (trim text).length ≤ text.length := by
  have hstart : (trimStart text).length ≤ text.length :=
    (List.dropWhile_suffix isBlank).length_le
  have hend : ((trimStart text).reverse.dropWhile isBlank).length ≤ (trimStart text).reverse.length :=
    (List.dropWhile_suffix isBlank).length_le
  rw [List.length_reverse] at hend
  rw [trim, trimEnd, List.length_reverse]
  omega

theorem length_cutAtCommas (depth : Nat) (q : Quote) (text : List Char) :
    (cutAtCommas depth q text).1.length + (cutAtCommas depth q text).2.flatten.length ≤
      text.length := by
  fun_induction cutAtCommas depth q text with
  | case1 => simp
  | case2 depth q c rest _ first others h ih =>
    rw [h] at ih
    simp only [List.length_nil, List.flatten_cons, List.length_append, List.length_cons] at ih ⊢
    omega
  | case3 depth q c rest _ _ ih =>
    simp only [Prod.map_fst, Prod.map_snd, id_eq, List.length_cons] at ih ⊢
    omega

theorem length_splitArgs (body : List Char) : (splitArgs body).flatten.length ≤ body.length := by
  unfold splitArgs
  split
  · simp
  · have htrim : ∀ pieces : List (List Char),
        (pieces.map trim).flatten.length ≤ pieces.flatten.length := by
      intro pieces
      induction pieces with
      | nil => simp
      | cons piece rest ih =>
        have := length_trim_le piece
        simp only [List.map_cons, List.flatten_cons, List.length_append]
        omega
    have hcut := length_cutAtCommas 0 .outside body
    rw [← List.length_append, ← List.flatten_cons] at hcut
    exact Nat.le_trans (htrim _) hcut

theorem length_le_of_mem {piece : List Char} {pieces : List (List Char)} (h : piece ∈ pieces) :
    piece.length ≤ pieces.flatten.length :=
  (List.sublist_flatten_of_mem h).length_le

def Call.weight (c : Call) : Nat :=
  (c.args.map String.toList).flatten.length

theorem weight_lt_of_read {text : List Char} {c : Call} (h : Call.read text = .ok c) :
    c.weight < text.length := by
  unfold Call.read at h
  extract_lets trimmed shown at h
  split at h
  · contradiction
  · rename_i name _ paren inner hinner
    split at h
    · contradiction
    · split at h
      · contradiction
      · rename_i body rest hclose
        dsimp only at h
        split at h
        · cases h
          have htrim := length_trim_le text
          have hdrop := (List.dropWhile_suffix (l := trimmed) (· != '(')).length_le
          have hbody := congrArg List.length (eq_of_closing? hclose)
          have hsplit := length_splitArgs body
          rw [hinner, List.length_cons] at hdrop
          rw [List.length_append, List.length_cons] at hbody
          have hweight : Call.weight ⟨String.ofList name, (splitArgs body).map String.ofList⟩ =
              (splitArgs body).flatten.length := by
            simp [Call.weight, Function.comp_def]
          have : trimmed.length ≤ text.length := htrim
          omega
        · contradiction

namespace Argument

/-- The calls in an argument, through its groups. -/
def calls : Argument → List Call
  | call c => [c]
  | group items => items.flatMap calls
  | _ => []

theorem mem_calls_call {c d : Call} : d ∈ (call c).calls ↔ d = c := by
  rw [calls, List.mem_singleton]

theorem forall_mem_calls_call {P : Call → Prop} {c : Call} : (∀ d ∈ (call c).calls, P d) ↔ P c := by
  simp only [mem_calls_call, forall_eq]

theorem mem_calls_group {items : List Argument} {d : Call} :
    d ∈ (group items).calls ↔ ∃ item ∈ items, d ∈ item.calls := by
  rw [calls, List.mem_flatMap]

theorem calls_plain {arg : Argument} (hc : ∀ c, arg ≠ call c) (hg : ∀ items, arg ≠ group items) :
    arg.calls = [] := by
  cases arg with
  | call c => exact absurd rfl (hc c)
  | group items => exact absurd rfl (hg items)
  | _ => simp [calls]

/-- The calls in a text: itself, if calls are looked for, or those in the items of a list. -/
theorem calls_read (forms : Bool) (room : Nat) (text : List Char) :
    (read forms room text).calls = [] ∨
      (forms = true ∧ ∃ c, call? (trim text) = some c ∧ (read forms room text).calls = [c]) ∨
      ∃ below inner, room = below + 1 ∧ unbracket? (trim text) = some inner ∧
        (read forms room text).calls =
          (splitArgs inner).flatMap fun item => (read forms below item).calls := by
  rcases read_shapes forms text with ⟨c, hforms, hc, h⟩ | ⟨content, -, h⟩ | ⟨b, -, h⟩ |
    ⟨inner, hu, hfull, h⟩ | ⟨-, -, -, h⟩
  · rw [h, calls]
    exact .inr (.inl ⟨hforms, c, hc, rfl⟩)
  · rw [h]
    exact .inl (by simp [calls])
  · rw [h]
    exact .inl (by simp [calls])
  · cases room with
    | zero =>
      rw [hfull]
      exact .inl (by simp [calls])
    | succ below =>
      rw [h, calls, List.flatMap_map]
      exact .inr (.inr ⟨below, inner, rfl, hu, rfl⟩)
  · rw [h, plain]
    cases Json.Number.ofText? (trim text) <;> exact .inl (by simp [calls])

theorem calls_ofResult (text : String) : (ofResult text).calls = [] := by
  have hread : ∀ room text, (read false room text).calls = [] := by
    intro room
    induction room using Nat.strongRecOn with
    | ind room ih =>
      intro text
      rcases calls_read false room text with hnil | ⟨hforms, -⟩ | ⟨below, inner, hroom, -, hall⟩
      · exact hnil
      · contradiction
      · rw [hall, List.flatMap_eq_nil_iff]
        exact fun item _ => ih below (by omega) item
  exact hread groupLimit text.toList

theorem ne_call_of_calls {arg : Argument} (h : arg.calls = []) (c : Call) : arg ≠ call c := by
  rintro rfl
  simp [calls] at h

theorem length_lt_of_unbracket? {text inner : List Char} (h : unbracket? text = some inner) :
    inner.length < text.length := by
  unfold unbracket? at h
  split at h
  · split at h
    · cases h
      simp only [List.length_dropLast, List.length_cons]
      omega
    · contradiction
  · contradiction

theorem weight_lt_of_mem_calls {forms : Bool} {room : Nat} {text : List Char} {c : Call}
    (h : c ∈ (read forms room text).calls) : c.weight < text.length := by
  have htrim := length_trim_le text
  induction room using Nat.strongRecOn generalizing text with
  | ind room ih =>
    rcases calls_read forms room text with
      hnil | ⟨-, c', hcall, hone⟩ | ⟨below, inner, hroom, hinner, hall⟩
    · rw [hnil] at h
      contradiction
    · rw [hone, List.mem_singleton] at h
      subst h
      have hread : Call.read (trim text) = .ok c := by
        unfold call? at hcall
        split at hcall
        · cases hr : Call.read (trim text) with
          | error e =>
            rw [hr] at hcall
            contradiction
          | ok c' =>
            rw [hr] at hcall
            exact congrArg Except.ok (Option.some.inj hcall)
        · contradiction
      have hlt := weight_lt_of_read hread
      omega
    · rw [hall] at h
      obtain ⟨item, hitem, hc⟩ := List.mem_flatMap.1 h
      have hc := ih below (by omega) hc (length_trim_le item)
      have hlen := length_lt_of_unbracket? hinner
      have hsplit := length_splitArgs inner
      have hitem := length_le_of_mem hitem
      omega

end Argument

namespace Call

/-- The calls among the arguments of a call. -/
def inner (c : Call) : List Call :=
  c.args.flatMap fun arg => (Argument.ofText arg).calls

theorem weight_lt_of_mem_inner {c inner : Call} (h : inner ∈ c.inner) : inner.weight < c.weight := by
  obtain ⟨arg, harg, hinner⟩ := List.mem_flatMap.1 h
  have hlt := Argument.weight_lt_of_mem_calls hinner
  have hle := length_le_of_mem (List.mem_map_of_mem (f := String.toList) harg)
  exact Nat.lt_of_lt_of_le hlt hle

/-- A call behind all calls below it. -/
def postorder (c : Call) : List Call :=
  c.inner.attach.flatMap (fun inner => inner.1.postorder) ++ [c]
termination_by c.weight
decreasing_by exact weight_lt_of_mem_inner inner.2

theorem postorder_eq (c : Call) : c.postorder = c.inner.flatMap postorder ++ [c] := by
  rw [postorder, List.flatMap_subtype fun _ _ => rfl, List.unattach_attach]

theorem mem_postorder_self (c : Call) : c ∈ c.postorder := by
  rw [postorder_eq]
  exact List.mem_append_right _ List.mem_cons_self

theorem mem_postorder_of_mem_inner {c inner d : Call} (hinner : inner ∈ c.inner)
    (hd : d ∈ inner.postorder) : d ∈ c.postorder := by
  rw [postorder_eq]
  exact List.mem_append_left _ (List.mem_flatMap.2 ⟨inner, hinner, hd⟩)

end Call

section requested

variable {m : Type → Type}

def Argument.requested (box : Toolbox m) (arg : Argument) : List Call :=
  (arg.calls.flatMap Call.postorder).filter fun c => box.contains c.name

/-- The calls of tools in the tree of a call. -/
def Call.requested (box : Toolbox m) (c : Call) : List Call :=
  c.postorder.filter fun c => box.contains c.name

variable {box : Toolbox m} {c : Call}

theorem requested_call : (Argument.call c).requested box = c.requested box := by
  rw [Argument.requested, Argument.calls, List.flatMap_singleton, Call.requested]

theorem requested_group (items : List Argument) :
    (Argument.group items).requested box = items.flatMap fun item => item.requested box := by
  simp only [Argument.requested, Argument.calls, List.flatMap_assoc, List.filter_flatMap]

theorem requested_plain {arg : Argument} (hc : ∀ c, arg ≠ .call c)
    (hg : ∀ items, arg ≠ .group items) : arg.requested box = [] := by
  rw [Argument.requested, Argument.calls_plain hc hg]
  rfl

theorem filter_postorder_inner : (c.inner.flatMap Call.postorder).filter (fun c => box.contains c.name) =
    c.args.flatMap fun arg => (Argument.ofText arg).requested box := by
  simp only [Call.inner, Argument.requested, List.flatMap_assoc, List.filter_flatMap]

theorem requested_known (h : box.contains c.name = true) : c.requested box =
    (c.args.flatMap fun arg => (Argument.ofText arg).requested box) ++ [c] := by
  rw [Call.requested, Call.postorder_eq, List.filter_append, filter_postorder_inner]
  simp [h]

theorem requested_unknown (h : box.contains c.name = false) : c.requested box =
    c.args.flatMap fun arg => (Argument.ofText arg).requested box := by
  rw [Call.requested, Call.postorder_eq, List.filter_append, filter_postorder_inner]
  simp [h]

end requested

end ToolDialogue
