import ToolDialogue.Proofs.CallTree
import ToolDialogue.Proofs.Items
import ToolDialogue.Proofs.Trace

/-! What a parameter for text receives of the result of a nested call. The result is read as an
argument first, so only a text that is its own reading arrives as it is, and a list does not
arrive at all. -/
namespace ToolDialogue

open Json (Number Value)
open Text

/-- A text that is taken for a list: an opening bracket is its first character and a closing one its
last, but for the blanks around it. So is `[1], [2]`, though its first bracket is closed earlier. -/
def Bracketed (text : List Char) : Prop :=
  ∃ body, trim text = '[' :: body ++ [']']

/-- A text that is the text of its reading as a result. -/
structure Verbatim (text : List Char) : Prop where
  trimmed : trim text = text
  /-- Only the first character and the last count: `"a", "b"` is none of these texts either, though
  it is not one literal. -/
  unquoted : ∀ q body, q = '"' ∨ q = '\x27' → text ≠ q :: body ++ [q]
  unbracketed : ∀ body, text ≠ '[' :: body ++ [']']
  /-- A truth value is in lower case. -/
  boolean : ∀ b, readBoolean? text = some b → text = (if b then "true" else "false").toList
  /-- A number is written as numbers are. -/
  number : ∀ n, Number.ofText? text = some n → text = n.chars

namespace Argument

variable {text : List Char}

theorem plain_ne_group (text : List Char) (items : List Argument) : plain text ≠ group items := by
  unfold plain
  split <;> simp

theorem exists_group_iff {r : String} :
    (∃ items, ofResult r = group items) ↔ Bracketed r.toList := by
  constructor
  · rintro ⟨items, hitems⟩
    rw [ofResult] at hitems
    rcases read_shapes false r.toList with ⟨_, hcalls, -⟩ | ⟨_, -, h⟩ | ⟨_, -, h⟩ |
      ⟨inner, hu, -⟩ | ⟨-, -, -, h⟩
    · contradiction
    · rw [h] at hitems
      contradiction
    · rw [h] at hitems
      contradiction
    · exact ⟨inner, unbracket?_eq_some_iff.1 hu⟩
    · rw [h] at hitems
      exact absurd hitems (plain_ne_group _ items)
  · rintro ⟨body, hbody⟩
    have htrim : trim r.toList = trim ('[' :: body ++ [']']) := by rw [trim_bracketed, hbody]
    rw [ofResult, groupLimit, read_congr false _ htrim, read_group]
    exact ⟨_, rfl⟩

theorem verbatim_boolean (b : Bool) : Verbatim (if b then "true" else "false").toList where
  trimmed := (piece_boolean b).solid.trim_eq
  unquoted := by
    rintro q body hq htext
    rw [List.cons_append] at htext
    cases b <;> rcases hq with rfl | rfl <;> simp at htext
  unbracketed := by
    intro body htext
    cases b <;> simp at htext
  boolean := by
    intro b' hb'
    have hb : readBoolean? (if b then "true" else "false").toList = some b := by
      cases b <;> rfl
    rw [hb] at hb'
    rw [Option.some.inj hb']
  number := by
    intro n hn
    have hnone : Number.ofText? (if b then "true" else "false").toList = none := by
      cases b <;> exact ofText?_of_isNameStart (by decide) _
    rw [hnone] at hn
    contradiction

theorem verbatim_of_plain (htrim : trim text = text) (hq : unquote? text = none)
    (hb : readBoolean? text = none) (hu : unbracket? text = none)
    (hn : ∀ n, Number.ofText? text = some n → text = n.chars) : Verbatim text where
  trimmed := htrim
  unquoted := by
    intro q body hquote htext
    have hsome := unquote?_eq_some_iff.2 ⟨q, body, hquote, htext, rfl⟩
    rw [hq] at hsome
    contradiction
  unbracketed := by
    intro body htext
    rw [unbracket?_eq_some_iff.2 htext] at hu
    contradiction
  boolean := by
    intro b hsome
    rw [hb] at hsome
    contradiction
  number := hn

theorem text_plain_iff : (plain (trim text)).text.toList = text ↔
    trim text = text ∧ ∀ n, Number.ofText? text = some n → text = n.chars := by
  rw [plain]
  cases hn : Number.ofText? (trim text) with
  | some n =>
    dsimp only
    rw [Argument.text, Number.text, String.toList_ofList]
    constructor
    · intro hchars
      have htrim : trim text = text := by rw [← hchars, (Item.piece_number n).solid.trim_eq]
      rw [htrim] at hn
      refine ⟨htrim, fun k hk => ?_⟩
      rw [hn] at hk
      rw [← Option.some.inj hk, hchars]
    · rintro ⟨htrim, hchars⟩
      rw [htrim] at hn
      exact (hchars n hn).symm
  | none =>
    dsimp only
    rw [Argument.text, String.toList_ofList]
    constructor
    · intro htrim
      rw [htrim] at hn
      refine ⟨htrim, fun k hk => ?_⟩
      rw [hn] at hk
      contradiction
    · exact fun h => h.1

theorem text_ofResult_iff {r : String} (h : ¬ Bracketed r.toList) :
    (ofResult r).text = r ↔ Verbatim r.toList := by
  rw [ofResult, ← String.toList_inj]
  rcases read_shapes false r.toList with ⟨_, hcalls, -⟩ | ⟨content, hq, hread⟩ | ⟨b, hb, hread⟩ |
    ⟨inner, hu, -⟩ | ⟨hq, hb, hu, hread⟩
  · contradiction
  · -- the content is shorter than the text by the quotes at least
    obtain ⟨q, body, hquote, htrim, rfl⟩ := unquote?_eq_some_iff.1 hq
    rw [hread, Argument.text, String.toList_ofList]
    constructor
    · intro hcontent
      have hshort := length_unescape_le body
      have hlong := length_trim_le r.toList
      rw [htrim, ← hcontent] at hlong
      simp only [List.length_append, List.length_cons, List.length_nil] at hlong
      omega
    · intro hverbatim
      exact absurd (hverbatim.trimmed.symm.trans htrim) (hverbatim.unquoted q body hquote)
  · rw [hread, Argument.text]
    constructor
    · intro hword
      rw [← hword]
      exact verbatim_boolean b
    · intro hverbatim
      rw [hverbatim.trimmed] at hb
      exact (hverbatim.boolean b hb).symm
  · exact absurd ⟨inner, unbracket?_eq_some_iff.1 hu⟩ h
  · rw [hread, text_plain_iff]
    constructor
    · rintro ⟨htrim, hn⟩
      rw [htrim] at hq hb hu
      exact verbatim_of_plain htrim hq hb hu hn
    · exact fun hverbatim => ⟨hverbatim.trimmed, hverbatim.number⟩

end Argument

section parameters

variable {σ : Type} {box : Toolbox (StateM σ)}
  {run : Nat → Call → ExceptT CallError (StateM σ) String} {param arg r : String} {inner : Call}
  {s s' : σ}

theorem ofResult_ne_call (r : String) : ∀ c, Argument.ofResult r ≠ .call c :=
  Argument.ne_call_of_calls (Argument.calls_ofResult r)

theorem converted_string_of_bracketed {m : Type → Type} [Monad m] (h : Bracketed r.toList) :
    (converted param .string (.ofResult r) : ExceptT CallError m Value) =
      throw (.conversion ⟨param, .string, (Argument.ofResult r).text, .notText⟩) := by
  obtain ⟨items, hitems⟩ := Argument.exists_group_iff.2 h
  have hconvert : convert param .string (.ofResult r) =
      .error ⟨param, .string, (Argument.ofResult r).text, .notText⟩ := by
    rw [convert_scalar rfl (ofResult_ne_call r), hitems, Argument.toText]
    rfl
  rw [converted, hconvert]

theorem converted_string_of_not_bracketed {m : Type → Type} [Monad m] (h : ¬ Bracketed r.toList) :
    (converted param .string (.ofResult r) : ExceptT CallError m Value) =
      pure (.string (Argument.ofResult r).text) := by
  have hne : ∀ items, Argument.ofResult r ≠ .group items :=
    fun items hitems => h (Argument.exists_group_iff.1 ⟨items, hitems⟩)
  rw [converted, convert_text (ofResult_ne_call r) hne]

theorem runFrom_valueOf_call (type : ValueType) (hcall : Argument.ofText arg = .call inner)
    (hknown : box.contains inner.name = true) (hrun : runFrom (run 0 inner) s = (.ok r, s')) :
    runFrom (box.valueOf run param type arg) s =
      runFrom (converted param type (.ofResult r)) s' := by
  have hsettle : runFrom (box.settle run type.listDepth 0 (.ofText arg)) s =
      (.ok (.ofResult r), s') := by
    rw [hcall, Toolbox.settle_known _ _ hknown, runFrom_bind_ok hrun]
    rfl
  rw [Toolbox.valueOf, runFrom_bind_ok hsettle]

/-- What a parameter for text receives of the result of a call: nothing of a list, otherwise the
text of the result as it is read. That is the result itself exactly if it is verbatim. A text that
only starts and ends like one literal or one list, such as `"a", "b"` or `[1], [2]`, is misread as
one: what becomes of it is told here too, but as a fault of the reading. -/
theorem result_as_text (hcall : Argument.ofText arg = .call inner)
    (hknown : box.contains inner.name = true) (hrun : runFrom (run 0 inner) s = (.ok r, s')) :
    (Bracketed r.toList → runFrom (box.valueOf run param .string arg) s =
      (.error (.conversion ⟨param, .string, (Argument.ofResult r).text, .notText⟩), s')) ∧
    (¬ Bracketed r.toList → runFrom (box.valueOf run param .string arg) s =
      (.ok (.string (Argument.ofResult r).text), s')) ∧
    (runFrom (box.valueOf run param .string arg) s = (.ok (.string r), s') ↔
      Verbatim r.toList) := by
  have hvalue : runFrom (box.valueOf run param .string arg) s =
      runFrom (converted param .string (.ofResult r)) s' :=
    runFrom_valueOf_call .string hcall hknown hrun
  have hlist : Bracketed r.toList → runFrom (box.valueOf run param .string arg) s =
      (.error (.conversion ⟨param, .string, (Argument.ofResult r).text, .notText⟩), s') := by
    intro h
    rw [hvalue, converted_string_of_bracketed h, runFrom_throw]
  have htext : ¬ Bracketed r.toList → runFrom (box.valueOf run param .string arg) s =
      (.ok (.string (Argument.ofResult r).text), s') := by
    intro h
    rw [hvalue, converted_string_of_not_bracketed h, runFrom_pure]
  refine ⟨hlist, htext, ?_⟩
  by_cases h : Bracketed r.toList
  · obtain ⟨body, hbody⟩ := h
    rw [hlist ⟨body, hbody⟩]
    constructor
    · intro heq
      simp at heq
    · intro hverbatim
      exact absurd (hverbatim.trimmed.symm.trans hbody) (hverbatim.unbracketed body)
  · rw [htext h, ← Argument.text_ofResult_iff h]
    simp

end parameters

namespace Echo

def fixed (name text : String) : Tool (StateM Unit) where
  signature := .named name ""
  attachment := .function
  run _ := pure (.ok ⟨text⟩)

def echo : Tool (StateM Unit) where
  signature := (Signature.named "echo" "").withParam "text" .string
  attachment := .function
  run args := pure <| match args with
    | [.string text] => .ok ⟨text⟩
    | _ => .error ⟨"no text"⟩

def box : Toolbox (StateM Unit) :=
  .ofList [fixed "answer" "True", fixed "title" "draft 7", echo]

theorem run_fixed {name text : String} (h : box.find? name = some (fixed name text)) (room : Nat) :
    runFrom (box.runWithin (room + 1) 0 ⟨name, []⟩) () = (.ok text, ()) := by
  have hslots : assign? (fixed name text).signature.params [] = some [] := rfl
  rw [Toolbox.runWithin, Nat.sub_zero, Toolbox.readyWithin_succ, Toolbox.readyWith_slots h hslots]
  rfl

theorem ofText_fixed (name : String) (h : isIdentifier name.toList = true) :
    Argument.ofText (Call.text ⟨name, []⟩) = .call ⟨name, []⟩ :=
  Argument.ofText_call (by simp) h

theorem title_echoed :
    runFrom (box.runWithin 15 0 ⟨"title", []⟩) () = (.ok "draft 7", ()) ∧
      runFrom (box.valueOf (box.runWithin 15) "text" .string "title()") () =
        (.ok (.string "draft 7"), ()) := by
  have hcall : Argument.ofText "title()" = .call ⟨"title", []⟩ :=
    ofText_fixed "title" (by decide)
  have hrun : runFrom (box.runWithin 15 0 ⟨"title", []⟩) () = (.ok "draft 7", ()) :=
    run_fixed rfl 14
  have hnumber : Number.ofText? "draft 7".toList = none := ofText?_of_isNameStart (by decide) _
  have hverbatim : Verbatim "draft 7".toList := by
    apply Argument.verbatim_of_plain rfl rfl rfl rfl
    intro n hn
    rw [hnumber] at hn
    contradiction
  exact ⟨hrun, (result_as_text hcall rfl hrun).2.2.2 hverbatim⟩

/-- The capital letter of the answer does not reach the echo. -/
theorem capital_lost :
    runFrom (box.evaluate ⟨"answer", []⟩) () = (.ok "True", ()) ∧
      runFrom (box.ready ⟨"echo", ["answer()"]⟩) () = (.ok ⟨echo, [.string "true"]⟩, ()) := by
  have hcall : Argument.ofText "answer()" = .call ⟨"answer", []⟩ :=
    ofText_fixed "answer" (by decide)
  have hrun : ∀ room, runFrom (box.runWithin (room + 1) 0 ⟨"answer", []⟩) () = (.ok "True", ()) :=
    run_fixed rfl
  have hread : Argument.ofResult "True" = .boolean true := Argument.read_of_boolean rfl rfl rfl
  have hlist : ¬ Bracketed "True".toList := by
    rintro ⟨body, hbody⟩
    exact absurd (List.cons.inj hbody).1 (by decide)
  have hvalue : runFrom (box.valueOf (box.runWithin 15) "text" .string "answer()") () =
      (.ok (.string "true"), ()) := by
    rw [runFrom_valueOf_call .string hcall rfl (hrun 14), converted_string_of_not_bracketed hlist,
      runFrom_pure, hread, Argument.text]
    rfl
  have hvalues : runFrom ([("text", Slot.single .string "answer()")].mapM
      (box.fill (box.runWithin 15))) () = (.ok [.string "true"], ()) := by
    rw [List.mapM_cons]
    exact runFrom_bind_ok hvalue
  refine ⟨hrun 15, ?_⟩
  have htool : box.find? "echo" = some echo := rfl
  have hslots : assign? echo.signature.params ["answer()"] =
      some [("text", .single .string "answer()")] := rfl
  rw [Toolbox.ready, nestingLimit, Toolbox.readyWithin_succ, Toolbox.readyWith_slots htool hslots]
  exact runFrom_bind_ok hvalues

end Echo

end ToolDialogue
