import ToolDialogue.CallLog
import ToolDialogue.Expr.Quote
import ToolDialogue.Proofs.JsonText
import ToolDialogue.Proofs.OpenDelimiters

/-! Keys of calls. The name of a call may hold any text, even what looks like the start of other
calls. The values can be told from it all the same: outside of their literals no parenthesis opens,
and a text that closes all literals when it is read from outside leaves one open when it is read
from inside. -/
namespace ToolDialogue

open Json

namespace Quote

/-- A scanner that reads a text from `q` meets no opening parenthesis, unless it stands unescaped
in a literal, and no backslash outside of literals. -/
def Plain : Quote → List Char → Prop
  | _, [] => True
  | q, c :: rest => (q = inside ∨ c ≠ '(' ∧ (q = outside → c ≠ '\\')) ∧ Plain (q.next c) rest

@[simp] theorem plain_nil (q : Quote) : q.Plain [] := trivial

@[simp] theorem plain_cons {q : Quote} {c : Char} {rest : List Char} : q.Plain (c :: rest) ↔
    (q = inside ∨ c ≠ '(' ∧ (q = outside → c ≠ '\\')) ∧ (q.next c).Plain rest := Iff.rfl

theorem plain_append {q : Quote} {a b : List Char} :
    q.Plain (a ++ b) ↔ q.Plain a ∧ (q.after a).Plain b := by
  induction a generalizing q with
  | nil => simp
  | cons c a ih => simp [ih, and_assoc]

/-- Two scanners of which one starts inside a literal and the other outside never come to agree. -/
theorem after_ne_after {text : List Char} (hout : outside.Plain text) (hin : inside.Plain text) :
    outside.after text ≠ inside.after text := by
  induction text with
  | nil => simp
  | cons c text ih =>
    obtain ⟨hc, hout⟩ := plain_cons.1 hout
    have hbackslash : c ≠ '\\' := (hc.resolve_left (by decide)).2 rfl
    -- a quote makes the two change places, and nothing else moves either of them
    by_cases hquote : c = '"'
    · subst hquote
      exact (ih hin.2 hout).symm
    · have hstay : outside.next c = outside ∧ inside.next c = inside := by
        simp [next, hbackslash, hquote]
      rw [hstay.1] at hout
      have hin := (plain_cons.1 hin).2
      rw [hstay.2] at hin
      simpa [hstay] using ih hout hin

end Quote

open Quote

def isOrdinary (c : Char) : Bool :=
  c != '"' && c != '\\' && c != '('

/-- Read outside of literals, the text is plain and leaves no literal open. -/
structure Whole (text : List Char) : Prop where
  plain : outside.Plain text
  closed : outside.after text = outside

namespace Whole

theorem nil : Whole [] :=
  ⟨trivial, rfl⟩

theorem append {a b : List Char} (ha : Whole a) (hb : Whole b) : Whole (a ++ b) where
  plain := plain_append.2 ⟨ha.plain, ha.closed.symm ▸ hb.plain⟩
  closed := by rw [after_append, ha.closed, hb.closed]

theorem of_ordinary (text : List Char) (h : text.all isOrdinary = true) : Whole text := by
  induction text with
  | nil => exact nil
  | cons c text ih =>
    rw [List.all_cons, Bool.and_eq_true] at h
    obtain ⟨hc, hrest⟩ := h
    obtain ⟨⟨hquote, hbackslash⟩, hparen⟩ : (c ≠ '"' ∧ c ≠ '\\') ∧ c ≠ '(' := by
      simpa [isOrdinary] using hc
    have hnext : outside.next c = outside := if_neg hquote
    have hw := ih hrest
    exact ⟨⟨.inr ⟨hparen, fun _ => hbackslash⟩, hnext.symm ▸ hw.plain⟩, by
      rw [after_cons, hnext, hw.closed]⟩

theorem intercalate {gap : List Char} (hgap : Whole gap) {pieces : List (List Char)}
    (h : ∀ piece ∈ pieces, Whole piece) : Whole (gap.intercalate pieces) := by
  induction pieces with
  | nil => exact nil
  | cons piece rest ih =>
    obtain ⟨hpiece, hrest⟩ := List.forall_mem_cons.1 h
    cases rest with
    | nil => simpa using hpiece
    | cons next rest =>
      rw [List.intercalate_cons_cons]
      exact (hpiece.append hgap).append (ih hrest)

/-- The parenthesis behind `start` would have to stand inside a literal, and then the same text
behind it would be read both from inside and from outside. -/
theorem not_append {start text : List Char} (h : Whole text) : ¬ Whole (start ++ '(' :: text) := by
  intro hall
  obtain ⟨hparen, hrest⟩ := (plain_append.1 hall.plain).2
  have hin : outside.after start = inside := by simpa using hparen
  have hclosed := hall.closed
  rw [after_append, hin, after_cons] at hclosed
  rw [hin] at hrest
  exact after_ne_after h.plain hrest (h.closed.trans hclosed.symm)

theorem plain_ordinary {text : List Char} (h : ∀ d ∈ text, d ≠ '"' ∧ d ≠ '\\') :
    inside.Plain text ∧ inside.after text = inside := by
  induction text with
  | nil => exact ⟨trivial, rfl⟩
  | cons d text ih =>
    obtain ⟨hd, htext⟩ := List.forall_mem_cons.1 h
    have hnext : inside.next d = inside := by simp [next, hd]
    rw [plain_cons, after_cons, hnext]
    exact ⟨⟨.inl rfl, (ih htext).1⟩, (ih htext).2⟩

theorem plain_escapeChar (c : Char) :
    inside.Plain (escapeChar c) ∧ inside.after (escapeChar c) = inside := by
  rcases escapeChar_cases c with ⟨hself, hquote, hbackslash, -⟩ |
      ⟨code, more, hescape, hmore, hread⟩
  · rw [hself]
    exact plain_ordinary (List.forall_mem_singleton.2 ⟨hquote, hbackslash⟩)
  · have hcode : code ≠ '(' := by
      rintro rfl
      have hnone := hread []
      contradiction
    have hnext : (inside.next '\\').next code = inside := rfl
    obtain ⟨hplain, hafter⟩ := plain_ordinary hmore
    rw [hescape, plain_cons, plain_cons, after_cons, after_cons, hnext]
    exact ⟨⟨.inl rfl, .inr ⟨hcode, by simp [next]⟩, hplain⟩, hafter⟩

theorem quote (text : List Char) : Whole (Json.quote text) := by
  have hbody : inside.Plain (text.flatMap escapeChar) ∧
      inside.after (text.flatMap escapeChar) = inside := by
    induction text with
    | nil => simp
    | cons c text ih =>
      obtain ⟨hplain, hafter⟩ := plain_escapeChar c
      rw [List.flatMap_cons, plain_append, after_append, hafter]
      exact ⟨⟨hplain, ih.1⟩, ih.2⟩
  have hopen : outside.next '"' = inside := rfl
  have hclose : inside.after ['"'] = outside := rfl
  rw [Json.quote, List.cons_append]
  refine ⟨?_, ?_⟩
  · simp [plain_append, hopen, hbody]
  · rw [after_cons, hopen, after_append, hbody.2, hclose]

theorem chars : ∀ v : Value, Whole v.chars
  | .null => of_ordinary _ (by decide)
  | .bool b => by cases b <;> exact of_ordinary _ (by decide)
  | .number n => of_ordinary _ <| by
    have hall : Number.alphabet.all isOrdinary = true := by decide
    rw [List.all_eq_true] at hall ⊢
    exact fun c hc => hall c (n.mem_alphabet c hc)
  | .string s => quote s.toList
  | .array items => by
    have hitems : ∀ piece ∈ items.map Value.chars, Whole piece :=
      List.forall_mem_map.2 fun item _ => chars item
    rw [chars_array]
    exact ((of_ordinary ['['] (by decide)).append
      (intercalate (of_ordinary _ (by decide)) hitems)).append (of_ordinary _ (by decide))
  | .object members => by
    have hmembers : ∀ piece ∈ members.map Value.memberChars, Whole piece :=
      List.forall_mem_map.2 fun m hm =>
        have := Value.sizeOf_snd_lt hm
        (quote m.1.toList).append ((of_ordinary [':'] (by decide)).append (chars m.2))
    rw [Value.chars_object]
    exact ((of_ordinary ['\x7b'] (by decide)).append
      (intercalate (of_ordinary _ (by decide)) hmembers)).append (of_ordinary _ (by decide))

end Whole

def keyTail (args : List Value) : List Char :=
  [',', ' '].intercalate (args.map Value.chars) ++ [')']

theorem whole_keyTail (args : List Value) : Whole (keyTail args) :=
  (Whole.intercalate (.of_ordinary _ (by decide))
    (List.forall_mem_map.2 fun v _ => .chars v)).append (.of_ordinary _ (by decide))

theorem keyTail_injective : Function.Injective keyTail := fun _ _ h =>
  (intercalate_append_inj Value.chars [' '] ')' (by simp) (by decide)
    (Value.chars_start (by simp)) (fun v _ => v.selfDelimited) h).1

theorem toList_callKey (name : String) (args : List Value) :
    (callKey name args).toList = name.toList ++ '(' :: keyTail args := by
  have hargs : (", ".intercalate (args.map Value.text)).toList =
      [',', ' '].intercalate (args.map Value.chars) := by
    rw [String.toList_intercalate, List.map_map]
    exact congrArg _ (List.map_congr_left fun v _ => String.toList_ofList)
  simp [callKey, keyTail, hargs]

/-- No text of a name can be taken for the start of the values. -/
theorem eq_nil_of_keyTail {start : List Char} {args values : List Value}
    (h : '(' :: keyTail args = start ++ '(' :: keyTail values) : start = [] := by
  cases start with
  | nil => rfl
  | cons c start =>
    have hargs : keyTail args = start ++ '(' :: keyTail values := (List.cons.inj h).2
    exact absurd (hargs ▸ whole_keyTail args) (whole_keyTail values).not_append

/-- Calls have the same key exactly if they have the same name and pass the same values. -/
theorem callKey_inj (name other : String) (args values : List Value) :
    callKey name args = callKey other values ↔ name = other ∧ args = values := by
  refine ⟨fun h => ?_, fun ⟨hname, hargs⟩ => hname ▸ hargs ▸ rfl⟩
  have hchars : name.toList ++ '(' :: keyTail args = other.toList ++ '(' :: keyTail values := by
    rw [← toList_callKey, ← toList_callKey, h]
  have hname : name.toList = other.toList := by
    rcases List.append_eq_append_iff.1 hchars with ⟨start, hother, hrest⟩ | ⟨start, hname, hrest⟩
    · rw [hother, eq_nil_of_keyTail hrest, List.append_nil]
    · rw [hname, eq_nil_of_keyTail hrest, List.append_nil]
  rw [hname] at hchars
  have htail : keyTail args = keyTail values := (List.cons.inj (List.append_cancel_left hchars)).2
  exact ⟨String.toList_inj.1 hname, keyTail_injective htail⟩

end ToolDialogue
