import ToolDialogue.Proofs.CallGrammar
import ToolDialogue.Proofs.Cutting

/-! The text of a call that was read is a normal form: it is read as the same call. It differs from
the text that was read in blanks outside of literals only, and those mean nothing to a scanner. -/
namespace ToolDialogue

open Text

/-- Two texts that are read from `q` and differ only in blanks outside of literals. -/
inductive Respaced : Quote → List Char → List Char → Prop
  | nil (q : Quote) : Respaced q [] []
  | char {q : Quote} {c : Char} {a b : List Char} :
      Respaced (q.next c) a b → Respaced q (c :: a) (c :: b)
  | drop {c : Char} {a b : List Char} :
      isBlank c = true → Respaced .outside a b → Respaced .outside (c :: a) b
  | insert {c : Char} {a b : List Char} :
      isBlank c = true → Respaced .outside a b → Respaced .outside a (c :: b)

variable {q : Quote} {a b gap body : List Char}

theorem Quote.next_of_isBlank {c : Char} (h : isBlank c = true) :
    Quote.outside.next c = .outside := by
  have hinert := isInert_of_isBlank h
  simp only [isInert, Bool.and_eq_true, decide_eq_true_eq] at hinert
  exact (next_eq_outside_iff hinert.1.1).2 rfl

namespace Respaced

theorem refl (q : Quote) (text : List Char) : Respaced q text text := by
  induction text generalizing q with
  | nil => exact .nil q
  | cons c text ih => exact .char (ih _)

theorem append {a' b' : List Char} (ha : Respaced q a a') (hb : Respaced (q.after a) b b') :
    Respaced q (a ++ b) (a' ++ b') := by
  induction ha with
  | nil q => exact hb
  | char _ ih => exact .char (ih hb)
  | drop hc _ ih =>
    rw [Quote.after_cons, Quote.next_of_isBlank hc] at hb
    exact .drop hc (ih hb)
  | insert hc _ ih => exact .insert hc (ih hb)

theorem drop_blanks (hgap : ∀ c ∈ gap, isBlank c = true) (h : Respaced .outside a b) :
    Respaced .outside (gap ++ a) b := by
  induction gap with
  | nil => exact h
  | cons c gap ih =>
    obtain ⟨hc, hgap⟩ := List.forall_mem_cons.1 hgap
    exact .drop hc (ih hgap)

theorem insert_blanks (hgap : ∀ c ∈ gap, isBlank c = true) (h : Respaced .outside a b) :
    Respaced .outside a (gap ++ b) := by
  induction gap with
  | nil => exact h
  | cons c gap ih =>
    obtain ⟨hc, hgap⟩ := List.forall_mem_cons.1 hgap
    exact .insert hc (ih hgap)

theorem trim {text : List Char} (h : Quote.outside.after text = .outside) :
    Respaced .outside text (Text.trim text) := by
  obtain ⟨before, behind, hbefore, hbehind, htext⟩ := exists_blanks text
  have hpass := (pass_around 0 (Text.trim text) hbefore hbehind).2.2
  rw [← htext] at hpass
  have hend : Respaced (Quote.outside.after (Text.trim text)) behind [] := by
    rw [hpass.1 h]
    simpa using drop_blanks hbehind (.nil .outside)
  have hall := drop_blanks hbefore ((refl .outside (Text.trim text)).append hend)
  rwa [← List.append_assoc, ← htext, List.append_nil] at hall

theorem closes_eq {o c : Char} (hp : (o, c) ∈ brackets) (h : Respaced q a b) (depth : Nat) :
    closes o c depth q a = closes o c depth q b := by
  have hblank : ∀ {x : Char} (text : List Char) (depth : Nat), isBlank x = true →
      closes o c depth .outside (x :: text) = closes o c depth .outside text := by
    intro x text depth hx
    have hinert := isInert_of_isBlank hx
    simp only [isInert, Bool.and_eq_true, List.all_eq_true, decide_eq_true_eq] at hinert
    have hne := hinert.2 (o, c) hp
    simp [closes, Quote.next_of_isBlank hx, hne]
  induction h generalizing depth with
  | nil => rfl
  | char _ ih => cases depth <;> simp only [closes, ih]
  | drop hx _ ih => rw [hblank _ _ hx, ih]
  | insert hx _ ih => rw [hblank _ _ hx, ih]

end Respaced

/-- Trimmed pieces behind commas and blanks are a respaced text, if that leaves no literal open. -/
theorem Cuts.respaces {depth : Nat} {pieces : List (List Char)}
    (hgap : ∀ c ∈ gap, isBlank c = true) (h : Cuts depth .outside pieces)
    (hafter : Quote.outside.after ([','].intercalate pieces) = .outside) :
    Respaced .outside ([','].intercalate pieces)
      ((',' :: gap).intercalate (pieces.map trim)) := by
  generalize hq : Quote.outside = q at h
  induction h with
  | last _ =>
    subst hq
    have hpiece := Respaced.trim (by simpa using hafter)
    simpa using hpiece
  | @comma depth q piece next rest _ _ hpiece _ ih =>
    subst hq
    rw [List.intercalate_cons_cons, List.append_assoc, Quote.after_append, hpiece] at hafter
    rw [List.map_cons, List.map_cons, List.intercalate_cons_cons, List.intercalate_cons_cons,
      ← List.map_cons, List.append_assoc, List.append_assoc]
    refine (Respaced.trim hpiece).append ?_
    rw [hpiece]
    exact .char (.insert_blanks hgap (ih hafter rfl))

theorem after_of_closes {o c : Char} {depth : Nat} {text : List Char}
    (h : closes o c depth q text = true) : q.after text = .outside := by
  induction text generalizing depth q with
  | nil =>
    simp only [closes, Bool.and_eq_true, beq_iff_eq] at h
    exact h.2
  | cons x text ih =>
    obtain ⟨behind, hbehind, -⟩ := exists_depth_of_closes h
    exact ih hbehind

theorem balancedBody_iff_closes : BalancedBody body ↔ closes '(' ')' 0 .outside body = true := by
  constructor
  · intro h
    have hclosing : closing? '(' ')' 0 .outside (body ++ ')' :: []) = some (body, []) :=
      closing?_iff_balanced.2 ⟨h, rfl⟩
    exact closes_of_closing? hclosing
  · exact balancedFrom_of_closes

theorem BalancedBody.splitArgs (h : BalancedBody body)
    (hgap : ∀ c ∈ gap, isBlank c = true) :
    BalancedBody ((',' :: gap).intercalate (splitArgs body)) := by
  rw [ToolDialogue.splitArgs]
  split
  · exact .nil
  · rw [balancedBody_iff_closes] at h ⊢
    obtain ⟨hpieces, hbody⟩ := cuts_cutAtCommas 0 .outside body
    have hafter := after_of_closes h
    rw [← hbody] at hafter h
    have hrespaced := hpieces.respaces hgap hafter
    exact (hrespaced.closes_eq (by decide) 0).symm.trans h

namespace Call

variable {source name : List Char}

theorem toList_text (name : List Char) (args : List (List Char)) :
    (text ⟨String.ofList name, args.map String.ofList⟩).toList =
      name ++ '(' :: [',', ' '].intercalate args ++ [')'] := by
  have hargs : (", ".intercalate (args.map String.ofList)).toList =
      [',', ' '].intercalate args := by
    rw [toList_joined, List.map_map, Function.comp_def]
    simp
  simp [text, hargs]

theorem spells_text (h : Spells source name body) :
    Spells (text ⟨String.ofList (trim name), (splitArgs body).map String.ofList⟩).toList
      (trim name) ([',', ' '].intercalate (splitArgs body)) where
  text_eq := by
    have hsolid : Solid (trim name ++ ('(' :: [',', ' '].intercalate (splitArgs body)) ++ [')']) :=
      (solid_trim h.named).append_last (by decide)
    rw [toList_text, hsolid.trim_eq]
  plain := by
    obtain ⟨before, behind, -, -, hname⟩ := exists_blanks name
    intro hmem
    refine h.plain ?_
    rw [hname]
    simp [hmem]
  named := by
    rw [trim_trim]
    exact h.named
  balanced := h.balanced.splitArgs blank_behind_comma

theorem ofText_text_of_read {call : Call} (h : read source = .ok call) :
    ofText call.text = .ok call := by
  obtain ⟨name, body, hspells, rfl⟩ := read_iff_spells.1 h
  refine read_iff_spells.2 ⟨_, _, spells_text hspells, ?_⟩
  rw [trim_trim, splitArgs_splitArgs blank_behind_comma]

end Call

/-- The text of a call is a normal form, whether the call was read as such or as an argument. -/
theorem text_is_normal_form (text : String) (call : Call) :
    (Call.ofText text = .ok call → Call.ofText call.text = .ok call) ∧
      (Argument.ofText text = .call call → Argument.ofText call.text = .call call) := by
  refine ⟨Call.ofText_text_of_read, fun h => ?_⟩
  obtain ⟨hcall, hread⟩ := Argument.read_eq_call_iff.1 h
  have hagain := Call.ofText_text_of_read hread
  refine Argument.read_eq_call_iff.2 ⟨isCallText_iff_read.2 ⟨call, hagain, ?_⟩, hagain⟩
  obtain ⟨c, hc, hname⟩ := isCallText_iff_read.1 hcall
  rw [hread] at hc
  cases hc
  exact hname

/-- Blanks in odd places, a bracket that closes nothing, an empty argument, and a bracket that
nothing closes. -/
theorem text_of_untidy :
    Call.ofText " add (a], ,[b , \"x,)\" ) " = .ok ⟨"add", ["a]", "", "[b , \"x,)\""]⟩ ∧
      Call.ofText "add(a], , [b , \"x,)\")" = .ok ⟨"add", ["a]", "", "[b , \"x,)\""]⟩ ∧
      Argument.ofText "add(a], , [b , \"x,)\")" =
        .call ⟨"add", ["a]", "", "[b , \"x,)\""]⟩ := by
  have hread : Call.ofText " add (a], ,[b , \"x,)\" ) " =
      .ok ⟨"add", ["a]", "", "[b , \"x,)\""]⟩ := rfl
  have harg : Argument.ofText " add (a], ,[b , \"x,)\" ) " =
      .call ⟨"add", ["a]", "", "[b , \"x,)\""]⟩ :=
    Argument.read_eq_call_iff.2 ⟨rfl, hread⟩
  obtain ⟨hcall, hargument⟩ := text_is_normal_form " add (a], ,[b , \"x,)\" ) "
    ⟨"add", ["a]", "", "[b , \"x,)\""]⟩
  exact ⟨hread, hcall hread, hargument harg⟩

end ToolDialogue
