import ToolDialogue.Proofs.JsonText
import ToolDialogue.Proofs.QuotedText
import ToolDialogue.Tool.Basic

/-! Lists of texts that a tool returns as a JSON array, read again as an argument for a list of
texts. The list keeps its items, and each item keeps all characters but the control characters
whose escapes are not resolved in a quoted argument. -/
namespace ToolDialogue

open Json (Value digitChar_ordinary escapeChar escapeChar_cases quote)
open Text

/-- Not a control character, or one whose escape is resolved in a quoted argument. -/
def survives (c : Char) : Bool :=
  0x20 ≤ c.toNat || c = '\t' || c = '\n'

/-- What is read where a character of a JSON string was written. A lost character leaves its
escape without the backslash. -/
def reread (c : Char) : List Char :=
  if survives c then [c] else (escapeChar c).tail

def rereadText (text : String) : String :=
  String.ofList (text.toList.flatMap reread)

theorem unescape_append {start : List Char} (h : ∀ d ∈ start, d ≠ '\\') (rest : List Char) :
    unescape (start ++ rest) = start ++ unescape rest := by
  induction start with
  | nil => rfl
  | cons d start ih =>
    obtain ⟨hd, hstart⟩ := List.forall_mem_cons.1 h
    rw [List.cons_append, unescape_of_ne hd, ih hstart, List.cons_append]

theorem unescape_escapeChar (c : Char) (rest : List Char) :
    unescape (escapeChar c ++ rest) = reread c ++ unescape rest := by
  unfold reread escapeChar
  split
  case h_8 hquote hbackslash _ htab hline _ _ =>
    split
    · rename_i hcontrol
      have hlost : survives c = false := by
        simp [survives, hcontrol]
        exact ⟨htab, hline⟩
      have hcode : ∀ d ∈ ['0', '0', Nat.digitChar (c.toNat / 16), Nat.digitChar (c.toNat % 16)],
          d ≠ '\\' := by
        have hhigh := digitChar_ordinary (n := c.toNat / 16) (by omega)
        have hlow := digitChar_ordinary (n := c.toNat % 16) (by omega)
        simp [hhigh, hlow]
      rw [hlost, List.cons_append, List.cons_append,
        unescape_backslash (by decide) (by decide), unescape_append hcode]
      rfl
    · rename_i hcontrol
      have hkept : survives c = true := by simp [survives]; omega
      rw [if_pos hkept, List.singleton_append, unescape_of_ne hbackslash]
      rfl
  all_goals rfl

theorem unseen_escapeChar (c : Char) : Unseen .inside (escapeChar c) .inside := by
  have hstays : ∀ {d}, d ≠ '"' → d ≠ '\\' → Quote.inside.next d = .inside :=
    fun hquote hbackslash => by simp [Quote.next, hquote, hbackslash]
  rcases escapeChar_cases c with ⟨hself, hquote, hbackslash, -⟩ | ⟨code, more, hescape, hmore, -⟩
  · rw [hself]
    refine .cons rfl ?_
    rw [hstays hquote hbackslash]
    exact .nil .inside
  · rw [hescape]
    refine .cons rfl (.cons rfl ?_)
    show Unseen .inside more .inside
    clear hescape
    induction more with
    | nil => exact .nil .inside
    | cons d more ih =>
      obtain ⟨hd, hmore⟩ := List.forall_mem_cons.1 hmore
      refine .cons rfl ?_
      rw [hstays hd.1 hd.2]
      exact ih hmore

theorem unescape_flatMap_escapeChar (text : List Char) :
    unescape (text.flatMap escapeChar) = text.flatMap reread := by
  induction text with
  | nil => rfl
  | cons c text ih => rw [List.flatMap_cons, List.flatMap_cons, unescape_escapeChar, ih]

theorem reread_of_lost {c : Char} (h : survives c = false) :
    ∃ d more, reread c = d :: more ∧ d ≠ c := by
  have hne : ∀ d, survives d = true → d ≠ c := by
    rintro d hd rfl
    rw [hd] at h
    contradiction
  rw [reread, h, if_neg Bool.false_ne_true]
  unfold escapeChar
  split
  case h_8 hquote hbackslash _ htab hline _ _ =>
    have hcontrol : c.toNat < 0x20 := by
      by_contra hcontrol
      simp [survives] at h
      omega
    rw [if_pos hcontrol]
    exact ⟨'u', _, rfl, hne 'u' (by decide)⟩
  all_goals exact ⟨_, _, rfl, hne _ (by decide)⟩

theorem flatMap_reread_eq_self {text : List Char} :
    text.flatMap reread = text ↔ ∀ c ∈ text, survives c = true := by
  induction text with
  | nil => simp
  | cons c text ih =>
    rw [List.flatMap_cons, List.forall_mem_cons]
    cases hc : survives c with
    | true =>
      rw [reread, if_pos hc, List.singleton_append, List.cons_inj_right, ih]
      simp
    | false =>
      obtain ⟨d, more, hread, hd⟩ := reread_of_lost hc
      rw [hread, List.cons_append]
      simp [hd]

theorem piece_quote (text : List Char) : Piece (quote text) where
  solid := .enclosed (by decide) (by decide)
  neutral := by
    have hbody : Unseen .inside (text.flatMap escapeChar) .inside := by
      induction text with
      | nil => exact .nil .inside
      | cons c text ih => exact (unseen_escapeChar c).append ih
    have hlast : Unseen .inside ['"'] .outside := .cons rfl (.nil .outside)
    have hquote : Unseen .outside (quote text) .outside := .cons rfl (hbody.append hlast)
    exact hquote.neutral

theorem read_quote (calls : Bool) (room : Nat) (text : List Char) :
    Argument.read calls room (quote text) = .quoted (String.ofList (text.flatMap reread)) := by
  rw [quote, Argument.read_of_quotes (.inl rfl), unescape_flatMap_escapeChar]

def textArray (xs : List String) : Value :=
  .array (xs.map .string)

theorem ofResult_textArray (xs : List String) :
    Argument.ofResult (Output.ofValue (textArray xs)).content =
      .group (xs.map fun x => .quoted (rereadText x)) := by
  have hpieces : ∀ p ∈ xs.map fun x => quote x.toList, Piece p :=
    List.forall_mem_map.2 fun x _ => piece_quote x.toList
  have hsplit := @splitArgs_intercalate [] (by simp) _ hpieces
  have hchars : (textArray xs).chars =
      '[' :: [','].intercalate (xs.map fun x => quote x.toList) ++ [']'] := by
    rw [textArray, chars_array, List.map_map]
    rfl
  have hcontent : (Output.ofValue (textArray xs)).content = String.ofList (textArray xs).chars := rfl
  rw [hcontent, Argument.ofResult, String.toList_ofList, hchars, groupLimit, Argument.read_group,
    hsplit, List.map_map]
  exact congrArg Argument.group (List.map_congr_left fun x _ => read_quote false _ x.toList)

theorem textArray_injective : Function.Injective textArray := by
  intro xs ys h
  have hstrings : xs.map Value.string = ys.map Value.string := Value.array.inj h
  exact List.map_injective_iff.2 (fun _ _ h => Value.string.inj h) hstrings

theorem convert_ofResult_textArray (param : String) (xs : List String) :
    convert param (.array .string) (.ofResult (Output.ofValue (textArray xs)).content) =
      .ok (textArray (xs.map rereadText)) := by
  rw [ofResult_textArray, textArray]
  apply convert_items rfl (by simp)
  rw [Argument.items, List.map_map, List.forall₂_map_left_iff, List.forall₂_map_right_iff,
    List.forall₂_same]
  exact fun x _ => convert_string_quoted param (rereadText x)

/-- A list of texts that a call returns is, for a parameter of that type, the list of the reread
texts. It is the list that was returned exactly if no text in it has a control character other
than tabs and line feeds. -/
theorem convert_returned_texts (param : String) (xs : List String) :
    convert param (.array .string) (.ofResult (Output.ofValue (textArray xs)).content) =
        .ok (textArray (xs.map rereadText)) ∧
      (convert param (.array .string) (.ofResult (Output.ofValue (textArray xs)).content) =
          .ok (textArray xs) ↔ ∀ x ∈ xs, ∀ c ∈ x.toList, survives c = true) := by
  have hsame : ∀ x : String, rereadText x = x ↔ ∀ c ∈ x.toList, survives c = true := by
    intro x
    rw [← flatMap_reread_eq_self, rereadText, ← String.toList_inj, String.toList_ofList]
  refine ⟨convert_ofResult_textArray param xs, ?_⟩
  rw [convert_ofResult_textArray, Except.ok.injEq, textArray_injective.eq_iff]
  calc xs.map rereadText = xs
    _ ↔ xs.map rereadText = xs.map id := by rw [List.map_id]
    _ ↔ ∀ x ∈ xs, rereadText x = x := List.map_inj_left
    _ ↔ ∀ x ∈ xs, ∀ c ∈ x.toList, survives c = true := by simp only [hsame]

/-- Of a carriage return only the letter of its escape is left. -/
theorem carriage_return_lost :
    convert "lines" (.array .string) (.ofResult (Output.ofValue (textArray ["a\rb"])).content) =
        .ok (textArray ["arb"]) ∧
      textArray ["arb"] ≠ textArray ["a\rb"] := by
  have hreread : ["a\rb"].map rereadText = ["arb"] := by decide
  refine ⟨?_, textArray_injective.ne (by decide)⟩
  rw [convert_ofResult_textArray, hreread]

end ToolDialogue
