import ToolDialogue.Proofs.Balance
import ToolDialogue.Proofs.BracketSurplus
import ToolDialogue.Proofs.Items

/-! Lists with and without brackets around them. Text with commas in it is taken for a list without
them, unless it starts and ends like one literal or one group: that it is taken for, whatever
stands between. -/
namespace ToolDialogue

open Json (Value)
open Text

/-- The text starts and ends like one quoted literal, or like one group. -/
def Enclosed (text : List Char) : Prop :=
  (∃ q body, (q = '"' ∨ q = '\x27') ∧ text = q :: body ++ [q]) ∨
    ∃ body, text = '[' :: body ++ [']']

theorem unquote?_of_not_enclosed {text : List Char} (h : ¬ Enclosed text) :
    unquote? text = none := by
  by_contra hsome
  obtain ⟨content, hcontent⟩ := Option.ne_none_iff_exists'.1 hsome
  obtain ⟨q, body, hq, htext, -⟩ := unquote?_eq_some_iff.1 hcontent
  exact h (.inl ⟨q, body, hq, htext⟩)

theorem unbracket?_of_not_enclosed {text : List Char} (h : ¬ Enclosed text) :
    unbracket? text = none := by
  by_contra hsome
  obtain ⟨body, hbody⟩ := Option.ne_none_iff_exists'.1 hsome
  exact h (.inr ⟨body, unbracket?_eq_some_iff.1 hbody⟩)

namespace Argument

theorem read_of_comma {text : List Char} (htrim : trim text = text) (hcomma : ',' ∈ text)
    (h : ¬ Enclosed text) (room : Nat) : read false room text = bare (String.ofList text) := by
  have hforeign : isForeign ',' = true := by decide
  have hboolean : readBoolean? text = none := by
    by_contra hsome
    obtain ⟨b, hb⟩ := Option.ne_none_iff_exists'.1 hsome
    exact not_mem_of_readBoolean? hforeign hb hcomma
  have hnumber : Json.Number.ofText? text = none := by
    by_contra hsome
    obtain ⟨n, hn⟩ := Option.ne_none_iff_exists'.1 hsome
    exact not_mem_of_ofText? hforeign hn hcomma
  rw [read_of_plain rfl] <;> rw [htrim]
  · rw [plain, hnumber]
  · exact unquote?_of_not_enclosed h
  · exact hboolean
  · exact unbracket?_of_not_enclosed h

theorem items_bare {text : List Char} (htrim : trim text = text) (h : ¬ Enclosed text) :
    (bare (String.ofList text)).items =
      (splitArgs text).map fun piece => ofResult (String.ofList piece) := by
  rw [items, String.toList_ofList, htrim, unbracket?_of_not_enclosed h, Option.getD_none]

end Argument

section lists

variable {param : String} {type elem : ValueType} (he : type.elem? = some elem) {es : List String}
  (hes : ∀ e ∈ es, Solid e.toList ∧ Balanced e.toList) {v : Value}

include hes

theorem splitArgs_elements :
    splitArgs (", ".intercalate es).toList = es.map String.toList :=
  Argument.splitArgs_joined fun e he => ⟨(hes e he).1, (hes e he).2.neutral⟩

theorem trim_elements (hne : es ≠ []) :
    trim (", ".intercalate es).toList = (", ".intercalate es).toList := by
  rw [toList_joined]
  exact (Solid.intercalate _ (by simpa using hne)
    (List.forall_mem_map.2 fun e he => (hes e he).1)).trim_eq

include he

theorem convert_bracketed_iff :
    convert param type (.ofResult ("[" ++ ", ".intercalate es ++ "]")) = .ok v ↔
      ∃ values, v = .array values ∧ List.Forall₂
        (fun e value => convert param elem (.read false (groupLimit - 1) e.toList) = .ok value)
        es values := by
  rw [Argument.ofResult, toList_bracketed, convert_read_list_iff _ he, splitArgs_elements hes]
  simp only [List.forall₂_map_left_iff]
  rfl

theorem convert_unbracketed_iff (hlen : 2 ≤ es.length)
    (henclosed : ¬ Enclosed (", ".intercalate es).toList) :
    convert param type (.ofResult (", ".intercalate es)) = .ok v ↔
      ∃ values, v = .array values ∧ List.Forall₂
        (fun e value => convert param elem (.ofResult e) = .ok value) es values := by
  have hcomma : ',' ∈ (", ".intercalate es).toList := by
    match es with
    | first :: second :: rest => simp
  have hne : es ≠ [] := by
    rintro rfl
    contradiction
  have htrim := trim_elements hes hne
  rw [Argument.ofResult, Argument.read_of_comma htrim hcomma henclosed, convert_list_iff he (by simp),
    Argument.items_bare htrim henclosed, splitArgs_elements hes]
  simp only [List.forall₂_map_left_iff, String.ofList_toList]

end lists

section enclosed

variable {param : String} {type elem : ValueType} {es front : List String} {e : String}
  {body : List Char} {v : Value}

theorem intercalate_concat (gap : List Char) {pieces : List (List Char)} (hne : pieces ≠ [])
    (piece : List Char) :
    gap.intercalate (pieces ++ [piece]) = gap.intercalate pieces ++ gap ++ piece := by
  induction pieces with
  | nil => contradiction
  | cons first rest ih =>
    cases rest with
    | nil => simp
    | cons next rest =>
      rw [List.cons_append, List.intercalate_cons_of_ne_nil (by simp), ih (by simp),
        List.intercalate_cons_cons]
      simp

theorem BackOutside.of_behind_bracket {text : List Char} (h : BackOutside ('[' :: text)) :
    BackOutside text where
  depth := Nat.eq_zero_of_le_zero ((depthBehind_mono (Nat.zero_le 1) .outside text).trans h.depth.le)
  quote := h.quote

/-- The brackets at the ends belong to the first element and the last. Without the one in front the
last element is still cut off, and without the one behind it lacks a closing bracket. -/
theorem splitArgs_between (hes : ∀ e' ∈ front ++ [e], Solid e'.toList ∧ Balanced e'.toList)
    (hfront : front ≠ []) (h : (", ".intercalate (front ++ [e])).toList = '[' :: body ++ [']']) :
    ∃ pieces piece, splitArgs body = pieces ++ [piece] ∧ surplus e.toList = surplus piece + 1 := by
  have hpieces : ∀ p ∈ (front ++ [e]).map String.toList, Piece p :=
    List.forall_mem_map.2 fun e' he' => ⟨(hes e' he').1, (hes e' he').2.neutral⟩
  have hne : front.map String.toList ≠ [] := by simpa using hfront
  rw [toList_joined, List.map_append, List.map_singleton, intercalate_concat _ hne] at h
  rw [List.map_append, List.map_singleton] at hpieces
  have hstart : ∀ p ∈ front.map String.toList, Piece p :=
    fun p hp => hpieces p (List.mem_append_left _ hp)
  have hback := BackOutside.intercalate blank_behind_comma fun p hp =>
    (hstart p hp).neutral.backOutside
  have hsolid := Solid.intercalate [',', ' '] hne fun p hp => (hstart p hp).solid
  generalize [',', ' '].intercalate (front.map String.toList) = whole at h hback hsolid
  obtain ⟨first, rest, rfl, -⟩ := hsolid.head
  have hlast : Piece e.toList := hpieces _ (by simp)
  obtain ⟨last, c, hc, -⟩ := hlast.solid.last
  have hends : (first :: (rest ++ ',' :: ' ' :: last)) ++ [c] = ('[' :: body) ++ [']'] := by
    rw [← h, hc]
    simp
  obtain ⟨hbody, hbracket⟩ := List.append_inj' hends rfl
  obtain ⟨rfl, rfl⟩ := List.cons.inj hbody
  obtain rfl := List.singleton_inj.1 hbracket
  have huncut : Uncut 0 .outside (' ' :: last) := by
    have hwhole := hlast.neutral.uncut
    rw [hc, uncut_append] at hwhole
    exact uncut_cons.2 ⟨rfl, hwhole.1⟩
  obtain ⟨pieces, hsplit⟩ := splitArgs_append hback.of_behind_bracket huncut
  refine ⟨pieces, _, hsplit, ?_⟩
  simp [hc, bracketWeight]

theorem convert_quoted {content : String} (he : type.elem? = some elem)
    (h : convert param type (.quoted content) = .ok v) : ∃ w, v = .array [w] := by
  obtain ⟨values, rfl, hvalues⟩ := items_of_convert he h
  obtain ⟨w, rest, -, hrest, rfl⟩ := List.forall₂_cons_left_iff.1 hvalues
  rw [List.forall₂_nil_left_iff.1 hrest]
  exact ⟨w, rfl⟩

theorem convert_quotes_ne (he : type.elem? = some elem) (hlen : 2 ≤ es.length)
    (hes : ∀ e ∈ es, Solid e.toList ∧ Balanced e.toList) {q : Char} (hq : q = '"' ∨ q = '\x27')
    (htext : (", ".intercalate es).toList = q :: body ++ [q])
    (hbare : convert param type (.ofResult (", ".intercalate es)) = .ok v) :
    convert param type (.ofResult ("[" ++ ", ".intercalate es ++ "]")) ≠ .ok v := by
  intro hbracketed
  obtain ⟨values, rfl, hvalues⟩ := (convert_bracketed_iff he hes).1 hbracketed
  have hlength : es.length = values.length := hvalues.length_eq
  rw [Argument.ofResult, htext, Argument.read_of_quotes hq] at hbare
  obtain ⟨w, hw⟩ := convert_quoted he hbare
  rw [Value.array.inj hw, List.length_singleton] at hlength
  omega

/-- Elements between brackets of their own give a last item with another surplus. -/
theorem convert_brackets_ne (he : type.elem? = some elem) (hlen : 2 ≤ es.length)
    (hes : ∀ e ∈ es, Solid e.toList ∧ Balanced e.toList)
    (htext : (", ".intercalate es).toList = '[' :: body ++ [']'])
    (hbare : convert param type (.ofResult (", ".intercalate es)) = .ok v) :
    convert param type (.ofResult ("[" ++ ", ".intercalate es ++ "]")) ≠ .ok v := by
  intro hbracketed
  obtain ⟨values, rfl, hvalues⟩ := (convert_bracketed_iff he hes).1 hbracketed
  rcases List.eq_nil_or_concat es with rfl | ⟨front, e, rfl⟩
  · contradiction
  rw [List.concat_eq_append] at *
  have hfront : front ≠ [] := by
    rintro rfl
    simp at hlen
  obtain ⟨pieces, piece, hsplit, hsurplus⟩ := splitArgs_between hes hfront htext
  rw [Argument.ofResult, htext, convert_read_list_iff body he, hsplit] at hbare
  obtain ⟨values', heq, hvalues'⟩ := hbare
  obtain rfl := Value.array.inj heq
  obtain ⟨w, hpiece, he'⟩ := exists_last_of_forall₂ hvalues' hvalues
  have hsame := surplus_eq_of_convert hpiece he'
  rw [Argument.surplus_read, Argument.surplus_read] at hsame
  omega

/-- Brackets around a list of elements are optional, unless the elements start and end like one
literal or one group, and then the two spellings never give the same value. Where there are no
brackets one group more may nest in an element, which matters only for texts that stand where that
limit is met. -/
theorem brackets_optional (he : type.elem? = some elem) (hlen : 2 ≤ es.length)
    (hes : ∀ e ∈ es, Solid e.toList ∧ Balanced e.toList) :
    (Enclosed (", ".intercalate es).toList → ∀ v,
        convert param type (.ofResult (", ".intercalate es)) = .ok v →
          convert param type (.ofResult ("[" ++ ", ".intercalate es ++ "]")) ≠ .ok v) ∧
      (¬ Enclosed (", ".intercalate es).toList →
        (∀ e ∈ es,
          (elem.base = .string → elem.listDepth % (groupLimit + 1) < groupLimit - 1) ∨
            .read false (groupLimit - 1) e.toList = Argument.ofResult e) → ∀ v,
        (convert param type (.ofResult (", ".intercalate es)) = .ok v ↔
          convert param type (.ofResult ("[" ++ ", ".intercalate es ++ "]")) = .ok v)) := by
  constructor
  · rintro (⟨q, body, hq, htext⟩ | ⟨body, htext⟩) v
    · exact convert_quotes_ne he hlen hes hq htext
    · exact convert_brackets_ne he hlen hes htext
  intro henclosed hlimit v
  have hitem : ∀ e ∈ es, ∀ value, convert param elem (.ofResult e) = .ok value ↔
      convert param elem (.read false (groupLimit - 1) e.toList) = .ok value := by
    intro e he value
    rcases hlimit e he with hbase | hread
    · refine convert_read_congr (Nat.le_refl _) (Nat.sub_le _ 1) (fun hstring => ?_) e.toList value
      have hlt := hbase hstring
      omega
    · rw [hread]
  rw [convert_unbracketed_iff he hes hlen henclosed, convert_bracketed_iff he hes]
  simp only [forall₂_iff_of_mem hitem]

end enclosed

theorem read_quoted (room : Nat) (content : String) :
    Argument.read false room (inQuotes '"' content.toList) = .quoted content := by
  rw [Argument.read_inQuotes (.inl rfl), String.ofList_toList]

/-- A number and a text with a comma in it. -/
theorem mixed_list_unbracketed :
    (2 ≤ ["7", "\"x, y\""].length ∧
        (∀ e ∈ ["7", "\"x, y\""], Solid e.toList ∧ Balanced e.toList) ∧
        ¬ Enclosed "7, \"x, y\"".toList) ∧
      convert "xs" (.array .string) (.ofResult "7, \"x, y\"") =
        .ok (.array [.string "7", .string "x, y"]) ∧
      convert "xs" (.array .string) (.ofResult "[7, \"x, y\"]") =
        .ok (.array [.string "7", .string "x, y"]) := by
  have hes : ∀ e ∈ ["7", "\"x, y\""], Solid e.toList ∧ Balanced e.toList := by
    intro e he
    obtain rfl | rfl := List.mem_pair.1 he
    · exact ⟨(Json.Number.piece_intChars 7).solid, by decide, rfl⟩
    · exact ⟨(piece_inQuotes "x, y".toList).solid, by decide, rfl⟩
  have henclosed : ¬ Enclosed (", ".intercalate ["7", "\"x, y\""]).toList := by
    rintro (⟨q, body, hq, htext⟩ | ⟨body, htext⟩)
    · obtain rfl : '7' = q := (List.cons.inj htext).1
      exact absurd hq (by decide)
    · exact absurd (List.cons.inj htext).1 (by decide)
  have hnumber : convert "xs" .string (.ofResult "7") = .ok (.string "7") := by
    have hread : Argument.ofResult "7" = .number (.integer 7 (by decide)) :=
      @Argument.read_intChars false groupLimit 7 (by decide)
    rw [hread, convert_text (by simp) (by simp), Argument.text]
    rfl
  have htext : convert "xs" .string (.ofResult "\"x, y\"") = .ok (.string "x, y") := by
    have hread : Argument.ofResult "\"x, y\"" = .quoted "x, y" := read_quoted groupLimit "x, y"
    rw [hread, convert_string_quoted]
  have hbare : convert "xs" (.array .string) (.ofResult (", ".intercalate ["7", "\"x, y\""])) =
      .ok (.array [.string "7", .string "x, y"]) :=
    (convert_unbracketed_iff rfl hes (by decide) henclosed).2
      ⟨_, rfl, .cons hnumber (.cons htext .nil)⟩
  refine ⟨⟨by decide, hes, henclosed⟩, hbare, ?_⟩
  exact ((brackets_optional rfl (by decide) hes).2 henclosed (fun _ _ => .inl fun _ => by decide) _).1
    hbare

/-- Two texts are taken for one, and of two groups only the outer brackets are taken away. -/
theorem two_elements_misread :
    (∀ e ∈ ["\"a\"", "\"b\"", "[1]", "[2]"], Solid e.toList ∧ Balanced e.toList) ∧
      convert "xs" (.array .string) (.ofResult "\"a\", \"b\"") =
        .ok (.array [.string "a\", \"b"]) ∧
      convert "xs" (.array .string) (.ofResult "[\"a\", \"b\"]") =
        .ok (.array [.string "a", .string "b"]) ∧
      convert "xs" (.array .string) (.ofResult "[1], [2]") =
        .ok (.array [.string "1]", .string "[2"]) ∧
      ∀ v, convert "xs" (.array .string) (.ofResult "[[1], [2]]") ≠ .ok v := by
  have hes : ∀ e ∈ ["\"a\"", "\"b\"", "[1]", "[2]"], Solid e.toList ∧ Balanced e.toList := by
    intro e he
    simp only [List.mem_cons, List.not_mem_nil, or_false] at he
    rcases he with rfl | rfl | rfl | rfl
    · exact ⟨(piece_inQuotes "a".toList).solid, by decide, rfl⟩
    · exact ⟨(piece_inQuotes "b".toList).solid, by decide, rfl⟩
    · exact ⟨@Solid.enclosed '[' ']' ['1'] (by decide) (by decide), by decide, rfl⟩
    · exact ⟨@Solid.enclosed '[' ']' ['2'] (by decide) (by decide), by decide, rfl⟩
  refine ⟨hes, ?_, ?_, ?_, ?_⟩
  · have hread : Argument.ofResult "\"a\", \"b\"" = .quoted "a\", \"b" :=
      Argument.read_of_quoted rfl rfl
    rw [hread]
    exact convert_items rfl (by simp) (.cons (convert_string_quoted "xs" _) .nil)
  · have ha : Argument.read false (groupLimit - 1) "\"a\"".toList = .quoted "a" := read_quoted _ "a"
    have hb : Argument.read false (groupLimit - 1) "\"b\"".toList = .quoted "b" := read_quoted _ "b"
    have hquotes : ∀ e ∈ ["\"a\"", "\"b\""], Solid e.toList ∧ Balanced e.toList :=
      fun e he => hes e (List.mem_append_left ["[1]", "[2]"] he)
    refine (convert_bracketed_iff rfl hquotes).2 ⟨_, rfl, .cons ?_ (.cons ?_ .nil)⟩
    · rw [ha, convert_string_quoted]
    · rw [hb, convert_string_quoted]
  · have hread : Argument.ofResult "[1], [2]" = .group [.bare "1]", .bare "[2"] := by
      have hfirst : Argument.read false 15 "1]".toList = .bare "1]" :=
        Argument.read_of_plain rfl rfl rfl rfl
      have hsecond : Argument.read false 15 "[2".toList = .bare "[2" :=
        Argument.read_of_plain rfl rfl rfl rfl
      rw [← hfirst, ← hsecond]
      exact Argument.read_group false 15 "1], [2".toList
    rw [hread]
    exact convert_items rfl (by simp)
      (.cons (convert_string_bare "xs" _) (.cons (convert_string_bare "xs" _) .nil))
  · intro v h
    have hgroups : ∀ e ∈ ["[1]", "[2]"], Solid e.toList ∧ Balanced e.toList :=
      fun e he => hes e (List.mem_append_right ["\"a\"", "\"b\""] he)
    obtain ⟨values, -, hvalues⟩ := (convert_bracketed_iff rfl hgroups).1 h
    obtain ⟨w, -, hw, -⟩ := List.forall₂_cons_left_iff.1 hvalues
    obtain ⟨-, hroom, -⟩ := (convert_read_scalar ['1'] rfl (groupLimit - 1)).1 hw
    contradiction

end ToolDialogue
