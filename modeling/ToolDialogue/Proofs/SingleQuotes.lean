import ToolDialogue.Proofs.Balance
import ToolDialogue.Proofs.CallDisplay
import ToolDialogue.Proofs.Items

/-! Single-quoted literals among other arguments. Taken alone such a literal is the text between its
quotes, whatever that is; but where arguments are cut apart only double quotes count, and what
stands between single quotes is bare text. -/
namespace ToolDialogue

open Text

section closes

variable {o c : Char} {depth : Nat} {q : Quote} {a b : List Char}

theorem closes_append_left (hafter : q.after a = .outside) (hb : closes o c 0 .outside b = true)
    (depth : Nat) : closes o c depth q (a ++ b) = closes o c depth q a := by
  induction a generalizing depth q with
  | nil =>
    obtain rfl : q = .outside := hafter
    rw [List.nil_append, closes_deeper hb, closes, beq_self_eq_true, Bool.and_true]
  | cons x a ih =>
    have hrest := ih hafter
    cases depth <;> simp only [List.cons_append, closes, hrest]

end closes

section pieces

variable {piece : List Char} {before after pieces : List (List Char)}

theorem closes_intercalate_cons (h : closes '(' ')' 0 .outside piece = true)
    (pieces : List (List Char)) :
    closes '(' ')' 0 .outside ([',', ' '].intercalate (piece :: pieces)) =
      closes '(' ')' 0 .outside ([',', ' '].intercalate pieces) := by
  cases pieces with
  | nil => rw [List.intercalate_singleton, h]; rfl
  | cons next rest =>
    have hcomma : closes '(' ')' 0 .outside [',', ' '] = true := by decide
    rw [List.intercalate_cons_cons, List.append_assoc, closes_append h 0, closes_append hcomma 0]

theorem closes_intercalate_append (h : ∀ p ∈ before, closes '(' ')' 0 .outside p = true)
    (pieces : List (List Char)) :
    closes '(' ')' 0 .outside ([',', ' '].intercalate (before ++ pieces)) =
      closes '(' ')' 0 .outside ([',', ' '].intercalate pieces) := by
  induction before with
  | nil => rfl
  | cons p before ih =>
    obtain ⟨hp, hbefore⟩ := List.forall_mem_cons.1 h
    rw [List.cons_append, closes_intercalate_cons hp, ih hbefore]

theorem closes_intercalate_insert (hbefore : ∀ p ∈ before, closes '(' ')' 0 .outside p = true)
    (hafter : ∀ p ∈ after, closes '(' ')' 0 .outside p = true)
    (hback : after = [] ∨ Quote.outside.after piece = .outside) :
    closes '(' ')' 0 .outside ([',', ' '].intercalate (before ++ piece :: after)) =
      closes '(' ')' 0 .outside piece := by
  rw [closes_intercalate_append hbefore]
  cases after with
  | nil => simp
  | cons next rest =>
    have hback := hback.resolve_left (by simp)
    have hrest : closes '(' ')' 0 .outside ([',', ' '] ++ [',', ' '].intercalate (next :: rest)) =
        true := by
      have hall := closes_intercalate_append hafter []
      rw [List.append_nil] at hall
      have hcomma : closes '(' ')' 0 .outside [',', ' '] = true := by decide
      rw [closes_append hcomma 0, hall]
      rfl
    rw [List.intercalate_cons_cons, List.append_assoc, closes_append_left hback hrest]

/-- As one of the pieces between commas, and in front of these others, the text is cut off as a
whole: no comma in it cuts it, and the comma behind it cuts. -/
structure Stands {α : Type} (piece : List Char) (behind : List α) : Prop where
  uncut : Uncut 0 .outside piece
  back : behind = [] ∨ BackOutside piece

/-- Among neutral pieces it depends on one more what the pieces are. -/
theorem cuts_insert_iff (hbefore : ∀ p ∈ before, Neutral 0 p) (hafter : ∀ p ∈ after, Neutral 0 p) :
    Cuts 0 .outside (before ++ piece :: after) ↔ Stands piece after := by
  induction before with
  | nil =>
    cases after with
    | nil =>
      constructor
      · intro h
        cases h with
        | last huncut => exact ⟨huncut, .inl rfl⟩
      · exact fun h => .last h.uncut
    | cons next rest =>
      rw [List.nil_append, cuts_cons_iff]
      constructor
      · rintro ⟨huncut, hdepth, hquote, -⟩
        exact ⟨huncut, .inr ⟨hdepth, hquote⟩⟩
      · rintro ⟨huncut, hback⟩
        have hback := hback.resolve_left (by simp)
        exact ⟨huncut, hback.depth, hback.quote, cuts_of_neutral (by simp) hafter⟩
  | cons p before ih =>
    obtain ⟨hp, hbefore⟩ := List.forall_mem_cons.1 hbefore
    rw [← ih hbefore, List.cons_append]
    generalize hpieces : before ++ piece :: after = pieces
    cases pieces with
    | nil => simp at hpieces
    | cons next rest =>
      rw [cuts_cons_iff]
      exact ⟨fun h => h.2.2.2, fun h => ⟨hp.uncut, hp.backOutside.depth, hp.backOutside.quote, h⟩⟩

theorem stands_map {α β : Type} {f : α → β} {behind : List α} :
    Stands piece (behind.map f) ↔ Stands piece behind := by
  constructor
  · exact fun h => ⟨h.uncut, h.back.imp_left List.map_eq_nil_iff.1⟩
  · exact fun h => ⟨h.uncut, h.back.imp_left List.map_eq_nil_iff.2⟩

end pieces

theorem Call.read_callChars_iff {name body : List Char} (hn : isIdentifier name = true)
    {call : Call} : Call.read (callChars name body) = .ok call ↔
      closes '(' ')' 0 .outside body = true ∧
        call = ⟨String.ofList name, (splitArgs body).map String.ofList⟩ := by
  have hname : '(' ∉ name := fun hmem => by simpa using ne_paren_of_mem hn '(' hmem
  have htext : trim (callChars name body) = name ++ '(' :: (body ++ [')']) := by
    rw [(solid_callChars hn).trim_eq, callChars, List.append_assoc, List.cons_append]
  have htrim := (solid_of_isIdentifier hn).trim_eq
  rw [Call.read_eq_ok_iff htext hname, htrim]
  constructor
  · rintro ⟨-, body', hclosing, rfl⟩
    obtain ⟨hbalanced, hbody⟩ := closing?_iff_balanced.1 hclosing
    obtain rfl := List.append_cancel_right hbody
    exact ⟨balancedBody_iff_closes.1 hbalanced, rfl⟩
  · rintro ⟨hcloses, rfl⟩
    exact ⟨(solid_of_isIdentifier hn).ne_nil, body,
      closing?_iff_balanced.2 ⟨balancedBody_iff_closes.2 hcloses, rfl⟩, rfl⟩

theorem Call.ofText_text_iff {name : String} {args : List String}
    (hn : isIdentifier name.toList = true) : Call.ofText (Call.text ⟨name, args⟩) = .ok ⟨name, args⟩ ↔
      closes '(' ')' 0 .outside (", ".intercalate args).toList = true ∧
        splitArgs (", ".intercalate args).toList = args.map String.toList := by
  have hargs : ∀ pieces : List (List Char),
      args = pieces.map String.ofList ↔ pieces = args.map String.toList := by
    intro pieces
    constructor
    · rintro rfl
      simp [Function.comp_def]
    · rintro rfl
      simp [Function.comp_def]
  rw [Call.ofText, Call.text_eq_callChars, Call.read_callChars_iff hn, String.ofList_toList,
    Call.mk.injEq]
  simp only [true_and, hargs]

/-- The text in single quotes; backslashes and single quotes in it are escaped. -/
def singleQuoted (s : String) : String :=
  String.ofList (inQuotes '\x27' s.toList)

theorem solid_singleQuoted (s : String) : Solid (singleQuoted s).toList := by
  rw [singleQuoted, String.toList_ofList]
  exact .enclosed (by decide) (by decide)

theorem neutral_singleQuoted {s : String} (h : ∀ c ∈ s.toList, isInert c = true) :
    Neutral 0 (singleQuoted s).toList := by
  rw [singleQuoted, String.toList_ofList]
  refine .of_inert fun c hc => ?_
  have hescaped : ∀ x ∈ s.toList, ∀ c ∈ escaped '\x27' x, isInert c = true := by
    intro x hx c hc
    unfold escaped at hc
    split at hc
    · rcases List.mem_pair.1 hc with rfl | rfl
      · decide
      · exact h _ hx
    · rw [List.mem_singleton.1 hc]
      exact h x hx
  simp only [inQuotes, List.cons_append, List.mem_cons, List.mem_append, List.mem_flatMap,
    List.not_mem_nil, or_false] at hc
  rcases hc with rfl | ⟨x, hx, hc⟩ | rfl
  · decide
  · exact hescaped x hx c hc
  · decide

theorem stands_of_neutral {α : Type} {piece : List Char} (h : Neutral 0 piece) (behind : List α) :
    Stands piece behind :=
  ⟨h.uncut, .inr h.backOutside⟩

section literal

variable {name : String} {before after : List String} (s : String)
  (hbefore : ∀ arg ∈ before, Solid arg.toList ∧ Balanced arg.toList)
  (hafter : ∀ arg ∈ after, Solid arg.toList ∧ Balanced arg.toList)
include hbefore hafter

theorem splitArgs_singleQuoted_iff :
    splitArgs (", ".intercalate (before ++ singleQuoted s :: after)).toList =
        (before ++ singleQuoted s :: after).map String.toList ↔
      Stands (singleQuoted s).toList after := by
  have hneutral : ∀ {args : List String}, (∀ arg ∈ args, Solid arg.toList ∧ Balanced arg.toList) →
      ∀ p ∈ args.map String.toList, Neutral 0 p :=
    fun h => List.forall_mem_map.2 fun arg harg => (h arg harg).2.neutral
  have hsolid : ∀ p ∈ (before ++ singleQuoted s :: after).map String.toList, Solid p := by
    refine List.forall_mem_map.2 fun arg harg => ?_
    rcases List.mem_append.1 harg with harg | harg
    · exact (hbefore arg harg).1
    · rcases List.mem_cons.1 harg with rfl | harg
      · exact solid_singleQuoted s
      · exact (hafter arg harg).1
  rw [toList_joined, splitArgs_eq_iff blank_behind_comma (by simp) hsolid, List.map_append,
    List.map_cons, cuts_insert_iff (hneutral hbefore) (hneutral hafter), stands_map]

theorem closes_singleQuoted (h : Stands (singleQuoted s).toList after) :
    closes '(' ')' 0 .outside (", ".intercalate (before ++ singleQuoted s :: after)).toList =
      closes '(' ')' 0 .outside (singleQuoted s).toList := by
  have hcloses : ∀ {args : List String}, (∀ arg ∈ args, Solid arg.toList ∧ Balanced arg.toList) →
      ∀ p ∈ args.map String.toList, closes '(' ')' 0 .outside p = true :=
    fun h => List.forall_mem_map.2 fun arg harg => (h arg harg).2.closed ('(', ')') (by decide)
  rw [toList_joined, List.map_append, List.map_cons]
  exact closes_intercalate_insert (hcloses hbefore) (hcloses hafter)
    ((stands_map.2 h).back.imp_right BackOutside.quote)

/-- Alone a single-quoted literal is the text in it. Among the arguments of a call, or the items of
a list, it is one of them exactly if it is so as bare text: no comma cuts it, it leaves nothing open
for a comma behind it, and in a call its parentheses are balanced. Only what stands between double
quotes is exempt. -/
theorem single_quoted_argument (hname : isIdentifier name.toList = true) :
    (∀ calls room, Argument.read calls room (singleQuoted s).toList = .quoted s) ∧
      (Call.ofText (Call.text ⟨name, before ++ singleQuoted s :: after⟩) =
          .ok ⟨name, before ++ singleQuoted s :: after⟩ ↔
        closes '(' ')' 0 .outside (singleQuoted s).toList = true ∧
          Stands (singleQuoted s).toList after) ∧
      (splitArgs (", ".intercalate (before ++ singleQuoted s :: after)).toList =
          (before ++ singleQuoted s :: after).map String.toList ↔
        Stands (singleQuoted s).toList after) ∧
      (Stands (singleQuoted s).toList after →
        Argument.ofText ("[" ++ ", ".intercalate (before ++ singleQuoted s :: after) ++ "]") =
          .group (before.map (fun arg => .read true (groupLimit - 1) arg.toList) ++ .quoted s ::
            after.map fun arg => .read true (groupLimit - 1) arg.toList)) := by
  have hread : ∀ calls room, Argument.read calls room (singleQuoted s).toList = .quoted s := by
    intro calls room
    rw [singleQuoted, String.toList_ofList, Argument.read_inQuotes (.inr rfl), String.ofList_toList]
  have hsplit := splitArgs_singleQuoted_iff s hbefore hafter
  refine ⟨hread, ?_, hsplit, fun hstands => ?_⟩
  · rw [Call.ofText_text_iff hname, hsplit]
    exact and_congr_left fun hstands => by rw [closes_singleQuoted s hbefore hafter hstands]
  · rw [Argument.ofText, toList_bracketed, groupLimit, Argument.read_group, hsplit.2 hstands,
      List.map_map, List.map_append, List.map_cons, Function.comp_apply, hread]
    rfl

end literal

/-- An escaped quote between two arguments. -/
theorem call_with_single_quotes :
    (isIdentifier "f".toList = true ∧
        (∀ arg ∈ ["1"], Solid arg.toList ∧ Balanced arg.toList) ∧
        ∀ arg ∈ ["\"x\""], Solid arg.toList ∧ Balanced arg.toList) ∧
      Argument.ofText "'it\\'s'" = .quoted "it's" ∧
      Call.ofText "f(1, 'it\\'s', \"x\")" = .ok ⟨"f", ["1", "'it\\'s'", "\"x\""]⟩ := by
  have hbefore : ∀ arg ∈ ["1"], Solid arg.toList ∧ Balanced arg.toList :=
    List.forall_mem_singleton.2 ⟨(Json.Number.piece_intChars 1).solid, by decide, rfl⟩
  have hafter : ∀ arg ∈ ["\"x\""], Solid arg.toList ∧ Balanced arg.toList :=
    List.forall_mem_singleton.2 ⟨(piece_inQuotes "x".toList).solid, by decide, rfl⟩
  obtain ⟨hread, hcall, -⟩ :=
    single_quoted_argument "it's" hbefore hafter (show isIdentifier "f".toList = true by decide)
  have hneutral : Neutral 0 (singleQuoted "it's").toList :=
    neutral_singleQuoted (List.all_eq_true.1 (by decide))
  exact ⟨⟨by decide, hbefore, hafter⟩, hread true groupLimit,
    hcall.2 ⟨by decide, stands_of_neutral hneutral ["\"x\""]⟩⟩

/-- A comma between single quotes separates arguments. -/
theorem single_quotes_cut :
    singleQuoted "a, b" = "'a, b'" ∧ Argument.ofText "'a, b'" = .quoted "a, b" ∧
      Call.ofText "f('a, b')" = .ok ⟨"f", ["'a", "b'"]⟩ :=
  ⟨by decide, Argument.read_of_quoted rfl rfl, rfl⟩

end ToolDialogue
