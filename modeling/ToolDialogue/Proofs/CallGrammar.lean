import ToolDialogue.Proofs.Balance
import ToolDialogue.Proofs.OpenDelimiters
import ToolDialogue.Proofs.QuotedText
import ToolDialogue.Proofs.Reading

/-! The grammar of call expressions. A text is read as a call exactly if the grammar generates it,
and there is one way to do so; it is taken as an argument that is a call exactly if the name is an
identifier as well. -/
namespace ToolDialogue

open Text

/-- What is behind the quote that opens a literal, to the one that closes it. -/
inductive LiteralTail : List Char → Prop
  | close : LiteralTail ['"']
  | char {c : Char} {rest : List Char} :
      c ≠ '"' → c ≠ '\\' → LiteralTail rest → LiteralTail (c :: rest)
  /-- The character behind a backslash has no meaning. -/
  | escape {c : Char} {rest : List Char} : LiteralTail rest → LiteralTail ('\\' :: c :: rest)

inductive BalancedBody : List Char → Prop
  | nil : BalancedBody []
  | char {c : Char} {rest : List Char} :
      c ≠ '(' → c ≠ ')' → c ≠ '"' → BalancedBody rest → BalancedBody (c :: rest)
  | literal {tail rest : List Char} :
      LiteralTail tail → BalancedBody rest → BalancedBody ('"' :: tail ++ rest)
  | parens {inner rest : List Char} :
      BalancedBody inner → BalancedBody rest → BalancedBody ('(' :: inner ++ ')' :: rest)

theorem LiteralTail.unseen {tail : List Char} (h : LiteralTail tail) :
    Unseen .inside tail .outside := by
  induction h with
  | close => exact .cons rfl (.nil _)
  | char hquote hbackslash _ ih =>
    refine .cons rfl ?_
    simpa [Quote.next, hquote, hbackslash] using ih
  | escape _ ih => exact .cons rfl (.cons rfl ih)

variable {depth : Nat} {q : Quote} {text body rest : List Char}

theorem BalancedBody.closing?_append (h : BalancedBody body) (depth : Nat) (rest : List Char) :
    closing? '(' ')' depth .outside (body ++ rest) =
      (closing? '(' ')' depth .outside rest).map (inFront body) := by
  induction h generalizing depth rest with
  | nil => exact (map_inFront_nil _).symm
  | @char c body hopen hclose hquote _ ih =>
    have hstep : closing? '(' ')' depth .outside (c :: (body ++ rest)) =
        (closing? '(' ')' depth .outside (body ++ rest)).map (inFront [c]) := by
      simp [closing?, Quote.next, hopen, hclose, hquote]
      rfl
    rw [List.cons_append, hstep, ih, ← map_inFront_append]
    rfl
  | @literal tail body htail _ ih =>
    have hunseen : Unseen .outside ('"' :: tail) .outside := .cons rfl htail.unseen
    rw [List.append_assoc, hunseen.close, ih, ← map_inFront_append]
  | @parens inner body _ _ hinner hbody =>
    have hp : ('(', ')') ∈ brackets := by decide
    calc closing? '(' ')' depth .outside ('(' :: inner ++ ')' :: body ++ rest)
      _ = closing? '(' ')' depth .outside ('(' :: (inner ++ ')' :: (body ++ rest))) := by simp
      _ = ((((closing? '(' ')' depth .outside rest).map (inFront body)).map
            (inFront [')'])).map (inFront inner)).map (inFront ['(']) := by
        rw [closing?_open hp, hinner, closing?_close hp, hbody]
      _ = (closing? '(' ')' depth .outside rest).map (inFront ('(' :: inner ++ ')' :: body)) := by
        rw [← map_inFront_append, ← map_inFront_append, ← map_inFront_append]
        simp

/-- Balanced bodies, each but the last with the parenthesis behind it that closes one of those
that are still open. -/
def BalancedIn : Nat → List Char → Prop
  | 0, text => BalancedBody text
  | depth + 1, text =>
    ∃ first rest, text = first ++ ')' :: rest ∧ BalancedBody first ∧ BalancedIn depth rest

theorem BalancedIn.prepend (h : BalancedIn depth text) (start : List Char)
    (hstart : ∀ body, BalancedBody body → BalancedBody (start ++ body)) :
    BalancedIn depth (start ++ text) := by
  cases depth with
  | zero => exact hstart text h
  | succ depth =>
    obtain ⟨first, rest, rfl, hfirst, hrest⟩ := h
    exact ⟨start ++ first, rest, by simp, hstart first hfirst, hrest⟩

/-- What closes all that is open where a scanner is in state `q`. -/
def BalancedFrom (depth : Nat) : Quote → List Char → Prop
  | .outside, text => BalancedIn depth text
  | .inside, text => ∃ tail rest, text = tail ++ rest ∧ LiteralTail tail ∧ BalancedIn depth rest
  | .escaped, text =>
    ∃ c tail rest, text = c :: tail ++ rest ∧ LiteralTail tail ∧ BalancedIn depth rest

theorem balancedFrom_of_closes (h : closes '(' ')' depth q text = true) :
    BalancedFrom depth q text := by
  induction text generalizing depth q with
  | nil =>
    simp only [closes, Bool.and_eq_true, beq_iff_eq] at h
    obtain ⟨rfl, rfl⟩ := h
    exact .nil
  | cons x text ih =>
    obtain ⟨behind, hbehind, hx⟩ := exists_depth_of_closes h
    have hrest := ih hbehind
    cases q with
    | outside =>
      by_cases hquote : x = '"'
      · subst hquote
        obtain rfl : behind = depth := by simpa using hx
        obtain ⟨tail, rest, rfl, htail, hrest⟩ := hrest
        exact hrest.prepend ('"' :: tail) fun body hbody => .literal htail hbody
      · have hnext : Quote.outside.next x = .outside := if_neg hquote
        rw [hnext] at hrest
        by_cases hclose : x = ')'
        · subst hclose
          obtain rfl : depth = behind + 1 := by simpa using hx
          exact ⟨[], text, rfl, .nil, hrest⟩
        · by_cases hopen : x = '('
          · subst hopen
            obtain rfl : behind = depth + 1 := by simpa using hx
            obtain ⟨inner, rest, rfl, hinner, hrest⟩ := hrest
            have hparens : BalancedIn depth ('(' :: inner ++ [')'] ++ rest) :=
              hrest.prepend _ fun body hbody => by simpa using BalancedBody.parens hinner hbody
            show BalancedIn depth _
            simpa using hparens
          · obtain rfl : behind = depth := by simpa [hclose, hopen] using hx
            exact hrest.prepend [x] fun body hbody => .char hopen hclose hquote hbody
    | inside =>
      obtain rfl : behind = depth := by simpa using hx
      by_cases hbackslash : x = '\\'
      · subst hbackslash
        obtain ⟨c, tail, rest, rfl, htail, hrest⟩ := hrest
        exact ⟨'\\' :: c :: tail, rest, rfl, .escape htail, hrest⟩
      · by_cases hquote : x = '"'
        · subst hquote
          exact ⟨['"'], text, rfl, .close, hrest⟩
        · have hnext : Quote.inside.next x = .inside := by
            simp [Quote.next, hbackslash, hquote]
          rw [hnext] at hrest
          obtain ⟨tail, rest, rfl, htail, hrest⟩ := hrest
          exact ⟨x :: tail, rest, rfl, .char hquote hbackslash htail, hrest⟩
    | escaped =>
      obtain rfl : behind = depth := by simpa using hx
      obtain ⟨tail, rest, rfl, htail, hrest⟩ := hrest
      exact ⟨x, tail, rest, rfl, htail, hrest⟩

/-- The search for a closing parenthesis finds the end of a balanced body, and nothing else. -/
theorem closing?_iff_balanced : closing? '(' ')' 0 .outside text = some (body, rest) ↔
    BalancedBody body ∧ text = body ++ ')' :: rest := by
  constructor
  · exact fun h => ⟨balancedFrom_of_closes (closes_of_closing? h), eq_of_closing? h⟩
  · rintro ⟨hbody, rfl⟩
    rw [hbody.closing?_append, closing?_last (by decide)]
    simp

/-- A name that is not blank, without a parenthesis that opens, and a balanced body in
parentheses behind it. -/
structure Spells (text name body : List Char) : Prop where
  text_eq : trim text = name ++ '(' :: body ++ [')']
  plain : '(' ∉ name
  named : trim name ≠ []
  balanced : BalancedBody body

theorem Spells.unique {name body name' body' : List Char} (h : Spells text name body)
    (h' : Spells text name' body') : name = name' ∧ body = body' := by
  have heq := h.text_eq.symm.trans h'.text_eq
  rw [List.append_assoc, List.append_assoc, List.cons_append, List.cons_append] at heq
  obtain ⟨hname, hinner⟩ := first_unique h.plain h'.plain heq
  exact ⟨hname, List.append_cancel_right hinner⟩

section text

variable {name inner : List Char} {call : Call}

theorem Call.read_ne_ok (h : '(' ∉ trim text) : Call.read text ≠ .ok call := by
  rw [Call.read, List.dropWhile_eq_nil_iff.2 (bne_of_not_mem h)]
  simp

theorem isCallText_eq_false (h : '(' ∉ trim text) : isCallText text = false := by
  rw [isCallText, List.dropWhile_eq_nil_iff.2 (bne_of_not_mem h)]

variable (ht : trim text = name ++ '(' :: inner) (hname : '(' ∉ name)
include ht hname

omit hname in
theorem solid_of_paren : Solid (name ++ '(' :: inner) :=
  ht ▸ solid_trim (by simp [ht])

theorem Call.read_eq_ok_iff : Call.read text = .ok call ↔ trim name ≠ [] ∧
    ∃ body, closing? '(' ')' 0 .outside inner = some (body, []) ∧
      call = ⟨String.ofList (trim name), (splitArgs body).map String.ofList⟩ := by
  obtain ⟨htake, hdrop⟩ := span_of_not_mem hname inner
  have hsolid := solid_of_paren ht
  rw [Call.read, ht]
  simp only [htake, hdrop, List.isEmpty_iff]
  split
  · simp_all
  · rename_i hnamed
    cases hclosing : closing? '(' ')' 0 .outside inner with
    | none => simp
    | some parts =>
      obtain ⟨body, rest⟩ := parts
      dsimp only
      split
      · rename_i hblank
        have hrest : rest = [] := by
          rw [eq_of_closing? hclosing] at hsolid
          have hend : Solid (name ++ '(' :: body ++ [')'] ++ rest) := by simpa using hsolid
          exact hend.eq_nil_of_blank (trim_eq_nil_iff.1 hblank)
        simp [hnamed, hrest, eq_comm]
      · rename_i hblank
        have hrest : rest ≠ [] := by
          rintro rfl
          exact hblank rfl
        simp [hrest]

theorem isCallText_iff : isCallText text = true ↔ isIdentifier (trim name) = true ∧
    ∃ body, closing? '(' ')' 0 .outside inner = some (body, []) := by
  obtain ⟨htake, hdrop⟩ := span_of_not_mem hname inner
  rw [isCallText, ht]
  simp only [htake, hdrop, (solid_of_paren ht).trimEnd_eq_trim, Bool.and_eq_true]
  cases hclosing : closing? '(' ')' 0 .outside inner with
  | none => simp
  | some parts => simp [Prod.ext_iff]

end text

theorem exists_spells_iff {name inner : List Char} (ht : trim text = name ++ '(' :: inner)
    (hname : '(' ∉ name) {P : List Char → List Char → Prop} :
    (∃ name body, Spells text name body ∧ P name body) ↔ trim name ≠ [] ∧
      ∃ body, closing? '(' ')' 0 .outside inner = some (body, []) ∧ P name body := by
  constructor
  · rintro ⟨name', body, hspells, hP⟩
    have heq := ht.symm.trans hspells.text_eq
    rw [List.append_assoc, List.cons_append] at heq
    obtain ⟨rfl, rfl⟩ := first_unique hname hspells.plain heq
    exact ⟨hspells.named, body, closing?_iff_balanced.2 ⟨hspells.balanced, rfl⟩, hP⟩
  · rintro ⟨hnamed, body, hclosing, hP⟩
    obtain ⟨hbody, rfl⟩ := closing?_iff_balanced.1 hclosing
    exact ⟨name, body, ⟨by rw [ht, List.append_assoc, List.cons_append], hname, hnamed, hbody⟩, hP⟩

theorem Spells.paren_mem {name body : List Char} (h : Spells text name body) :
    '(' ∈ trim text := by
  rw [h.text_eq]
  simp

theorem Call.read_iff_spells {call : Call} : Call.read text = .ok call ↔
    ∃ name body, Spells text name body ∧
      call = ⟨String.ofList (trim name), (splitArgs body).map String.ofList⟩ := by
  by_cases hparen : '(' ∈ trim text
  · obtain ⟨name, inner, ht, hname⟩ := List.eq_append_cons_of_mem hparen
    rw [Call.read_eq_ok_iff ht hname, exists_spells_iff ht hname]
  · refine iff_of_false (Call.read_ne_ok hparen) ?_
    rintro ⟨name, body, hspells, -⟩
    exact hparen hspells.paren_mem

theorem isCallText_iff_spells : isCallText text = true ↔
    ∃ name body, Spells text name body ∧ isIdentifier (trim name) = true := by
  by_cases hparen : '(' ∈ trim text
  · obtain ⟨name, inner, ht, hname⟩ := List.eq_append_cons_of_mem hparen
    rw [isCallText_iff ht hname, exists_spells_iff ht hname]
    constructor
    · rintro ⟨hident, body, hclosing⟩
      exact ⟨(solid_of_isIdentifier hident).ne_nil, body, hclosing, hident⟩
    · rintro ⟨-, body, hclosing, hident⟩
      exact ⟨hident, body, hclosing⟩
  · refine iff_of_false (by simp [isCallText_eq_false hparen]) ?_
    rintro ⟨name, body, hspells, -⟩
    exact hparen hspells.paren_mem

theorem isCallText_iff_read : isCallText text = true ↔
    ∃ call, Call.read text = .ok call ∧ isIdentifier call.name.toList = true := by
  simp only [isCallText_iff_spells, Call.read_iff_spells]
  constructor
  · rintro ⟨name, body, hspells, hident⟩
    exact ⟨_, ⟨name, body, hspells, rfl⟩, by rwa [String.toList_ofList]⟩
  · rintro ⟨_, ⟨name, body, hspells, rfl⟩, hident⟩
    rw [String.toList_ofList] at hident
    exact ⟨name, body, hspells, hident⟩

theorem Call.read_trim (text : List Char) : Call.read (trim text) = Call.read text := by
  rw [Call.read, Call.read, trim_trim]

theorem isCallText_trim (text : List Char) : isCallText (trim text) = isCallText text := by
  rw [isCallText, isCallText, trim_trim]

theorem Argument.read_eq_call_iff {call : Call} {room : Nat} :
    Argument.read true room text = .call call ↔
      isCallText text = true ∧ Call.read text = .ok call := by
  rw [Argument.read_call_iff, Argument.call?, isCallText_trim, Call.read_trim]
  cases isCallText text <;> cases Call.read text <;> simp [Except.toOption]

/-- What the search for the closing parenthesis reads of a text: from the first parenthesis on to
the one that closes it, or to the end. -/
def searched (text : List Char) : List Char :=
  match (trim text).dropWhile (· != '(') with
  | [] => []
  | opener :: inner =>
    match closing? '(' ')' 0 .outside inner with
    | some (body, _) => opener :: body ++ [')']
    | none => opener :: inner

theorem searched_shapes (text : List Char) : searched text = [] ∨
    (∃ body, searched text = '(' :: body ++ [')'] ∧
      ∃ inner rest, closing? '(' ')' 0 .outside inner = some (body, rest)) ∨
    ∃ inner, searched text = '(' :: inner ∧ closing? '(' ')' 0 .outside inner = none := by
  by_cases hparen : '(' ∈ trim text
  · obtain ⟨name, inner, ht, hname⟩ := List.eq_append_cons_of_mem hparen
    obtain ⟨-, hdrop⟩ := span_of_not_mem hname inner
    right
    rw [searched, ht]
    simp only [hdrop]
    cases hclosing : closing? '(' ')' 0 .outside inner with
    | some parts => exact .inl ⟨parts.1, rfl, inner, parts.2, hclosing⟩
    | none => exact .inr ⟨inner, rfl, hclosing⟩
  · rw [searched, List.dropWhile_eq_nil_iff.2 (bne_of_not_mem hparen)]
    exact .inl rfl

theorem count_nonneg (text : List Char) :
    ∀ start, start <+: searched text → 0 ≤ openBehind '(' ')' 0 .outside start := by
  rcases searched_shapes text with hnil | ⟨body, hbody, inner, rest, hclosing⟩ |
    ⟨inner, hinner, hclosing⟩
  · rw [hnil]
    intro start hstart
    rw [List.prefix_nil.1 hstart]
    exact Int.le_refl 0
  · rw [hbody, List.cons_append, forall_prefix_cons]
    refine ⟨Int.le_refl 0, fun start hstart => ?_⟩
    show 0 ≤ openBehind '(' ')' 1 .outside start
    obtain ⟨-, hclosed, hfirst⟩ := closesFirst_of_closing? hclosing
    rcases List.prefix_concat_iff.1 hstart with rfl | hstart
    · exact Int.le_of_eq hclosed.symm
    · exact Int.le_of_lt (hfirst start hstart)
  · rw [hinner, forall_prefix_cons]
    refine ⟨Int.le_refl 0, fun start hstart => ?_⟩
    show 0 ≤ openBehind '(' ')' 1 .outside start
    exact Int.le_of_lt (staysOpen_of_closing? hclosing start hstart)

/-- The texts of calls. -/
theorem read_by_grammar (text : List Char) :
    (∀ call, Call.read text = .ok call ↔ ∃ name body, Spells text name body ∧
      call = ⟨String.ofList (trim name), (splitArgs body).map String.ofList⟩) ∧
    (∀ name body name' body', Spells text name body → Spells text name' body' →
      name = name' ∧ body = body') ∧
    (isCallText text = true ↔
      ∃ call, Call.read text = .ok call ∧ isIdentifier call.name.toList = true) ∧
    (isCallText text = true → ∃ call, Call.read text = .ok call ∧
      ∀ room, Argument.read true room text = .call call) ∧
    ∀ start, start <+: searched text → 0 ≤ openBehind '(' ')' 0 .outside start := by
  refine ⟨fun call => Call.read_iff_spells, fun _ _ _ _ h h' => h.unique h', isCallText_iff_read,
    fun h => ?_, count_nonneg text⟩
  obtain ⟨call, hread, -⟩ := isCallText_iff_read.1 h
  exact ⟨call, hread, fun _ => Argument.read_eq_call_iff.2 ⟨h, hread⟩⟩

end ToolDialogue
