import ToolDialogue.Proofs.OpenDelimiters

/-! Where a text is cut at its commas. Behind every piece but the last a scanner stands outside all
brackets and literals, so each piece is cut as if it stood alone, and the blanks around a piece have
no part in it. -/
namespace ToolDialogue

open Text

/-- How many brackets of any kind are open behind a character; one that closes where none is open
changes nothing. -/
def cutDepth (depth : Nat) (q : Quote) (c : Char) : Nat :=
  if q.sees c && (c == '(' || c == '[' || c == '\x7b') then depth + 1
  else if q.sees c && (c == ')' || c == ']' || c == '\x7d') then depth - 1
  else depth

def depthBehind : Nat → Quote → List Char → Nat
  | depth, _, [] => depth
  | depth, q, c :: rest => depthBehind (cutDepth depth q c) (q.next c) rest

/-- No comma cuts the text where a scanner comes to it at this depth. -/
def Uncut (depth : Nat) (q : Quote) (text : List Char) : Prop :=
  (cutAtCommas depth q text).2 = []

variable {depth : Nat} {q : Quote} {c : Char} {text a b : List Char}

theorem cutAtCommas_comma (h : (q.sees c && c == ',' && depth == 0) = true) (rest : List Char) :
    cutAtCommas depth q (c :: rest) =
      ([], (cutAtCommas 0 .outside rest).1 :: (cutAtCommas 0 .outside rest).2) := by
  have hsees : q.sees c = true := by
    simp only [Bool.and_eq_true] at h
    exact h.1.1
  rw [cutAtCommas, if_pos h, Quote.next_of_sees hsees]

theorem cutAtCommas_cons (h : (q.sees c && c == ',' && depth == 0) = false) (rest : List Char) :
    cutAtCommas depth q (c :: rest) =
      inFront [c] (cutAtCommas (cutDepth depth q c) (q.next c) rest) := by
  rw [cutAtCommas, if_neg (by simp [h])]
  rfl

theorem uncut_nil : Uncut depth q [] := rfl

theorem uncut_cons : Uncut depth q (c :: text) ↔
    (q.sees c && c == ',' && depth == 0) = false ∧
      Uncut (cutDepth depth q c) (q.next c) text := by
  rw [Uncut]
  cases h : q.sees c && c == ',' && depth == 0 with
  | true => simp [cutAtCommas_comma h]
  | false => simp [cutAtCommas_cons h, Uncut]

theorem uncut_append : Uncut depth q (a ++ b) ↔
    Uncut depth q a ∧ Uncut (depthBehind depth q a) (q.after a) b := by
  induction a generalizing depth q with
  | nil => simp [uncut_nil, depthBehind]
  | cons c a ih =>
    simp only [List.cons_append, uncut_cons, ih, depthBehind, Quote.after_cons, and_assoc]

theorem depthBehind_append : depthBehind depth q (a ++ b) =
    depthBehind (depthBehind depth q a) (q.after a) b := by
  induction a generalizing depth q with
  | nil => rfl
  | cons c a ih => exact ih

theorem Uncut.cut (h : Uncut depth q text) (rest : List Char) : cutAtCommas depth q (text ++ rest) =
    inFront text (cutAtCommas (depthBehind depth q text) (q.after text) rest) := by
  induction text generalizing depth q with
  | nil => rfl
  | cons c text ih =>
    obtain ⟨hc, htext⟩ := uncut_cons.1 h
    rw [List.cons_append, cutAtCommas_cons hc, ih htext, ← inFront_append]
    rfl

theorem Quote.next_eq_outside_iff (h : c ≠ '"') : q.next c = .outside ↔ q = .outside := by
  cases q <;> simp [Quote.next, h]
  split <;> simp

theorem blanks_pass (depth : Nat) (q : Quote) (h : ∀ c ∈ text, isBlank c = true) :
    Uncut depth q text ∧ depthBehind depth q text = depth ∧
      (q.after text = .outside ↔ q = .outside) := by
  induction text generalizing depth q with
  | nil => exact ⟨uncut_nil, rfl, Iff.rfl⟩
  | cons c text ih =>
    obtain ⟨hc, htext⟩ := List.forall_mem_cons.1 h
    have hinert := isInert_of_isBlank hc
    simp only [isInert, brackets, List.all_cons, List.all_nil, Bool.and_eq_true,
      decide_eq_true_eq] at hinert
    have hdepth : cutDepth depth q c = depth := by simp [cutDepth, hinert]
    rw [uncut_cons, depthBehind, Quote.after_cons, hdepth]
    obtain ⟨huncut, hbehind, hafter⟩ := ih depth (q.next c) htext
    refine ⟨⟨by simp [hinert], huncut⟩, hbehind, hafter.trans ?_⟩
    exact Quote.next_eq_outside_iff hinert.1.1

theorem pass_around (depth : Nat) (text : List Char) {before behind : List Char}
    (hbefore : ∀ c ∈ before, isBlank c = true)
    (hbehind : ∀ c ∈ behind, isBlank c = true) :
    (Uncut depth .outside (before ++ text ++ behind) ↔ Uncut depth .outside text) ∧
      depthBehind depth .outside (before ++ text ++ behind) = depthBehind depth .outside text ∧
      (Quote.outside.after (before ++ text ++ behind) = .outside ↔
        Quote.outside.after text = .outside) := by
  obtain ⟨huncut, hdepth, hafter⟩ := blanks_pass depth .outside hbefore
  have houtside := hafter.2 rfl
  obtain ⟨huncut', hdepth', hafter'⟩ := blanks_pass (depthBehind depth .outside text)
    (Quote.outside.after text) hbehind
  rw [List.append_assoc, uncut_append, uncut_append, depthBehind_append, depthBehind_append,
    Quote.after_append, Quote.after_append, hdepth, houtside, hdepth', hafter']
  exact ⟨by simp [huncut, huncut'], rfl, Iff.rfl⟩

/-- The pieces of a text to which a scanner comes at this depth: it is cut behind each but the
last, and nowhere else. -/
inductive Cuts : Nat → Quote → List (List Char) → Prop
  | last {depth : Nat} {q : Quote} {piece : List Char} :
      Uncut depth q piece → Cuts depth q [piece]
  | comma {depth : Nat} {q : Quote} {piece next : List Char} {rest : List (List Char)} :
      Uncut depth q piece → depthBehind depth q piece = 0 → q.after piece = .outside →
      Cuts 0 .outside (next :: rest) → Cuts depth q (piece :: next :: rest)

variable {piece : List Char} {pieces : List (List Char)}

theorem cuts_cons_iff {next : List Char} {rest : List (List Char)} :
    Cuts depth q (piece :: next :: rest) ↔ Uncut depth q piece ∧ depthBehind depth q piece = 0 ∧
      q.after piece = .outside ∧ Cuts 0 .outside (next :: rest) := by
  constructor
  · intro h
    cases h with
    | comma huncut hdepth hafter hrest => exact ⟨huncut, hdepth, hafter, hrest⟩
  · rintro ⟨huncut, hdepth, hafter, hrest⟩
    exact .comma huncut hdepth hafter hrest

theorem Cuts.cons (hc : (q.sees c && c == ',' && depth == 0) = false)
    (h : Cuts (cutDepth depth q c) (q.next c) (piece :: pieces)) :
    Cuts depth q ((c :: piece) :: pieces) := by
  cases h with
  | last hpiece => exact .last (uncut_cons.2 ⟨hc, hpiece⟩)
  | comma hpiece hdepth hafter hrest =>
    exact .comma (uncut_cons.2 ⟨hc, hpiece⟩) hdepth hafter hrest

theorem intercalate_cons_piece (c : Char) (piece : List Char) (rest : List (List Char)) :
    [','].intercalate ((c :: piece) :: rest) = c :: [','].intercalate (piece :: rest) := by
  cases rest <;> simp [List.intercalate]

theorem cuts_cutAtCommas (depth : Nat) (q : Quote) (text : List Char) :
    Cuts depth q ((cutAtCommas depth q text).1 :: (cutAtCommas depth q text).2) ∧
      [','].intercalate ((cutAtCommas depth q text).1 :: (cutAtCommas depth q text).2) = text := by
  induction text generalizing depth q with
  | nil => exact ⟨.last uncut_nil, rfl⟩
  | cons c text ih =>
    cases hc : q.sees c && c == ',' && depth == 0 with
    | true =>
      obtain ⟨hpieces, htext⟩ := ih 0 .outside
      have hdepth : depth = 0 := by simp_all
      have hsees : q = .outside := by simp_all [Quote.sees]
      have hcomma : c = ',' := by simp_all
      rw [cutAtCommas_comma hc]
      refine ⟨.comma uncut_nil hdepth hsees hpieces, ?_⟩
      rw [List.intercalate_cons_cons, htext, hcomma]
      rfl
    | false =>
      obtain ⟨hpieces, htext⟩ := ih (cutDepth depth q c) (q.next c)
      rw [cutAtCommas_cons hc]
      refine ⟨hpieces.cons hc, ?_⟩
      rw [inFront_mk, List.singleton_append, intercalate_cons_piece, htext]

theorem Cuts.cut (h : Cuts depth q (piece :: pieces)) :
    cutAtCommas depth q ([','].intercalate (piece :: pieces)) = (piece, pieces) := by
  generalize hlist : piece :: pieces = list at h
  induction h generalizing piece pieces with
  | last hpiece =>
    cases hlist
    simpa [cutAtCommas] using hpiece.cut []
  | comma hpiece hdepth hafter hrest ih =>
    cases hlist
    rw [List.intercalate_cons_cons, List.append_assoc, hpiece.cut, hdepth, hafter,
      List.singleton_append, cutAtCommas_comma rfl, ih rfl]
    simp

theorem no_blanks : ∀ c ∈ ([] : List Char), isBlank c = true := by simp

theorem pass_respaced {gap : List Char} (hgap : ∀ c ∈ gap, isBlank c = true) (depth : Nat)
    (text : List Char) :
    (Uncut depth .outside (gap ++ trim text) ↔ Uncut depth .outside text) ∧
      depthBehind depth .outside (gap ++ trim text) = depthBehind depth .outside text ∧
      (Quote.outside.after (gap ++ trim text) = .outside ↔
        Quote.outside.after text = .outside) := by
  obtain ⟨before, behind, hbefore, hbehind, htext⟩ := exists_blanks text
  have hold := pass_around depth (trim text) hbefore hbehind
  have hnew := pass_around depth (trim text) hgap no_blanks
  rw [List.append_nil] at hnew
  rw [← htext] at hold
  exact ⟨hnew.1.trans hold.1.symm, hnew.2.1.trans hold.2.1.symm, hnew.2.2.trans hold.2.2.symm⟩

theorem Cuts.respaced {gap : List Char} (hgap : ∀ c ∈ gap, isBlank c = true)
    (h : Cuts depth .outside pieces) :
    Cuts depth .outside (pieces.map fun piece => gap ++ trim piece) := by
  generalize hq : Quote.outside = q at h
  induction h with
  | @last depth q piece hpiece =>
    subst hq
    exact .last ((pass_respaced hgap depth piece).1.2 hpiece)
  | @comma depth q piece next rest hpiece hdepth hafter _ ih =>
    subst hq
    obtain ⟨huncut, hbehind, houtside⟩ := pass_respaced hgap depth piece
    exact .comma (huncut.2 hpiece) (hbehind.trans hdepth) (houtside.2 hafter) (ih rfl)

/-- Trimmed pieces behind commas and blanks are the pieces of the list of them. -/
theorem Cuts.trimmed {gap : List Char} (hgap : ∀ c ∈ gap, isBlank c = true)
    (h : Cuts depth .outside (piece :: pieces)) :
    Cuts depth .outside (trim piece :: pieces.map fun piece => gap ++ trim piece) := by
  obtain ⟨huncut, hbehind, houtside⟩ := pass_respaced no_blanks depth piece
  cases h with
  | last hpiece => exact .last (huncut.2 hpiece)
  | comma hpiece hdepth hafter hrest =>
    exact .comma (huncut.2 hpiece) (hbehind.trans hdepth) (houtside.2 hafter) (hrest.respaced hgap)

theorem trim_trimmed_ne_nil (gap : List Char)
    (h : trim ([','].intercalate (piece :: pieces)) ≠ []) :
    trim ((',' :: gap).intercalate ((piece :: pieces).map trim)) ≠ [] := by
  cases pieces with
  | nil => simpa [trim_trim] using h
  | cons next rest =>
    rw [ne_eq, trim_eq_nil_iff]
    intro hblank
    have hcomma : isBlank ',' = true := by
      refine hblank ',' ?_
      rw [List.map_cons, List.map_cons, List.intercalate_cons_cons]
      simp
    exact absurd hcomma (by decide)

theorem splitArgs_of_cuts {gap : List Char} (hgap : ∀ c ∈ gap, isBlank c = true)
    (h : Cuts 0 .outside pieces) (htrim : ∀ p ∈ pieces, trim p = p)
    (hne : trim ((',' :: gap).intercalate pieces) ≠ []) :
    splitArgs ((',' :: gap).intercalate pieces) = pieces := by
  cases pieces with
  | nil => cases h
  | cons piece rest =>
    obtain ⟨hpiece, hrest⟩ := List.forall_mem_cons.1 htrim
    have hspaced : ∀ p ∈ rest, trim (gap ++ p) = p := by
      intro p hp
      have := trim_around hgap no_blanks p
      rwa [List.append_nil, hrest p hp] at this
    have hcut := (h.trimmed hgap).cut
    rw [hpiece, List.map_congr_left fun p hp => congrArg (gap ++ ·) (hrest p hp),
      ← intercalate_gap] at hcut
    rw [splitArgs, if_neg (by simpa using hne), hcut]
    dsimp only
    rw [List.map_cons, hpiece, List.map_map]
    exact congrArg (piece :: ·) ((List.map_congr_left hspaced).trans (List.map_id rest))

theorem cuts_splitArgs {body : List Char} (h : trim body ≠ []) :
    splitArgs body = ((cutAtCommas 0 .outside body).1 :: (cutAtCommas 0 .outside body).2).map trim ∧
      Cuts 0 .outside (splitArgs body) := by
  have hargs : splitArgs body = ((cutAtCommas 0 .outside body).1 ::
      (cutAtCommas 0 .outside body).2).map trim := by
    rw [splitArgs, if_neg (by simpa using h)]
  have hcuts := (cuts_cutAtCommas 0 .outside body).1.respaced no_blanks
  exact ⟨hargs, hargs ▸ hcuts⟩

/-- Trimmed pieces are found again exactly if it is between them that the text is cut. -/
theorem splitArgs_eq_iff {gap : List Char} (hgap : ∀ c ∈ gap, isBlank c = true)
    (hne : pieces ≠ []) (h : ∀ p ∈ pieces, Solid p) :
    splitArgs ((',' :: gap).intercalate pieces) = pieces ↔ Cuts 0 .outside pieces := by
  have hsolid := Solid.intercalate (',' :: gap) hne h
  have hblank : trim ((',' :: gap).intercalate pieces) ≠ [] := by
    rw [hsolid.trim_eq]
    exact hsolid.ne_nil
  constructor
  · intro hsplit
    have hcuts := (cuts_splitArgs hblank).2
    rwa [hsplit] at hcuts
  · exact fun hcuts => splitArgs_of_cuts hgap hcuts (fun p hp => (h p hp).trim_eq) hblank

theorem splitArgs_splitArgs {gap : List Char} (hgap : ∀ c ∈ gap, isBlank c = true)
    (body : List Char) :
    splitArgs ((',' :: gap).intercalate (splitArgs body)) = splitArgs body := by
  by_cases hblank : trim body = []
  · have hnil : splitArgs body = [] := by
      rw [splitArgs, hblank]
      rfl
    rw [hnil]
    rfl
  · obtain ⟨hargs, hcuts⟩ := cuts_splitArgs hblank
    refine splitArgs_of_cuts hgap hcuts ?_ ?_
    · rw [hargs]
      exact List.forall_mem_map.2 fun p _ => trim_trim p
    · rw [hargs]
      refine trim_trimmed_ne_nil gap ?_
      rwa [(cuts_cutAtCommas 0 .outside body).2]

/-- Behind the text a scanner stands outside all brackets and literals, as in front of it. -/
structure BackOutside (text : List Char) : Prop where
  depth : depthBehind 0 .outside text = 0
  quote : Quote.outside.after text = .outside

namespace BackOutside

theorem append (ha : BackOutside a) (hb : BackOutside b) : BackOutside (a ++ b) where
  depth := by rw [depthBehind_append, ha.depth, ha.quote, hb.depth]
  quote := by rw [Quote.after_append, ha.quote, hb.quote]

theorem of_blank (h : ∀ c ∈ text, isBlank c = true) : BackOutside text :=
  let ⟨_, hdepth, hafter⟩ := blanks_pass 0 .outside h
  ⟨hdepth, hafter.2 rfl⟩

theorem comma : BackOutside [','] := ⟨rfl, rfl⟩

theorem intercalate {gap : List Char} (hgap : ∀ c ∈ gap, isBlank c = true)
    (h : ∀ p ∈ pieces, BackOutside p) : BackOutside ((',' :: gap).intercalate pieces) := by
  induction pieces with
  | nil => exact ⟨rfl, rfl⟩
  | cons piece rest ih =>
    obtain ⟨hpiece, hrest⟩ := List.forall_mem_cons.1 h
    cases rest with
    | nil => simpa using hpiece
    | cons next rest =>
      rw [List.intercalate_cons_cons]
      exact (hpiece.append (comma.append (of_blank hgap))).append (ih hrest)

end BackOutside

theorem Neutral.uncut (h : Neutral 0 text) : Uncut 0 .outside text := by
  have hcut := h.cut 0 [] (Nat.le_refl 0)
  rw [List.append_nil] at hcut
  rw [Uncut, hcut]
  rfl

theorem Neutral.backOutside (h : Neutral 0 text) : BackOutside text := by
  -- a comma behind the text cuts it off
  have hcut : cutAtCommas 0 .outside (text ++ [',']) = inFront text ([], [[]]) :=
    h.cut 0 [','] (Nat.le_refl 0)
  rw [h.uncut.cut] at hcut
  cases hcomma : (Quote.outside.after text).sees ',' && depthBehind 0 .outside text == 0 with
  | true =>
    simp only [Quote.sees, Bool.and_eq_true, decide_eq_true_eq, beq_iff_eq] at hcomma
    exact ⟨hcomma.2, hcomma.1.1⟩
  | false =>
    rw [cutAtCommas_cons (by simpa using hcomma)] at hcut
    simp [cutAtCommas] at hcut

theorem cuts_of_neutral (hne : pieces ≠ []) (h : ∀ p ∈ pieces, Neutral 0 p) :
    Cuts 0 .outside pieces := by
  induction pieces with
  | nil => contradiction
  | cons p rest ih =>
    obtain ⟨hp, hrest⟩ := List.forall_mem_cons.1 h
    cases rest with
    | nil => exact .last hp.uncut
    | cons next rest =>
      exact .comma hp.uncut hp.backOutside.depth hp.backOutside.quote (ih (by simp) hrest)

/-- A scanner that comes to a text from deeper inside stands behind it at least as deep. -/
theorem depthBehind_mono {deeper : Nat} (h : depth ≤ deeper) (q : Quote) (text : List Char) :
    depthBehind depth q text ≤ depthBehind deeper q text := by
  induction text generalizing depth deeper q with
  | nil => exact h
  | cons c text ih =>
    refine ih ?_ (q.next c)
    unfold cutDepth
    split
    · omega
    · split <;> omega

theorem cutAtCommas_append (hdepth : depthBehind depth q a = 0) (hafter : q.after a = .outside)
    (b : List Char) : cutAtCommas depth q (a ++ ',' :: b) = ((cutAtCommas depth q a).1,
      (cutAtCommas depth q a).2 ++ (cutAtCommas 0 .outside b).1 :: (cutAtCommas 0 .outside b).2) := by
  induction a generalizing depth q with
  | nil =>
    obtain rfl : depth = 0 := hdepth
    obtain rfl : q = .outside := hafter
    exact cutAtCommas_comma rfl b
  | cons c a ih =>
    rw [depthBehind] at hdepth
    rw [Quote.after_cons] at hafter
    have hrest := ih hdepth hafter
    cases hc : q.sees c && c == ',' && depth == 0 with
    | true =>
      have hcomma : depth = 0 ∧ q = .outside ∧ c = ',' := by simp_all [Quote.sees]
      obtain ⟨rfl, rfl, rfl⟩ := hcomma
      have hrest : cutAtCommas 0 .outside (a ++ ',' :: b) = _ := hrest
      rw [List.cons_append, cutAtCommas_comma hc, cutAtCommas_comma hc, hrest]
      rfl
    | false =>
      rw [List.cons_append, cutAtCommas_cons hc, cutAtCommas_cons hc, hrest]
      rfl

/-- What stands behind the last of the commas that cut is the last argument. -/
theorem splitArgs_append (ha : BackOutside a) (hb : Uncut 0 .outside b) :
    ∃ front, splitArgs (a ++ ',' :: b) = front ++ [trim b] := by
  have hne : trim (a ++ ',' :: b) ≠ [] := by
    rw [ne_eq, trim_eq_nil_iff]
    intro hblank
    exact absurd (hblank ',' (by simp)) (by decide)
  have hpiece : (cutAtCommas 0 .outside b).1 = b := by
    have hwhole := (cuts_cutAtCommas 0 .outside b).2
    rw [hb] at hwhole
    simpa using hwhole
  rw [(cuts_splitArgs hne).1, cutAtCommas_append ha.depth ha.quote, hb, hpiece]
  exact ⟨((cutAtCommas 0 .outside a).1 :: (cutAtCommas 0 .outside a).2).map trim, by simp⟩

end ToolDialogue
