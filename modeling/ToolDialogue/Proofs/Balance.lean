import ToolDialogue.Proofs.Scanning

/-! Texts that are balanced in brackets of every kind and in quotes. Without a comma at the top
level such a text is one piece of every list of arguments in which it stands. -/
namespace ToolDialogue

open Text

/-- From `depth` open brackets on, those of this kind are all closed in the text, each behind its
opening, and no literal is left open. -/
def closes (opener closer : Char) : Nat → Quote → List Char → Bool
  | depth, q, [] => depth == 0 && q == .outside
  | depth, q, c :: rest =>
    if q.sees c && c == closer then
      match depth with
      | 0 => false
      | depth + 1 => closes opener closer depth (q.next c) rest
    else if q.sees c && c == opener then closes opener closer (depth + 1) (q.next c) rest
    else closes opener closer depth (q.next c) rest

/-- Brackets of each kind are balanced outside literals, literals are closed, and no comma stands
at the top level. -/
structure Balanced (text : List Char) : Prop where
  closed : ∀ pair ∈ brackets, closes pair.1 pair.2 0 .outside text = true
  single : (cutAtCommas 0 .outside text).2 = []

variable {o c : Char} {depth : Nat} {q : Quote} {text : List Char}

theorem exists_depth_of_closes {x : Char} (h : closes o c depth q (x :: text) = true) :
    ∃ behind, closes o c behind (q.next x) text = true ∧
      if q.sees x && x == c then depth = behind + 1
      else if q.sees x && x == o then behind = depth + 1
      else behind = depth := by
  rw [closes.eq_def] at h
  dsimp only at h
  split at h
  · rename_i hx
    cases depth with
    | zero => contradiction
    | succ depth => exact ⟨depth, h, by rw [if_pos hx]⟩
  · rename_i hc
    split at h
    · rename_i hx
      exact ⟨depth + 1, h, by rw [if_neg hc, if_pos hx]⟩
    · rename_i hx
      exact ⟨depth, h, by rw [if_neg hc, if_neg hx]⟩

/-- The search for a closing bracket goes past a text that closes its own. -/
theorem closing?_of_closes (h : closes o c depth q text = true) (above : Nat) (rest : List Char) :
    closing? o c (above + depth) q (text ++ rest) =
      (closing? o c above .outside rest).map (inFront text) := by
  induction text generalizing depth q with
  | nil =>
    simp only [closes, Bool.and_eq_true, beq_iff_eq] at h
    obtain ⟨rfl, rfl⟩ := h
    exact (map_inFront_nil _).symm
  | cons x text ih =>
    obtain ⟨behind, hbehind, hx⟩ := exists_depth_of_closes h
    have hstep : closing? o c (above + depth) q (x :: (text ++ rest)) =
        (closing? o c (above + behind) (q.next x) (text ++ rest)).map (inFront [x]) := by
      rw [closing?.eq_def]
      dsimp only
      split at hx
      · rw [if_pos (by assumption), hx]
        rfl
      · rw [if_neg (by assumption)]
        split at hx
        · rw [if_pos (by assumption), hx]
          rfl
        · rw [if_neg (by assumption), hx]
          rfl
    rw [List.cons_append, hstep, ih hbehind, ← map_inFront_append]
    rfl

theorem closes_of_closing? {body rest : List Char}
    (h : closing? o c depth q text = some (body, rest)) : closes o c depth q body = true := by
  fun_induction closing? o c depth q text generalizing body with
  | case1 => contradiction
  | case2 q x text hx =>
    cases h
    have hq : q = .outside := by
      simp only [Quote.sees, Bool.and_eq_true, decide_eq_true_eq] at hx
      exact hx.1.1
    rw [hq]
    rfl
  | case3 q x text hx depth ih =>
    obtain ⟨⟨inner, after⟩, hinner, heq⟩ := Option.map_eq_some_iff.1 h
    cases heq
    rw [closes, if_pos hx]
    exact ih hinner
  | case4 depth q x text hx hopens ih =>
    obtain ⟨⟨inner, after⟩, hinner, heq⟩ := Option.map_eq_some_iff.1 h
    cases heq
    rw [closes.eq_def]
    dsimp only
    rw [if_neg hx, if_pos hopens]
    exact ih hinner
  | case5 depth q x text hx hopens ih =>
    obtain ⟨⟨inner, after⟩, hinner, heq⟩ := Option.map_eq_some_iff.1 h
    cases heq
    rw [closes.eq_def]
    dsimp only
    rw [if_neg hx, if_neg hopens]
    exact ih hinner

theorem closes_append (h : closes o c depth q text = true) (above : Nat) (rest : List Char) :
    closes o c (above + depth) q (text ++ rest) = closes o c above .outside rest := by
  induction text generalizing depth q with
  | nil =>
    simp only [closes, Bool.and_eq_true, beq_iff_eq] at h
    obtain ⟨rfl, rfl⟩ := h
    rfl
  | cons x text ih =>
    obtain ⟨behind, hbehind, hx⟩ := exists_depth_of_closes h
    rw [← ih hbehind, List.cons_append, closes.eq_def]
    dsimp only
    split at hx
    · rw [if_pos (by assumption), hx]
      rfl
    · rw [if_neg (by assumption)]
      split at hx
      · rw [if_pos (by assumption), hx]
        rfl
      · rw [if_neg (by assumption), hx]

theorem closes_deeper (h : closes o c 0 .outside text = true) (depth : Nat) :
    closes o c depth .outside text = (depth == 0) := by
  have happend := closes_append h depth []
  rw [List.append_nil, Nat.add_zero] at happend
  rw [happend, closes, beq_self_eq_true, Bool.and_true]

theorem cutAtCommas_of_closes {p s b : Nat} (hp : closes '(' ')' p q text = true)
    (hs : closes '[' ']' s q text = true) (hb : closes '\x7b' '\x7d' b q text = true)
    (hcut : (cutAtCommas (p + s + b) q text).2 = []) (above : Nat) (rest : List Char) :
    cutAtCommas (above + (p + s + b)) q (text ++ rest) =
      inFront text (cutAtCommas above .outside rest) := by
  induction text generalizing p s b q with
  | nil =>
    simp only [closes, Bool.and_eq_true, beq_iff_eq] at hp hs hb
    obtain ⟨rfl, rfl⟩ := hp
    rw [hs.1, hb.1]
    rfl
  | cons x text ih =>
    obtain ⟨p', hp', hpx⟩ := exists_depth_of_closes hp
    obtain ⟨s', hs', hsx⟩ := exists_depth_of_closes hs
    obtain ⟨b', hb', hbx⟩ := exists_depth_of_closes hb
    have hcomma : ¬ (q.sees x && x == ',' && p + s + b == 0) = true := by
      intro hcomma
      rw [cutAtCommas, if_pos hcomma] at hcut
      contradiction
    have hdepth : ∀ above, (if q.sees x && (x == '(' || x == '[' || x == '\x7b') then
          above + (p + s + b) + 1
        else if q.sees x && (x == ')' || x == ']' || x == '\x7d') then above + (p + s + b) - 1
        else above + (p + s + b)) = above + (p' + s' + b') := by
      grind
    have hstep : ∀ above text, cutAtCommas (above + (p + s + b)) q (x :: text) =
        inFront [x] (cutAtCommas (above + (p' + s' + b')) (q.next x) text) := by
      intro above text
      have hcomma' : ¬ (q.sees x && x == ',' && above + (p + s + b) == 0) = true := by
        grind
      rw [cutAtCommas, if_neg hcomma']
      dsimp only
      rw [hdepth]
      rfl
    have hnext : (cutAtCommas (p' + s' + b') (q.next x) text).2 = [] := by
      have h := hstep 0 text
      rw [Nat.zero_add, Nat.zero_add] at h
      rw [h] at hcut
      exact hcut
    rw [List.cons_append, hstep, ih hp' hs' hb' hnext, ← inFront_append]
    rfl

theorem Balanced.neutral (h : Balanced text) : Neutral 0 text where
  cut depth rest _ :=
    cutAtCommas_of_closes (h.closed ('(', ')') (by decide)) (h.closed ('[', ']') (by decide))
      (h.closed ('\x7b', '\x7d') (by decide)) h.single depth rest
  close o c hp depth rest := closing?_of_closes (h.closed (o, c) hp) depth rest

end ToolDialogue
