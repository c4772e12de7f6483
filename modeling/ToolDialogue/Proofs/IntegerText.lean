import ToolDialogue.Proofs.Scanning

/-! The decimal text of an integer is read as that integer. -/
namespace ToolDialogue

open Text

namespace Decimal

/-- The decimal digits of a number, the most significant one first. -/
def digitsOf (n : Nat) : List Nat :=
  if n < 10 then [n] else digitsOf (n / 10) ++ [n % 10]
termination_by n
decreasing_by omega

theorem lt_ten_of_mem_digitsOf {n d : Nat} (h : d ∈ digitsOf n) : d < 10 := by
  fun_induction digitsOf n with
  | case1 n hn =>
    rw [List.mem_singleton.1 h]
    exact hn
  | case2 n hn ih =>
    rcases List.mem_append.1 h with h | h
    · exact ih h
    · rw [List.mem_singleton.1 h]
      exact Nat.mod_lt n (by omega)

theorem toDigits_eq_digitsOf (n : Nat) : Nat.toDigits 10 n = (digitsOf n).map Nat.digitChar := by
  fun_induction digitsOf n with
  | case1 n hn => exact Nat.toDigits_of_lt_base hn
  | case2 n hn ih =>
    rw [Nat.toDigits_of_base_le (by omega) (by omega), ih, List.map_append]
    rfl

theorem ofDigits_digitsOf (n : Nat) : ofDigits (digitsOf n) = n := by
  fun_induction digitsOf n with
  | case1 n hn => simp [ofDigits]
  | case2 n hn ih =>
    rw [ofDigits] at ih ⊢
    rw [List.foldl_append, ih]
    simp only [List.foldl_cons, List.foldl_nil]
    omega

theorem digitsOf_head {n : Nat} (h : 0 < n) : ∃ d rest, digitsOf n = d :: rest ∧ d ≠ 0 := by
  fun_induction digitsOf n with
  | case1 n hn => exact ⟨n, [], rfl, by omega⟩
  | case2 n hn ih =>
    obtain ⟨d, rest, heq, hd⟩ := ih (by omega)
    exact ⟨d, rest ++ [n % 10], by rw [heq, List.cons_append], hd⟩

theorem digit?_digitChar {d : Nat} (h : d < 10) : digit? d.digitChar = some d := by
  have hall : ∀ d < 10, digit? (Nat.digitChar d) = some d := by decide
  exact hall d h

theorem leadingDigits_map_digitChar {ds : List Nat} (h : ∀ d ∈ ds, d < 10) {rest : List Char}
    (hr : ∀ c ∈ rest.head?, digit? c = none) :
    leadingDigits (ds.map Nat.digitChar ++ rest) = (ds, rest) := by
  induction ds with
  | nil =>
    cases rest with
    | nil => rfl
    | cons c rest => simp [leadingDigits, hr c (by simp)]
  | cons d ds ih =>
    rw [List.map_cons, List.cons_append, leadingDigits, digit?_digitChar (h d (by simp))]
    simp only [ih fun e he => h e (List.mem_cons_of_mem d he)]
    rfl

end Decimal

namespace Json.Number

open Decimal

theorem le_foldl_digits (ds : List Nat) (n : Nat) :
    n ≤ ds.foldl (fun n d => n * 10 + d) n := by
  induction ds generalizing n with
  | nil => exact Nat.le_refl n
  | cons d ds ih =>
    have := ih (n * 10 + d)
    rw [List.foldl_cons]
    omega

theorem foldl_whole {ds : List Nat} {n : Nat}
    (h : ((ds.foldl (fun n d => n * 10 + d) n : Nat) : Int) ≤ maxInteger) :
    ds.foldl Reading.whole ⟨n, 0, false⟩ = ⟨ds.foldl (fun n d => n * 10 + d) n, 0, false⟩ := by
  induction ds generalizing n with
  | nil => rfl
  | cons d ds ih =>
    rw [List.foldl_cons] at h ⊢
    have hle := le_foldl_digits ds (n * 10 + d)
    have hfits : ¬ maxInteger < (n : Int) * 10 + d := by omega
    have hstep : Reading.whole ⟨n, 0, false⟩ d = ⟨n * 10 + d, 0, false⟩ := by
      simp [Reading.whole, hfits]
    rw [hstep]
    exact ih h

theorem wholeDigits?_toDigits (n : Nat) :
    wholeDigits? (Nat.toDigits 10 n) = some (digitsOf n, []) := by
  have hlead : leadingDigits (Nat.toDigits 10 n) = (digitsOf n, []) := by
    have hten : ∀ d ∈ digitsOf n, d < 10 := fun d => lt_ten_of_mem_digitsOf
    rw [toDigits_eq_digitsOf, ← leadingDigits_map_digitChar hten (by simp), List.append_nil]
  rcases Nat.eq_zero_or_pos n with rfl | hn
  · rw [wholeDigits?, hlead]
    simp [digitsOf]
  · obtain ⟨d, rest, heq, hd⟩ := digitsOf_head hn
    rw [wholeDigits?, hlead, heq]
    cases d with
    | zero => contradiction
    | succ d => rfl

theorem head_toDigits_ne_minus (n : Nat) : ∀ rest, Nat.toDigits 10 n ≠ '-' :: rest := by
  intro rest heq
  have hdigit := Nat.isDigit_of_mem_toDigits (b := 10) (n := n) (c := '-') (by omega) (by omega)
    (by rw [heq]; simp)
  exact absurd hdigit (by decide)

theorem readUnsigned?_toDigits (minus : Bool) {n : Nat} (h : (n : Int) ≤ maxInteger) :
    readUnsigned? minus (Nat.toDigits 10 n) = (ofSignificand? minus n).map fun r => (r, []) := by
  have hfold : (digitsOf n).foldl Reading.whole ⟨0, 0, false⟩ = ⟨n, 0, false⟩ := by
    have hvalue : (digitsOf n).foldl (fun n d => n * 10 + d) 0 = n := ofDigits_digitsOf n
    have := @foldl_whole (digitsOf n) 0 (by rwa [hvalue])
    rwa [hvalue] at this
  rw [readUnsigned?, wholeDigits?_toDigits, Option.bind_eq_bind, Option.bind_some]
  simp only [hfold, readExponent]
  cases ofSignificand? minus n <;> rfl

theorem read?_toDigits (n : Nat) :
    read? (Nat.toDigits 10 n) = readUnsigned? false (Nat.toDigits 10 n) := by
  unfold read?
  split
  · rename_i rest heq
    exact absurd heq (head_toDigits_ne_minus n rest)
  · rfl

/-- The characters of which the text of an integer consists. -/
def integerAlphabet : List Char :=
  ['-', '0', '1', '2', '3', '4', '5', '6', '7', '8', '9']

theorem mem_integerAlphabet {n : Int} {c : Char} (h : c ∈ intChars n) : c ∈ integerAlphabet := by
  have hdigit : ∀ {k : Nat}, c ∈ Nat.toDigits 10 k → c ∈ integerAlphabet := by
    intro k hk
    rw [toDigits_eq_digitsOf] at hk
    obtain ⟨d, hd, rfl⟩ := List.mem_map.1 hk
    have hall : ∀ d < 10, Nat.digitChar d ∈ integerAlphabet := by decide
    exact hall d (lt_ten_of_mem_digitsOf hd)
  cases n with
  | ofNat k => exact hdigit h
  | negSucc k =>
    rcases List.mem_cons.1 h with rfl | h
    · decide
    · exact hdigit h

theorem of_mem_intChars {p : Char → Bool} (hall : integerAlphabet.all p = true) {n : Int} {c : Char}
    (h : c ∈ intChars n) : p c = true :=
  List.all_eq_true.1 hall c (mem_integerAlphabet h)

theorem intChars_ne_nil (n : Int) : intChars n ≠ [] := by
  cases n with
  | ofNat k => exact Nat.toDigits_ne_nil
  | negSucc k => exact List.cons_ne_nil _ _

theorem piece_intChars (n : Int) : Piece (intChars n) where
  solid := .of_forall (intChars_ne_nil n) fun c hc => by
    have hblank := of_mem_intChars (p := fun c => !isBlank c) (by decide) hc
    simpa using hblank
  neutral := .of_inert fun c hc => of_mem_intChars (by decide) hc

theorem intChars_natCast (n : Nat) : intChars n = Nat.toDigits 10 n := rfl

theorem intChars_neg (n : Nat) : intChars (-(n + 1 : Nat)) = '-' :: Nat.toDigits 10 (n + 1) := rfl

/-- The decimal text of an integer that fits is read as that integer. -/
theorem ofText?_intChars {n : Int} (h : minInteger ≤ n ∧ n ≤ maxInteger) :
    ofText? (intChars n) = some (.integer n h) := by
  rcases Int.lt_or_le n 0 with hn | hn
  · obtain ⟨k, rfl⟩ : ∃ k : Nat, n = -(k + 1 : Nat) := ⟨n.natAbs - 1, by omega⟩
    have hle : ((k + 1 : Nat) : Int) ≤ maxInteger := by
      have := h.1
      simp only [minInteger, maxInteger] at this ⊢
      omega
    have hvalue : ofSignificand? true (k + 1) = some (.integer (-(k + 1 : Nat)) h) := by
      rw [ofSignificand?, if_pos rfl, if_neg (Nat.succ_ne_zero k), ofInt?, dif_pos h]
    rw [ofText?, intChars_neg, read?, readUnsigned?_toDigits true hle, hvalue]
    rfl
  · obtain ⟨k, rfl⟩ := Int.eq_ofNat_of_zero_le hn
    have hvalue : ofSignificand? false k = some (.integer k h) := by
      rw [ofSignificand?, if_neg Bool.false_ne_true, ofInt?, dif_pos h]
    rw [ofText?, intChars_natCast, read?_toDigits, readUnsigned?_toDigits false h.2, hvalue]
    rfl

end Json.Number

end ToolDialogue
