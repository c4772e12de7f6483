import ToolDialogue.Json.Reader
import ToolDialogue.Proofs.DecimalText
import ToolDialogue.Proofs.ValueText

/-! The compact text of JSON values can be told apart: no two values have texts of which one
starts the other, as long as what follows them cannot continue a number. -/
namespace ToolDialogue.Json

/-- What follows a value in a list or an object: nothing, a comma or a closing bracket. -/
def EndsValue (rest : List Char) : Prop :=
  ∀ c ∈ rest.head?, c ∈ [',', ']', '\x7d', ')']

theorem endsValue_cons {c : Char} {rest : List Char} (h : c ∈ [',', ']', '\x7d', ')']) :
    EndsValue (c :: rest) := by
  intro d hd
  cases hd
  exact h

/-- The value `a` can be told from the start of a text that it is written at. -/
def SelfDelimited {α : Type} (write : α → List Char) (a : α) : Prop :=
  ∀ b r s, write a ++ r = write b ++ s → EndsValue r → EndsValue s → a = b ∧ r = s

theorem append_inj_of_class {p : Char → Bool} {a b r s : List Char} (ha : ∀ c ∈ a, p c = true)
    (hb : ∀ c ∈ b, p c = true) (hr : ∀ c ∈ r.head?, p c = false) (hs : ∀ c ∈ s.head?, p c = false)
    (h : a ++ r = b ++ s) : a = b ∧ r = s := by
  have htake : ∀ {a r : List Char}, (∀ c ∈ a, p c = true) → (∀ c ∈ r.head?, p c = false) →
      (a ++ r).takeWhile p = a := by
    intro a r ha hr
    rw [List.takeWhile_append_of_pos ha]
    cases r with
    | nil => simp
    | cons c r => simp [hr c rfl]
  have hab : a = b := by rw [← htake ha hr, h, htake hb hs]
  subst hab
  exact ⟨rfl, List.append_cancel_left h⟩

theorem selfDelimited_number (n : Number) : SelfDelimited Number.chars n := by
  intro k r s h hr hs
  have hend : ∀ {r}, EndsValue r → ∀ c ∈ r.head?, decide (c ∈ Number.alphabet) = false := by
    intro r hr c hc
    have hall : [',', ']', '\x7d', ')'].all (fun c => !decide (c ∈ Number.alphabet)) = true := by
      decide
    simpa using List.all_eq_true.1 hall c (hr c hc)
  have hmem : ∀ n : Number, ∀ c ∈ n.chars, decide (c ∈ Number.alphabet) = true :=
    fun n c hc => decide_eq_true (n.mem_alphabet c hc)
  obtain ⟨hchars, hrest⟩ := append_inj_of_class (hmem n) (hmem k) (hend hr) (hend hs) h
  exact ⟨Number.chars_injective hchars, hrest⟩

theorem unicodeEscape?_control {c : Char} (h : c.toNat < 0x20) (rest : List Char) :
    unicodeEscape? ('0' :: '0' :: Nat.digitChar (c.toNat / 16) :: Nat.digitChar (c.toNat % 16) ::
      rest) = some (c, rest) := by
  have hdigit : ∀ d < 16, hexDigit? (Nat.digitChar d) = some d := by decide
  have hhigh := hdigit (c.toNat / 16) (by omega)
  have hlow := hdigit (c.toNat % 16) (by omega)
  have hzero : hexDigit? '0' = some 0 := by decide
  have hquad : hexQuad? ('0' :: '0' :: Nat.digitChar (c.toNat / 16) ::
      Nat.digitChar (c.toNat % 16) :: rest) = some (c.toNat, rest) := by
    simp only [hexQuad?, List.mapM_cons, List.mapM_nil, hhigh, hlow, hzero]
    simp
    omega
  have hhalves : ¬ (0xD800 ≤ c.toNat ∧ c.toNat < 0xDC00) ∧
      ¬ (0xDC00 ≤ c.toNat ∧ c.toNat < 0xE000) := by omega
  rw [unicodeEscape?, hquad, Option.bind_eq_bind, Option.bind_some]
  simp only [if_neg hhalves.1, if_neg hhalves.2, Char.ofNat_toNat]
  rfl

theorem digitChar_ordinary {n : Nat} (h : n < 16) :
    Nat.digitChar n ≠ '"' ∧ Nat.digitChar n ≠ '\\' := by
  have hall : ∀ d < 16, Nat.digitChar d ≠ '"' ∧ Nat.digitChar d ≠ '\\' := by decide
  exact hall n h

/-- A character is written as itself or as an escape that is read as it. Of an escape only the
backslash and the character behind it can have a meaning in a literal. -/
theorem escapeChar_cases (c : Char) :
    (escapeChar c = [c] ∧ c ≠ '"' ∧ c ≠ '\\' ∧ ¬ c.toNat < 0x20) ∨
      ∃ code more, escapeChar c = '\\' :: code :: more ∧ (∀ d ∈ more, d ≠ '"' ∧ d ≠ '\\') ∧
        ∀ rest, escape? (code :: more ++ rest) = some (c, rest) := by
  unfold escapeChar
  split
  case h_8 hquote hbackslash _ _ _ _ _ =>
    split
    · rename_i hcontrol
      have hhigh := digitChar_ordinary (n := c.toNat / 16) (by omega)
      have hlow := digitChar_ordinary (n := c.toNat % 16) (by omega)
      refine .inr ⟨'u', _, rfl, ?_, fun rest => unicodeEscape?_control hcontrol rest⟩
      simp [hhigh, hlow]
    · rename_i hcontrol
      exact .inl ⟨rfl, hquote, hbackslash, hcontrol⟩
  all_goals exact .inr ⟨_, [], rfl, by simp, fun rest => rfl⟩

/-- What is written between quotes is read back, whatever follows. -/
theorem stringTail_flatMap (text : List Char) (fuel : Nat) (hfuel : text.length < fuel)
    (read rest : List Char) :
    Reader.stringTail fuel read (text.flatMap escapeChar ++ '"' :: rest) =
      some (String.ofList (read.reverse ++ text), rest) := by
  induction text generalizing fuel read with
  | nil =>
    obtain ⟨fuel, rfl⟩ : ∃ k, fuel = k + 1 := ⟨fuel - 1, by simp at hfuel; omega⟩
    simp [Reader.stringTail]
  | cons c text ih =>
    rw [List.length_cons] at hfuel
    obtain ⟨fuel, rfl⟩ : ∃ k, fuel = k + 1 := ⟨fuel - 1, by omega⟩
    have hrest := ih fuel (by omega) (c :: read)
    rw [List.flatMap_cons, List.append_assoc]
    rcases escapeChar_cases c with ⟨hself, hquote, hbackslash, hcontrol⟩ |
      ⟨code, more, hcode, -, hread⟩
    · rw [hself, List.singleton_append, Reader.stringTail, if_neg hquote, if_neg hbackslash,
        if_neg hcontrol, hrest]
      simp
    · rw [hcode, List.cons_append, Reader.stringTail, if_neg (by decide), if_pos rfl, hread]
      dsimp only
      rw [hrest]
      simp

theorem quote_append_inj {a b r s : List Char} (h : quote a ++ r = quote b ++ s) :
    a = b ∧ r = s := by
  have hread : ∀ a r : List Char, quote a ++ r = '"' :: (a.flatMap escapeChar ++ '"' :: r) := by
    intro a r
    simp [quote]
  rw [hread, hread] at h
  have ha := stringTail_flatMap a (a.length + b.length + 1) (by omega) [] r
  have hb := stringTail_flatMap b (a.length + b.length + 1) (by omega) [] s
  rw [(List.cons.inj h).2, hb] at ha
  obtain ⟨htext, hrest⟩ := Prod.mk.inj (Option.some.inj ha)
  exact ⟨(String.ofList_injective htext).symm, hrest.symm⟩

section lists

variable {α : Type} (write : α → List Char) (gap : List Char) (close : Char)

theorem intercalate_cons_append (a : α) (rest : List α) (tail : List Char) :
    ∃ behind, (',' :: gap).intercalate ((a :: rest).map write) ++ tail = write a ++ behind ∧
      (rest = [] ∧ behind = tail ∨ rest ≠ [] ∧
        behind = ',' :: (gap ++ ((',' :: gap).intercalate (rest.map write) ++ tail))) := by
  cases rest with
  | nil => exact ⟨tail, by simp, .inl ⟨rfl, rfl⟩⟩
  | cons b rest =>
    refine ⟨_, ?_, .inr ⟨by simp, rfl⟩⟩
    rw [List.map_cons, List.map_cons, List.intercalate_cons_cons]
    simp

theorem intercalate_append_inj (hends : close ∈ [',', ']', '\x7d', ')']) (hcomma : close ≠ ',')
    (hstart : ∀ a, ∃ c rest, write a = c :: rest ∧ c ≠ close) {as bs : List α}
    (has : ∀ a ∈ as, SelfDelimited write a) {r s : List Char}
    (h : (',' :: gap).intercalate (as.map write) ++ close :: r =
      (',' :: gap).intercalate (bs.map write) ++ close :: s) : as = bs ∧ r = s := by
  have hfilled : ∀ (a : α) (rest : List α) (r s : List Char),
      close :: r ≠ (',' :: gap).intercalate ((a :: rest).map write) ++ s := by
    intro a rest r s h
    obtain ⟨behind, heq, -⟩ := intercalate_cons_append write gap a rest s
    obtain ⟨c, more, hc, hne⟩ := hstart a
    rw [heq, hc] at h
    exact hne (List.cons.inj h).1.symm
  induction as generalizing bs with
  | nil =>
    cases bs with
    | nil => exact ⟨rfl, (List.cons.inj h).2⟩
    | cons b bs => exact absurd h (hfilled b bs _ _)
  | cons a as ih =>
    cases bs with
    | nil => exact absurd h.symm (hfilled a as _ _)
    | cons b bs =>
      obtain ⟨ha, hrest⟩ := List.forall_mem_cons.1 has
      obtain ⟨r', hr', hr⟩ := intercalate_cons_append write gap a as (close :: r)
      obtain ⟨s', hs', hs⟩ := intercalate_cons_append write gap b bs (close :: s)
      have hends' : ∀ {rest : List α} {tail behind : List Char},
          (rest = [] ∧ behind = close :: tail ∨ rest ≠ [] ∧ behind = ',' :: (gap ++
            ((',' :: gap).intercalate (rest.map write) ++ close :: tail))) → EndsValue behind := by
        rintro rest tail behind (⟨-, rfl⟩ | ⟨-, rfl⟩)
        · exact endsValue_cons hends
        · exact endsValue_cons (by simp)
      obtain ⟨rfl, hbehind⟩ := ha b r' s' (hr' ▸ hs' ▸ h) (hends' hr) (hends' hs)
      rcases hr with ⟨rfl, rfl⟩ | ⟨hne, rfl⟩ <;> rcases hs with ⟨rfl, rfl⟩ | ⟨hne', rfl⟩
      · exact ⟨rfl, (List.cons.inj hbehind).2⟩
      · exact absurd (List.cons.inj hbehind).1 hcomma
      · exact absurd (List.cons.inj hbehind).1.symm hcomma
      · obtain ⟨rfl, hrs⟩ := ih hrest (List.append_cancel_left (List.cons.inj hbehind).2)
        exact ⟨rfl, hrs⟩

end lists

namespace Value

/-- The first character of a value's text, as far as it tells the kind of the value: those that
start a number are not told apart, and neither are those of the truth values. -/
def lead : Value → Char
  | null => 'n'
  | bool _ => 't'
  | number _ => '0'
  | string _ => '"'
  | array _ => '['
  | object _ => '\x7b'

def leadOf (c : Char) : Char :=
  if c ∈ Number.alphabet then '0' else if c = 'f' then 't' else c

theorem chars_lead (v : Value) : ∃ c rest, v.chars = c :: rest ∧ leadOf c = v.lead := by
  cases v with
  | null => exact ⟨'n', _, rfl, by decide⟩
  | bool b =>
    cases b with
    | true => exact ⟨'t', _, rfl, by decide⟩
    | false => exact ⟨'f', _, rfl, by decide⟩
  | number n =>
    obtain ⟨c, rest, hc⟩ := List.exists_cons_of_ne_nil n.chars_ne_nil
    exact ⟨c, rest, hc, if_pos (n.mem_alphabet c (by simp [hc]))⟩
  | string s => exact ⟨'"', _, rfl, by rw [lead]; decide⟩
  | array items => exact ⟨'[', _, rfl, by rw [lead]; decide⟩
  | object members => exact ⟨'\x7b', _, rfl, by rw [lead]; decide⟩

theorem lead_eq_of_append_eq {v w : Value} {r s : List Char} (h : v.chars ++ r = w.chars ++ s) :
    v.lead = w.lead := by
  obtain ⟨c, rest, hc, hv⟩ := v.chars_lead
  obtain ⟨d, more, hd, hw⟩ := w.chars_lead
  rw [hc, hd] at h
  rw [← hv, ← hw, (List.cons.inj h).1]

theorem chars_start {close : Char} (hclose : close ∈ [']', ')']) (v : Value) :
    ∃ c rest, v.chars = c :: rest ∧ c ≠ close := by
  obtain ⟨c, rest, hc, hlead⟩ := v.chars_lead
  refine ⟨c, rest, hc, ?_⟩
  rintro rfl
  have hself : leadOf c = c := by
    have hall : [']', ')'].all (fun c => leadOf c = c) = true := by decide
    exact of_decide_eq_true (List.all_eq_true.1 hall c hclose)
  rw [← hself, hlead] at hclose
  cases v <;> simp [lead] at hclose

def memberChars (m : String × Value) : List Char :=
  quote m.1.toList ++ ':' :: m.2.chars

theorem chars_object (members : List (String × Value)) : (object members).chars =
    '\x7b' :: [','].intercalate (members.map memberChars) ++ ['\x7d'] := by
  rw [chars, membersChars_eq, commaSeparated_eq_intercalate]
  rfl

theorem selfDelimited_member {m : String × Value} (h : SelfDelimited chars m.2) :
    SelfDelimited memberChars m := by
  intro other r s heq hr hs
  simp only [memberChars, List.append_assoc, List.cons_append] at heq
  obtain ⟨hkey, hrest⟩ := quote_append_inj heq
  obtain ⟨hvalue, hrs⟩ := h other.2 r s (List.cons.inj hrest).2 hr hs
  exact ⟨Prod.ext (String.toList_inj.1 hkey) hvalue, hrs⟩

theorem selfDelimited_bool (a : Bool) : SelfDelimited chars (bool a) := by
  intro w r s h _ _
  have hlead := lead_eq_of_append_eq h
  cases w with
  | bool b =>
    have hab : a = b := by
      cases a <;> cases b <;> simp_all [chars]
    subst hab
    exact ⟨rfl, List.append_cancel_left h⟩
  | _ => simp [lead] at hlead

theorem selfDelimited_array {items : List Value}
    (hitems : ∀ item ∈ items, SelfDelimited chars item) : SelfDelimited chars (array items) := by
  intro w r s h _ _
  have hlead := lead_eq_of_append_eq h
  cases w with
  | array others =>
    simp only [chars_array, List.append_assoc, List.cons_append, List.cons.injEq, true_and,
      List.nil_append] at h
    obtain ⟨rfl, hrs⟩ := intercalate_append_inj chars [] ']' (by simp) (by decide)
      (chars_start (by simp)) hitems h
    exact ⟨rfl, hrs⟩
  | _ => simp [lead] at hlead

theorem selfDelimited_object {members : List (String × Value)}
    (hmembers : ∀ m ∈ members, SelfDelimited chars m.2) : SelfDelimited chars (object members) := by
  intro w r s h _ _
  have hlead := lead_eq_of_append_eq h
  cases w with
  | object others =>
    simp only [chars_object, List.append_assoc, List.cons_append, List.cons.injEq, true_and,
      List.nil_append] at h
    obtain ⟨rfl, hrs⟩ := intercalate_append_inj memberChars [] '\x7d' (by simp) (by decide)
      (fun m => ⟨'"', _, rfl, by decide⟩) (fun m hm => selfDelimited_member (hmembers m hm)) h
    exact ⟨rfl, hrs⟩
  | _ => simp [lead] at hlead

theorem sizeOf_snd_lt {m : String × Value} {members : List (String × Value)} (h : m ∈ members) :
    sizeOf m.2 < sizeOf members := by
  have hm := List.sizeOf_lt_of_mem h
  obtain ⟨key, v⟩ := m
  rw [Prod.mk.sizeOf_spec] at hm
  dsimp only
  omega

/-- A value is known from the start of a text that goes on behind it with the end of a list or of
one of its items. -/
theorem selfDelimited : ∀ v : Value, SelfDelimited chars v
  | null => by
    intro w r s h _ _
    have hlead := lead_eq_of_append_eq h
    cases w with
    | null => exact ⟨rfl, List.append_cancel_left h⟩
    | _ => simp [lead] at hlead
  | bool a => selfDelimited_bool a
  | number n => by
    intro w r s h hr hs
    have hlead := lead_eq_of_append_eq h
    cases w with
    | number k =>
      obtain ⟨rfl, hrs⟩ := selfDelimited_number n k r s h hr hs
      exact ⟨rfl, hrs⟩
    | _ => simp [lead] at hlead
  | string a => by
    intro w r s h _ _
    have hlead := lead_eq_of_append_eq h
    cases w with
    | string b =>
      obtain ⟨hab, hrs⟩ := quote_append_inj h
      exact ⟨congrArg string (String.toList_inj.1 hab), hrs⟩
    | _ => simp [lead] at hlead
  | array items => selfDelimited_array fun item _ => selfDelimited item
  | object members => selfDelimited_object fun m hm =>
    have := sizeOf_snd_lt hm
    selfDelimited m.2

end Value

end ToolDialogue.Json
