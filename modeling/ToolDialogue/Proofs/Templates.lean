import ToolDialogue.Proofs.Items
import ToolDialogue.Proofs.Segments

/-! Texts put together from literal texts and calls in braces. They are split into just these parts
again, and each call is read as the one that was written. -/
namespace ToolDialogue

/-- A call in braces, and the literal text behind it. -/
structure Insertion where
  name : Identifier
  args : List Item
  behind : List Char

namespace Insertion

def call (insertion : Insertion) : Item :=
  .call insertion.name insertion.args

def chars (insertion : Insertion) : List Char :=
  '\x7b' :: (insertion.call.chars ++ '\x7d' :: insertion.behind)

def segments (insertion : Insertion) : List Segment :=
  .expression insertion.call.chars :: Segment.ofLiteral insertion.behind

theorem noLiteralFirst_segments (insertions : List Insertion) :
    Segment.NoLiteralFirst (insertions.flatMap segments) := by
  intro text rest h
  cases insertions with
  | nil => contradiction
  | cons insertion insertions =>
    rw [List.flatMap_cons, segments, List.cons_append] at h
    cases h

theorem split_chars (insertion : Insertion) (rest : List Char) :
    Segment.split .braces (insertion.chars ++ rest) =
      .expression insertion.call.chars :: Segment.split .braces (insertion.behind ++ rest) := by
  have hclosing := Neutral.closing?_eq (o := '\x7b') (c := '\x7d') (by decide)
    (Item.neutral_chars insertion.call) (insertion.behind ++ rest)
  rw [chars, List.cons_append, List.append_assoc, List.cons_append]
  exact Segment.split_of_closing? hclosing

theorem split_flatMap {insertions : List Insertion}
    (h : ∀ insertion ∈ insertions, '\x7b' ∉ insertion.behind) :
    Segment.split .braces (insertions.flatMap chars) = insertions.flatMap segments := by
  induction insertions with
  | nil =>
    rw [List.flatMap_nil, List.flatMap_nil, Segment.split]
  | cons insertion insertions ih =>
    obtain ⟨hfirst, hrest⟩ := List.forall_mem_cons.1 h
    have hnone := noLiteralFirst_segments insertions
    rw [← ih hrest] at hnone
    rw [List.flatMap_cons, split_chars, Segment.split_literal hfirst hnone, ih hrest,
      List.flatMap_cons, segments, List.cons_append]

end Insertion

/-- Literal texts and calls are found again where they were put together, if no literal text has an
opening brace in it, and each call is read as its name and the texts of its arguments. -/
theorem split_template (first : List Char) (insertions : List Insertion)
    (hfirst : '\x7b' ∉ first) (hbehind : ∀ insertion ∈ insertions, '\x7b' ∉ insertion.behind) :
    Segment.split .braces (first ++ insertions.flatMap Insertion.chars) =
        Segment.ofLiteral first ++ insertions.flatMap Insertion.segments ∧
      ∀ insertion ∈ insertions, Call.read insertion.call.chars =
        .ok ⟨insertion.name.text, insertion.args.map fun arg => arg.core.text⟩ := by
  have hsplit := Insertion.split_flatMap hbehind
  have hnone := Insertion.noLiteralFirst_segments insertions
  rw [← hsplit] at hnone
  refine ⟨?_, fun insertion _ => Item.read_call insertion.name insertion.args⟩
  rw [Segment.split_literal hfirst hnone, hsplit]

namespace Invitation

/-- A quote that nothing closes. -/
def opening : List Char := "Say \"".toList

/-- Braces and a quote in a quoted text, and no literal text behind the call. -/
def welcome : Insertion :=
  ⟨⟨"invite".toList, by decide⟩, [.quoted "\x7d\"\x7b", .group [.boolean true]], []⟩

def leave : Insertion :=
  ⟨⟨"exit".toList, by decide⟩, [], "\x7d \"twice".toList⟩

theorem split_invitation :
    ('\x7b' ∉ opening ∧ ∀ insertion ∈ [welcome, leave], '\x7b' ∉ insertion.behind) ∧
      Segment.split .braces
        "Say \"\x7binvite(\"\x7d\\\"\x7b\",[true])\x7d\x7bexit()\x7d\x7d \"twice".toList =
          [.literal "Say \"".toList, .expression "invite(\"\x7d\\\"\x7b\",[true])".toList,
            .expression "exit()".toList, .literal "\x7d \"twice".toList] ∧
      Call.read "invite(\"\x7d\\\"\x7b\",[true])".toList =
        .ok ⟨"invite", ["\"\x7d\\\"\x7b\"", "[true]"]⟩ ∧
      Call.read "exit()".toList = .ok ⟨"exit", []⟩ := by
  have hopening : '\x7b' ∉ opening := by decide
  have hbehind : ∀ insertion ∈ [welcome, leave], '\x7b' ∉ insertion.behind :=
    List.forall_mem_cons.2 ⟨by decide, List.forall_mem_singleton.2 (by decide)⟩
  have hwelcome : welcome.call.chars = "invite(\"\x7d\\\"\x7b\",[true])".toList := by
    simp [Insertion.call, welcome, Item.chars]
    rfl
  have hleave : leave.call.chars = "exit()".toList := by
    simp [Insertion.call, leave, Item.chars]
    rfl
  have hargs : welcome.args.map (fun arg => arg.core.text) =
      ["\"\x7d\\\"\x7b\"", "[true]"] := by
    simp [welcome, Item.core, Item.text, Item.chars]
    rfl
  obtain ⟨hsplit, hread⟩ := split_template opening [welcome, leave] hopening hbehind
  have hfirst := hread welcome (by simp)
  rw [hwelcome, hargs] at hfirst
  have hlast := hread leave (by simp)
  rw [hleave] at hlast
  refine ⟨⟨hopening, hbehind⟩, ?_, hfirst, hlast⟩
  simp only [List.flatMap_cons, List.flatMap_nil, Insertion.chars, Insertion.segments, hwelcome,
    hleave] at hsplit
  exact hsplit

end Invitation

end ToolDialogue
