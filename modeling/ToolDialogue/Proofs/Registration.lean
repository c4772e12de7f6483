import ToolDialogue.Proofs.ByteOrder
import ToolDialogue.Proofs.NamedTools
import ToolDialogue.Run.Runner

/-! Toolboxes as they are edited. Under each name the last tool added counts, unless a later edit
takes the name away, and the same tools make the same toolbox, whatever the order in which they came
or in which they are held. -/
namespace ToolDialogue

open Text

variable {m : Type → Type}

/-- A change to a toolbox. -/
inductive Edit (m : Type → Type) where
  | add (tool : Tool m)
  | erase (names : List String)
  | restrict (names : List String)
  /-- A copy takes the place of the toolbox. -/
  | copy

namespace Edit

def apply (box : Toolbox m) : Edit m → Toolbox m
  | add tool => box.add tool
  | erase names => box.erase names
  | restrict names => box.restrict names
  | copy => box

def Leaves (name : String) : Edit m → Prop
  | add tool => tool.name ≠ name
  | erase names => name ∉ names
  | restrict names => name ∈ names
  | copy => True

/-- What becomes of tools that are held in no particular order. -/
def change (tools : List (Tool m)) : Edit m → List (Tool m)
  | add tool => tool :: tools.filter fun t => t.name != tool.name
  | erase names => tools.filter fun t => !names.contains t.name
  | restrict names => tools.filter fun t => names.contains t.name
  | copy => tools

end Edit

def Toolbox.edited (edits : List (Edit m)) : Toolbox m :=
  edits.foldl Edit.apply .empty

/-- `tool` is the last that was added under `name`, and no later edit takes it away. -/
def Kept (edits : List (Edit m)) (name : String) (tool : Tool m) : Prop :=
  ∃ before after, edits = before ++ .add tool :: after ∧ tool.name = name ∧
    ∀ edit ∈ after, edit.Leaves name

/-- Tools that may be held after these edits. Every edit may leave them in another order. -/
inductive Held : List (Edit m) → List (Tool m) → Prop
  | none : Held [] []
  | edit {edits : List (Edit m)} {tools tools' : List (Tool m)} {edit : Edit m}
      (h : Held edits tools) (horder : tools'.Perm (edit.change tools)) :
      Held (edits ++ [edit]) tools'

theorem not_kept_nil (name : String) (tool : Tool m) : ¬ Kept [] name tool := by
  rintro ⟨before, after, h, -⟩
  simp at h

theorem kept_iff {edits : List (Edit m)} {name : String} {tool : Tool m} :
    Kept edits name tool ↔ tool.name = name ∧
      ∃ before after, edits = before ++ .add tool :: after ∧ ∀ edit ∈ after, edit.Leaves name := by
  constructor
  · rintro ⟨before, after, hedits, hname, hafter⟩
    exact ⟨hname, before, after, hedits, hafter⟩
  · rintro ⟨hname, before, after, hedits, hafter⟩
    exact ⟨before, after, hedits, hname, hafter⟩

theorem kept_concat {edits : List (Edit m)} {edit : Edit m} {name : String} {tool : Tool m} :
    Kept (edits ++ [edit]) name tool ↔
      edit = .add tool ∧ tool.name = name ∨ Kept edits name tool ∧ edit.Leaves name := by
  rw [kept_iff, kept_iff, exists_last_concat_iff]
  tauto

theorem find?_insertTool (tool : Tool m) (tools : List (Tool m)) (name : String) :
    (insertTool tool tools).find? (·.name == name) =
      if tool.name = name then some tool else tools.find? (·.name == name) := by
  have hfirst (rest : List (Tool m)) : (tool :: rest).find? (·.name == name) =
      if tool.name = name then some tool else rest.find? (·.name == name) := by
    by_cases hname : tool.name = name <;> simp [hname]
  induction tools with
  | nil => exact hfirst []
  | cons t rest ih =>
    unfold insertTool
    split
    · exact hfirst (t :: rest)
    · rename_i hbefore
      split
      · rename_i hsame
        rw [hfirst rest]
        by_cases hname : tool.name = name
        · rw [if_pos hname, if_pos hname]
        · have ht : (t.name == name) = false := by simpa [← hsame] using hname
          rw [if_neg hname, if_neg hname, List.find?_cons, ht]
      · rename_i hother
        rw [List.find?_cons, List.find?_cons, ih]
        cases ht : t.name == name with
        | false => rfl
        | true =>
          have hname : tool.name ≠ name := fun h => hother (h.trans (eq_of_beq ht).symm)
          exact (if_neg hname).symm

namespace Toolbox

variable {box box' : Toolbox m} {name : String} {tool : Tool m}

theorem find?_filter_eq_none {keep : String → Bool} (h : keep name = false) :
    (box.filter keep).find? name = none := by
  rw [find?, List.find?_eq_none]
  intro tool htool hname
  have hkeep : keep tool.name = true := (List.mem_filter.1 htool).2
  rw [eq_of_beq hname, h] at hkeep
  contradiction

theorem find?_filter_iff {keep : String → Bool} : (box.filter keep).find? name = some tool ↔
    box.find? name = some tool ∧ keep name = true := by
  cases hkeep : keep name with
  | false => simp [find?_filter_eq_none hkeep]
  | true => simp [find?_filter hkeep]

/-- What an edit comes to under each name: what it adds there, or else what was there if the edit
leaves it. -/
theorem find?_apply_iff (edit : Edit m) : (edit.apply box).find? name = some tool ↔
    edit = .add tool ∧ tool.name = name ∨ box.find? name = some tool ∧ edit.Leaves name := by
  cases edit with
  | add added =>
    have hadd : (box.add added).find? name =
        if added.name = name then some added else box.find? name :=
      find?_insertTool added box.tools name
    rw [Edit.apply, hadd]
    by_cases hname : added.name = name
    · rw [if_pos hname]
      constructor
      · intro h
        cases h
        exact .inl ⟨rfl, hname⟩
      · rintro (⟨hadded, -⟩ | ⟨-, hleaves⟩)
        · cases hadded
          rfl
        · exact absurd hname hleaves
    · rw [if_neg hname]
      constructor
      · intro h
        exact .inr ⟨h, hname⟩
      · rintro (⟨hadded, htool⟩ | ⟨h, -⟩)
        · cases hadded
          exact absurd htool hname
        · exact h
  | erase names => simp [Edit.apply, erase, find?_filter_iff, Edit.Leaves]
  | restrict names => simp [Edit.apply, restrict, find?_filter_iff, Edit.Leaves]
  | copy => simp [Edit.apply, Edit.Leaves]

theorem find?_edited_iff {edits : List (Edit m)} :
    (edited edits).find? name = some tool ↔ Kept edits name tool := by
  induction edits using List.reverseRecOn with
  | nil => simp [edited, empty, find?, not_kept_nil]
  | append_singleton edits edit ih =>
    rw [edited, List.foldl_concat, find?_apply_iff, kept_concat, ← ih]
    rfl

theorem mem_tools_iff : tool ∈ box.tools ↔ box.find? tool.name = some tool := by
  constructor
  · intro h
    obtain ⟨before, after, hsplit⟩ := List.append_of_mem h
    have hascending := box.ascending
    rw [hsplit, List.pairwise_append] at hascending
    rw [find?, List.find?_eq_some_iff_append]
    refine ⟨beq_self_eq_true _, before, after, hsplit, fun t ht => ?_⟩
    have hlt : t.name < tool.name := hascending.2.2 t ht tool (by simp)
    simpa using ne_of_lt hlt
  · exact mem_of_find?

theorem nodup_tools (box : Toolbox m) : box.tools.Nodup :=
  box.ascending.imp fun h heq => absurd (heq ▸ h) (lt_irrefl _)

theorem perm_of_find? (h : ∀ name, box.find? name = box'.find? name) :
    box.tools.Perm box'.tools := by
  rw [List.perm_ext_iff_of_nodup box.nodup_tools box'.nodup_tools]
  intro tool
  rw [mem_tools_iff, mem_tools_iff, h]

theorem eq_of_find? (h : ∀ name, box.find? name = box'.find? name) : box = box' := by
  have htools : box.tools = box'.tools :=
    (perm_of_find? h).eq_of_pairwise (fun _ _ _ _ hlt hgt => absurd hgt (lt_asymm hlt))
      box.ascending box'.ascending
  cases box
  cases box'
  cases htools
  rfl

end Toolbox

def notBehind {α : Type} (key : α → String) (a b : α) : Bool :=
  decide (utf8 (key a) ≤ utf8 (key b))

theorem notBehind_iff {α : Type} {key : α → String} {a b : α} :
    notBehind key a b = true ↔ key a ≤ key b := by
  rw [notBehind, decide_eq_true_iff, utf8_le_iff]

theorem perm_insertTool (tool : Tool m) {tools : List (Tool m)}
    (h : tools.Pairwise fun a b => a.name < b.name) :
    (insertTool tool tools).Perm (tool :: tools.filter fun t => t.name != tool.name) := by
  induction tools with
  | nil => exact .refl _
  | cons t rest ih =>
    obtain ⟨hfirst, hrest⟩ := List.pairwise_cons.1 h
    unfold insertTool
    split
    · rename_i hlt
      -- all names are greater, so none is filtered out
      have hall : ∀ u ∈ t :: rest, (u.name != tool.name) = true := by
        intro u hu
        rw [bne_iff_ne]
        rcases List.mem_cons.1 hu with rfl | hu
        · exact ne_of_gt hlt
        · exact ne_of_gt (lt_trans hlt (hfirst u hu))
      rw [List.filter_eq_self.2 hall]
    · split
      · rename_i hsame
        have hall : ∀ u ∈ rest, (u.name != tool.name) = true := by
          intro u hu
          rw [bne_iff_ne, hsame]
          exact ne_of_gt (hfirst u hu)
        rw [List.filter_cons_of_neg (by simp [hsame]), List.filter_eq_self.2 hall]
      · rename_i hother
        rw [List.filter_cons_of_pos (by simpa using Ne.symm hother)]
        exact ((ih hrest).cons t).trans (.swap tool t _)

theorem Edit.perm_change {tools tools' : List (Tool m)} (edit : Edit m) (h : tools.Perm tools') :
    (edit.change tools).Perm (edit.change tools') := by
  cases edit with
  | add tool => exact (h.filter _).cons tool
  | erase names => exact h.filter _
  | restrict names => exact h.filter _
  | copy => exact h

theorem Edit.perm_apply (edit : Edit m) (box : Toolbox m) :
    (edit.change box.tools).Perm (edit.apply box).tools := by
  cases edit with
  | add tool => exact (perm_insertTool tool box.ascending).symm
  | erase names => exact .refl _
  | restrict names => exact .refl _
  | copy => exact .refl _

/-- However the tools are held, they are those of the toolbox, and they may be held in any order. -/
theorem held_iff_perm {edits : List (Edit m)} {tools : List (Tool m)} :
    Held edits tools ↔ tools.Perm (Toolbox.edited edits).tools := by
  induction edits using List.reverseRecOn generalizing tools with
  | nil =>
    rw [Toolbox.edited, List.foldl_nil, Toolbox.empty, List.perm_nil]
    constructor
    · intro h
      generalize hedits : [] = all at h
      cases h with
      | none => rfl
      | edit => simp at hedits
    · rintro rfl
      exact .none
  | append_singleton edits edit ih =>
    rw [Toolbox.edited, List.foldl_concat]
    constructor
    · intro h
      generalize hedits : edits ++ [edit] = all at h
      cases h with
      | none => simp at hedits
      | edit h horder =>
        obtain ⟨rfl, hedit⟩ := List.append_inj' hedits rfl
        cases hedit
        exact horder.trans ((edit.perm_change (ih.1 h)).trans (edit.perm_apply _))
    · intro h
      exact .edit (ih.2 (.refl _)) (h.trans (edit.perm_apply _).symm)

namespace Toolbox

variable {box : Toolbox m} {tools : List (Tool m)}

theorem eq_of_name_eq {tool tool' : Tool m} (h : tool ∈ box.tools) (h' : tool' ∈ box.tools)
    (hname : tool.name = tool'.name) : tool = tool' := by
  rw [mem_tools_iff] at h h'
  rw [hname, h'] at h
  exact (Option.some.inj h).symm

theorem mergeSort_eq {α : Type} {f : Tool m → α} {key : α → String}
    (hkey : ∀ tool, key (f tool) = tool.name) (h : tools.Perm box.tools) :
    (tools.map f).mergeSort (notBehind key) = box.tools.map f := by
  have hsorted : ((tools.map f).mergeSort (notBehind key)).Pairwise (notBehind key · ·) := by
    refine List.pairwise_mergeSort (fun a b c hab hbc => ?_) (fun a b => ?_) _
    · rw [notBehind_iff] at hab hbc ⊢
      exact le_trans hab hbc
    · rw [Bool.or_eq_true, notBehind_iff, notBehind_iff]
      exact le_total (key a) (key b)
  have hperm : ((tools.map f).mergeSort (notBehind key)).Perm (box.tools.map f) :=
    (List.mergeSort_perm _ _).trans (h.map f)
  refine hperm.eq_of_pairwise ?_ hsorted ?_
  · -- what is told of two tools is the same if they have the same name
    intro a b ha hb hab hba
    obtain ⟨tool, htool, rfl⟩ := List.mem_map.1 (hperm.mem_iff.1 ha)
    obtain ⟨tool', htool', rfl⟩ := List.mem_map.1 hb
    rw [notBehind_iff, hkey, hkey] at hab hba
    rw [eq_of_name_eq htool htool' (le_antisymm hab hba)]
  · refine List.pairwise_map.2 (box.ascending.imp fun {tool tool'} hlt => ?_)
    rw [notBehind_iff, hkey, hkey]
    exact le_of_lt hlt

theorem find?_eq_of_perm (h : tools.Perm box.tools) (name : String) :
    tools.find? (·.name == name) = box.find? name := by
  cases hfind : tools.find? (·.name == name) with
  | none =>
    refine (List.find?_eq_none.2 fun tool htool => ?_).symm
    exact List.find?_eq_none.1 hfind tool (h.mem_iff.2 htool)
  | some tool =>
    have hname : tool.name = name := by simpa using List.find?_some hfind
    have hmem : tool ∈ box.tools := h.mem_iff.1 (List.mem_of_find?_eq_some hfind)
    rw [← hname, mem_tools_iff.1 hmem]

theorem tool_of_ready {σ : Type} {box : Toolbox (StateM σ)} {call : Call} {s s' : σ}
    {ready : ReadyCall (StateM σ)} (h : runFrom (box.ready call) s = (.ok ready, s')) :
    box.find? call.name = some ready.tool := by
  rw [Toolbox.ready, nestingLimit, readyWithin_succ] at h
  cases htool : box.find? call.name with
  | none =>
    rw [readyWith_unknown htool] at h
    simp at h
  | some tool =>
    cases hslots : assign? tool.signature.params call.args with
    | none =>
      rw [readyWith_count htool hslots] at h
      simp at h
    | some slots =>
      rw [readyWith_slots htool hslots] at h
      obtain ⟨args, s₁, -, hready⟩ := runFrom_bind_eq_ok h
      cases hready
      rfl

end Toolbox

/-- What a toolbox shows after edits. -/
structure Presents (edits : List (Edit m)) (box : Toolbox m) : Prop where
  find : ∀ name tool, box.find? name = some tool ↔ Kept edits name tool
  size : box.size = box.names.length
  ascending : box.names.Pairwise fun name name' => utf8 name < utf8 name'
  names : ∀ name, name ∈ box.names ↔ ∃ tool, Kept edits name tool
  signatures : List.Forall₂ (fun name signature =>
    ∃ tool, Kept edits name tool ∧ signature = tool.signature) box.names box.signatures
  /-- The same is shown when tools are held in no order, and names and signatures are sorted. -/
  held : ∀ tools, Held edits tools → tools.length = box.size ∧
    (∀ name, tools.find? (·.name == name) = box.find? name) ∧
    (tools.map Tool.name).mergeSort (notBehind id) = box.names ∧
    (tools.map Tool.signature).mergeSort (notBehind Signature.name) = box.signatures

theorem presents_edited (edits : List (Edit m)) : Presents edits (Toolbox.edited edits) := by
  have hkept (tool : Tool m) (h : tool ∈ (Toolbox.edited edits).tools) :
      Kept edits tool.name tool :=
    Toolbox.find?_edited_iff.1 (Toolbox.mem_tools_iff.1 h)
  constructor
  · intro name tool
    exact Toolbox.find?_edited_iff
  · rw [Toolbox.size, Toolbox.names, List.length_map]
  · exact List.pairwise_map.2 ((Toolbox.edited edits).ascending.imp utf8_lt_iff.2)
  · intro name
    constructor
    · intro h
      obtain ⟨tool, htool, rfl⟩ := List.mem_map.1 h
      exact ⟨tool, hkept tool htool⟩
    · rintro ⟨tool, htool⟩
      have hfind := Toolbox.find?_edited_iff.2 htool
      exact List.mem_map.2 ⟨tool, Toolbox.mem_of_find? hfind, Toolbox.name_of_find? hfind⟩
  · rw [Toolbox.names, Toolbox.signatures, List.forall₂_map_left_iff, List.forall₂_map_right_iff,
      List.forall₂_same]
    intro tool htool
    exact ⟨tool, hkept tool htool, rfl⟩
  · intro tools h
    have hperm := held_iff_perm.1 h
    exact ⟨hperm.length_eq, Toolbox.find?_eq_of_perm hperm,
      Toolbox.mergeSort_eq (fun _ => rfl) hperm, Toolbox.mergeSort_eq (fun _ => rfl) hperm⟩

section alike

variable {σ : Type}

/-- Neither a provider nor a run can tell two toolboxes apart. -/
structure Toolbox.Alike (box box' : Toolbox (StateM σ)) : Prop where
  signatures : box.signatures = box'.signatures
  preamble : ∀ strategy : Strategy (StateM σ),
    strategy.preamble box.signatures = strategy.preamble box'.signatures
  calls : ∀ call, box.GoesAlike box' call
  runs : ∀ provider strategy limits conversation,
    (Runner.mk provider box strategy limits).run conversation =
      (Runner.mk provider box' strategy limits).run conversation

theorem Toolbox.alike_of_find? {box box' : Toolbox (StateM σ)}
    (h : ∀ name, box.find? name = box'.find? name) : box.Alike box' := by
  cases Toolbox.eq_of_find? h
  exact ⟨rfl, fun _ => rfl, fun _ => ⟨rfl, rfl, fun _ => rfl, fun _ => rfl⟩, fun _ _ _ _ => rfl⟩

/-- After any edits a toolbox shows, and its calls run, what was added last under each name and not
taken away since. Edits that leave the same tools make toolboxes that nothing tells apart. -/
theorem edits_settle (edits : List (Edit (StateM σ))) :
    Presents edits (Toolbox.edited edits) ∧
    (∀ call s ready s', runFrom ((Toolbox.edited edits).ready call) s = (.ok ready, s') →
      Kept edits call.name ready.tool) ∧
    ∀ edits', (∀ name tool, Kept edits name tool ↔ Kept edits' name tool) →
      (Toolbox.edited edits).Alike (Toolbox.edited edits') := by
  refine ⟨presents_edited edits, fun call s ready s' h => ?_, fun edits' h => ?_⟩
  · exact Toolbox.find?_edited_iff.1 (Toolbox.tool_of_ready h)
  · refine Toolbox.alike_of_find? fun name => Option.ext fun tool => ?_
    rw [Toolbox.find?_edited_iff, Toolbox.find?_edited_iff, h]

end alike

namespace Echo

def inOrder : List (Edit (StateM Unit)) :=
  [.add (fixed "answer" "True"), .add echo, .add (fixed "title" "draft 7")]

/-- The other way round, with a title that is replaced and a tool that is taken away. -/
def roundabout : List (Edit (StateM Unit)) :=
  [.add (fixed "title" "draft 6"), .add (fixed "subtitle" ""), .copy, .add echo,
    .add (fixed "title" "draft 7"), .erase ["subtitle", "answer"], .add (fixed "answer" "True")]

theorem roundabout_alike :
    (Toolbox.edited inOrder).names = ["answer", "echo", "title"] ∧
      (Toolbox.edited inOrder).Alike (Toolbox.edited roundabout) := by
  refine ⟨rfl, (edits_settle inOrder).2.2 roundabout fun name tool => ?_⟩
  rw [← Toolbox.find?_edited_iff, ← Toolbox.find?_edited_iff]
  rfl

end Echo

end ToolDialogue
