import ToolDialogue.Proofs.Conforming
import ToolDialogue.Proofs.Trace

/-! What a tool receives: the arguments of a call, with the results of the calls among them read
off a list, as values of the declared types. -/
namespace ToolDialogue

open Json (Value)

variable {σ α β : Type}

def nextResult : ExceptT CallError (StateM (List String)) String := ExceptT.mk fun results =>
  match results with
  | [] => pure (.error .nestedTooDeep, [])
  | result :: rest => pure (.ok result, rest)

namespace Toolbox

variable {m : Type → Type}

/-- The same signatures over tools that do nothing. -/
def idle (box : Toolbox m) : Toolbox (StateM (List String)) :=
  box.withBodies fun _ _ => pure (.error ⟨""⟩)

/-- The tool of the call receives `args` if the calls among its arguments have these results, one
after another and no others. -/
def Binds (box : Toolbox m) (call : Call) (results : List String) (args : List Value) : Prop :=
  ∃ tool, runFrom (box.idle.readyWith (fun _ _ => nextResult) call) results = (.ok ⟨tool, args⟩, [])

theorem idle_withBodies {n : Type → Type} (box : Toolbox m)
    (body : Tool m → List Value → n (Except ToolFailure Output)) :
    (box.withBodies body).idle = box.idle := by
  simp [idle, withBodies, Tool.withBody, Function.comp_def]

end Toolbox

/-- A computation that succeeds also succeeds if the results of the calls in it are replayed. -/
def replaying (σ : Type) : Simulation (StateM σ) (StateM (List String)) where
  Rel R x y := ∀ s a s', runFrom x s = (.ok a, s') →
    ∃ b results, R a b ∧ ∀ more, runFrom y (results ++ more) = (.ok b, more)
  pure h s _ _ hx := by
    obtain ⟨ha, -⟩ := Prod.mk.inj hx
    cases ha
    exact ⟨_, [], h, fun more => rfl⟩
  throw e s _ _ hx := by simp at hx
  bind h hf s c s' hx := by
    obtain ⟨a, s₁, ha, hc⟩ := runFrom_bind_eq_ok hx
    obtain ⟨b, results, hab, hy⟩ := h s a s₁ ha
    obtain ⟨d, more, hcd, hg⟩ := hf a b hab s₁ c s' hc
    refine ⟨d, results ++ more, hcd, fun rest => ?_⟩
    rw [List.append_assoc, runFrom_bind_ok (hy _), hg]

theorem binds_of_readyWith {box : Toolbox (StateM σ)}
    {run : Nat → Call → ExceptT CallError (StateM σ) String} {call : Call} {s s' : σ}
    {ready : ReadyCall (StateM σ)} (h : runFrom (box.readyWith run call) s = (.ok ready, s')) :
    ∃ results, box.Binds call results ready.args := by
  have hrun : ∀ passed inner, (replaying σ).Rel Eq (run passed inner) nextResult := by
    intro passed inner s result s' _
    exact ⟨result, [result], rfl, fun more => rfl⟩
  obtain ⟨ready', results, ⟨-, hready⟩, hreplay⟩ := (replaying σ).readyWith hrun call s ready s' h
  refine ⟨results, ready'.tool, ?_⟩
  have hnil := hreplay []
  rw [List.append_nil] at hnil
  subst hready
  exact hnil

/-- Whatever the computation returns has the property. -/
def Ensures (x : ExceptT CallError (StateM σ) α) (P : α → Prop) : Prop :=
  ∀ s a s', runFrom x s = (.ok a, s') → P a

namespace Ensures

variable {x : ExceptT CallError (StateM σ) α} {f : α → ExceptT CallError (StateM σ) β}
  {P : α → Prop} {Q : β → Prop}

theorem pure {a : α} (h : P a) : Ensures (Pure.pure a : ExceptT CallError (StateM σ) α) P := by
  intro s a' s' hx
  obtain ⟨ha, -⟩ := Prod.mk.inj hx
  cases ha
  exact h

theorem throw (e : CallError) : Ensures (MonadExcept.throw e : ExceptT CallError (StateM σ) α) P := by
  intro s a s' hx
  simp at hx

theorem imp {P' : α → Prop} (hx : Ensures x P) (h : ∀ a, P a → P' a) : Ensures x P' :=
  fun s a s' ha => h a (hx s a s' ha)

theorem bind (hx : Ensures x P) (hf : ∀ a, P a → Ensures (f a) Q) : Ensures (x >>= f) Q := by
  intro s b s' h
  obtain ⟨a, s₁, ha, hb⟩ := runFrom_bind_eq_ok h
  exact hf a (hx s a s₁ ha) s₁ b s' hb

theorem bind_last (hf : ∀ a, Ensures (f a) Q) : Ensures (x >>= f) Q := by
  have hx : Ensures x fun _ => True := fun _ _ _ _ => trivial
  exact hx.bind fun a _ => hf a

theorem mapM {Q : α → β → Prop} {items : List α} (h : ∀ item, Ensures (f item) (Q item)) :
    Ensures (items.mapM f) (List.Forall₂ Q items) := by
  induction items with
  | nil => exact pure .nil
  | cons item rest ih =>
    rw [List.mapM_cons]
    exact (h item).bind fun b hb => ih.bind fun bs hbs => pure (.cons hb hbs)

theorem mapM_forall {P : α → Prop} {items : List α} (h : ∀ item, Ensures (f item) fun _ => P item) :
    Ensures (items.mapM f) fun _ => ∀ item ∈ items, P item :=
  (mapM h).imp fun _ hall => forall_of_forall₂ hall.flip fun _ _ _ h => h

end Ensures

section types

variable {box : Toolbox (StateM σ)} {run : Nat → Call → ExceptT CallError (StateM σ) String}

theorem ensures_converted (param : String) (type : ValueType) (arg : Argument) :
    Ensures (converted param type arg : ExceptT CallError (StateM σ) Value) (Conforms type) := by
  unfold converted
  split
  · exact .pure (conforms_of_convert (by assumption))
  · exact .throw _

theorem ensures_valueOf (param : String) (type : ValueType) (arg : String) :
    Ensures (box.valueOf run param type arg) (Conforms type) :=
  .bind_last fun arg => ensures_converted param type arg

theorem ensures_listOf (param : String) (elem : ValueType) (args : List String) :
    Ensures (box.listOf run param elem args) (Conforms (.variadic elem)) := by
  unfold Toolbox.listOf
  split
  · refine .bind_last fun arg => ?_
    split
    · exact ensures_converted param (.variadic elem) _
    · exact (ensures_converted param elem arg).bind fun v hv => .pure (.variadic (by simpa using hv))
  · refine (Ensures.mapM fun arg => ensures_valueOf param elem arg).bind fun values hvalues => ?_
    exact .pure (.variadic (forall_of_forall₂ hvalues fun _ _ _ h => h))

theorem ensures_fill (slot : String × Slot) :
    Ensures (box.fill run slot) (Conforms slot.2.type) := by
  obtain ⟨param, ⟨type, arg⟩ | ⟨elem, args⟩⟩ := slot
  · exact ensures_valueOf param type arg
  · exact ensures_listOf param elem args

theorem ensures_readyWith (call : Call) : Ensures (box.readyWith run call) fun ready =>
    box.find? call.name = some ready.tool ∧
      ConformsAll (ready.tool.signature.params.map Param.type) ready.args := by
  cases htool : box.find? call.name with
  | none =>
    rw [Toolbox.readyWith_unknown htool]
    exact .throw _
  | some tool =>
    cases hslots : assign? tool.signature.params call.args with
    | none =>
      rw [Toolbox.readyWith_count htool hslots]
      exact .throw _
    | some slots =>
      rw [Toolbox.readyWith_slots htool hslots]
      refine (Ensures.mapM ensures_fill).bind fun args hargs => .pure ⟨rfl, ?_⟩
      rw [← map_type_assign? hslots, ConformsAll, List.forall₂_map_left_iff]
      exact hargs

end types

theorem conformsAll_of_binds {m : Type → Type} {box : Toolbox m} {call : Call}
    {results : List String} {args : List Value} (h : box.Binds call results args) :
    ∃ tool, box.find? call.name = some tool ∧
      ConformsAll (tool.signature.params.map Param.type) args := by
  obtain ⟨idle, hready⟩ := h
  obtain ⟨hfind, hargs⟩ := ensures_readyWith call _ _ _ hready
  rw [Toolbox.idle, Toolbox.find?_withBodies] at hfind
  obtain ⟨tool, htool, rfl⟩ := Option.map_eq_some_iff.1 hfind
  exact ⟨tool, htool, hargs⟩

end ToolDialogue
