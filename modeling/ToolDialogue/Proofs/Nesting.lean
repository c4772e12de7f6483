import ToolDialogue.Proofs.Agreement
import ToolDialogue.Proofs.Simulation
import ToolDialogue.Tool.Stock

/-! How deep calls stand in one another. A call that nests within the limit never meets it, so its
result is the same at every depth at which it fits, and may be written in its place. -/
namespace ToolDialogue

open Json (Number Value)

variable {m : Type → Type}

/-- Calls stand at most `room` deep in one another, the outermost counted. -/
def Call.NestsWithin : Nat → Call → Prop
  | 0, _ => False
  | room + 1, c => ∀ inner ∈ c.inner, NestsWithin room inner

theorem Call.not_nestsWithin_zero (c : Call) : ¬ c.NestsWithin 0 := id

namespace Toolbox

variable [Monad m] [LawfulMonad m] {box : Toolbox m}
  {run run' : Nat → Call → ExceptT CallError m String}

theorem settle_of_no_calls (lists passed : Nat) {arg : Argument} (h : arg.calls = []) :
    box.settle run lists passed arg = pure arg := by
  induction lists generalizing arg with
  | zero => exact settle_zero passed (Argument.ne_call_of_calls h)
  | succ lists ih =>
    cases arg with
    | call c => exact absurd rfl (Argument.ne_call_of_calls h c)
    | group items =>
      rw [Argument.calls, List.flatMap_eq_nil_iff] at h
      have hitems : items.mapM (box.settle run lists passed) =
          (pure items : ExceptT CallError m (List Argument)) := by
        rw [mapM_congr (List.forall₂_same.2 fun item hitem => ih (h item hitem)), List.mapM_pure,
          List.map_id']
      rw [settle_group, hitems, pure_bind]
    | _ => exact settle_plain _ _ (by simp) (by simp)

/-- The same comes of both texts, whatever lists the declared type allows. -/
def SettlesAlike (box : Toolbox m) (run run' : Nat → Call → ExceptT CallError m String)
    (arg arg' : String) : Prop :=
  ∀ lists, box.settle run lists 0 (.ofText arg) = box.settle run' lists 0 (.ofText arg')

theorem readyWith_congr {c c' : Call} (hname : c.name = c'.name)
    (h : List.Forall₂ (box.SettlesAlike run run') c.args c'.args) :
    box.readyWith run c = box.readyWith run' c' :=
  readyWith_agree hname rfl h

theorem readyWithin_of_nestsWithin {needed room : Nat} {c : Call} (h : c.NestsWithin needed)
    (hroom : needed ≤ room) : box.readyWithin room c = box.readyWithin needed c := by
  induction needed using Nat.strongRecOn generalizing room c with
  | ind needed ih =>
    cases needed with
    | zero => exact absurd h c.not_nestsWithin_zero
    | succ needed =>
      obtain ⟨room, rfl⟩ : ∃ above, room = above + 1 := Nat.exists_eq_succ_of_ne_zero (by omega)
      have hrun : ∀ passed d, d.NestsWithin (needed - passed) →
          box.runWithin room passed d = box.runWithin needed passed d := by
        intro passed d hd
        rw [runWithin, runWithin, ih (needed - passed) (by omega) hd (by omega)]
      have hdescends : Descends fun passed d => d.NestsWithin (needed - passed) := by
        intro passed d hd inner hinner
        obtain ⟨below, hbelow⟩ : ∃ below, needed - passed = below + 1 := by
          refine Nat.exists_eq_succ_of_ne_zero fun hzero => d.not_nestsWithin_zero ?_
          rwa [hzero] at hd
        have hpassed : needed - (passed + 1) = below := by omega
        rw [hbelow] at hd
        exact hpassed ▸ hd inner hinner
      -- the calls among the arguments fit into what is left, so both runs agree on them
      rw [readyWithin_succ, readyWithin_succ]
      refine readyWith_congr rfl (List.forall₂_same.2 fun arg harg lists => ?_)
      refine settle_agree hdescends (fun _ _ _ => rfl) hrun lists fun d hd => ?_
      exact h d (List.mem_flatMap.2 ⟨arg, harg, hd⟩)

variable {c inner : Call} {i : Nat} {r : String}

/-- A call among the arguments may be replaced by its result, if that is read as the value it is.
Nothing tells the two apart: neither the values that are passed, and with them the key, nor the
result, nor an error, nor what a log becomes. -/
theorem replace_call_by_result (hi : i < c.args.length) (hnest : c.NestsWithin nestingLimit)
    (hcall : Argument.ofText c.args[i] = .call inner) (hknown : box.contains inner.name = true)
    (hresult : box.evaluate inner = pure r) (hvalue : Argument.ofText r = .ofResult r) :
    box.ready ⟨c.name, c.args.set i r⟩ = box.ready c ∧
      box.evaluate ⟨c.name, c.args.set i r⟩ = box.evaluate c ∧
      ∀ log, box.callOnce ⟨c.name, c.args.set i r⟩ log = box.callOnce c log := by
  have hinner : inner.NestsWithin 15 := by
    refine hnest inner (List.mem_flatMap.2 ⟨c.args[i], List.getElem_mem hi, ?_⟩)
    exact hcall ▸ Argument.mem_calls_call.2 rfl
  have hrun : box.runWithin 15 0 inner = pure r := by
    rw [← hresult, runWithin, evaluate, ready, nestingLimit,
      readyWithin_of_nestsWithin hinner (Nat.le_succ 15)]
  have hsame : box.SettlesAlike (box.runWithin 15) (box.runWithin 15) r c.args[i] := by
    intro lists
    rw [hcall, settle_known _ _ hknown, hrun, pure_bind, hvalue]
    exact settle_of_no_calls lists 0 (Argument.calls_ofResult r)
  have hready : box.ready ⟨c.name, c.args.set i r⟩ = box.ready c := by
    rw [ready, ready, nestingLimit, readyWithin_succ, readyWithin_succ]
    refine readyWith_congr rfl (List.forall₂_iff_get.2 ⟨List.length_set, fun j hj hj' => ?_⟩)
    rw [List.get_eq_getElem, List.get_eq_getElem, List.getElem_set]
    split
    · rename_i heq
      subst heq
      exact hsame
    · exact fun _ => rfl
  refine ⟨hready, ?_, fun log => ?_⟩
  · rw [evaluate, evaluate, hready]
  · rw [callOnce, callOnce, hready]

end Toolbox

section limited

variable {α β : Type} {box : Toolbox Id}

theorem eq_pure_or_throw (x : ExceptT CallError Id α) :
    (∃ a, x = pure a) ∨ ∃ e, x = throw e :=
  match x with
  | .ok a => .inl ⟨a, rfl⟩
  | .error e => .inr ⟨e, rfl⟩

/-- The first computation does what the second one does, unless it meets the limit. -/
def limited : Simulation Id Id where
  Rel R x y := x = throw .nestedTooDeep ∨ (∃ a b, x = pure a ∧ y = pure b ∧ R a b) ∨
    ∃ e, x = throw e ∧ y = throw e
  pure h := .inr (.inl ⟨_, _, rfl, rfl, h⟩)
  throw e := .inr (.inr ⟨e, rfl, rfl⟩)
  bind h hf := by
    rcases h with rfl | ⟨a, b, rfl, rfl, hab⟩ | ⟨e, rfl, rfl⟩
    · exact .inl rfl
    · exact hf a b hab
    · exact .inr (.inr ⟨e, rfl, rfl⟩)

theorem limited_refl (x : ExceptT CallError Id α) : limited.Rel Eq x x := by
  rcases eq_pure_or_throw x with ⟨a, rfl⟩ | ⟨e, rfl⟩
  · exact limited.pure rfl
  · exact limited.throw e

theorem eq_of_limited {x y : ExceptT CallError Id α} (h : limited.Rel Eq x y)
    (hlimit : x ≠ throw .nestedTooDeep) : x = y := by
  rcases h with h | ⟨a, b, rfl, rfl, rfl⟩ | ⟨e, rfl, rfl⟩
  · exact absurd h hlimit
  · rfl
  · rfl

theorem Toolbox.withBodies_run : box.withBodies Tool.run = box := by
  have htools : box.tools.map (fun tool => tool.withBody tool.run) = box.tools := List.map_id _
  cases box
  simpa [withBodies] using htools

theorem Toolbox.limited_readyWithin (room : Nat) (c : Call) :
    limited.Rel Eq (box.readyWithin room c) (box.readyWithin (room + 1) c) := by
  induction room using Nat.strongRecOn generalizing c with
  | ind room ih =>
    cases room with
    | zero =>
      rw [readyWithin_zero]
      exact .inl rfl
    | succ room =>
      have hrun : ∀ passed d, limited.Rel Eq (box.runWithin room passed d)
          (box.runWithin (room + 1) passed d) := by
        intro passed d
        have hready : limited.Rel Eq (box.readyWithin (room - passed) d)
            (box.readyWithin (room + 1 - passed) d) := by
          by_cases hpassed : passed ≤ room
          · rw [Nat.succ_sub hpassed]
            exact ih (room - passed) (by omega) d
          · rw [Nat.sub_eq_zero_of_le (by omega), readyWithin_zero]
            exact .inl rfl
        exact limited.bind hready fun ready _ h => h ▸ limited_refl ready.run
      have hready : limited.Rel (Simulation.Ready box Tool.run)
          (box.readyWith (box.runWithin room) c)
          ((box.withBodies Tool.run).readyWith (box.runWithin (room + 1)) c) :=
        limited.readyWith hrun c
      rw [withBodies_run] at hready
      rw [readyWithin_succ, readyWithin_succ]
      rcases hready with h | ⟨a, b, ha, hb, hab⟩ | h
      · exact .inl h
      · exact .inr (.inl ⟨a, b, ha, hb, hab.2.symm⟩)
      · exact .inr (.inr h)

/-- A level further down, a call either has the same result or meets the limit. -/
theorem Toolbox.limited_runWithin (room passed : Nat) (c : Call) :
    limited.Rel Eq (box.runWithin room (passed + 1) c) (box.runWithin room passed c) := by
  have hready : limited.Rel Eq (box.readyWithin (room - (passed + 1)) c)
      (box.readyWithin (room - passed) c) := by
    by_cases hpassed : passed < room
    · rw [show room - passed = room - (passed + 1) + 1 by omega]
      exact limited_readyWithin _ c
    · rw [Nat.sub_eq_zero_of_le (by omega), readyWithin_zero]
      exact .inl rfl
  exact limited.bind hready fun ready _ h => h ▸ limited_refl ready.run

end limited

namespace Totals

def seven : Tool Id where
  signature := .named "seven" ""
  attachment := .function
  run values := Stock.Body.output "" 1 values (.const "7")

def total : Tool Id where
  signature := (Signature.named "total" "").withVariadic "ns" .integer
  attachment := .function
  run values := Stock.Body.output "" 1 values .sum

def box : Toolbox Id :=
  .ofList [seven, total]

theorem ofText_seven : Argument.ofText "seven()" = .call ⟨"seven", []⟩ :=
  @Argument.ofText_call [] (by simp) "seven" (by decide)

theorem total_of_seven :
    Call.NestsWithin nestingLimit ⟨"total", ["seven()", "5"]⟩ ∧
      box.evaluate ⟨"seven", []⟩ = pure "7" ∧
      box.ready ⟨"total", ["7", "5"]⟩ = box.ready ⟨"total", ["seven()", "5"]⟩ := by
  have hfive : Argument.ofText "5" = .number (.integer 5 (by decide)) :=
    @Argument.read_intChars true groupLimit 5 (by decide)
  have hinner : Call.inner ⟨"total", ["seven()", "5"]⟩ = [⟨"seven", []⟩] := by
    simp only [Call.inner, List.flatMap_cons, List.flatMap_nil, ofText_seven, hfive,
      Argument.calls, List.append_nil]
  have hnest : Call.NestsWithin nestingLimit ⟨"total", ["seven()", "5"]⟩ := by
    intro inner h
    rw [hinner, List.mem_singleton] at h
    subst h
    intro inner h
    contradiction
  have hseven : box.evaluate ⟨"seven", []⟩ = pure "7" := by
    rw [Toolbox.evaluate, Toolbox.ready, nestingLimit, Toolbox.readyWithin_succ]
    rfl
  have hvalue : Argument.ofText "7" = .ofResult "7" :=
    (@Argument.read_intChars true groupLimit 7 (by decide)).trans
      (Argument.read_intChars false groupLimit (by decide)).symm
  exact ⟨hnest, hseven,
    (Toolbox.replace_call_by_result (i := 0) (by decide) hnest ofText_seven rfl hseven hvalue).1⟩

end Totals

end ToolDialogue
