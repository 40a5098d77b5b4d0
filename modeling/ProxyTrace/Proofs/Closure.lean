import ProxyTrace.Proofs.Calls
import ProxyTrace.Proofs.Forgetting
import ProxyTrace.Proofs.Instruction

/-!
# Closures that work by operators and indexing

A closure applies instructions to values and to registers that are filled before, those of its
arguments and of earlier results. Which instruction comes next may hang on all that an outcome
shows, its failure too, except on the values that are known of proxies.

An instruction comes to the same, but for known values, on what is left of its operands without
those (`Instruction.agreeAt_map_forget`). The main statement, `Closure.agreeAt`, is about two runs
on registers that agree but for known values: while a recorder is active they end in the same
session, with the same failure or with answers that agree but for known values. The induction is on
the closure; every instruction keeps the registers in agreement, and since what it leaves behind is
the same in both runs, so is the session that the rest starts from.
-/

namespace ProxyTrace

variable {n : Nat} {ρ σ : Registers Value n} {s s' : Session} {r : Recorder}

open SessionM

theorem Value.item_forget (i : Nat) (v : Value) :
    v.forget.item i = Value.forget <$> v.item i := by
  have hinvalid : (v.forget.invalid "item" : Except Error Value) = v.invalid "item" :=
    v.invalid_forget "item"
  cases v with
  | tuple items =>
    rw [forget_tuple] at hinvalid ⊢
    simp only [item, List.getElem?_map]
    cases items[i]? with
    | none => exact hinvalid
    | some v => rfl
  | proxy p => exact hinvalid
  | _ => rfl

namespace Instruction

/-- A comparison or logical operator is applied to a tensor proxy, on the left or on the right. -/
def Compares : Instruction Value → Prop
  | binary op a b => op.Compares a b
  | _ => True

theorem compares_map_forget (i : Instruction Value) :
    (i.map Value.forget).Compares ↔ i.Compares := by
  cases i with
  | binary op a b => simp only [map, Compares, BinaryOp.Compares, Value.tensorProxy?_forget]
  | _ => exact Iff.rfl

/-- An instruction leaves the context in place. -/
theorem context?_run (hc : s.context? = some r.context) (i : Instruction Value) :
    (i.run.on s).2.context? = some r.context := by
  have hrequest (q : Request) : (q.run.on s).2.context? = s.context? :=
    ((ensures_bind_pure_iff q.toAnswer).1
      (Call.ensures_request q (some r) fun _ => hc)).context?_on
  cases i with
  | unary op a => exact (hrequest (.unary op a)).trans hc
  | binary op a b => exact (hrequest (.binary op a b)).trans hc
  | getItem a key =>
    have hgetItem := Call.ensures_getItem a key (some r) hc
    exact ((ensures_bind_pure_iff Call.Answer.value).1 hgetItem).context?_on.trans hc
  | tuple items => exact hc
  | item i a => exact hc

/-- An instruction comes to the same on operands without known values, but for known values. -/
theorem agreeAt_map_forget (hc : s.context? = some r.context) {i : Instruction Value}
    (hi : i.Compares) : AgreeAt Value.forget (i.map Value.forget).run i.run s := by
  cases i with
  | unary op a => exact .of_on_eq (Value.on_unary_forget hc op a)
  | binary op a b => exact .of_on_eq (Value.on_binary_forget hc hi)
  | getItem a key => exact .of_on_eq (Value.on_getItem_forget hc a key)
  | tuple items =>
    apply agreeAt_pure
    rw [← Value.forget_tuple, Value.forget_forget]
  | item i a =>
    apply agreeAt_liftM
    rw [Value.item_forget, Functor.map_map]
    exact congrArg (· <$> a.item i) (funext Value.forget_forget)

theorem agreeAt_of_map_forget_eq (hc : s.context? = some r.context) {i j : Instruction Value}
    (hi : i.Compares) (h : i.map Value.forget = j.map Value.forget) :
    AgreeAt Value.forget i.run j.run s := by
  have hj : j.Compares := (compares_map_forget j).1 (h ▸ (compares_map_forget i).2 hi)
  have hforget := (agreeAt_map_forget hc hi).symm
  rw [h] at hforget
  exact hforget.trans (agreeAt_map_forget hc hj)

end Instruction

/-- A function of which `n` registers are filled. -/
inductive Closure : Nat → Type where
  | output {n : Nat} (a : Argument Value n) : Closure n
  | fail {n : Nat} (e : Error) : Closure n
  /-- An instruction, and what comes after its result, which is seen without the values known of
  proxies and fills a register, or after its failure. -/
  | step {n : Nat} (i : Instruction (Argument Value n)) (next : Value → Closure (n + 1))
    (caught : Error → Closure n) : Closure n

namespace Closure

def run {n : Nat} (ρ : Registers Value n) : Closure n → SessionM Value
  | output a => return a.read id ρ
  | fail e => throw e
  | step i next caught => do
    match ← SessionM.attempt (i.map (·.read id ρ)).run with
    | .ok v => (next v.forget).run (ρ.push v)
    | .error e => (caught e).run ρ

/-- In the run from the session `s`, all comparison and logical operators are applied to tensor
proxies. -/
def Compares {n : Nat} (ρ : Registers Value n) (s : Session) : Closure n → Prop
  | output _ | fail _ => True
  | step i next caught => (i.map (·.read id ρ)).Compares ∧
    match (i.map (·.read id ρ)).run.on s with
    | (.ok v, s') => (next v.forget).Compares (ρ.push v) s'
    | (.error e, s') => (caught e).Compares ρ s'

/-- What is left of arguments without known values is what is left of the registers. -/
theorem forget_read (h : ∀ i, (ρ i).forget = (σ i).forget) (a : Argument Value n) :
    (a.read id ρ).forget = (a.read id σ).forget :=
  a.rel_read (R := fun v w : Value => v.forget = w.forget) (fun _ => rfl) h

/-- Two runs on registers that agree but for known values agree but for known values. -/
theorem agreeAt (f : Closure n) (hc : s.context? = some r.context)
    (h : ∀ i, (ρ i).forget = (σ i).forget) (hf : f.Compares ρ s) :
    AgreeAt Value.forget (f.run ρ) (f.run σ) s := by
  induction f generalizing s with
  | output a => exact agreeAt_pure (forget_read h a)
  | fail e => exact .error rfl rfl
  | step i next caught ihnext ihcaught =>
    rw [Compares] at hf
    obtain ⟨hi, hrest⟩ := hf
    have hoperands : (i.map (·.read id ρ)).map Value.forget =
        (i.map (·.read id σ)).map Value.forget := by
      rw [i.map_map, i.map_map, funext (forget_read h)]
    have hcontext := (i.map (·.read id ρ)).context?_run hc
    rw [run, run]
    refine (Instruction.agreeAt_of_map_forget_eq hc hi hoperands).bind_attempt ?_ ?_
    · intro v w s' hv hvw
      rw [hv] at hrest hcontext
      -- the two results are seen alike, so that the same instruction comes next
      dsimp only
      rw [← hvw]
      refine ihnext _ hcontext ?_ hrest
      exact Registers.forall_push (R := fun v w : Value => v.forget = w.forget) h hvw
    · intro e s' he
      rw [he] at hrest hcontext
      exact ihcaught e hcontext h hrest

end Closure

end ProxyTrace
