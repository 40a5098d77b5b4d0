import ProxyTrace.Proofs.Number.Kinds
import ProxyTrace.Proofs.Recorder.Arithmetic

/-!
# Recorded kinds and computed kinds

The recorder and the numbers each have their own rules for the kinds on which an operator is
defined. The main statement, `Recorder.kinds_agree`, is that they are the same rules: on proxies of
the kinds of two numbers the recorder refuses an operator as not supported exactly if it is not
supported on the numbers, and if the numbers have an answer, the recorded result has its kind, or
for a power at most that.
-/

namespace ProxyTrace

variable {w : Workspace} {t : Trace} {a b x : Number} {v u : Value}

/-- An operand in the place of the number `x`: the number itself, or a proxy of its kind. -/
inductive Value.StandsFor (x : Number) : Value → Prop
  | number : StandsFor x (.number x)
  | proxy (p : NumberProxy) (h : p.kind = x.kind) : StandsFor x (.proxy (.number p))

theorem Value.StandsFor.kind (h : v.StandsFor x) (op : String) : v.kind op = .ok x.kind := by
  cases h with
  | number => rfl
  | proxy p h => exact congrArg Except.ok h

theorem Value.StandsFor.isSome_numberProxy? (h : v.StandsFor x) :
    v.numberProxy?.isSome = v.proxy?.isSome := by
  cases h <;> rfl

/-- The output of a recorded operator consists of number proxies, of kinds that are related to those
of the numbers in the answer. -/
inductive Number.Answer.RecordedAs (rel : NumberKind → NumberKind → Prop) : Answer → Value → Prop
  | single {z : Number} {p : NumberProxy} (h : rel p.kind z.kind) :
      RecordedAs rel (.single z) (.proxy (.number p))
  | pair {y z : Number} {p q : NumberProxy} (hp : rel p.kind y.kind) (hq : rel q.kind z.kind) :
      RecordedAs rel (.pair y z) (.tuple [.proxy (.number p), .proxy (.number q)])

namespace Recorder

/-- How the recorded kind of a result compares with its kind. -/
def KindRel (op : BinaryOp) (recorded computed : NumberKind) : Prop :=
  if op = .pow then recorded ≤ computed else recorded = computed

theorem kindRel_of_fits {op : BinaryOp} {k : NumberKind} (h : Number.Fits op k x) :
    KindRel op k x.kind := by
  unfold KindRel
  split
  · exact h.1
  · exact h.2 ‹_›

variable (r : Recorder)

theorem isUnsupported_unary_iff (ht : w.active? = some t) (op : UnaryOp) (p : NumberProxy) :
    IsUnsupported ((r.unary op p).on w).1 ↔ p.kind.unary? op = none := by
  cases hk : p.kind.unary? op with
  | none => exact iff_of_true ⟨_, _, congrArg Prod.fst (on_unary_error hk)⟩ rfl
  | some k =>
    rw [on_unary ht hk]
    exact iff_of_false (not_isUnsupported_ok _) nofun

theorem exists_of_unary (ht : w.active? = some t) {op : UnaryOp} {p : NumberProxy}
    {k : NumberKind} (hk : p.kind.unary? op = some k) :
    ∃ q : NumberProxy, ((r.unary op p).on w).1 = .ok q ∧ q.kind = k := by
  rw [on_unary ht hk]
  exact ⟨_, rfl, rfl⟩

section Binary

variable {op : BinaryOp} {j k : NumberKind} (ht : w.active? = some t)
  (hv : v.kind op.name = .ok j) (hu : u.kind op.name = .ok k)
  (hproxy : (v.numberProxy?.isSome || u.numberProxy?.isSome) = true)

include ht hv hu hproxy

theorem isUnsupported_binary_iff :
    IsUnsupported ((r.binary op v u).on w).1 ↔ (j.promote k).binary? op = none := by
  cases hl : (j.promote k).binary? op with
  | none => exact iff_of_true ⟨_, _, congrArg Prod.fst (on_binary_error hv hu hproxy hl)⟩ rfl
  | some l =>
    refine iff_of_false ?_ nofun
    by_cases hop : op = .divmod
    · subst hop
      rw [on_divmod ht hv hu hproxy hl]
      exact not_isUnsupported_ok _
    · rw [on_binary ht hv hu hproxy hop hl]
      exact not_isUnsupported_ok _

/-- Where the rules give a kind that fits the numbers of an answer, the recorded output has it. -/
theorem exists_recordedAs {l : NumberKind} (hl : (j.promote k).binary? op = some l)
    {ans : Number.Answer} (hans : a.binary op b = .ok ans)
    (hfits : ∀ z ∈ ans.numbers, Number.Fits op l z) :
    ∃ out, ((r.binary op v u).on w).1 = .ok out ∧ ans.RecordedAs (KindRel op) out := by
  by_cases hop : op = .divmod
  · subst hop
    obtain ⟨q, m, -, -, rfl⟩ := Number.exists_of_divmod hans
    rw [on_divmod ht hv hu hproxy hl]
    refine ⟨_, rfl, .pair ?_ ?_⟩
    · exact kindRel_of_fits (hfits q (.head _))
    · exact kindRel_of_fits (hfits m (.tail _ (.head _)))
  · obtain ⟨z, rfl⟩ := Number.exists_single hop hans
    rw [on_binary ht hv hu hproxy hop hl]
    exact ⟨_, rfl, .single (kindRel_of_fits (hfits z (.head _)))⟩

end Binary

/-- **Recorded kinds are those of the numbers.** On proxies in the place of numbers, at least one of
two operands, a recorder refuses an operator other than a comparison as not supported exactly if it
is not supported on the numbers; and if it has an answer on them, the recorded result is a proxy of
the kind of that answer, or for a power of a kind that is not above, and a pair of such proxies for
`divmod`. -/
theorem kinds_agree (ht : w.active? = some t) :
    (∀ (op : UnaryOp) (a : Number) (p : NumberProxy), p.kind = a.kind →
      (IsUnsupported ((r.context.unary op p).on w).1 ↔ IsUnsupported (a.unary op)) ∧
      ∀ z, a.unary op = .ok z →
        ∃ q : NumberProxy, ((r.context.unary op p).on w).1 = .ok q ∧ q.kind = z.kind) ∧
    ∀ (op : BinaryOp) (a b : Number) (v u : Value), op.isComparison = false →
      v.StandsFor a → u.StandsFor b → (v.proxy?.isSome || u.proxy?.isSome) = true →
      (IsUnsupported ((r.context.binary op v u).on w).1 ↔ IsUnsupported (a.binary op b)) ∧
      ∀ ans, a.binary op b = .ok ans → ∃ out, ((r.context.binary op v u).on w).1 = .ok out ∧
        ans.RecordedAs (KindRel op) out := by
  rw [unary_context, binary_context]
  constructor
  · intro op a p hp
    have hunsupported := isUnsupported_unary_iff r ht op p
    rw [hp] at hunsupported
    refine ⟨hunsupported.trans (Number.isUnsupported_unary_iff op a).symm, fun z hz => ?_⟩
    exact exists_of_unary r ht (hp ▸ Number.unary?_kind hz)
  · intro op a b v u hop hv hu hproxy
    rw [← hv.isSome_numberProxy?, ← hu.isSome_numberProxy?] at hproxy
    have hunsupported := isUnsupported_binary_iff r ht (hv.kind op.name) (hu.kind op.name) hproxy
    refine ⟨hunsupported.trans (Number.isUnsupported_binary_iff hop a b).symm, fun ans hans => ?_⟩
    obtain ⟨l, hl, hfits⟩ := Number.kind_of_binary hop hans
    exact exists_recordedAs r ht (hv.kind _) (hu.kind _) hproxy hl hans hfits

/-- A complex number has no floor, and quotient and remainder of an int proxy by 2 are ints. -/
theorem kinds_agree_divmod :
    let w := Workspace.enter {}
    let r : Recorder := ⟨0⟩
    let p (k : NumberKind) : NumberProxy := ⟨⟨"x", ⟨0⟩⟩, k, none⟩
    IsUnsupported ((r.context.unary .floor (p .complex)).on w).1 ∧
      ∃ out, ((r.context.binary .divmod (p .int) (.int 2)).on w).1 = .ok out ∧
        (Number.Answer.pair (.int 3) (.int 1)).RecordedAs (KindRel .divmod) out := by
  intro w r p
  have ht : w.active? = some (Trace.empty ⟨0⟩) := rfl
  obtain ⟨hunary, hbinary⟩ := kinds_agree r ht
  obtain ⟨hfloor, -⟩ := hunary .floor (.complex .one) (p .complex) rfl
  obtain ⟨-, hdivmod⟩ :=
    hbinary .divmod (.int 7) (.int 2) (p .int) (.int 2) rfl (.proxy _ rfl) .number rfl
  exact ⟨hfloor.2 ⟨_, _, rfl⟩, hdivmod _ rfl⟩

end Recorder

end ProxyTrace
