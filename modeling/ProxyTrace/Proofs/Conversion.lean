import ProxyTrace.Proofs.Coercion
import ProxyTrace.Proofs.WellFormed

/-!
# Conversions

A number proxy of a run holds a number of its own kind, if it is of known value. So the kinds of a
proxy and of a target decide how it is converted: from a kind below or the same, its number is
widened, and from a kind above it is not representable (`Run.converts_by_kind`). The failure for a
number that was widened and is not of the kind all the same never comes up.
-/

namespace ProxyTrace

namespace NumberProxy

variable {p : NumberProxy} {n : Number} {k : NumberKind} {e : Error}

theorem convert_of_unknown (h : p.value = none) (k : NumberKind) :
    p.convert k = .error (.noActiveContext "convert") := by
  simp only [convert, h]

theorem convert_of_lt (h : p.value = some n) (hk : k < n.kind) :
    p.convert k = .error (.kindMismatch k n.text) := by
  simp only [convert, h, Number.coerce_of_not_le (Nat.not_le_of_lt hk)]
  rfl

/-- From its own kind on, a number is converted to what it is widened to. -/
theorem exists_convert_of_le (h : p.value = some n) (hk : n.kind ≤ k) :
    ∃ x, p.convert k = .ok x ∧ n.coerce k = .ok (Number.ofNative k x) := by
  obtain ⟨m, hm⟩ := Number.exists_coerce_iff.2 hk
  have hconvert := convert_eq h k
  rw [hm] at hconvert ⊢
  cases hp : p.convert k with
  | error e =>
    rw [hp] at hconvert
    cases hconvert
  | ok x =>
    rw [hp] at hconvert
    exact ⟨x, rfl, hconvert.symm⟩

/-- What a conversion comes to, whatever the proxy and the kind. -/
theorem convert_cases (p : NumberProxy) (k : NumberKind) :
    (p.value = none ∧ p.convert k = .error (.noActiveContext "convert")) ∨
    (∃ n, p.value = some n ∧ k < n.kind ∧ p.convert k = .error (.kindMismatch k n.text)) ∨
    ∃ n x, p.value = some n ∧ n.kind ≤ k ∧ p.convert k = .ok x ∧
      n.coerce k = .ok (Number.ofNative k x) := by
  cases h : p.value with
  | none => exact .inl ⟨rfl, convert_of_unknown h k⟩
  | some n =>
    rcases Nat.lt_or_ge k.rank n.kind.rank with hk | hk
    · exact .inr (.inl ⟨n, rfl, hk, convert_of_lt h hk⟩)
    · obtain ⟨x, hx, hcoerce⟩ := exists_convert_of_le h hk
      exact .inr (.inr ⟨n, x, rfl, hk, hx, hcoerce⟩)

end NumberProxy

namespace Run

variable {run : Run} {p : NumberProxy}

/-- **Conversions are decided by kinds.** A number proxy of a run, however it came about, holds a
number of its own kind if its value is known. It is converted exactly to the kinds from its own on:
to what its number is widened to, which is the number itself for its own kind. An unknown value has
no context to ask, and a known one of a kind above is not representable; there is no third
failure. -/
theorem converts_by_kind (h : Reachable run) (hp : .number p ∈ run.held) :
    (∀ n, p.value = some n → n.kind = p.kind) ∧
    ∀ k : NumberKind,
      (∀ op, p.convert k = .error (.noActiveContext op) ↔ op = "convert" ∧ p.value = none) ∧
      (∀ n, p.value = some n → k < p.kind → p.convert k = .error (.kindMismatch k n.text)) ∧
      (∀ n, p.value = some n → p.kind ≤ k →
        ∃ x, p.convert k = .ok x ∧ n.coerce k = .ok (.ofNative k x)) ∧
      (∀ n, p.value = some n → p.kind = k → ∃ x, p.convert k = .ok x ∧ .ofNative k x = n) ∧
      ∀ source target, p.convert k ≠ .error (.unsupportedConversion source target) := by
  have hkind : ∀ n, p.value = some n → n.kind = p.kind := h.wellFormed _ hp
  refine ⟨hkind, fun k => ⟨fun op => ?_, fun n hn hk => ?_, fun n hn hk => ?_, fun n hn hk => ?_,
    fun source target hconvert => ?_⟩⟩
  · rcases p.convert_cases k with ⟨hp, hc⟩ | ⟨n, hp, -, hc⟩ | ⟨n, x, hp, -, hc, -⟩
    · simp [hc, hp, eq_comm]
    · simp [hc, hp]
    · simp [hc, hp]
  · exact NumberProxy.convert_of_lt hn (hkind n hn ▸ hk)
  · exact NumberProxy.exists_convert_of_le hn (hkind n hn ▸ hk)
  · obtain rfl : n.kind = k := (hkind n hn).trans hk
    obtain ⟨x, hx, hcoerce⟩ := NumberProxy.exists_convert_of_le hn (Nat.le_refl _)
    rw [Number.coerce_kind, Except.ok.injEq] at hcoerce
    exact ⟨x, hx, hcoerce.symm⟩
  · rcases p.convert_cases k with ⟨-, hc⟩ | ⟨n, -, -, hc⟩ | ⟨n, x, -, -, hc, -⟩ <;>
      cases hc.symm.trans hconvert

/-- A bool that was widened to an int, under another name: it is converted to an int and not back to
a bool. -/
theorem converts_by_kind_widened : ∃ run p, Reachable run ∧ .number p ∈ run.held ∧
    p.name = "y" ∧ p.kind = .int ∧ p.value = some (.int 1) ∧
    p.convert .bool = .error (.kindMismatch .bool "1") ∧
    ∃ x, p.convert .int = .ok x ∧ Number.ofNative .int x = .int 1 := by
  let x : NumberProxy := ⟨⟨"x", ⟨0⟩⟩, .int, some (.int 1)⟩
  let y : NumberProxy := ⟨⟨"y", ⟨0⟩⟩, .int, some (.int 1)⟩
  have hx := (Reachable.start.step (.move (.enter default))).step
    (.call (⟨List.nil_subset _, False.elim⟩ :
      Admits _ (.makeNumber .int (some (.bool true)) (some "x")) none) rfl)
  have hy := hx.step
    (.call (⟨by exact fun _ h => h, False.elim⟩ : Admits _ (.rename (.number x) "y") none) rfl)
  obtain ⟨-, hconvert⟩ := converts_by_kind (p := y) hy (.tail _ (.head _))
  obtain ⟨-, hnarrow, -, -, -⟩ := hconvert .bool
  obtain ⟨-, -, -, hsame, -⟩ := hconvert .int
  exact ⟨_, y, hy, .tail _ (.head _), rfl, rfl, rfl, hnarrow _ rfl (by decide), hsame _ rfl rfl⟩

end Run

end ProxyTrace
