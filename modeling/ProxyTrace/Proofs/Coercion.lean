import ProxyTrace.Proofs.Allocation
import ProxyTrace.Proofs.Number.Exact
import ProxyTrace.Proofs.Number.Rounding

/-!
# Coercion

A number is coerced to every kind from its own on (`Number.exists_coerce_iff`). It keeps its values
where some number of that kind has them; the others are ints beyond 53 bits, which are rounded to a
float instead of being refused (`Number.coerce_exact_iff`).
-/

namespace ProxyTrace

open Binary64

namespace Number

variable {m n : Number} {k : NumberKind} {i : Int64} {x : Binary64}

/-- The values of the real and the imaginary part, each unless it is not a number. -/
def values : Number → Option ExtendedRat × Option ExtendedRat
  | complex z => (z.re.value?, z.im.value?)
  | n => (n.value?, some 0)

/-- Some number of the kind has the values of this one. -/
def RepresentableIn (k : NumberKind) (n : Number) : Prop :=
  ∃ m : Number, m.kind = k ∧ m.values = n.values

theorem widen?_eq_none_iff : n.widen? k = none ↔ ¬n.kind ≤ k := by
  cases n <;> cases k <;> simp [widen?, kind, toInt?, toFloat?] <;> decide

theorem coerce_of_not_le (h : ¬n.kind ≤ k) : n.coerce k = .error (.kindMismatch k n.text) := by
  rw [coerce, widen?_eq_none_iff.2 h]

theorem exists_coerce_iff : (∃ m, n.coerce k = .ok m) ↔ n.kind ≤ k := by
  by_cases h : n.kind ≤ k
  · obtain ⟨m, hm⟩ := Option.ne_none_iff_exists'.1 fun hnone => widen?_eq_none_iff.1 hnone h
    exact iff_of_true ⟨m, by rw [coerce, hm]⟩ h
  · refine iff_of_false ?_ h
    rintro ⟨m, hm⟩
    rw [coerce_of_not_le h] at hm
    cases hm

/-! ### Values -/

theorem values_of_ne (h : n.kind ≠ .complex) : n.values = (n.value?, some 0) := by
  cases n with
  | complex z => exact absurd rfl h
  | _ => rfl

theorem values_eq_some_iff {v w : ExtendedRat} :
    n.values = (some v, some w) ↔ n.parts? = some (v, w) := by
  by_cases h : n.kind = .complex
  · obtain ⟨z, rfl⟩ := exists_complex h
    rw [parts?_complex_eq_some_iff, values, Prod.mk.injEq]
  · rw [parts?_eq_some_iff_of_ne h, values_of_ne h, Prod.mk.injEq, Option.some_inj, @eq_comm _ 0]

/-- Values are the same where the numbers are equal. -/
theorem values_eq_iff_equal (h : n.hasNaN = false) :
    m.values = n.values ↔ m.equal n = true := by
  obtain ⟨⟨v, w⟩, hp⟩ := exists_parts?_eq h
  rw [equal_eq_true_iff_parts, hp, values_eq_some_iff.2 hp, values_eq_some_iff]
  simp

theorem values_of_toInt? (hi : n.toInt? = some i) :
    n.values = (some (.ofRat i.toInt), some 0) := by
  cases n <;> cases hi <;> rfl

theorem hasNaN_of_toInt? (hi : n.toInt? = some i) : n.hasNaN = false := by
  cases n <;> cases hi <;> rfl

theorem values_float_eq_iff (hi : n.toInt? = some i) :
    (float x).values = n.values ↔ x.rank? = some (i.toInt * unitsPerOne) := by
  have hreal : n.kind ≠ .complex := by
    rintro hcomplex
    obtain ⟨z, rfl⟩ := exists_complex hcomplex
    cases hi
  rw [values_eq_iff_equal (hasNaN_of_toInt? hi), equal_of_ne_complex (a := float x) nofun hreal,
    equalReal_eq_true_iff, rank?_of_toInt? hi]
  simp [rank?]

theorem values_complex_zero (x : Binary64) :
    (complex ⟨x, .zero⟩).values = (float x).values :=
  congrArg (x.value?, ·) (isZero_eq_true_iff.1 rfl)

/-! ### Words -/

/-- A bool or an int stays the same word, or is rounded to a double. -/
theorem coerce_of_toInt? (hi : n.toInt? = some i) (h : n.coerce k = .ok m) :
    k ≤ .int ∧ m.toInt? = some i ∨
      ¬k ≤ .int ∧ m.values = (float (.ofInt i.toInt)).values := by
  cases k with
  | bool | int =>
    refine .inl ⟨by decide, ?_⟩
    cases n <;> cases hi <;> cases h <;> rfl
  | float =>
    refine .inr ⟨by decide, ?_⟩
    cases n <;> cases hi <;> cases h <;> rfl
  | complex =>
    refine .inr ⟨by decide, ?_⟩
    cases n <;> cases hi <;> cases h <;> exact values_complex_zero _

theorem natAbs_ne_unitLimit (i : Int64) : (i.toInt * unitsPerOne).natAbs ≠ unitLimit := by
  obtain ⟨hlo, hhi⟩ := abs_word_lt_unitLimit i
  omega

/-- The values of a word above the kind of ints are those of a double. -/
theorem representable_of_representableIn (hi : n.toInt? = some i) (hk : ¬k ≤ .int)
    (h : n.RepresentableIn k) : Representable (i.toInt.natAbs * unitsPerOne) := by
  obtain ⟨m, rfl, hm⟩ := h
  have hfloat (x : Binary64) (hx : (float x).values = n.values) :
      Representable (i.toInt.natAbs * unitsPerOne) :=
    representable_of_rank? ((values_float_eq_iff hi).1 hx) (natAbs_ne_unitLimit i)
  cases m with
  | float x => exact hfloat x hm
  | complex z =>
    refine hfloat z.re ?_
    rw [values_of_toInt? hi] at hm ⊢
    exact Prod.ext (Prod.mk.inj hm).1 rfl
  | bool b => exact absurd (Nat.zero_le 1) hk
  | int j => exact absurd (Nat.le_refl 1) hk

theorem values_coerce_of_toInt?_eq_none (hi : n.toInt? = none) (h : n.coerce k = .ok m) :
    m.values = n.values := by
  cases n with
  | float x =>
    cases k <;> cases h
    · rfl
    · exact values_complex_zero x
  | complex z =>
    cases k <;> cases h
    rfl
  | _ => cases hi

/-- A word keeps its value above the kind of ints if some double has it. -/
theorem values_coerce_of_toInt?_iff (hi : n.toInt? = some i) (h : n.coerce k = .ok m) :
    m.values = n.values ↔ k ≤ .int ∨ Representable (i.toInt.natAbs * unitsPerOne) := by
  rcases coerce_of_toInt? hi h with ⟨hk, hm⟩ | ⟨hk, hm⟩
  · rw [values_of_toInt? hm, values_of_toInt? hi]
    exact iff_of_true rfl (.inl hk)
  · rw [or_iff_right hk, hm, values_float_eq_iff hi]
    exact ⟨fun hrank => representable_of_rank? hrank (natAbs_ne_unitLimit i), rank?_ofInt⟩

/-- Coercion keeps the values of a number if some number of the kind has them. -/
theorem coerce_exact_iff (h : n.coerce k = .ok m) :
    m.values = n.values ↔ n.RepresentableIn k := by
  refine ⟨fun hm => ⟨m, kind_of_coerce h, hm⟩, fun hrep => ?_⟩
  cases hi : n.toInt? with
  | none => exact values_coerce_of_toInt?_eq_none hi h
  | some i =>
    rw [values_coerce_of_toInt?_iff hi h, or_iff_not_imp_left]
    exact fun hk => representable_of_representableIn hi hk hrep

/-- Of the numbers of a kind and those below, all are representable in it but ints of more than 53
significant bits above the kind of ints. -/
theorem representableIn_iff (hk : n.kind ≤ k) : n.RepresentableIn k ↔
    k ≤ .int ∨ ∀ i, n.toInt? = some i → ∃ m e, m ≤ 2 ^ 53 ∧ i.toInt.natAbs = m * 2 ^ e := by
  obtain ⟨m, hm⟩ := exists_coerce_iff.2 hk
  rw [← coerce_exact_iff hm]
  cases hi : n.toInt? with
  | none => exact iff_of_true (values_coerce_of_toInt?_eq_none hi hm) (.inr nofun)
  | some i =>
    have hsize : i.toInt.natAbs ≤ 0x8000000000000000 := by
      obtain ⟨hlo, hhi⟩ := Word.inRange_toInt i
      omega
    rw [values_coerce_of_toInt?_iff hi hm, representable_word_iff hsize]
    simp

/-- The number is of the kind, and it has the values of `n`, and equals `n` unless that is not a
number, exactly if some number of the kind has them. -/
structure Widens (n : Number) (k : NumberKind) (m : Number) : Prop where
  kind : m.kind = k
  exact_iff : m.values = n.values ↔ n.RepresentableIn k
  equal_iff : n.hasNaN = false → (m.equal n = true ↔ n.RepresentableIn k)

theorem widens_of_coerce (h : n.coerce k = .ok m) : n.Widens k m where
  kind := kind_of_coerce h
  exact_iff := coerce_exact_iff h
  equal_iff hn := by rw [← values_eq_iff_equal hn, coerce_exact_iff h]

/-- A number of the kind `k` or below is widened, and no other one is. -/
def WidensTo (n : Number) (k : NumberKind) (outcome : Except Error Number) : Prop :=
  if n.kind ≤ k then ∃ m, outcome = .ok m ∧ n.Widens k m
  else outcome = .error (.kindMismatch k n.text)

theorem widensTo_coerce (n : Number) (k : NumberKind) : n.WidensTo k (n.coerce k) := by
  unfold WidensTo
  split
  · obtain ⟨m, hm⟩ := exists_coerce_iff.2 ‹n.kind ≤ k›
    exact ⟨m, hm, widens_of_coerce hm⟩
  · exact coerce_of_not_le ‹_›

theorem exists_native?_eq (h : m.kind = k) : ∃ x, m.native? k = some x ∧ ofNative k x = m := by
  subst h
  cases m <;> exact ⟨_, rfl, rfl⟩

end Number

namespace NumberProxy

variable {w : Workspace} {name : Option Name} {p : NumberProxy} {m n : Number} {k : NumberKind}

theorem exists_on_make (hroom : w.HasRoom name) (h : n.coerce k = .ok m) : ∃ p w',
    (make k (some n) name).on w = (.ok p, w') ∧ p.kind = k ∧ p.value = some m := by
  obtain ⟨σ, w', hallocate⟩ := hroom.exists_allocate
  refine ⟨{ symbol := σ, kind := k, value := some m }, w', ?_, rfl, rfl⟩
  rw [make_eq, Option.mapM_some, h]
  exact WorkspaceM.on_bind_ok (WorkspaceM.on_change_ok hallocate)

theorem on_make_of_not_le (h : ¬n.kind ≤ k) (name : Option Name) (w : Workspace) :
    (make k (some n) name).on w = (.error (.kindMismatch k n.text), w) := by
  rw [make_eq, Option.mapM_some, Number.coerce_of_not_le h]
  rfl

/-- A known value is converted to a kind by coercion. -/
theorem convert_eq (h : p.value = some n) (k : NumberKind) :
    Number.ofNative k <$> p.convert k = n.coerce k := by
  simp only [convert, h]
  cases hm : n.coerce k with
  | error e => rfl
  | ok m =>
    obtain ⟨x, hx, hx'⟩ := Number.exists_native?_eq (Number.kind_of_coerce hm)
    dsimp only [bind, Except.bind]
    rw [hx]
    exact congrArg Except.ok hx'

end NumberProxy

namespace Number

/-- **Which coercions are lossless.** A number is widened to the kinds from its own on and refused
by the others, whether it is coerced, becomes the value of a proxy or is read from one. It keeps its
values in a kind that can represent them, which every such kind can but for ints of more than 53
significant bits above the kind of ints. -/
theorem coerce_lossless_iff (n : Number) (k : NumberKind) :
    n.WidensTo k (n.coerce k) ∧
    (n.kind ≤ k → (n.RepresentableIn k ↔
      k ≤ .int ∨ ∀ i, n.toInt? = some i → ∃ m e, m ≤ 2 ^ 53 ∧ i.toInt.natAbs = m * 2 ^ e)) ∧
    (n.kind ≤ k → ∀ w name, Workspace.HasRoom w name → ∃ p w' m,
      (NumberProxy.make k (some n) name).on w = (.ok p, w') ∧ p.kind = k ∧ p.value = some m ∧
        n.Widens k m) ∧
    (¬n.kind ≤ k → ∀ w name,
      (NumberProxy.make k (some n) name).on w = (.error (.kindMismatch k n.text), w)) ∧
    ∀ p : NumberProxy, p.value = some n → n.WidensTo k (ofNative k <$> p.convert k) := by
  refine ⟨widensTo_coerce n k, representableIn_iff, ?_, ?_, ?_⟩
  · intro hk w name hroom
    obtain ⟨m, hm⟩ := exists_coerce_iff.2 hk
    obtain ⟨p, w', hp, hkind, hvalue⟩ := NumberProxy.exists_on_make hroom hm
    exact ⟨p, w', m, hp, hkind, hvalue, widens_of_coerce hm⟩
  · intro hk w name
    exact NumberProxy.on_make_of_not_le hk name w
  · intro p hp
    rw [NumberProxy.convert_eq hp]
    exact widensTo_coerce n k

/-- A complex proxy of a large power of two. -/
theorem coerce_lossless_iff_power : ∃ p w' m,
    (NumberProxy.make .complex (some (int 0x4000000000000000))).on (Workspace.enter {}) =
      (.ok p, w') ∧ p.value = some m ∧ m.equal (int 0x4000000000000000) = true := by
  obtain ⟨-, hrepresentable, hmake, -⟩ := coerce_lossless_iff (int 0x4000000000000000) .complex
  have hroom : (Workspace.enter {}).HasRoom none := ⟨_, rfl, nofun⟩
  obtain ⟨p, w', m, hp, -, hvalue, hm⟩ := hmake (by decide) _ _ hroom
  refine ⟨p, w', m, hp, hvalue, (hm.equal_iff rfl).2 ((hrepresentable (by decide)).2 (.inr ?_))⟩
  rintro i ⟨⟩
  exact ⟨1, 62, by decide, by decide⟩

/-- An int between two doubles becomes a float that is not equal to it. -/
theorem coerce_rounds :
    (int 0x20000000000001).kind ≤ .float ∧ ¬(int 0x20000000000001).RepresentableIn .float ∧
    (int 0x20000000000001).coerce .float = .ok (float (.ofInt 0x20000000000000)) ∧
    (float (.ofInt 0x20000000000000)).equal (int 0x20000000000001) = false ∧
    (∃ p w', (NumberProxy.make .float (some (int 0x20000000000001))).on (Workspace.enter {}) =
      (.ok p, w') ∧ p.value = some (float (.ofInt 0x20000000000000))) ∧
    ∀ p : NumberProxy, p.value = some (int 0x20000000000001) →
      ofNative .float <$> p.convert .float = .ok (float (.ofInt 0x20000000000000)) := by
  have hcoerce : (int 0x20000000000001).coerce .float = .ok (float (.ofInt 0x20000000000000)) := by
    decide +kernel
  have hequal : (float (.ofInt 0x20000000000000)).equal (int 0x20000000000001) = false := by
    decide +kernel
  refine ⟨by decide, ?_, hcoerce, hequal, ?_, ?_⟩
  · rw [← coerce_exact_iff hcoerce, values_eq_iff_equal rfl, hequal]
    exact Bool.false_ne_true
  · have hroom : (Workspace.enter {}).HasRoom none := ⟨_, rfl, nofun⟩
    obtain ⟨p, w', hp, -, hvalue⟩ := NumberProxy.exists_on_make hroom hcoerce
    exact ⟨p, w', hp, hvalue⟩
  · intro p hp
    rw [NumberProxy.convert_eq hp, hcoerce]

end Number

end ProxyTrace
