import Mathlib.Algebra.BigOperators.Ring.List
import Mathlib.Data.List.TakeWhile
import ProxyTrace.Proofs.Word
import ProxyTrace.Recorder.Rules

/-!
# Counting elements

Extents are multiplied up from the first one on, below a limit on every product on the way
(`Shape.count?`): 64 bits where a tensor is built (`Shape.numel?`), words where a shape is asked for
(`Shape.wordCount?`). Behind a zero all products are zero, so there is a count exactly if the
extents before the first zero multiply to less than the limit (`Shape.count?_eq_some_iff`). Whether
the whole product is below the limit is another question as soon as a zero stands behind large
extents.
-/

namespace ProxyTrace.Shape

variable {limit m n : Nat} {shape : List Nat} {d : Int64} {extents extents' : List Int64}

/-! ### Extents -/

def Nonnegative (extents : List Int64) : Prop := ∀ d ∈ extents, 0 ≤ d

instance (extents : List Int64) : Decidable (Nonnegative extents) := List.decidableBAll _ _

@[simp] theorem nonnegative_cons {ds : List Int64} :
    Nonnegative (d :: ds) ↔ 0 ≤ d ∧ Nonnegative ds := List.forall_mem_cons

/-- The extents as natural numbers, where none is negative. -/
def naturals (extents : List Int64) : List Nat := extents.map (·.toInt.toNat)

/-- The exact product. -/
def product (extents : List Int64) : Int := (extents.map Int64.toInt).prod

/-- The extents before the first that is zero. -/
def leading (extents : List Int64) : List Int64 := extents.takeWhile (· ≠ 0)

/-- The extents that are not zero. -/
def nonzero (extents : List Int64) : List Int64 := extents.filter (· ≠ 0)

theorem toInt_ofNat (h : (n : Int) ≤ Int64.maxValue.toInt) : (Int64.ofNat n).toInt = n := by
  rw [Int64.toInt_maxValue] at h
  exact Int64.toInt_ofNat_of_lt (by omega)

theorem ofExtents?_eq (extents : List Int64) :
    ofExtents? extents = if Nonnegative extents then some (naturals extents) else none := by
  unfold ofExtents?
  induction extents with
  | nil => rfl
  | cons d ds ih =>
    rw [List.mapM_cons, ih]
    simp only [nonnegative_cons]
    by_cases hd : 0 ≤ d
    · by_cases hds : Nonnegative ds
      · rw [if_pos hd, if_pos hds, if_pos ⟨hd, hds⟩]
        rfl
      · rw [if_pos hd, if_neg hds, if_neg (mt And.right hds)]
        rfl
    · rw [if_neg hd, if_neg (mt And.left hd)]
      rfl

theorem ofExtents?_eq_some_iff :
    ofExtents? extents = some shape ↔ Nonnegative extents ∧ shape = naturals extents := by
  rw [ofExtents?_eq, Option.ite_none_right_eq_some, Option.some_inj, eq_comm]

theorem ofNat_nonneg (h : (n : Int) ≤ Int64.maxValue.toInt) : 0 ≤ Int64.ofNat n := by
  rw [Int64.le_iff_toInt_le, toInt_ofNat h]
  exact Int.natCast_nonneg n

/-- Extents are words. -/
theorem le_maxValue_of_ofExtents? (h : ofExtents? extents = some shape) :
    ∀ n ∈ shape, (n : Int) ≤ Int64.maxValue.toInt := by
  obtain ⟨hnonneg, rfl⟩ := ofExtents?_eq_some_iff.1 h
  intro n hn
  obtain ⟨d, hd, rfl⟩ := List.mem_map.1 hn
  rw [Int.toNat_of_nonneg (Word.toInt_nonneg (hnonneg d hd))]
  exact d.toInt_le

theorem toExtents_nonneg (h : ∀ n ∈ shape, (n : Int) ≤ Int64.maxValue.toInt) :
    Nonnegative (toExtents shape) := by
  intro d hd
  obtain ⟨n, hn, rfl⟩ := List.mem_map.1 hd
  exact ofNat_nonneg (h n hn)

theorem naturals_toExtents (h : ∀ n ∈ shape, (n : Int) ≤ Int64.maxValue.toInt) :
    naturals (toExtents shape) = shape := by
  rw [naturals, toExtents, List.map_map]
  refine (List.map_congr_left fun n hn => ?_).trans (List.map_id _)
  rw [Function.comp_apply, toInt_ofNat (h n hn)]
  exact Int.toNat_natCast n

/-- The extents of a tensor are read back as its shape. -/
theorem ofExtents?_toExtents (h : ∀ n ∈ shape, (n : Int) ≤ Int64.maxValue.toInt) :
    ofExtents? (toExtents shape) = some shape :=
  ofExtents?_eq_some_iff.2 ⟨toExtents_nonneg h, (naturals_toExtents h).symm⟩

theorem toExtents_naturals (h : Nonnegative extents) :
    toExtents (naturals extents) = extents := by
  rw [naturals, toExtents, List.map_map]
  refine (List.map_congr_left fun d hd => ?_).trans (List.map_id _)
  have hnat : (d.toInt.toNat : Int) = d.toInt := Int.toNat_of_nonneg (Word.toInt_nonneg (h d hd))
  rw [Function.comp_apply, ← Int64.toInt_inj, toInt_ofNat (hnat ▸ d.toInt_le), hnat]
  rfl

theorem prod_naturals (h : Nonnegative extents) :
    ((naturals extents).prod : Int) = product extents := by
  induction extents with
  | nil => rfl
  | cons d ds ih =>
    obtain ⟨hd, hds⟩ := nonnegative_cons.1 h
    change ((d.toInt.toNat * (naturals ds).prod : Nat) : Int) = d.toInt * product ds
    rw [Int.natCast_mul, Int.toNat_of_nonneg (Word.toInt_nonneg hd), ih hds]

theorem takeWhile_naturals (h : Nonnegative extents) :
    (naturals extents).takeWhile (· ≠ 0) = naturals (leading extents) := by
  rw [naturals, List.takeWhile_map, naturals, leading]
  congr 1
  induction extents with
  | nil => rfl
  | cons d ds ih =>
    obtain ⟨hd, hds⟩ := nonnegative_cons.1 h
    have hd' := Word.toInt_nonneg hd
    have hzero : d.toInt.toNat = 0 ↔ d = 0 := by
      rw [← Int64.toInt_inj, Int64.toInt_zero]
      omega
    simp only [List.takeWhile_cons, Function.comp_apply, ne_eq, hzero, ih hds]

theorem product_toExtents (h : ∀ n ∈ shape, (n : Int) ≤ Int64.maxValue.toInt) :
    product (toExtents shape) = shape.prod := by
  rw [← prod_naturals (toExtents_nonneg h), naturals_toExtents h]

theorem leading_subset (extents : List Int64) : leading extents ⊆ extents :=
  (List.takeWhile_sublist _).subset

theorem product_leading_toExtents (h : ∀ n ∈ shape, (n : Int) ≤ Int64.maxValue.toInt) :
    product (leading (toExtents shape)) = (shape.takeWhile (· ≠ 0)).prod := by
  have hnonneg := toExtents_nonneg h
  have hprod := prod_naturals fun d hd => hnonneg d (leading_subset _ hd)
  rw [← hprod, ← takeWhile_naturals hnonneg, naturals_toExtents h]

theorem leading_eq_self (h : 0 ∉ extents) : leading extents = extents := by
  refine List.takeWhile_eq_self_iff.2 fun d hd => ?_
  simpa using ne_of_mem_of_not_mem hd h

theorem product_perm (h : extents.Perm extents') : product extents = product extents' :=
  (h.map _).prod_eq

theorem product_eq_zero (h : 0 ∈ extents) : product extents = 0 :=
  List.prod_eq_zero (List.mem_map.2 ⟨0, h, rfl⟩)

theorem product_pos (h : Nonnegative extents) (hzero : 0 ∉ extents) : 0 < product extents := by
  refine lt_of_le_of_ne ?_ (Ne.symm (List.prod_ne_zero fun hmem => ?_))
  · rw [← prod_naturals h]
    exact Int.natCast_nonneg _
  · obtain ⟨d, hd, hd'⟩ := List.mem_map.1 hmem
    exact hzero ((Int64.toInt_inj.1 hd' : d = 0) ▸ hd)

theorem zero_not_mem_nonzero (extents : List Int64) : 0 ∉ nonzero extents := by
  simp [nonzero]

/-- The leading extents end where nothing but zeros follows. -/
theorem leading_nonzero_append (h : ∀ d ∈ extents', d = 0) :
    leading (nonzero extents ++ extents') = nonzero extents := by
  have hzeros : leading extents' = [] := by
    cases extents' with
    | nil => rfl
    | cons d ds =>
      obtain rfl := h d (.head _)
      rfl
  rw [leading, nonzero, List.takeWhile_append_of_pos fun _ hd => (List.mem_filter.1 hd).2]
  exact (congrArg _ hzeros).trans (List.append_nil _)

/-- Behind the first zero there may be more extents that are not zero. -/
theorem product_leading_le (h : Nonnegative extents) :
    product (leading extents) ≤ product (nonzero extents) := by
  induction extents with
  | nil => exact Int.le_refl _
  | cons d ds ih =>
    obtain ⟨hd, hds⟩ := nonnegative_cons.1 h
    by_cases hzero : d = 0
    · have hrest : Nonnegative (nonzero ds) := fun d hd => hds d (List.mem_of_mem_filter hd)
      subst hzero
      exact product_pos hrest (zero_not_mem_nonzero ds)
    · have hleading : leading (d :: ds) = d :: leading ds :=
        List.takeWhile_cons_of_pos (by simpa using hzero)
      have hnonzero : nonzero (d :: ds) = d :: nonzero ds :=
        List.filter_cons_of_pos (by simpa using hzero)
      rw [hleading, hnonzero]
      exact Int.mul_le_mul_of_nonneg_left (ih hds) (Word.toInt_nonneg hd)

/-! ### Extents below a limit -/

/-- No extent is negative, and those before the first zero multiply to less than the limit. -/
def Fits (limit : Nat) (extents : List Int64) : Prop :=
  Nonnegative extents ∧ product (leading extents) < limit

instance (limit : Nat) (extents : List Int64) : Decidable (Fits limit extents) :=
  inferInstanceAs (Decidable (_ ∧ _))

theorem Fits.mono {limit' : Nat} (h : Fits limit extents) (hlimit : limit ≤ limit') :
    Fits limit' extents := ⟨h.1, h.2.trans_le (Int.ofNat_le.2 hlimit)⟩

theorem fits_iff_of_zero_not_mem (hzero : 0 ∉ extents) :
    Fits limit extents ↔ Nonnegative extents ∧ product extents < limit := by
  rw [Fits, leading_eq_self hzero]

/-- The exact product decides, unless there is a zero behind extents that are too large. -/
theorem fits_iff_product_iff (hlimit : 0 < limit) :
    (Fits limit extents ↔ Nonnegative extents ∧ product extents < limit) ↔
      ¬(Nonnegative extents ∧ 0 ∈ extents ∧ limit ≤ product (leading extents)) := by
  by_cases hzero : 0 ∈ extents
  · rw [Fits, product_eq_zero hzero, ← Int.not_lt]
    have hlimit' : (0 : Int) < limit := Int.natCast_pos.2 hlimit
    tauto
  · exact iff_of_true (fits_iff_of_zero_not_mem hzero) fun h => hzero h.2.1

/-- The order of the extents does not matter, unless there is a zero and the others are together too
large: then they fit behind it, and not before it. -/
theorem fits_perm_iff (hlimit : 1 < limit) :
    (∀ extents', extents.Perm extents' → (Fits limit extents' ↔ Fits limit extents)) ↔
      ¬(Nonnegative extents ∧ 0 ∈ extents ∧ limit ≤ product (nonzero extents)) := by
  constructor
  · rintro h ⟨hnonneg, hzero, hlarge⟩
    have hfront : extents.Perm (0 :: extents.erase 0) := List.perm_cons_erase hzero
    have hback : extents.Perm (nonzero extents ++ extents.filter fun d => !decide (d ≠ 0)) :=
      (List.filter_append_perm _ extents).symm
    have hfits : Fits limit (0 :: extents.erase 0) :=
      ⟨fun d hd => hnonneg d (hfront.mem_iff.2 hd), Int.ofNat_lt.2 hlimit⟩
    obtain ⟨-, hsmall⟩ := (h _ hback).2 ((h _ hfront).1 hfits)
    rw [leading_nonzero_append fun d hd => by simpa using (List.mem_filter.1 hd).2] at hsmall
    exact absurd hsmall (Int.not_lt.2 hlarge)
  · intro h extents' hperm
    have hnonneg : Nonnegative extents' ↔ Nonnegative extents :=
      forall_congr' fun d => by rw [hperm.mem_iff]
    by_cases hzero : 0 ∈ extents
    · have hfits (es : List Int64) (hes : extents.Perm es) (hes' : Nonnegative es) :
          Fits limit es := by
        refine ⟨hes', (product_leading_le hes').trans_lt ?_⟩
        rw [nonzero, ← product_perm (hes.filter _)]
        exact Int.not_le.1 fun hlarge => h ⟨fun d hd => hes' d (hes.mem_iff.1 hd), hzero, hlarge⟩
      exact ⟨fun h' => hfits _ (.refl _) (hnonneg.1 h'.1), fun h' => hfits _ hperm (hnonneg.2 h'.1)⟩
    · have hzero' : 0 ∉ extents' := mt hperm.mem_iff.2 hzero
      rw [fits_iff_of_zero_not_mem hzero, fits_iff_of_zero_not_mem hzero', hnonneg,
        product_perm hperm]

/-! ### Counts -/

/-- The product of `m` and the extents, if it and the products on the way to it are below the
limit. -/
def count? (limit m : Nat) (shape : List Nat) : Option Nat :=
  shape.foldlM (fun n extent => if n * extent < limit then some (n * extent) else none) m

theorem count?_cons (limit m extent : Nat) (shape : List Nat) :
    count? limit m (extent :: shape) =
      if m * extent < limit then count? limit (m * extent) shape else none := by
  rw [count?, List.foldlM_cons]
  split <;> rfl

theorem prod_takeWhile_pos (shape : List Nat) : 0 < (shape.takeWhile (· ≠ 0)).prod := by
  refine Nat.pos_of_ne_zero (List.prod_ne_zero fun h => ?_)
  simpa using List.mem_takeWhile_imp h

theorem prod_takeWhile_cons (h : n ≠ 0) (shape : List Nat) :
    ((n :: shape).takeWhile (· ≠ 0)).prod = n * (shape.takeWhile (· ≠ 0)).prod := by
  rw [List.takeWhile_cons_of_pos (by simpa using h), List.prod_cons]

theorem count?_eq_some_iff (hm : m < limit) :
    count? limit m shape = some n ↔
      n = m * shape.prod ∧ m * (shape.takeWhile (· ≠ 0)).prod < limit := by
  induction shape generalizing m with
  | nil => simp [count?, hm, eq_comm]
  | cons extent shape ih =>
    rw [count?_cons, List.prod_cons, ← Nat.mul_assoc]
    by_cases hzero : extent = 0
    · subst hzero
      have hlimit : 0 < limit := Nat.zero_lt_of_lt hm
      rw [Nat.mul_zero, if_pos hlimit, ih hlimit]
      simp [hm, hlimit]
    · rw [prod_takeWhile_cons hzero, ← Nat.mul_assoc]
      split
      · exact ih ‹_›
      -- a product that has reached the limit stays there until the next zero
      · refine iff_of_false nofun fun h => ?_
        have hle := Nat.le_mul_of_pos_right (m * extent) (prod_takeWhile_pos shape)
        omega

/-- The count of extents that are not negative. -/
theorem count?_naturals_eq_some_iff (hlimit : 1 < limit) (h : Nonnegative extents) :
    count? limit 1 (naturals extents) = some n ↔ product extents = n ∧ Fits limit extents := by
  have hleading := prod_naturals fun d hd => h d (leading_subset extents hd)
  rw [count?_eq_some_iff hlimit, takeWhile_naturals h, Nat.one_mul, Nat.one_mul, ← prod_naturals h,
    Fits, and_iff_right h, ← hleading, Int.natCast_inj, Int.ofNat_lt, @eq_comm _ n]

/-- The product of a tensor's extents is exact: on the way to it nothing wraps. -/
theorem numel?_eq_some (h : numel? shape = some n) : n = shape.prod ∧ n < UInt64.size := by
  obtain ⟨hprod, hlt⟩ := (count?_eq_some_iff (by decide)).1 h
  rw [Nat.one_mul] at hprod hlt
  subst hprod
  refine ⟨rfl, ?_⟩
  by_cases hzero : 0 ∈ shape
  · rw [List.prod_eq_zero hzero]
    decide
  · have hself : shape.takeWhile (· ≠ 0) = shape :=
      List.takeWhile_eq_self_iff.2 fun d hd => by simpa using ne_of_mem_of_not_mem hd hzero
    rwa [hself] at hlt

/-! ### Counts of words -/

/-- Where no extent is negative, words are multiplied like natural numbers below the size of the
least word. -/
theorem map_mul? {i : Int64} (hi : 0 ≤ i) (hd : 0 ≤ d) :
    (Word.mul? i d).map (·.toInt.toNat) =
      if i.toInt.toNat * d.toInt.toNat < 0x8000000000000000 then
        some (i.toInt.toNat * d.toInt.toNat) else none := by
  obtain ⟨m, hm⟩ := Int.eq_ofNat_of_zero_le (Word.toInt_nonneg hi)
  obtain ⟨n, hn⟩ := Int.eq_ofNat_of_zero_le (Word.toInt_nonneg hd)
  rw [Word.mul?, Word.ofInt?, hm, hn, Int.toNat_natCast, Int.toNat_natCast, ← Int.natCast_mul]
  have hrange : Word.InRange ((m * n : Nat) : Int) ↔ m * n < 0x8000000000000000 := by
    unfold Word.InRange
    omega
  by_cases h : m * n < 0x8000000000000000
  · rw [if_pos (hrange.2 h), if_pos h, Option.map_some, Word.toInt_ofInt (hrange.2 h),
      Int.toNat_natCast]
  · rw [if_neg (mt hrange.1 h), if_neg h, Option.map_none]

theorem wordCount?_eq (extents : List Int64) :
    (wordCount? extents).map (·.toInt.toNat) =
      if Nonnegative extents then count? 0x8000000000000000 1 (naturals extents) else none := by
  suffices h : ∀ i : Int64, 0 ≤ i →
      (extents.foldlM (fun n d => if d < 0 then none else Word.mul? n d) i).map (·.toInt.toNat) =
        if Nonnegative extents then
          count? 0x8000000000000000 i.toInt.toNat (naturals extents) else none from
    h 1 (by decide)
  induction extents with
  | nil => exact fun _ _ => rfl
  | cons d ds ih =>
    intro i hi
    rw [List.foldlM_cons]
    by_cases hd : 0 ≤ d
    · have hstep := map_mul? hi hd
      rw [if_neg (Int64.not_lt.2 hd), naturals, List.map_cons, count?, List.foldlM_cons]
      simp only [nonnegative_cons, hd, true_and]
      cases hj : Word.mul? i d with
      | none =>
        rw [hj, Option.map_none] at hstep
        rw [← hstep]
        exact (ite_self none).symm
      | some j =>
        have hj' : 0 ≤ j := by
          rw [Int64.le_iff_toInt_le, Word.ofInt?_eq_some_iff.1 hj]
          exact Int.mul_nonneg (Word.toInt_nonneg hi) (Word.toInt_nonneg hd)
        rw [hj, Option.map_some] at hstep
        rw [← hstep]
        exact ih j hj'
    · rw [if_pos (Int64.not_le.1 hd), if_neg fun h => hd (h d (.head _))]
      rfl

theorem wordCount?_eq_some_iff :
    (wordCount? extents).map (·.toInt.toNat) = some n ↔
      product extents = n ∧ Fits 0x8000000000000000 extents := by
  rw [wordCount?_eq, Option.ite_none_right_eq_some]
  constructor
  · rintro ⟨hnonneg, hcount⟩
    exact (count?_naturals_eq_some_iff (by decide) hnonneg).1 hcount
  · intro h
    exact ⟨h.2.1, (count?_naturals_eq_some_iff (by decide) h.2.1).2 h⟩

end ProxyTrace.Shape
