import Mathlib.Data.Finset.Card
import ProxyTrace.Proofs.Shape
import ProxyTrace.Slice

/-!
# Slices

A slice takes the part of an axis between two ends (`Slice.lower`, `Slice.upper`). Both are brought
between bounds that lie as far apart as the axis is long. So the distance of the ends is computed
without an overflow (`Slice.count_eq`), and no slice selects more than the axis has
(`Slice.count_le`).

The places that a slice selects (`Slice.Selects`) are told by where it starts and what it stops
before, and a step down exchanges the two ends. As many places of the axis are selected as the slice
counts (`Slice.count_eq_card`).
-/

namespace ProxyTrace.Slice

variable {s : Slice} {op : String} {len n : Nat} {l low high : Int64}

/-- An end on an axis of the given length, brought between two bounds. -/
def place (len low high : Int) (i : Int64) : Int :=
  max low (min high (if i.toInt < 0 then i.toInt + len else i.toInt))

/-- The lower end: where a slice upwards starts, and before which one downwards stops. -/
def lower (s : Slice) (len : Int) : Int :=
  if 0 < s.step.getD 1 then s.start.elim 0 (place len 0 len)
  else s.stop.elim (-1) (place len (-1) (len - 1))

/-- The upper end: before which a slice upwards stops, and where one downwards starts. -/
def upper (s : Slice) (len : Int) : Int :=
  if 0 < s.step.getD 1 then s.stop.elim len (place len 0 len)
  else s.start.elim (len - 1) (place len (-1) (len - 1))

theorem place_bounds {len low high : Int} (h : low ≤ high) (i : Int64) :
    low ≤ place len low high i ∧ place len low high i ≤ high :=
  ⟨le_max_left _ _, max_le h (min_le_left _ _)⟩

theorem elim_place_bounds {len low high d : Int} (hd : low ≤ d ∧ d ≤ high) (i : Option Int64) :
    low ≤ i.elim d (place len low high) ∧ i.elim d (place len low high) ≤ high := by
  cases i with
  | none => exact hd
  | some i => exact place_bounds (hd.1.trans hd.2) i

/-- The bounds of the ends are as far apart as the axis is long: 0 and its length for a slice
upwards, and one below them for one downwards. -/
theorem ends_bounds (s : Slice) (len : Nat) : ∃ low : Int,
    (low ≤ s.lower len ∧ s.lower len ≤ low + len) ∧
    (low ≤ s.upper len ∧ s.upper len ≤ low + len) := by
  unfold lower upper
  split
  · refine ⟨0, ?_⟩
    rw [Int.zero_add]
    exact ⟨elim_place_bounds (by omega) _, elim_place_bounds (by omega) _⟩
  · refine ⟨-1, ?_⟩
    rw [show (len : Int) - 1 = -1 + len by omega]
    exact ⟨elim_place_bounds (by omega) _, elim_place_bounds (by omega) _⟩

/-! ### The count -/

theorem toInt_clamp (hl : 0 ≤ l) (h : low ≤ high) (i : Int64) :
    (clamp l low high i).toInt = place l.toInt low.toInt high.toInt i := by
  have hplace : (if i < 0 then i + l else i).toInt =
      if i.toInt < 0 then i.toInt + l.toInt else i.toInt := by
    simp only [← Word.lt_zero_iff]
    split
    · exact Word.toInt_add_of_inRange (Word.inRange_add_of_neg ‹_› hl)
    · rfl
  rw [place, ← hplace, clamp]
  generalize (if i < 0 then i + l else i) = j
  rw [Int64.le_iff_toInt_le] at h
  simp only [Int64.lt_iff_toInt_lt]
  grind

theorem toInt_elim_clamp (hl : 0 ≤ l) (h : low ≤ high) (d : Int64) (i : Option Int64) :
    (i.elim d (clamp l low high)).toInt =
      i.elim d.toInt (place l.toInt low.toInt high.toInt) := by
  cases i with
  | none => rfl
  | some i => exact toInt_clamp hl h i

/-- The ends as words, on an axis whose length is one. -/
def ends (s : Slice) (l : Int64) : Int64 × Int64 :=
  if 0 < s.step.getD 1 then (s.start.elim 0 (clamp l 0 l), s.stop.elim l (clamp l 0 l))
  else (s.stop.elim (-1) (clamp l (-1) (l - 1)), s.start.elim (l - 1) (clamp l (-1) (l - 1)))

theorem neg_one_le_sub_one (hl : 0 ≤ l) : -1 ≤ l - 1 := by
  have hnonneg := Word.toInt_nonneg hl
  rw [Int64.le_iff_toInt_le, Word.toInt_sub_one hl, show (-1 : Int64).toInt = -1 from rfl]
  omega

theorem toInt_ends (s : Slice) (hl : 0 ≤ l) :
    (s.ends l).1.toInt = s.lower l.toInt ∧ (s.ends l).2.toInt = s.upper l.toInt := by
  have hdown := neg_one_le_sub_one hl
  unfold ends lower upper
  split
  · exact ⟨toInt_elim_clamp hl hl 0 s.start, toInt_elim_clamp hl hl l s.stop⟩
  · rw [← Word.toInt_sub_one hl]
    exact ⟨toInt_elim_clamp hl hdown (-1) s.stop, toInt_elim_clamp hl hdown (l - 1) s.start⟩

/-- The ends are no further apart than the axis is long. -/
theorem ends_distance (s : Slice) (hl : 0 ≤ l) :
    (s.ends l).2.toInt - (s.ends l).1.toInt ≤ l.toInt := by
  obtain ⟨hlower, hupper⟩ := toInt_ends s hl
  obtain ⟨len, hlen⟩ := Int.eq_ofNat_of_zero_le (Word.toInt_nonneg hl)
  obtain ⟨low, hlow, hhigh⟩ := s.ends_bounds len
  rw [hlower, hupper, hlen]
  omega

section

variable {first last : Int64} (hdistance : last.toInt - first.toInt ≤ Int64.maxValue.toInt)
  (hlt : first.toInt < last.toInt)

include hdistance hlt

theorem inRange_distance : Word.InRange (last.toInt - first.toInt) := by
  rw [Int64.toInt_maxValue] at hdistance
  unfold Word.InRange
  omega

theorem inRange_span : Word.InRange ((last - first).toInt - (1 : Int64).toInt) := by
  have hrange := inRange_distance hdistance hlt
  rw [Word.toInt_sub_of_inRange hrange, Int64.toInt_one]
  unfold Word.InRange at *
  omega

end

/-- Between ends that are no more than a word apart nothing overflows. -/
theorem count_between {first last : Int64} (k : Nat)
    (hdistance : last.toInt - first.toInt ≤ Int64.maxValue.toInt) :
    (if last ≤ first then .ok 0 else .ok ((last - first - 1).toInt.natAbs / k + 1)) =
      (.ok (if last.toInt ≤ first.toInt then 0
        else (last.toInt - first.toInt - 1).toNat / k + 1) : Except Error Nat) := by
  simp only [Int64.le_iff_toInt_le]
  split
  · rfl
  · rename_i hlt
    rw [Int.not_le] at hlt
    have hspan : (last - first - 1).toInt = last.toInt - first.toInt - 1 := by
      rw [Word.toInt_sub_of_inRange (inRange_span hdistance hlt),
        Word.toInt_sub_of_inRange (inRange_distance hdistance hlt), Int64.toInt_one]
    have habs : (last - first - 1).toInt.natAbs = (last.toInt - first.toInt - 1).toNat := by
      omega
    rw [habs]

/-- A length as a word. One beyond all words is taken for the greatest. -/
def wordLength (len : Nat) : Int64 :=
  if len ≤ Int64.maxValue.toInt.toNat then Int64.ofNat len else Int64.maxValue

theorem toInt_wordLength (hlen : (len : Int) ≤ Int64.maxValue.toInt) :
    (wordLength len).toInt = len := by
  rw [wordLength, if_pos (by omega), Shape.toInt_ofNat hlen]

theorem wordLength_nonneg (len : Nat) : 0 ≤ wordLength len := by
  unfold wordLength
  split
  · rename_i hlen
    have hword : (len : Int) ≤ Int64.maxValue.toInt := by
      rw [Int64.toInt_maxValue] at *
      omega
    exact Shape.ofNat_nonneg hword
  · decide

theorem count_eq_ends (s : Slice) (op : String) (len : Nat) : s.count op len =
    if s.step.getD 1 = 0 then .error (.invalidOperand op "a slice step of zero")
    else if (s.ends (wordLength len)).2 ≤ (s.ends (wordLength len)).1 then .ok 0
    else .ok (((s.ends (wordLength len)).2 - (s.ends (wordLength len)).1 - 1).toInt.natAbs /
      (s.step.getD 1).toInt.natAbs + 1) := rfl

theorem count_eq (s : Slice) (op : String) (hlen : (len : Int) ≤ Int64.maxValue.toInt) :
    s.count op len =
      if s.step = some 0 then .error (.invalidOperand op "a slice step of zero")
      else .ok (if s.upper len ≤ s.lower len then 0
        else (s.upper len - s.lower len - 1).toNat / (s.step.getD 1).toInt.natAbs + 1) := by
  have hstep : s.step.getD 1 = 0 ↔ s.step = some 0 := by
    cases s.step <;> simp
  have hdistance := s.ends_distance (wordLength_nonneg len)
  obtain ⟨hlower, hupper⟩ := s.toInt_ends (wordLength_nonneg len)
  rw [toInt_wordLength hlen] at *
  rw [count_eq_ends, count_between _ (hdistance.trans hlen), hlower, hupper]
  simp only [hstep]

/-- A slice selects no more than there is. -/
theorem count_le (h : s.count op len = .ok n) (hlen : (len : Int) ≤ Int64.maxValue.toInt) :
    n ≤ len := by
  obtain ⟨low, hlower, hupper⟩ := s.ends_bounds len
  rw [count_eq s op hlen] at h
  split at h
  · cases h
  · cases h
    split
    · exact Nat.zero_le _
    · have := Nat.div_le_self (s.upper len - s.lower len - 1).toNat (s.step.getD 1).toInt.natAbs
      omega

/-! ### The places a slice selects -/

/-- Where a slice starts: at the first place by default, and downwards at the last one. -/
def first (s : Slice) (len : Int) : Int :=
  if 0 < s.step.getD 1 then s.start.elim 0 (place len 0 len)
  else s.start.elim (len - 1) (place len (-1) (len - 1))

/-- What a slice stops before: by default the end of the axis, and downwards the place ahead of the
first one. -/
def bound (s : Slice) (len : Int) : Int :=
  if 0 < s.step.getD 1 then s.stop.elim len (place len 0 len)
  else s.stop.elim (-1) (place len (-1) (len - 1))

/-- A slice selects the places that whole steps from its start reach before its stop. -/
def Selects (s : Slice) (len i : Int) : Prop :=
  ∃ n : Nat, i = s.first len + n * (s.step.getD 1).toInt ∧
    if 0 < s.step.getD 1 then i < s.bound len else s.bound len < i

theorem up_iff : 0 < s.step.getD 1 ↔ 0 < (s.step.getD 1).toInt := by
  rw [Int64.lt_iff_toInt_lt, Int64.toInt_zero]

/-- A slice selects the places between its ends that lie whole steps from its start. -/
theorem selects_iff {len i : Int} : s.Selects len i ↔
    (s.step.getD 1).toInt ∣ i - s.first len ∧
      if 0 < s.step.getD 1 then s.first len ≤ i ∧ i < s.bound len
      else s.bound len < i ∧ i ≤ s.first len := by
  simp only [Selects, up_iff]
  generalize (s.step.getD 1).toInt = k
  constructor
  · rintro ⟨n, rfl, hi⟩
    refine ⟨⟨n, by ring⟩, ?_⟩
    split at hi <;> rename_i h
    · have : 0 ≤ n * k := by positivity
      rw [if_pos h]
      omega
    · have : n * k ≤ 0 := mul_nonpos_of_nonneg_of_nonpos (by omega) (by omega)
      rw [if_neg h]
      omega
  · rintro ⟨⟨m, hm⟩, hi⟩
    -- the steps do not lead away from the stop, unless they lead nowhere
    have hsteps : k * m = m.natAbs * k := by
      rcases Int.natAbs_eq m with h | h
      · rw [← h, mul_comm]
      · split at hi
        · have : k * m ≤ 0 := mul_nonpos_of_nonneg_of_nonpos (by omega) (by omega)
          have : k * m = - (m.natAbs * k) := by rw [h]; simp [mul_comm]
          omega
        · have : 0 ≤ k * m := mul_nonneg_of_nonpos_of_nonpos (by omega) (by omega)
          have : k * m = - (m.natAbs * k) := by rw [h]; simp [mul_comm]
          omega
    refine ⟨m.natAbs, by omega, ?_⟩
    split at hi <;> rename_i h
    · rw [if_pos h]
      exact hi.2
    · rw [if_neg h]
      exact hi.1

instance (s : Slice) (len i : Int) : Decidable (s.Selects len i) :=
  decidable_of_iff _ selects_iff.symm

/-- The selected places of an axis. -/
def selected (s : Slice) (len : Nat) : Finset Nat :=
  {i ∈ Finset.range len | s.Selects len i}

/-- A slice selects places of the axis only. -/
theorem Selects.mem_axis {i : Int} (h : s.Selects len i) : 0 ≤ i ∧ i < len := by
  have hi := (selects_iff.mp h).2
  unfold first bound at hi
  split at hi
  · have hstart := @elim_place_bounds len 0 len 0 (by omega) s.start
    have hstop := @elim_place_bounds len 0 len len (by omega) s.stop
    omega
  · have hstart := @elim_place_bounds len (-1) (len - 1) (len - 1) (by omega) s.start
    have hstop := @elim_place_bounds len (-1) (len - 1) (-1) (by omega) s.stop
    omega

/-- As many multiples of `m` lie below a distance as the closed form counts. -/
theorem lt_length_iff {low high : Int} {m : Nat} (hm : 0 < m) :
    (n < if high ≤ low then 0 else (high - low - 1).toNat / m + 1) ↔
      (n * m : Int) < high - low := by
  split
  · have : (0 : Int) ≤ n * m := by positivity
    omega
  · rw [Nat.lt_succ_iff, Nat.le_div_iff_mul_le hm]
    push_cast [← Int.ofNat_le]
    omega

/-- The steps that stay before the stop are as many as the closed form says. -/
theorem step_before_iff (hstep : s.step.getD 1 ≠ 0) :
    (if 0 < s.step.getD 1 then s.first len + n * (s.step.getD 1).toInt < s.bound len
      else s.bound len < s.first len + n * (s.step.getD 1).toInt) ↔
      n < if s.upper len ≤ s.lower len then 0
        else (s.upper len - s.lower len - 1).toNat / (s.step.getD 1).toInt.natAbs + 1 := by
  have hk : (s.step.getD 1).toInt ≠ 0 := by
    rwa [ne_eq, ← Int64.toInt_zero, Int64.toInt_inj]
  rw [lt_length_iff (Int.natAbs_pos.mpr hk)]
  unfold first bound lower upper
  simp only [up_iff]
  split
  · rw [Int.natAbs_of_nonneg (by omega)]
    omega
  · rw [Int.ofNat_natAbs_of_nonpos (by omega), mul_neg]
    omega

/-- The selected places are one for each step that the closed form counts. -/
theorem card_selected (hstep : s.step.getD 1 ≠ 0) :
    (s.selected len).card = if s.upper len ≤ s.lower len then 0
      else (s.upper len - s.lower len - 1).toNat / (s.step.getD 1).toInt.natAbs + 1 := by
  let reach (n : Nat) : Int := s.first len + n * (s.step.getD 1).toInt
  have hinjective : Function.Injective reach := fun n m heq => by
    have hk : (s.step.getD 1).toInt ≠ 0 := by
      rwa [ne_eq, ← Int64.toInt_zero, Int64.toInt_inj]
    exact_mod_cast mul_right_cancel₀ hk (add_left_cancel heq)
  have hreach {n : Nat} (hn : n ∈ Finset.range (if s.upper len ≤ s.lower len then 0
      else (s.upper len - s.lower len - 1).toNat / (s.step.getD 1).toInt.natAbs + 1)) :
      s.Selects len (reach n) ∧ ((reach n).toNat : Int) = reach n := by
    have hselects : s.Selects len (reach n) :=
      ⟨n, rfl, (step_before_iff hstep).mpr (Finset.mem_range.mp hn)⟩
    exact ⟨hselects, Int.toNat_of_nonneg hselects.mem_axis.1⟩
  rw [← Finset.card_range (ite ..)]
  refine (Finset.card_bij (fun n _ => (reach n).toNat) (fun n hn => ?_) (fun n hn m hm heq => ?_)
    fun i hi => ?_).symm
  · obtain ⟨hselects, hcast⟩ := hreach hn
    have haxis := hselects.mem_axis
    rw [selected, Finset.mem_filter, Finset.mem_range, hcast]
    exact ⟨by omega, hselects⟩
  · refine hinjective ?_
    rw [← (hreach hn).2, ← (hreach hm).2, heq]
  · obtain ⟨-, n, hi, hbefore⟩ := Finset.mem_filter.mp hi
    refine ⟨n, Finset.mem_range.mpr ((step_before_iff hstep).mp (hi ▸ hbefore)), ?_⟩
    rw [show reach n = i from hi.symm, Int.toNat_natCast]

/-- **A slice counts the places of the axis that it selects**, and is refused for a step of
zero. -/
theorem count_eq_card (s : Slice) (op : String) (hlen : (len : Int) ≤ Int64.maxValue.toInt) :
    ((∃ what, s.count op len = .error (.invalidOperand op what)) ↔ s.step = some 0) ∧
    (s.step ≠ some 0 → s.count op len = .ok (s.selected len).card ∧
      ∀ i, s.Selects len i → ∃ j ∈ s.selected len, (j : Int) = i) ∧
    ∀ n, s.count op len = .ok n → n ≤ len := by
  refine ⟨?_, fun hstep => ⟨?_, fun i hi => ?_⟩, fun n hn => count_le hn hlen⟩
  · rw [count_eq s op hlen]
    split
    · exact iff_of_true ⟨_, rfl⟩ ‹_›
    · exact iff_of_false (fun ⟨_, h⟩ => nomatch h) ‹_›
  · have hword : s.step.getD 1 ≠ 0 := by
      cases h : s.step <;> simp_all
    rw [count_eq s op hlen, if_neg hstep, card_selected hword]
  · obtain ⟨hlow, hhigh⟩ := hi.mem_axis
    have hcast : (i.toNat : Int) = i := Int.toNat_of_nonneg hlow
    refine ⟨i.toNat, ?_, hcast⟩
    rw [selected, Finset.mem_filter, Finset.mem_range, hcast]
    exact ⟨by omega, hi⟩

/-- Of ten places, from the last but one down to the second in steps of three: 8, 5 and 2. -/
theorem count_eq_card_down :
    (Slice.mk (some (-2)) (some 1) (some (-3))).count "get_item" 10 = .ok 3 ∧
      (Slice.mk (some (-2)) (some 1) (some (-3))).selected 10 = {2, 5, 8} := by
  have h := (@count_eq_card 10 ⟨some (-2), some 1, some (-3)⟩ "get_item" (by decide)).2.1 (by decide)
  have hplaces : (Slice.mk (some (-2)) (some 1) (some (-3))).selected 10 = {2, 5, 8} := by decide
  exact ⟨by rw [h.1, hplaces]; rfl, hplaces⟩

end ProxyTrace.Slice
