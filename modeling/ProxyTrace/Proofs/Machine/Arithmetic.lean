import ProxyTrace.Proofs.Machine.Routine
import ProxyTrace.Proofs.Number.Overflow
import ProxyTrace.Proofs.Slice
import ProxyTrace.Proofs.WellFormed

/-!
# The arithmetic of the machine

The operators on ints, the count of a slice, the test of an index and the place of an axis, as
routines. What is tested there is tested by comparisons and by operations that say whether they are
exact; the raw operations rely on it. A quotient is corrected by one after it was found to be a
word, the ends of a slice are subtracted after they were brought between bounds, and a shift is by
less than 64.

Each routine gives what the function itself answers, and is exact on the way (`gives_binary`,
`gives_sliceCount`, `gives_checkIndex`, `gives_axis`). The main statement is `rawOperations_exact`.
-/

namespace ProxyTrace.Machine

open Routine

variable {α β : Type} {a b n l low high : Int64} {len : Nat}

namespace Routine

variable {p q : Routine α} {x y : α} {c : Prop} [Decidable c]

theorem gives_ite (ht : c → p.Gives x) (hf : ¬c → q.Gives y) :
    (if c then p else q).Gives (if c then x else y) := by
  split
  · exact ht ‹_›
  · exact hf ‹_›

theorem gives_elim {f : β → Routine α} {g : β → α} (hp : p.Gives x) (hf : ∀ b, (f b).Gives (g b))
    (o : Option β) : (o.elim p f).Gives (o.elim x g) := by
  cases o with
  | none => exact hp
  | some b => exact hf b

end Routine

/-! ### Operators on two ints -/

/-- The quotient rounded down, from the one that is rounded to zero. -/
def floorDiv (a b : Int64) : Routine (Option Int64) :=
  if Word.Divides a b then do
    let q := a / b
    let r ← raw (.rem a b)
    if r ≠ 0 ∧ ¬(a < 0 ↔ b < 0) then return some (← raw (.sub q 1)) else return some q
  else return none

/-- The remainder of the quotient rounded down. -/
def floorMod (a b : Int64) : Routine (Option Int64) :=
  if Word.Divides a b then do
    let r := a % b
    if r ≠ 0 ∧ ¬(r < 0 ↔ b < 0) then return some (← raw (.add r b)) else return some r
  else return none

/-- The power with an exponent that is not negative. -/
def pow (a n : Int64) : Routine (Option Int64) :=
  if n < 0x100000000 then return Word.mulPow? 1 a n.toInt.toNat
  else if a = 0 ∨ a = 1 then return some a
  else if a = -1 then do
    let r ← raw (.rem n 2)
    return some (if r = 0 then 1 else -1)
  else return none

/-- A shift by a count that is not negative, undone to see if bits were lost. -/
def shiftLeft (a n : Int64) : Routine (Option Int64) :=
  if a = 0 then return some 0
  else if 63 ≤ n then return none
  else do
    let shifted ← raw (.shiftLeft a n)
    let back ← raw (.shiftRight shifted n)
    return if back = a then some shifted else none

/-- A shift by a count that is not negative. -/
def shiftRight (a n : Int64) : Routine Int64 :=
  if 64 ≤ n then return if a < 0 then -1 else 0
  else raw (.shiftRight a n)

/-- An operator on two ints. -/
def binary (op : BinaryOp) (a b : Int64) : Routine (Except Error Number) :=
  match op with
  | .add => return Number.ofWord? op.name (Word.add? a b)
  | .sub => return Number.ofWord? op.name (Word.sub? a b)
  | .mul => return Number.ofWord? op.name (Word.mul? a b)
  | .floorDivide =>
    if b = 0 then return Number.zeroDivision op
    else return Number.ofWord? op.name (← floorDiv a b)
  | .mod =>
    if b = 0 then return Number.zeroDivision op
    else return Number.ofWord? op.name (← floorMod a b)
  | .pow =>
    if b < 0 then
      return if a = 0 then Number.zeroDivision op
        else .ok (.float ((Binary64.ofInt a.toInt).pow (.ofInt b.toInt)))
    else return Number.ofWord? op.name (← pow a b)
  | .shiftLeft =>
    if b < 0 then return .error (.invalidOperand op.name "a negative shift count")
    else return Number.ofWord? op.name (← shiftLeft a b)
  | .shiftRight =>
    if b < 0 then return .error (.invalidOperand op.name "a negative shift count")
    else return Number.ofWord? op.name (some (← shiftRight a b))
  | _ => return .error (.unsupportedOperation op.name "int and int")

/-- The operators that ints have of their own. -/
def intOperators : List BinaryOp :=
  [.add, .sub, .mul, .floorDivide, .mod, .pow, .shiftLeft, .shiftRight]

theorem gives_floorDiv (a b : Int64) : (floorDiv a b).Gives (Word.floorDiv? a b) := by
  refine gives_ite (fun h => .raw_bind h (gives_ite (fun hdown => ?_) fun _ => gives_pure _))
    fun _ => gives_pure _
  simp only [RawOp.result, ne_eq, ← Int64.toInt_inj, Int64.toInt_mod, Word.lt_zero_iff,
    Int64.toInt_zero] at hdown
  exact .raw_bind (Word.inRange_div_sub_one h hdown) (gives_pure _)

theorem gives_floorMod (a b : Int64) : (floorMod a b).Gives (Word.floorMod? a b) := by
  refine gives_ite (fun _ => gives_ite (fun hdown => ?_) fun _ => gives_pure _) fun _ => gives_pure _
  simp only [ne_eq, ← Int64.toInt_inj, Int64.toInt_mod, Word.lt_zero_iff, Int64.toInt_zero] at hdown
  exact .raw_bind (Word.inRange_mod_add hdown.2) (gives_pure _)

theorem gives_pow (a n : Int64) : (pow a n).Gives (Word.pow? a n) := by
  refine gives_ite (fun _ => gives_pure _) fun _ => gives_ite (fun _ => gives_pure _) fun _ =>
    gives_ite (fun _ => .raw_bind ⟨?_, ?_⟩ (gives_pure _)) fun _ => gives_pure _
  · decide
  · rintro ⟨-, h⟩
    exact absurd h (by decide)

theorem shiftCount_exact (hn : 0 ≤ n) (h : ¬64 ≤ n) : 0 ≤ n ∧ n < 64 := ⟨hn, Int64.not_le.1 h⟩

theorem gives_shiftLeft (a : Int64) (hn : 0 ≤ n) :
    (shiftLeft a n).Gives (Word.shiftLeft? a n) := by
  refine gives_ite (fun _ => gives_pure _) fun _ => gives_ite (fun _ => gives_pure _) fun hcount => ?_
  have hexact : 0 ≤ n ∧ n < 64 :=
    shiftCount_exact hn fun h => hcount (Int64.le_trans (by decide) h)
  exact .raw_bind hexact (.raw_bind hexact (gives_pure _))

theorem gives_shiftRight (a : Int64) (hn : 0 ≤ n) :
    (shiftRight a n).Gives (Word.shiftRight a n) :=
  gives_ite (fun _ => gives_pure _) fun h => gives_raw (shiftCount_exact hn h)

/-- On two bools or ints the operators that ints have answer what the routine gives. -/
theorem gives_binary (op : BinaryOp) {x y : Number} (hx : x.toInt? = some a)
    (hy : y.toInt? = some b) :
    ∃ r, (binary op a b).Gives r ∧ (op ∈ intOperators → x.binary op y = .single <$> r) := by
  have hints := Number.promote_of_toInt? hx hy
  have hnonneg : ¬b < 0 → 0 ≤ b := Int64.not_lt.1
  cases op with
  | add | sub | mul =>
    exact ⟨_, gives_pure _, fun _ => by
      simp only [Number.binary, Number.add, Number.sub, Number.mul, hints]⟩
  | floorDivide =>
    refine ⟨_, gives_ite (fun _ => gives_pure _) fun _ => (gives_floorDiv a b).map _, fun _ => ?_⟩
    simp only [Number.binary, Number.floorDivide, hints]
  | mod =>
    refine ⟨_, gives_ite (fun _ => gives_pure _) fun _ => (gives_floorMod a b).map _, fun _ => ?_⟩
    simp only [Number.binary, Number.mod, hints]
  | pow =>
    refine ⟨_, gives_ite (fun _ => gives_pure _) fun _ => (gives_pow a b).map _, fun _ => ?_⟩
    simp only [Number.binary, Number.pow, hints]
  | shiftLeft =>
    refine ⟨_, gives_ite (fun _ => gives_pure _)
      fun h => (gives_shiftLeft a (hnonneg h)).map _, fun _ => ?_⟩
    simp only [Number.binary, Number.shiftLeft, Number.shift, hints]
  | shiftRight =>
    refine ⟨_, gives_ite (fun _ => gives_pure _)
      fun h => (gives_shiftRight a (hnonneg h)).map _, fun _ => ?_⟩
    simp only [Number.binary, Number.shiftRight, Number.shift, hints]
  | _ => exact ⟨_, gives_pure _, fun hop => absurd hop (by decide)⟩

/-! ### The count of a slice -/

/-- The sum, or the end of the range that it lies beyond. -/
def saturatingAdd (a b : Int64) : Int64 :=
  if Word.InRange (a.toInt + b.toInt) then a + b
  else if a < 0 then Int64.minValue else Int64.maxValue

/-- The size of a word. -/
def unsignedAbs (a : Int64) : UInt64 := UInt64.ofNat a.toInt.natAbs

/-- An end of a slice on an axis of the given length, brought between two bounds. -/
def sliceEnd (l low high i : Int64) : Routine Int64 :=
  raw (.clamp low high (if i < 0 then saturatingAdd i l else i))

/-- The lower and the upper end. -/
def sliceEnds (s : Slice) (l : Int64) : Routine (Int64 × Int64) :=
  if 0 < s.step.getD 1 then do
    let start ← s.start.elim (pure 0) (sliceEnd l 0 l)
    let stop ← s.stop.elim (pure l) (sliceEnd l 0 l)
    return (start, stop)
  else do
    let last ← raw (.sub l 1)
    let start ← s.start.elim (pure last) fun i => do sliceEnd l (-1) (← raw (.sub l 1)) i
    let stop ← s.stop.elim (pure (-1)) fun i => do sliceEnd l (-1) (← raw (.sub l 1)) i
    return (stop, start)

/-- How many elements lie between the ends, in steps of the given size. -/
def sliceSpan (first last step : Int64) : Routine Nat :=
  if last ≤ first then return 0
  else do
    let distance ← raw (.sub last first)
    let span ← raw (.sub distance 1)
    let steps ← raw (.divUnsigned (unsignedAbs span) (unsignedAbs step))
    let count ← raw (.addUnsigned steps 1)
    return count.toNat

/-- How many elements of an axis a slice selects. -/
def sliceCount (s : Slice) (op : String) (len : Nat) : Routine (Except Error Nat) :=
  let step := s.step.getD 1
  if step = 0 then return .error (.invalidOperand op "a slice step of zero")
  else do
    let (first, last) ← sliceEnds s (Slice.wordLength len)
    return .ok (← sliceSpan first last step)

theorem gives_sliceEnd (hl : 0 ≤ l) (h : low ≤ high) (i : Int64) :
    (sliceEnd l low high i).Gives (Slice.clamp l low high i) := by
  have hi : (if i < 0 then saturatingAdd i l else i) = if i < 0 then i + l else i := by
    split
    · exact if_pos (Word.inRange_add_of_neg ‹_› hl)
    · rfl
  rw [sliceEnd, hi]
  exact gives_raw h

theorem gives_sliceEnds (s : Slice) (hl : 0 ≤ l) : (sliceEnds s l).Gives (s.ends l) := by
  refine gives_ite (fun _ => ?_) fun _ => .raw_bind (Word.inRange_sub_one hl) ?_
  · have hend := gives_sliceEnd hl hl
    exact (gives_elim (gives_pure _) hend _).bind
      ((gives_elim (gives_pure _) hend _).bind (gives_pure _))
  · have hend (i : Int64) : (do sliceEnd l (-1) (← raw (.sub l 1)) i).Gives
        (Slice.clamp l (-1) (l - 1) i) :=
      .raw_bind (Word.inRange_sub_one hl) (gives_sliceEnd hl (Slice.neg_one_le_sub_one hl) i)
    exact (gives_elim (gives_pure _) hend _).bind
      ((gives_elim (gives_pure _) hend _).bind (gives_pure _))

theorem toNat_unsignedAbs (a : Int64) : (unsignedAbs a).toNat = a.toInt.natAbs := by
  have ha := Word.inRange_toInt a
  refine UInt64.toNat_ofNat_of_lt' ?_
  rw [UInt64.size]
  unfold Word.InRange at ha
  omega

/-- Between ends that are no more than a word apart every operation is exact. -/
theorem gives_sliceSpan {first last step : Int64} (hstep : step ≠ 0)
    (hdistance : last.toInt - first.toInt ≤ Int64.maxValue.toInt) :
    (sliceSpan first last step).Gives (if last ≤ first then 0
      else (last - first - 1).toInt.natAbs / step.toInt.natAbs + 1) := by
  refine gives_ite (fun _ => gives_pure _) fun hlt => ?_
  rw [Int64.le_iff_toInt_le, Int.not_le] at hlt
  have hsub := Slice.inRange_distance hdistance hlt
  have hspan := Slice.inRange_span hdistance hlt
  have hzero : unsignedAbs step ≠ 0 := by
    intro h
    have habs := toNat_unsignedAbs step
    rw [h, UInt64.toNat_zero] at habs
    exact Word.toInt_ne_zero hstep (Int.natAbs_eq_zero.1 habs.symm)
  have hsteps : (unsignedAbs (last - first - 1) / unsignedAbs step).toNat + (1 : UInt64).toNat <
      UInt64.size := by
    have hle := Nat.div_le_self (last - first - 1).toInt.natAbs step.toInt.natAbs
    have hword := Word.inRange_toInt (last - first - 1)
    rw [UInt64.toNat_div, toNat_unsignedAbs, toNat_unsignedAbs, UInt64.toNat_one, UInt64.size]
    unfold Word.InRange at hword
    omega
  have hcount : (unsignedAbs (last - first - 1) / unsignedAbs step + 1).toNat =
      (last - first - 1).toInt.natAbs / step.toInt.natAbs + 1 := by
    rw [UInt64.toNat_add, Nat.mod_eq_of_lt hsteps, UInt64.toNat_div, toNat_unsignedAbs,
      toNat_unsignedAbs, UInt64.toNat_one]
  rw [← hcount]
  exact .raw_bind hsub (.raw_bind hspan (.raw_bind hzero (.raw_bind hsteps (gives_pure _))))

theorem gives_sliceCount (s : Slice) (op : String) (len : Nat) :
    (sliceCount s op len).Gives (s.count op len) := by
  have hl := Slice.wordLength_nonneg len
  have hdistance := (s.ends_distance hl).trans (Slice.wordLength len).toInt_le
  rw [s.count_eq_ends, ← apply_ite Except.ok]
  exact gives_ite (fun _ => gives_pure _) fun hstep =>
    (gives_sliceEnds s hl).bind ((gives_sliceSpan hstep hdistance).map _)

/-! ### Indices and axes -/

/-- The test of an index on an axis of length `len`. -/
def checkIndex (len : Nat) (index : Int64) : Routine (Except Error Unit) := do
  let n ← raw (.signed len)
  let low ← raw (.neg n)
  return if index < low ∨ n ≤ index then
      .error (.invalidOperand "get_item" s!"index {index.toInt} for an axis of length {n.toInt}")
    else .ok ()

/-- A place among `n`; a negative one is counted from the end. -/
def fromStart (n dim : Int64) : Routine Int64 :=
  if dim < 0 then raw (.add dim n) else return dim

/-- The place of an axis. -/
def axis (op : String) (rank : Nat) (dim : Int64) : Routine (Except Error Nat) := do
  let n ← raw (.signed rank)
  let d ← fromStart n dim
  return if 0 ≤ d ∧ d < n then .ok d.toInt.toNat
    else .error (.invalidOperand op s!"dimension {dim.toInt} for a tensor of rank {rank}")

theorem gives_checkIndex (hlen : (len : Int) ≤ Int64.maxValue.toInt) (index : Int64) :
    (checkIndex len index).Gives (Shape.checkIndex len index) := by
  have hneg : Word.InRange (-(Int64.ofNat len).toInt) := by
    have hn := Word.inRange_toInt (Int64.ofNat len)
    rw [Shape.toInt_ofNat hlen] at *
    unfold Word.InRange at *
    omega
  exact .raw_bind hlen (.raw_bind hneg (gives_pure _))

theorem gives_fromStart (hn : 0 ≤ n) (dim : Int64) :
    (fromStart n dim).Gives (if dim < 0 then dim + n else dim) :=
  gives_ite (fun hdim => gives_raw (Word.inRange_add_of_neg hdim hn)) fun _ => gives_pure _

theorem gives_axis {rank : Nat} (hrank : (rank : Int) ≤ Int64.maxValue.toInt) (op : String)
    (dim : Int64) : (axis op rank dim).Gives (Shape.axis op rank dim) :=
  .raw_bind hrank ((gives_fromStart (Shape.ofNat_nonneg hrank) dim).bind (gives_pure _))

/-- **Every raw operation that is reached is exact**, so that a debug build does not panic, a release
build does not wrap, and both answer what the functions do: the operators on all ints, the count of
every slice on axes of any length, the test of every index on the axes of the tensors that a program
holds, and the place of every axis. A shift to the left may lose bits, but is answered only if it
has not. A rank is the length of a list in memory, and so a word. -/
theorem rawOperations_exact :
    (∀ (op : BinaryOp) (x y : Number) (a b : Int64), x.toInt? = some a → y.toInt? = some b →
      ∃ r, (binary op a b).Agrees r ∧ (op ∈ intOperators → x.binary op y = .single <$> r)) ∧
    (∀ a n w : Int64, 0 ≤ n → (shiftLeft a n).Agrees (some w) →
      w.toInt = a.toInt * 2 ^ n.toInt.toNat) ∧
    (∀ (s : Slice) (op : String) (len : Nat), (sliceCount s op len).Agrees (s.count op len)) ∧
    (∀ run, Run.Reachable run → ∀ t, .tensor t ∈ run.held → ∀ len ∈ t.shape, ∀ index,
      (checkIndex len index).Agrees (Shape.checkIndex len index)) ∧
    ∀ (op : String) (rank : Nat) (dim : Int64), (rank : Int) ≤ Int64.maxValue.toInt →
      (axis op rank dim).Agrees (Shape.axis op rank dim) := by
  refine ⟨fun op x y a b hx hy => ?_, fun a n w hn hw => ?_,
    fun s op len => (gives_sliceCount s op len).agrees, fun run hrun t ht len hlen index => ?_,
    fun op rank dim hrank => (gives_axis hrank op dim).agrees⟩
  · obtain ⟨r, hgives, hanswer⟩ := gives_binary op hx hy
    exact ⟨r, hgives.agrees, hanswer⟩
  · exact Word.toInt_of_shiftLeft? hn ((gives_shiftLeft a hn).unique hw.1)
  · have hwf : t.WellFormed := hrun.wellFormed _ ht
    exact (gives_checkIndex (hwf.extents len hlen) index).agrees

/-- The least word as an operand, as a step of a slice on the longest axis, as an index on an axis
of a tensor, and as the place of an axis; and a shift to the last bit but the sign. -/
theorem rawOperations_exact_least :
    (∃ r, (binary .floorDivide Int64.minValue 10).Agrees r ∧
      .single <$> r = (.ok (.single (.int (-0xccccccccccccccd))) : Except Error Number.Answer)) ∧
    (∀ w, (shiftLeft 1 62).Agrees (some w) → w.toInt = 0x4000000000000000) ∧
    (sliceCount ⟨none, none, some Int64.minValue⟩ "get_item" (2 ^ 64 - 1)).Agrees (.ok 1) ∧
    (∃ run, Run.Reachable run ∧ ∃ t : TensorProxy, .tensor t ∈ run.held ∧ t.shape = [2, 3] ∧
      ∃ e, (checkIndex 3 Int64.minValue).Agrees (.error e)) ∧
    ∃ e, (axis "sum" 2 Int64.minValue).Agrees (.error e) := by
  obtain ⟨hbinary, hshift, hslice, hindex, haxis⟩ := rawOperations_exact
  obtain ⟨r, hr, hanswer⟩ := hbinary .floorDivide (.int Int64.minValue) (.int 10) _ _ rfl rfl
  let spec : TensorSpec := ⟨some "x", none, some [2, 3], some (.ok .cpu), some (.ok ⟨.float32, true⟩)⟩
  have hrun := (Run.Reachable.start.step (.move (.enter default))).step
    (.call (⟨List.nil_subset _, False.elim⟩ : Run.Admits _ (.build spec) none) rfl)
  refine ⟨⟨r, hr, (hanswer (by decide)).symm⟩, fun w hw => hshift 1 62 w (by decide) hw,
    hslice ⟨none, none, some Int64.minValue⟩ "get_item" (2 ^ 64 - 1), ?_,
    _, haxis "sum" 2 Int64.minValue (by decide)⟩
  exact ⟨_, hrun, _, .head _, rfl, _, hindex _ hrun _ (.head _) 3 (.tail _ (.head _)) Int64.minValue⟩

end ProxyTrace.Machine
