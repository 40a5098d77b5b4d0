import ProxyTrace.Proofs.Reshape
import ProxyTrace.Proofs.Slice

/-!
# Indexing

A tensor is indexed by a key or by a tuple of keys, which walk its axes from the left
(`Shape.Leaves`). It is answered exactly if there are axes for the keys, and each key is one for the
axis that it meets (`Shape.Selectable`); then the result has the shape that the keys leave
(`Run.takesKey_iff`). What is left of a tensor never has more elements before its first zero than
the tensor (`Shape.Leaves.prod_takeWhile_le`), so it can be counted, except where a number proxy,
whose value nobody checks, drops an axis that has no elements (`Run.getItem_overflows`).
-/

namespace ProxyTrace

open SessionM

/-! ### Keys and axes -/

namespace Value

/-- All keys but `None` take an axis. -/
def takesAxis : Value → Bool
  | none => false
  | _ => true

/-- A key for an axis of the given length. -/
def IsKeyFor (len : Nat) : Value → Prop
  | number n => ∃ i, n.toInt? = some i ∧ -(len : Int) ≤ i.toInt ∧ i.toInt < len
  | slice s => s.step ≠ some 0
  | proxy (.number p) => p.kind ≤ .int
  | _ => False

end Value

namespace Shape

/-- The keys that take an axis, each with the length of the axis that it meets. -/
def meetings (keys : List Value) (shape : List Nat) : List (Value × Nat) :=
  (keys.filter Value.takesAxis).zip shape

/-- There is an axis for each key that takes one, and the key is one for it. -/
structure Selectable (keys : List Value) (shape : List Nat) : Prop where
  axes : (keys.filter Value.takesAxis).length ≤ shape.length
  keys : ∀ m ∈ meetings keys shape, m.1.IsKeyFor m.2

/-- What keys leave of a shape, from the first axis on: `None` inserts an axis, a number drops one,
a slice replaces one by what it selects, and axes without a key are kept. -/
inductive Leaves : List Value → List Nat → List Nat → Prop
  | rest (shape : List Nat) : Leaves [] shape shape
  | insert {keys : List Value} {shape out : List Nat} :
    Leaves keys shape out → Leaves (.none :: keys) shape (1 :: out)
  | index {keys : List Value} {len : Nat} {shape out : List Nat} (n : Number) :
    Leaves keys shape out → Leaves (.number n :: keys) (len :: shape) out
  | proxy {keys : List Value} {len : Nat} {shape out : List Nat} (p : NumberProxy) :
    Leaves keys shape out → Leaves (.proxy (.number p) :: keys) (len :: shape) out
  | slice {keys : List Value} {len n : Nat} {shape out : List Nat} {s : Slice} :
    s.count "get_item" len = .ok n → Leaves keys shape out →
      Leaves (.slice s :: keys) (len :: shape) (n :: out)

variable {len : Nat} {key : Value} {keys : List Value} {shape out : List Nat}

theorem selectable_nil (shape : List Nat) : Selectable [] shape :=
  ⟨Nat.zero_le _, fun _ h => nomatch h⟩

theorem selectable_none_cons : Selectable (.none :: keys) shape ↔ Selectable keys shape :=
  ⟨fun h => ⟨h.axes, h.keys⟩, fun h => ⟨h.axes, h.keys⟩⟩

theorem not_selectable_of_takesAxis (h : key.takesAxis) : ¬Selectable (key :: keys) [] := by
  intro hkeys
  have haxes := hkeys.axes
  rw [List.filter_cons_of_pos h] at haxes
  exact Nat.not_succ_le_zero _ haxes

theorem meetings_cons (h : key.takesAxis) :
    meetings (key :: keys) (len :: shape) = (key, len) :: meetings keys shape := by
  rw [meetings, List.filter_cons_of_pos h]
  rfl

theorem selectable_cons (h : key.takesAxis) :
    Selectable (key :: keys) (len :: shape) ↔ key.IsKeyFor len ∧ Selectable keys shape := by
  have haxes : ((key :: keys).filter Value.takesAxis).length ≤ (len :: shape).length ↔
      (keys.filter Value.takesAxis).length ≤ shape.length := by
    rw [List.filter_cons_of_pos h]
    exact Nat.succ_le_succ_iff
  constructor
  · rintro ⟨hlength, hkeys⟩
    rw [meetings_cons h, List.forall_mem_cons] at hkeys
    exact ⟨hkeys.1, haxes.1 hlength, hkeys.2⟩
  · rintro ⟨hkey, hlength, hkeys⟩
    refine ⟨haxes.2 hlength, ?_⟩
    rw [meetings_cons h, List.forall_mem_cons]
    exact ⟨hkey, hkeys⟩

/-! ### What is selected -/

/-- The failure of an index. -/
def InvalidKey (e : Error) : Prop := ∃ found, e = .invalidOperand "get_item" found

theorem answersIff_checkIndex (hlen : (len : Int) ≤ Int64.maxValue.toInt) (i : Int64) :
    AnswersIff (-(len : Int) ≤ i.toInt ∧ i.toInt < len) (fun _ => True) InvalidKey
      (checkIndex len i) := by
  have hl : (Int64.ofNat len).toInt = len := toInt_ofNat hlen
  have hneg : (-Int64.ofNat len).toInt = -len := by
    rw [Int64.toInt_maxValue] at hlen
    rw [Int64.toInt_neg, hl, Word.bmod_of_inRange]
    unfold Word.InRange
    omega
  simp only [checkIndex, Int64.lt_iff_toInt_lt, Int64.le_iff_toInt_le, hl, hneg]
  split
  · exact .error (by omega) ⟨_, rfl⟩
  · exact .ok (by omega) trivial

theorem answersIff_index (hlen : (len : Int) ≤ Int64.maxValue.toInt) (n : Number) :
    AnswersIff ((Value.number n).IsKeyFor len) (fun _ => True) InvalidKey
      (do checkIndex len (← Value.knownInt "get_item" (.number n))) := by
  cases hi : n.toInt? with
  | none =>
    have hknown : Value.knownInt "get_item" (.number n) = (Value.number n).invalid "get_item" := by
      simp only [Value.knownInt, Value.known, bind, Except.bind, hi]
    have hkey : ¬(Value.number n).IsKeyFor len := by
      rintro ⟨i, hi', -⟩
      cases hi.symm.trans hi'
    rw [hknown]
    exact .error hkey ⟨_, rfl⟩
  | some i =>
    have hknown : Value.knownInt "get_item" (.number n) = .ok i := by
      simp only [Value.knownInt, Value.known, bind, Except.bind, hi]
    have hkey : (Value.number n).IsKeyFor len ↔ -(len : Int) ≤ i.toInt ∧ i.toInt < len := by
      simp [Value.IsKeyFor, hi]
    rw [hknown]
    exact (answersIff_checkIndex hlen i).congr hkey.symm

theorem answersIff_count (hlen : (len : Int) ≤ Int64.maxValue.toInt) (s : Slice) :
    AnswersIff ((Value.slice s).IsKeyFor len) (s.count "get_item" len = .ok ·) InvalidKey
      (s.count "get_item" len) := by
  rw [s.count_eq "get_item" hlen]
  split
  · exact .error (fun h => h ‹_›) ⟨_, rfl⟩
  · exact .ok ‹_› rfl

theorem select_nil_of_takesAxis (rank : Nat) (h : key.takesAxis) :
    select rank (key :: keys) [] = .error (.invalidOperand "get_item"
      s!"too many indices for a tensor of rank {rank}") := by
  cases key with
  | none => cases h
  | _ => rfl

/-- One key and the axis that it meets, and then the others. -/
theorem answersIff_select_cons (rank : Nat) (hkey : key.takesAxis)
    (hlen : (len : Int) ≤ Int64.maxValue.toInt)
    (hrest : AnswersIff (Selectable keys shape) (Leaves keys shape) InvalidKey
      (select rank keys shape)) :
    AnswersIff (Selectable (key :: keys) (len :: shape)) (Leaves (key :: keys) (len :: shape))
      InvalidKey (select rank (key :: keys) (len :: shape)) := by
  refine AnswersIff.congr ?_ (selectable_cons hkey).symm
  cases key with
  | none => cases hkey
  | number n =>
    rw [select, ← bind_assoc]
    exact (answersIff_index hlen n).bind fun _ _ => hrest.mono fun _ => .index n
  | slice s =>
    exact (answersIff_count hlen s).bind fun n hn => hrest.map _ fun _ => .slice hn
  | proxy p =>
    cases p with
    | number p =>
      change AnswersIff _ _ _ (if p.kind ≤ .int then _ else _)
      split
      · exact (hrest.mono fun _ => .proxy p).congr (and_iff_right ‹_›).symm
      · exact .error (mt And.left ‹_›) ⟨_, rfl⟩
    | _ => exact .error And.left ⟨_, rfl⟩
  | _ => exact .error And.left ⟨_, rfl⟩

theorem answersIff_select (rank : Nat) (keys : List Value)
    (hshape : ∀ n ∈ shape, (n : Int) ≤ Int64.maxValue.toInt) :
    AnswersIff (Selectable keys shape) (Leaves keys shape) InvalidKey (select rank keys shape) := by
  induction keys generalizing shape with
  | nil => exact .ok (selectable_nil shape) (.rest shape)
  | cons key keys ih =>
    by_cases hkey : key.takesAxis
    · cases shape with
      | nil =>
        rw [select_nil_of_takesAxis rank hkey]
        exact .error (not_selectable_of_takesAxis hkey) ⟨_, rfl⟩
      | cons len shape =>
        obtain ⟨hlen, hshape⟩ := List.forall_mem_cons.1 hshape
        exact answersIff_select_cons rank hkey hlen (ih hshape)
    · cases key with
      | none => exact ((ih hshape).map _ fun _ => .insert).congr selectable_none_cons.symm
      | _ => exact absurd rfl hkey

/-! ### How many elements are left -/

theorem Leaves.unique {out' : List Nat} (h : Leaves keys shape out) (h' : Leaves keys shape out') :
    out' = out := by
  induction h generalizing out' with
  | rest _ => cases h' with | rest _ => rfl
  | insert _ ih => cases h' with | insert h' => rw [ih h']
  | index _ _ ih => cases h' with | index _ h' => exact ih h'
  | proxy _ _ ih => cases h' with | proxy _ h' => exact ih h'
  | slice hs _ ih =>
    cases h' with
    | slice hs' h' =>
      cases hs.symm.trans hs'
      rw [ih h']

theorem Leaves.extents (h : Leaves keys shape out)
    (hshape : ∀ n ∈ shape, (n : Int) ≤ Int64.maxValue.toInt) :
    ∀ n ∈ out, (n : Int) ≤ Int64.maxValue.toInt := by
  induction h with
  | rest _ => exact hshape
  | insert _ ih => exact List.forall_mem_cons.2 ⟨by decide, ih hshape⟩
  | index _ _ ih => exact ih (List.forall_mem_cons.1 hshape).2
  | proxy _ _ ih => exact ih (List.forall_mem_cons.1 hshape).2
  | slice hs _ ih =>
    obtain ⟨hlen, hshape⟩ := List.forall_mem_cons.1 hshape
    have hle := Slice.count_le hs hlen
    exact List.forall_mem_cons.2 ⟨by omega, ih hshape⟩

/-- No number proxy meets an axis without elements. -/
def Occupied (keys : List Value) (shape : List Nat) : Prop :=
  ∀ p : NumberProxy, ((p : Value), 0) ∉ meetings keys shape

theorem Occupied.of_cons (hkey : key.takesAxis) (h : Occupied (key :: keys) (len :: shape)) :
    (∀ p : NumberProxy, key = p → len ≠ 0) ∧ Occupied keys shape := by
  rw [Occupied, meetings_cons hkey] at h
  refine ⟨?_, fun p hp => h p (.tail _ hp)⟩
  rintro p rfl rfl
  exact h p (.head _)

theorem occupied_of_zero_not_mem (h : 0 ∉ shape) : Occupied keys shape :=
  fun _ hp => h (List.of_mem_zip hp).2

theorem prod_takeWhile_le_cons (h : len ≠ 0) (shape : List Nat) :
    (shape.takeWhile (· ≠ 0)).prod ≤ ((len :: shape).takeWhile (· ≠ 0)).prod := by
  rw [prod_takeWhile_cons h]
  exact Nat.le_mul_of_pos_left _ (Nat.pos_of_ne_zero h)

theorem Leaves.prod_takeWhile_le (h : Leaves keys shape out) (hkeys : Selectable keys shape)
    (hoccupied : Occupied keys shape)
    (hshape : ∀ n ∈ shape, (n : Int) ≤ Int64.maxValue.toInt) :
    (out.takeWhile (· ≠ 0)).prod ≤ (shape.takeWhile (· ≠ 0)).prod := by
  induction h with
  | rest _ => exact le_rfl
  | insert _ ih =>
    rw [prod_takeWhile_cons Nat.one_ne_zero, Nat.one_mul]
    exact ih (selectable_none_cons.1 hkeys) hoccupied hshape
  | index n _ ih =>
    obtain ⟨⟨i, -, hi⟩, hkeys⟩ := (selectable_cons rfl).1 hkeys
    obtain ⟨-, hoccupied⟩ := hoccupied.of_cons rfl
    refine (ih hkeys hoccupied (List.forall_mem_cons.1 hshape).2).trans ?_
    exact prod_takeWhile_le_cons (by omega) _
  | proxy p _ ih =>
    obtain ⟨-, hkeys⟩ := (selectable_cons rfl).1 hkeys
    obtain ⟨hlen, hoccupied⟩ := hoccupied.of_cons rfl
    refine (ih hkeys hoccupied (List.forall_mem_cons.1 hshape).2).trans ?_
    exact prod_takeWhile_le_cons (hlen p rfl) _
  | @slice keys len n shape out s hs _ ih =>
    obtain ⟨-, hkeys⟩ := (selectable_cons rfl).1 hkeys
    obtain ⟨-, hoccupied⟩ := hoccupied.of_cons rfl
    obtain ⟨hlen, hshape⟩ := List.forall_mem_cons.1 hshape
    have hle := Slice.count_le hs hlen
    by_cases hn : n = 0
    · subst hn
      exact prod_takeWhile_pos (len :: shape)
    · rw [prod_takeWhile_cons hn, prod_takeWhile_cons (by omega)]
      exact Nat.mul_le_mul hle (ih hkeys hoccupied hshape)

/-- What is left of a tensor can be counted. -/
theorem Leaves.numel?_eq {n : Nat} (h : Leaves keys shape out) (hkeys : Selectable keys shape)
    (hoccupied : Occupied keys shape) (hshape : ∀ n ∈ shape, (n : Int) ≤ Int64.maxValue.toInt)
    (hcount : numel? shape = some n) : numel? out = some out.prod := by
  have hcount' := ((count?_eq_some_iff (by decide)).1 hcount).2
  have hle := h.prod_takeWhile_le hkeys hoccupied hshape
  refine (count?_eq_some_iff (by decide)).2 ⟨(Nat.one_mul _).symm, ?_⟩
  omega

end Shape

/-- The tensor of the shape that is left, and for the rest as it was. -/
theorem TensorProxy.WellFormed.sketch_leaves {x : TensorProxy} {keys : List Value} {out : List Nat}
    (hx : x.WellFormed) (h : Shape.Leaves keys x.shape out)
    (hkeys : Shape.Selectable keys x.shape) (hoccupied : Shape.Occupied keys x.shape) :
    TensorSpec.sketch { like := x, shape := Shape.toExtents out } =
      .ok (.tensor out x.device x.trueDtype.toStrong x.trueDtype out.prod out.length) := by
  have hextents := h.extents hx.extents
  have hshape := TensorSpec.shapeOf_withExtents { like := x } (Shape.toExtents out)
  rw [if_pos (Shape.toExtents_nonneg hextents), Shape.naturals_toExtents hextents] at hshape
  exact TensorSpec.sketch_of_count hshape rfl rfl (h.numel?_eq hkeys hoccupied hx.extents hx.count)

theorem Recorder.planGetItem_tensor (x : TensorProxy) (key : Value) :
    planGetItem x key = (do
      let shape ← Shape.select x.ndim (keys key) x.shape
      planReshaped "get_item" [(x : Value), key] x shape) := rfl

/-- The tensor is indexed by the key, or the tuple of keys. -/
def TensorProxy.TakesKey (x : TensorProxy) (s : Session) (key : Value) : Prop :=
  ∃ v s', ((x : Value).getItem key).on s = (.ok v, s')

namespace Run

open Shape

variable {run : Run} {r : Recorder} {t : Trace} {x : TensorProxy} {key : Value}

/-- A tensor of the shape that the keys leave and for the rest as it was; or else a failure that
names what is no key. -/
theorem getItem_succeedsIff (h : run.RecordsInto r t) (hx : run.Holds t x)
    (hkey : ∀ p ∈ key.proxies, p.owner = t.id)
    (hoccupied : Occupied (Recorder.keys key) x.shape) :
    SucceedsIff run.session (Selectable (Recorder.keys key) x.shape)
      (fun v : Value => ∃ y : TensorProxy, v = y ∧ Leaves (Recorder.keys key) x.shape y.shape ∧
        y.device = x.device ∧ y.trueDtype = x.trueDtype)
      InvalidKey (((x : Value).getItem key).on run.session) := by
  have hwf := h.wellFormed hx
  rw [Value.on_getItem_eq h.context h.active hx.owned hkey, Recorder.planGetItem_tensor]
  have hselect := answersIff_select x.ndim (Recorder.keys key) hwf.extents
  generalize select x.ndim (Recorder.keys key) x.shape = selected at hselect ⊢
  cases hselect with
  | @ok out hkeys hleaves =>
    have hplan : Recorder.planReshaped "get_item" [(x : Value), key] x out = .ok (.record "get_item"
        [(x : Value), key]
        (.tensor out x.device x.trueDtype.toStrong x.trueDtype out.prod out.length)) := by
      rw [Recorder.planReshaped, hwf.sketch_leaves hleaves hkeys hoccupied]
      rfl
    change SucceedsIff _ _ _ _
      (on (liftM (Plan.carryOut r (Recorder.planReshaped "get_item" [(x : Value), key] x out))) _)
    obtain ⟨w, hw, -⟩ := Plan.on_carryOut_ok (k := 0) _ r h.active
    rw [hplan, hw]
    exact .ok hkeys ⟨_, rfl, hleaves, rfl, rfl⟩
  | error hkeys he => exact .error hkeys he

/-- **What an index selects**, where no number proxy meets an axis without elements. There must be
an axis for each key but `None`, and each of them must be a key for the axis that it meets. The
result has the shape that the keys leave, is otherwise like the tensor, and can always be counted: a
failure is one of the keys, and changes nothing. -/
theorem takesKey_iff (h : run.RecordsInto r t) (hx : run.Holds t x)
    (hkey : ∀ p ∈ key.proxies, p.owner = t.id)
    (hoccupied : Occupied (Recorder.keys key) x.shape) :
    (x.TakesKey run.session key ↔ Selectable (Recorder.keys key) x.shape) ∧
    (∀ v s, ((x : Value).getItem key).on run.session = (.ok v, s) → ∃ y : TensorProxy, v = y ∧
      (∀ shape, Leaves (Recorder.keys key) x.shape shape ↔ shape = y.shape) ∧
      y.device = x.device ∧ y.trueDtype = x.trueDtype) ∧
    (¬x.TakesKey run.session key → ∃ found,
      ((x : Value).getItem key).on run.session =
        (.error (.invalidOperand "get_item" found), run.session)) ∧
    ∀ extents s, ((x : Value).getItem key).on run.session ≠
      (.error (.invalidShape extents "numel overflows"), s) := by
  have hspec := getItem_succeedsIff h hx hkey hoccupied
  have hiff : x.TakesKey run.session key ↔ Selectable (Recorder.keys key) x.shape :=
    hspec.exists_ok_iff
  refine ⟨hiff, fun v s hv => ?_, fun hnot => ?_, fun extents s herror => ?_⟩
  · obtain ⟨y, rfl, hleaves, hdevice, hdtype⟩ := hspec.of_ok hv
    refine ⟨y, rfl, fun shape => ⟨hleaves.unique, ?_⟩, hdevice, hdtype⟩
    rintro rfl
    exact hleaves
  · obtain ⟨_, herror, found, rfl⟩ := hspec.of_not (mt hiff.2 hnot)
    exact ⟨found, herror⟩
  · have hnot : ¬Selectable (Recorder.keys key) x.shape := fun hkeys => by
      obtain ⟨v, s', hv⟩ := hiff.2 hkeys
      rw [herror] at hv
      cases hv
    obtain ⟨_, herror', found, rfl⟩ := hspec.of_not hnot
    rw [herror] at herror'
    cases herror'

/-- An index, a slice, `None` and a number proxy leave two of three axes; the least index of an axis
is minus its length. -/
theorem takesKey_iff_three : ∃ run r t x, RecordsInto run r t ∧ run.Holds t x ∧
    x.shape = [4, 5, 6] ∧
    (∃ (p : NumberProxy) (y : TensorProxy) (s : Session), p.symbol.owner = t.id ∧
      ((x : Value).getItem (.tuple [.int (-4), .slice ⟨some 1, none, some 2⟩, .none, p])).on
        run.session = (.ok y, s) ∧ y.shape = [2, 1]) ∧
    ∃ found, ((x : Value).getItem (.int (-5))).on run.session =
      (.error (.invalidOperand "get_item" found), run.session) := by
  obtain ⟨run, r, t, x, h, hx, hshape, -⟩ := exists_holds [4, 5, 6] (by decide)
  have hshape : x.shape = [4, 5, 6] := hshape
  have hoccupied (keys : List Value) : Occupied keys x.shape :=
    occupied_of_zero_not_mem (by rw [hshape]; decide)
  refine ⟨run, r, t, x, h, hx, hshape, ?_, ?_⟩
  · let p : NumberProxy := ⟨⟨"n0", t.id⟩, .int, none⟩
    have hkey : ∀ q ∈ (Value.tuple [.int (-4), .slice ⟨some 1, none, some 2⟩, .none, p]).proxies,
        q.owner = t.id := by
      intro q hq
      obtain rfl := List.mem_singleton.1 hq
      rfl
    obtain ⟨htakes, hok, -, -⟩ := takesKey_iff h hx hkey (hoccupied _)
    rw [hshape] at htakes hok
    have hrest : Selectable [.none, p] [6] :=
      selectable_none_cons.2 ((selectable_cons rfl).2 ⟨Nat.le_refl 1, selectable_nil []⟩)
    obtain ⟨v, s, hv⟩ := htakes.2 ((selectable_cons rfl).2
      ⟨⟨-4, rfl, by decide, by decide⟩, (selectable_cons rfl).2 ⟨nofun, hrest⟩⟩)
    obtain ⟨y, rfl, hleaves, -⟩ := hok v s hv
    refine ⟨p, y, s, rfl, hv, ((hleaves _).1 ?_).symm⟩
    exact .index _ (.slice rfl (.insert (.proxy p (.rest []))))
  · have hkey : ∀ q ∈ (Value.int (-5)).proxies, q.owner = t.id := fun _ hq => nomatch hq
    obtain ⟨htakes, -, hnot, -⟩ := takesKey_iff h hx hkey (hoccupied _)
    refine hnot fun hkeys => ?_
    rw [htakes, hshape] at hkeys
    obtain ⟨⟨i, hi, hlow, -⟩, -⟩ := (selectable_cons rfl).1 hkeys
    cases hi
    exact absurd hlow (by decide)

/-- A number proxy that meets an axis without elements brings large extents behind it to the front:
then a tensor of no elements is left with too many. -/
theorem getItem_overflows : ∃ run r t x, RecordsInto run r t ∧ run.Holds t x ∧ x.numel = 0 ∧
    ∃ p : NumberProxy, p.symbol.owner = t.id ∧ Selectable [p] x.shape ∧
      ((x : Value).getItem p).on run.session =
        (.error (.invalidShape [0x100000000, 0x100000000] "numel overflows"), run.session) := by
  obtain ⟨run, r, t, x, h, hx, hshape, hnumel⟩ :=
    exists_holds [0, 0x100000000, 0x100000000] (by decide)
  have hshape : x.shape = [0, 0x100000000, 0x100000000] := hshape
  let p : NumberProxy := ⟨⟨"n0", t.id⟩, .int, none⟩
  have hkey : ∀ q ∈ (p : Value).proxies, q.owner = t.id := by
    intro q hq
    obtain rfl := List.mem_singleton.1 hq
    rfl
  have hselect : select x.ndim [p] x.shape = .ok [0x100000000, 0x100000000] := by
    rw [hshape]
    rfl
  refine ⟨run, r, t, x, h, hx, hnumel, p, rfl, ?_, ?_⟩
  · rw [hshape]
    exact (selectable_cons rfl).2 ⟨Nat.le_refl 1, selectable_nil _⟩
  · rw [Value.on_getItem_eq h.context h.active hx.owned hkey, Recorder.planGetItem_tensor]
    rw [show Recorder.keys p = [(p : Value)] from rfl, hselect]
    rfl

end Run

end ProxyTrace
