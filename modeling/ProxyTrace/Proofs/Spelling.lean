import Mathlib.Data.List.Induction
import ProxyTrace.DType
import ProxyTrace.Device

/-!
# Spellings

The texts of devices and of element types as grammars (`Device.Spells`, `DType.Spells`). The readers
take exactly these texts, for what they spell, and what is written is one of them, so that reading
it gives it back (`reads_spellings`). A device may be spelled in many ways, by zeros that lead and
a plus sign; it is written in one of them.
-/

namespace ProxyTrace

/-! ### Numerals -/

namespace Decimal

/-- The text is a numeral of the number: a digit, or a numeral and one more digit. -/
inductive Numeral : String → Nat → Prop
  | digit {d : Nat} (hd : d < 10) : Numeral (String.singleton d.digitChar) d
  | push {s : String} {n d : Nat} (h : Numeral s n) (hd : d < 10) :
    Numeral (s.push d.digitChar) (10 * n + d)

variable {cs : List Char} {c : Char} {s : String} {n : Nat}

theorem natural?_eq_some_iff :
    natural? cs = some n ↔ cs ≠ [] ∧ (∀ c ∈ cs, c.isDigit) ∧ Nat.ofDigitChars 10 cs 0 = n := by
  cases cs with
  | nil => simp [natural?, digits?]
  | cons c cs =>
    by_cases h : (c :: cs).all Char.isDigit
    · simp only [natural?, digits?, if_pos h, List.length_cons, Option.some_inj]
      simp only [List.all_eq_true] at h
      exact ⟨fun hn => ⟨nofun, h, hn⟩, fun hn => hn.2.2⟩
    · simp only [natural?, digits?, if_neg h, reduceCtorEq, false_iff]
      simp only [List.all_eq_true] at h
      exact fun hn => h hn.2.1

theorem exists_digitChar (h : c.isDigit) : ∃ d < 10, c = Nat.digitChar d := by
  have hc : 48 ≤ c.toNat ∧ c.toNat ≤ 57 := by
    simpa [Char.isDigit, UInt32.le_iff_toNat_le] using h
  refine ⟨c.toNat - 48, by omega, Char.toNat_inj.1 ?_⟩
  rw [Nat.toNat_digitChar_of_lt_ten (by omega)]
  omega

theorem ofDigitChars_snoc {d : Nat} (hd : d < 10) (cs : List Char) :
    Nat.ofDigitChars 10 (cs ++ [d.digitChar]) 0 = 10 * Nat.ofDigitChars 10 cs 0 + d := by
  rw [Nat.ofDigitChars_append, Nat.ofDigitChars_cons, Nat.ofDigitChars_nil]
  exact congrArg _ (Nat.toNat_digitChar_sub_48_of_lt_ten hd)

theorem Numeral.natural? (h : Numeral s n) : natural? s.toList = some n := by
  rw [natural?_eq_some_iff]
  induction h with
  | @digit d hd =>
    refine ⟨by simp, ?_, ?_⟩
    · simpa [Nat.isDigit_digitChar] using hd
    · simpa using ofDigitChars_snoc hd []
  | @push s n d h hd ih =>
    obtain ⟨-, hdigits, rfl⟩ := ih
    rw [String.toList_push]
    refine ⟨by simp, List.forall_mem_append.2 ⟨hdigits, ?_⟩, ofDigitChars_snoc hd _⟩
    simpa [Nat.isDigit_digitChar] using hd

theorem numeral_of_natural? (h : natural? cs = some n) : Numeral (String.ofList cs) n := by
  obtain ⟨hne, hdigits, rfl⟩ := natural?_eq_some_iff.1 h
  clear h
  induction cs using List.reverseRecOn with
  | nil => exact absurd rfl hne
  | append_singleton cs c ih =>
    obtain ⟨hcs, hc⟩ := List.forall_mem_append.1 hdigits
    obtain ⟨d, hd, rfl⟩ := exists_digitChar (hc c (.head _))
    rw [ofDigitChars_snoc hd]
    rcases eq_or_ne cs [] with rfl | hcs'
    · rw [Nat.ofDigitChars_nil, Nat.mul_zero, Nat.zero_add]
      exact .digit hd
    · have hpush : String.ofList (cs ++ [d.digitChar]) = (String.ofList cs).push d.digitChar := by
        rw [← String.toList_inj, String.toList_push]
        simp
      rw [hpush]
      exact .push (ih hcs' hcs) hd

theorem natural?_toList_iff : natural? s.toList = some n ↔ Numeral s n :=
  ⟨fun h => by simpa using numeral_of_natural? h, Numeral.natural?⟩

theorem numeral_repr (n : Nat) : Numeral (Nat.repr n) n := by
  rw [← natural?_toList_iff, Nat.toList_repr, natural?_eq_some_iff]
  exact ⟨Nat.toDigits_ne_nil, fun c hc => Nat.isDigit_of_mem_toDigits (by decide) (by decide) hc,
    Nat.ofDigitChars_toDigits (by decide) (by decide)⟩

end Decimal

/-! ### Devices -/

namespace Device

/-- The text spells the device: its type, and for one of several the index after a colon, with or
without a plus sign. -/
inductive Spells : String → Device → Prop
  | cpu : Spells "cpu" cpu
  | metadata : Spells "meta" metadata
  | first : Spells "cuda" (cuda 0)
  | index {s : String} {i : UInt32} (h : Decimal.Numeral s i.toNat) : Spells ("cuda:" ++ s) (cuda i)
  | plus {s : String} {i : UInt32} (h : Decimal.Numeral s i.toNat) :
    Spells ("cuda:+" ++ s) (cuda i)

variable {cs : List Char} {s : String} {d : Device} {i : UInt32}

theorem ofIndex?_eq_some_iff :
    ofIndex? cs = some d ↔ ∃ i : UInt32, d = cuda i ∧ Decimal.positive? cs = some i.toNat := by
  unfold ofIndex?
  cases hn : Decimal.positive? cs with
  | none => simp
  | some n =>
    simp only [Option.bind_eq_bind, Option.bind_some, Option.some_inj]
    constructor
    · intro h
      split at h <;> cases h
      exact ⟨_, rfl, (UInt32.toNat_ofNat_of_lt' ‹_›).symm⟩
    · rintro ⟨i, rfl, rfl⟩
      rw [if_pos i.toNat_lt, UInt32.ofNat_toNat]

/-- A numeral does not begin with the sign that may come before it. -/
theorem positive?_eq_some_iff {n : Nat} : Decimal.positive? cs = some n ↔
    Decimal.natural? cs = some n ∨ ∃ cs', cs = '+' :: cs' ∧ Decimal.natural? cs' = some n := by
  unfold Decimal.positive?
  split
  · rename_i cs
    have hsign : Decimal.natural? ('+' :: cs) ≠ some n := by
      rw [ne_eq, Decimal.natural?_eq_some_iff]
      exact fun h => nomatch h.2.1 '+' (.head _)
    simp [hsign]
  · rename_i hsign
    refine (or_iff_left ?_).symm
    rintro ⟨cs, rfl, -⟩
    exact hsign cs rfl

theorem ofChars?_cuda (cs : List Char) : ofChars? ("cuda:".toList ++ cs) = ofIndex? cs := rfl

theorem spells_of_ofIndex? (h : ofIndex? cs = some d) : Spells ("cuda:" ++ String.ofList cs) d := by
  obtain ⟨i, rfl, hi⟩ := ofIndex?_eq_some_iff.1 h
  rcases positive?_eq_some_iff.1 hi with hi | ⟨cs, rfl, hi⟩
  · exact .index (Decimal.numeral_of_natural? hi)
  · have hplus : "cuda:" ++ String.ofList ('+' :: cs) = "cuda:+" ++ String.ofList cs := by
      rw [← String.toList_inj]
      simp
    rw [hplus]
    exact .plus (Decimal.numeral_of_natural? hi)

theorem spells_of_ofChars? (h : ofChars? s.toList = some d) : Spells s d := by
  have hsplit : s = String.ofList (s.toList.takeWhile (· ≠ ':')) ++
      String.ofList (s.toList.dropWhile (· ≠ ':')) := by
    rw [← String.ofList_append, List.takeWhile_append_dropWhile, String.ofList_toList]
  have hcolon := List.head?_dropWhile_not (· ≠ ':') s.toList
  unfold ofChars? at h
  split at h
  · rename_i hkind hrest
    cases h
    rw [hsplit, hkind, hrest]
    exact .cpu
  · rename_i hkind hrest
    cases h
    rw [hsplit, hkind, hrest]
    exact .metadata
  · rename_i hkind hrest
    cases h
    rw [hsplit, hkind, hrest]
    exact .first
  · rename_i c index hkind hrest
    rw [hrest] at hcolon
    obtain rfl : c = ':' := by simpa using hcolon
    have hindex : "cuda" ++ String.ofList (':' :: index) = "cuda:" ++ String.ofList index := by
      rw [← String.toList_inj]
      simp
    rw [hsplit, hkind, hrest, hindex]
    exact spells_of_ofIndex? h
  · cases h

theorem Spells.ofChars? (h : Spells s d) : ofChars? s.toList = some d := by
  cases h with
  | cpu => rfl
  | metadata => rfl
  | first => rfl
  | @index s i h =>
    rw [String.toList_append, ofChars?_cuda, ofIndex?_eq_some_iff]
    exact ⟨i, rfl, positive?_eq_some_iff.2 (.inl h.natural?)⟩
  | @plus s i h =>
    have hplus : ("cuda:+" ++ s).toList = "cuda:".toList ++ '+' :: s.toList := by simp
    rw [hplus, ofChars?_cuda, ofIndex?_eq_some_iff]
    exact ⟨i, rfl, positive?_eq_some_iff.2 (.inr ⟨_, rfl, h.natural?⟩)⟩

theorem ofChars?_toList_iff : ofChars? s.toList = some d ↔ Spells s d :=
  ⟨spells_of_ofChars?, Spells.ofChars?⟩

theorem spells_text (d : Device) : Spells d.text d := by
  cases d with
  | cpu => exact .cpu
  | cuda i => exact .index (Decimal.numeral_repr i.toNat)
  | metadata => exact .metadata

end Device

/-! ### Element types -/

/-- The text is one of the two names of the scalar type. -/
def ScalarType.Spells (s : String) (t : ScalarType) : Prop := s = t.name ∨ s = t.shortName

theorem ScalarType.ofName?_eq_some_iff {s : String} {t : ScalarType} :
    ofName? s = some t ↔ Spells s t := by
  constructor
  · intro h
    have hname := List.find?_some h
    rw [Bool.or_eq_true, beq_iff_eq, beq_iff_eq] at hname
    exact hname.imp Eq.symm Eq.symm
  · rintro (rfl | rfl)
    · exact ofName?_name t
    · exact ofName?_shortName t

/-- No name ends as the mark of a weak type. -/
theorem ScalarType.Spells.getLast? {s : String} {t : ScalarType} (h : Spells s t) :
    s.toList.getLast? ≠ some '_' := by
  rcases h with rfl | rfl <;> cases t <;> decide

namespace DType

/-- The text spells the element type: a name of its scalar type, with one underscore at its end for
the weak form. -/
inductive Spells : String → DType → Prop
  | strong {s : String} {t : ScalarType} (h : ScalarType.Spells s t) : Spells s { scalar := t }
  | weak {s : String} {t : ScalarType} (h : ScalarType.Spells s t) :
    Spells (s ++ "_") { scalar := t, weak := true }

variable {cs : List Char} {s : String} {d : DType}

theorem ofChars?_snoc (cs : List Char) : ofChars? (cs ++ ['_']) =
    (ScalarType.ofName? (String.ofList cs)).map fun scalar => { scalar, weak := true } := by
  simp [ofChars?]

theorem ofChars?_of_ne (h : cs.getLast? ≠ some '_') : ofChars? cs =
    (ScalarType.ofName? (String.ofList cs)).map fun scalar => { scalar } := by
  have hmark : (cs.getLast? == some '_') = false := beq_eq_false_iff_ne.2 h
  simp [ofChars?, hmark]

theorem spells_of_ofChars? (h : ofChars? s.toList = some d) : Spells s d := by
  by_cases hweak : s.toList.getLast? = some '_'
  · obtain ⟨cs, hcs⟩ := List.getLast?_eq_some_iff.1 hweak
    rw [hcs, ofChars?_snoc] at h
    obtain ⟨t, ht, rfl⟩ := Option.map_eq_some_iff.1 h
    have hs : s = String.ofList cs ++ "_" := by
      rw [← String.toList_inj, hcs]
      simp
    rw [hs]
    exact .weak (ScalarType.ofName?_eq_some_iff.1 ht)
  · rw [ofChars?_of_ne hweak, String.ofList_toList] at h
    obtain ⟨t, ht, rfl⟩ := Option.map_eq_some_iff.1 h
    exact .strong (ScalarType.ofName?_eq_some_iff.1 ht)

theorem Spells.ofChars? (h : Spells s d) : ofChars? s.toList = some d := by
  cases h with
  | strong h =>
    rw [ofChars?_of_ne h.getLast?, String.ofList_toList, ScalarType.ofName?_eq_some_iff.2 h]
    rfl
  | @weak s t h =>
    rw [String.toList_append]
    change DType.ofChars? (s.toList ++ ['_']) = _
    rw [ofChars?_snoc, String.ofList_toList, ScalarType.ofName?_eq_some_iff.2 h]
    rfl

theorem ofChars?_toList_iff : ofChars? s.toList = some d ↔ Spells s d :=
  ⟨spells_of_ofChars?, Spells.ofChars?⟩

/-- A name of the scalar type, with the mark of the type. -/
theorem spells_append_mark (h : ScalarType.Spells s d.scalar) : Spells (s ++ d.mark) d := by
  obtain ⟨t, weak⟩ := d
  cases weak with
  | true => exact .weak h
  | false =>
    rw [mark, if_neg Bool.false_ne_true, String.append_empty]
    exact .strong h

end DType

/-! ### Reading and writing -/

variable {α : Type} {read : String → Except Error α} {spells : String → α → Prop}
  {refusal : String → Error}

/-- The reader takes the texts that spell something, for what they spell, and refuses the others. -/
structure Reads (read : String → Except Error α) (spells : String → α → Prop)
    (refusal : String → Error) : Prop where
  ok_iff : ∀ s a, read s = .ok a ↔ spells s a
  error_iff : ∀ s e, read s = .error e ↔ e = refusal s ∧ ∀ a, ¬spells s a

theorem reads_of_spells (x : String → Option α)
    (hread : ∀ s, read s = (x s).elim (.error (refusal s)) .ok)
    (hx : ∀ s a, x s = some a ↔ spells s a) : Reads read spells refusal where
  ok_iff s a := by
    rw [hread, ← hx]
    cases x s <;> simp
  error_iff s e := by
    simp only [hread, ← hx]
    cases x s <;> simp [eq_comm]

theorem Device.reads_ofText : Reads ofText Spells .invalidDevice := by
  refine reads_of_spells (ofChars? ·.toList) (fun s => ?_) fun _ _ => ofChars?_toList_iff
  unfold ofText
  cases ofChars? s.toList <;> rfl

theorem DType.reads_ofText : Reads ofText Spells .invalidDType := by
  refine reads_of_spells (ofChars? ·.toList) (fun s => ?_) fun _ _ => ofChars?_toList_iff
  unfold ofText
  cases ofChars? s.toList <;> rfl

/-- What is read may be written in its place. -/
theorem Reads.bind_write (h : Reads read spells refusal) {write : α → String}
    (hwrite : ∀ a, spells (write a) a) (s : String) : (do read (write (← read s))) = read s := by
  cases hs : read s with
  | error e => rfl
  | ok a => exact (h.ok_iff _ a).2 (hwrite a)

/-- **Which texts are read.** The readers of devices and of element types take the texts of their
grammars, for what they spell, and refuse every other text by name. What is written is spelled so:
it is read back, also the short name of an element type, and so reading, writing and reading again
is reading. -/
theorem reads_spellings :
    Reads Device.ofText Device.Spells .invalidDevice ∧
    Reads DType.ofText DType.Spells .invalidDType ∧
    (∀ d : Device, Device.ofText d.text = .ok d) ∧
    (∀ d : DType, DType.ofText d.text = .ok d ∧ DType.ofText d.shortText = .ok d) ∧
    (∀ s, (do Device.ofText (← Device.ofText s).text) = Device.ofText s) ∧
    ∀ s, (do DType.ofText (← DType.ofText s).text) = DType.ofText s := by
  have hdevice := Device.reads_ofText
  have hdtype := DType.reads_ofText
  have htext (d : DType) : DType.Spells d.text d := DType.spells_append_mark (.inl rfl)
  have hshort (d : DType) : DType.Spells d.shortText d := DType.spells_append_mark (.inr rfl)
  refine ⟨hdevice, hdtype, fun d => (hdevice.ok_iff _ d).2 d.spells_text, fun d => ?_,
    hdevice.bind_write Device.spells_text, hdtype.bind_write htext⟩
  exact ⟨(hdtype.ok_iff _ d).2 (htext d), (hdtype.ok_iff _ d).2 (hshort d)⟩

example : Device.ofText "cuda:+007" = .ok (.cuda 7) := by decide +kernel

example : Device.ofText "cpu:1" = .error (.invalidDevice "cpu:1") := by decide +kernel

end ProxyTrace
