/-!
Names and where fresh ones come from. A source proposes candidates in order and never runs out of
new ones, so the search for a free name ends.
-/

namespace ProxyTrace

/-- A name that a trace gives out. -/
abbrev Name := String

/-- A stream of candidate names and how far it has been drawn. -/
structure NameSource where
  candidate : Nat → Name
  position : Nat
  /-- Outside any finite list of names there is a later candidate. A run draws finitely often, and
  so does not tell a generator that repeats itself from a source with the same first candidates
  (`NameSource.exists_source_of_lt`). -/
  unbounded : ∀ (taken : List Name) (start : Nat), ∃ i, start ≤ i ∧ candidate i ∉ taken

namespace NameSource

/-- A stream that repeats nothing from some place on never runs out. -/
theorem unbounded_of_ne {candidate : Nat → Name} {tail : Nat}
    (h : ∀ i j, tail ≤ i → i < j → candidate i ≠ candidate j) (taken : List Name) (start : Nat) :
    ∃ i, start ≤ i ∧ candidate i ∉ taken := by
  suffices H : ∀ start, tail ≤ start → ∃ i, start ≤ i ∧ candidate i ∉ taken by
    obtain ⟨i, hi, hfree⟩ := H (max start tail) (Nat.le_max_right ..)
    exact ⟨i, Nat.le_trans (Nat.le_max_left ..) hi, hfree⟩
  induction taken with
  | nil => exact fun start _ => ⟨start, Nat.le_refl _, List.not_mem_nil⟩
  | cons x xs ih =>
    intro start hstart
    obtain ⟨i, hi, hfree⟩ := ih start hstart
    by_cases hx : candidate i = x
    · obtain ⟨j, hj, hfree'⟩ := ih (i + 1) (by omega)
      refine ⟨j, by omega, fun hmem => ?_⟩
      rcases List.mem_cons.1 hmem with hjx | hjxs
      · exact h i j (by omega) (by omega) (hx.trans hjx.symm)
      · exact hfree' hjxs
    · refine ⟨i, hi, fun hmem => ?_⟩
      rcases List.mem_cons.1 hmem with hix | hixs
      · exact hx hix
      · exact hfree hixs

theorem repr_injective {m n : Nat} (h : Nat.repr m = Nat.repr n) : m = n := by
  have h' : Nat.toDigits 10 m = Nat.toDigits 10 n := by
    rw [← Nat.toList_repr, ← Nat.toList_repr, h]
  rw [← @Nat.ofDigitChars_toDigits 10 m (by decide) (by decide), h',
    Nat.ofDigitChars_toDigits (by decide) (by decide)]

/-- A text followed by 0, 1, 2, ... -/
def counter (lead : String) : NameSource where
  candidate i := lead ++ Nat.repr i
  position := 0
  unbounded := @unbounded_of_ne _ 0 fun _ _ _ hij heq =>
    absurd (repr_injective (String.append_right_inj lead |>.1 heq)) (Nat.ne_of_lt hij)

instance : Inhabited NameSource := ⟨counter "t"⟩

/-- The given names once, in order, and then what the other source proposes from its beginning. -/
def listed (names : List Name) (source : NameSource) : NameSource where
  candidate i := names[i]?.getD (source.candidate (i - names.length))
  position := 0
  unbounded taken start := by
    obtain ⟨i, hi, hfree⟩ := source.unbounded taken start
    refine ⟨i + names.length, by omega, ?_⟩
    rwa [List.getElem?_eq_none (by omega), Option.getD_none, Nat.add_sub_cancel]

/-- A place from which a candidate outside `taken` is still to come. -/
structure Pending (s : NameSource) (taken : List Name) where
  index : Nat
  pending : ∃ j, index ≤ j ∧ s.candidate j ∉ taken

/-- One place on, past a taken candidate. -/
def Pending.Next {s : NameSource} {taken : List Name} (later earlier : Pending s taken) : Prop :=
  later.index = earlier.index + 1 ∧ s.candidate earlier.index ∈ taken

theorem Pending.next_wf {s : NameSource} {taken : List Name} :
    WellFounded (@Pending.Next s taken) := by
  refine ⟨fun ⟨i, j, hij, hfree⟩ => ?_⟩
  obtain ⟨k, rfl⟩ := Nat.exists_eq_add_of_le hij
  induction k generalizing i with
  | zero => exact ⟨_, fun _ hnext => absurd hnext.2 hfree⟩
  | succ k ih =>
    refine ⟨_, fun later hnext => ?_⟩
    obtain ⟨l, hl⟩ := later
    obtain rfl : l = i + 1 := hnext.1
    exact ih (i + 1) (by omega) (by rwa [show i + 1 + k = i + (k + 1) by omega])

instance {s : NameSource} {taken : List Name} : WellFoundedRelation (Pending s taken) :=
  ⟨Pending.Next, Pending.next_wf⟩

/-- The first place from which on the candidate is not taken. -/
def firstFree (s : NameSource) (taken : List Name) (p : Pending s taken) : Nat :=
  if h : s.candidate p.index ∈ taken then
    firstFree s taken ⟨p.index + 1, by
      obtain ⟨j, hj, hfree⟩ := p.pending
      refine ⟨j, ?_, hfree⟩
      rcases Nat.eq_or_lt_of_le hj with heq | hlt
      · exact absurd (heq ▸ h) hfree
      · exact hlt⟩
  else p.index
termination_by p
decreasing_by exact ⟨rfl, h⟩

/-- The next candidate that is not taken, and the source drawn past it. -/
def draw (s : NameSource) (taken : List Name) : Name × NameSource :=
  let i := firstFree s taken ⟨s.position, s.unbounded taken s.position⟩
  (s.candidate i, { s with position := i + 1 })

theorem firstFree_not_mem (s : NameSource) (taken : List Name) (p : Pending s taken) :
    s.candidate (firstFree s taken p) ∉ taken := by
  fun_induction firstFree s taken p with
  | case1 _ _ ih => exact ih
  | case2 _ h => exact h

/-- A candidate that is not taken is drawn at once. -/
theorem draw_of_not_mem {s : NameSource} {taken : List Name}
    (h : s.candidate s.position ∉ taken) :
    s.draw taken = (s.candidate s.position, { s with position := s.position + 1 }) := by
  have hfirst : s.firstFree taken ⟨s.position, s.unbounded taken s.position⟩ = s.position := by
    rw [firstFree, dif_neg h]
  rw [draw, hfirst]

theorem draw_not_mem (s : NameSource) (taken : List Name) : (s.draw taken).1 ∉ taken :=
  s.firstFree_not_mem taken _

end NameSource

end ProxyTrace
