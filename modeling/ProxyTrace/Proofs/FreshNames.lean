import Mathlib.Data.Finset.Card
import Mathlib.Data.Set.Finite.Lemmas
import Mathlib.Order.Bounds.Basic
import Mathlib.Order.Interval.Finset.Nat
import ProxyTrace.Trace

/-!
# Fresh names

A trace looks for a fresh name by drawing candidates from its source, one after the other, until one
is not among its names (`NameSource.search?`). No bound is put on the search. It ends because
infinitely many names are to come, and exactly the streams of infinitely many names are sources
(`NameSource.exists_source_iff`). A counter repeats no name, so that each draw but the last one
takes another of the names that the trace has (`NameSource.IsFirstFree.le_add_card`). The main
statement is `Trace.makeName_finds_first`.
-/

namespace ProxyTrace

namespace NameSource

variable {candidate : Nat → Name} {taken : List Name} {place i limit : Nat}

/-- The search from a place on, given up after `limit` draws. A candidate that is taken is dropped;
the first other one is answered, with the place after it. -/
def search? (candidate : Nat → Name) (taken : List Name) (limit place : Nat) : Option (Name × Nat) :=
  match limit with
  | 0 => none
  | limit + 1 =>
    if candidate place ∈ taken then search? candidate taken limit (place + 1)
    else some (candidate place, place + 1)

/-- The first place from the given one on where the candidate is not taken. -/
def IsFirstFree (candidate : Nat → Name) (taken : List Name) (place i : Nat) : Prop :=
  IsLeast {j | place ≤ j ∧ candidate j ∉ taken} i

theorem isFirstFree_succ_iff (h : candidate place ∈ taken) :
    IsFirstFree candidate taken (place + 1) i ↔ IsFirstFree candidate taken place i := by
  have hset : {j | place + 1 ≤ j ∧ candidate j ∉ taken} = {j | place ≤ j ∧ candidate j ∉ taken} := by
    ext j
    refine and_congr_left fun hfree => ⟨Nat.le_of_succ_le, fun hj => ?_⟩
    exact Nat.lt_of_le_of_ne hj fun heq => hfree (heq ▸ h)
  rw [IsFirstFree, IsFirstFree, hset]

theorem isFirstFree_firstFree (s : NameSource) (taken : List Name) (p : Pending s taken) :
    IsFirstFree s.candidate taken p.index (s.firstFree taken p) := by
  fun_induction firstFree s taken p with
  | case1 p h ih => exact (isFirstFree_succ_iff h).1 ih
  | case2 p h => exact ⟨⟨Nat.le_refl _, h⟩, fun _ hj => hj.1⟩

/-- The search ends with the draw of the first free candidate, and not before. -/
theorem IsFirstFree.search?_eq (h : IsFirstFree candidate taken place i) (limit : Nat) :
    search? candidate taken limit place =
      if i < place + limit then some (candidate i, i + 1) else none := by
  induction limit generalizing place with
  | zero => exact (if_neg (Nat.not_lt.2 h.1.1)).symm
  | succ limit ih =>
    rw [search?]
    split
    · rename_i htaken
      rw [ih ((isFirstFree_succ_iff htaken).2 h), Nat.add_right_comm, Nat.add_assoc]
    · rename_i hfree
      obtain rfl : i = place := Nat.le_antisymm (h.2 ⟨Nat.le_refl _, hfree⟩) h.1.1
      exact (if_pos (by omega)).symm

/-- Where no name is repeated, each candidate before the first free one is another name that is
taken. -/
theorem IsFirstFree.le_add_card (h : IsFirstFree candidate taken place i)
    (hinjective : candidate.Injective) : i ≤ place + taken.toFinset.card := by
  have hdropped : ∀ j ∈ Finset.Ico place i, candidate j ∈ taken.toFinset := by
    intro j hj
    obtain ⟨hlow, hhigh⟩ := Finset.mem_Ico.1 hj
    rw [List.mem_toFinset]
    by_contra hfree
    exact Nat.not_le.2 hhigh (h.2 ⟨hlow, hfree⟩)
  have hcard := Finset.card_le_card_of_injOn candidate hdropped hinjective.injOn
  rw [Nat.card_Ico] at hcard
  omega

theorem counter_injective (lead : String) : (counter lead).candidate.Injective := fun _ _ h =>
  repr_injective ((String.append_right_inj lead).1 h)

/-- The streams of infinitely many names are the sources, drawn up to any place. -/
theorem exists_source_iff (candidate : Nat → Name) (place : Nat) :
    (∃ s : NameSource, s.candidate = candidate ∧ s.position = place) ↔
      (Set.range candidate).Infinite := by
  constructor
  · rintro ⟨s, rfl, -⟩ hfinite
    obtain ⟨i, -, hfree⟩ := s.unbounded hfinite.toFinset.toList 0
    exact hfree (by simp)
  · intro h
    refine ⟨⟨candidate, place, fun taken start => ?_⟩, rfl, rfl⟩
    by_contra hnone
    push Not at hnone
    -- all names would be drawn before `start`, or taken
    refine h (((Set.finite_lt_nat start).image candidate |>.union taken.finite_toSet).subset ?_)
    rintro _ ⟨i, rfl⟩
    rcases Nat.lt_or_ge i start with hi | hi
    · exact .inl ⟨i, hi, rfl⟩
    · exact .inr (hnone i hi)

/-- Whatever a generator yields later on, up to any place it is drawn from like some source. -/
theorem exists_source_of_lt (generated : Nat → Name) (n : Nat) :
    ∃ s : NameSource, s.position = 0 ∧ ∀ i < n, s.candidate i = generated i := by
  refine ⟨.listed ((List.range n).map generated) default, rfl, fun i hi => ?_⟩
  have hdrawn : ((List.range n).map generated)[i]? = some (generated i) := by
    rw [List.getElem?_map, List.getElem?_range hi, Option.map_some]
  simp only [listed, hdrawn, Option.getD_some]

end NameSource

namespace Trace

open NameSource

/-- The trace finds its next name at place `i` of its source: it draws up to the first candidate
that is not among its names, gives that one out, and nothing else changes. -/
structure FindsAt (t : Trace) (i : Nat) : Prop where
  first : IsFirstFree t.source.candidate t.names t.source.position i
  search : ∀ limit, search? t.source.candidate t.names limit t.source.position =
    if i < t.source.position + limit then some (t.source.candidate i, i + 1) else none
  makeName : t.makeName = (t.source.candidate i, { t with
    names := t.names ++ [t.source.candidate i]
    source := { t.source with position := i + 1 } })

theorem exists_findsAt (t : Trace) : ∃ i, t.FindsAt i := by
  have h := t.source.isFirstFree_firstFree t.names
    ⟨t.source.position, t.source.unbounded t.names t.source.position⟩
  exact ⟨_, h, h.search?_eq, rfl⟩

/-- **The search for a fresh name ends, and passes over names that are taken only.** Every stream of
infinitely many names can be searched from any place on, whatever names the trace has, and what is
given out is the first candidate that it does not have. A counter comes to that one within one draw
more than the trace has names, and is left one past it; it does not overflow where that many draws
would not. -/
theorem makeName_finds_first :
    (∀ candidate place, (∃ s : NameSource, s.candidate = candidate ∧ s.position = place) ↔
      (Set.range candidate).Infinite) ∧
    (∀ t : Trace, ∃ i, t.FindsAt i) ∧
    ∀ (t : Trace) (lead : String) (c : Nat), t.source = { counter lead with position := c } →
      c + t.names.toFinset.card + 1 < UInt64.size →
      ∃ m, IsLeast {m | c ≤ m ∧ lead ++ Nat.repr m ∉ t.names} m ∧ m + 1 < UInt64.size ∧
        search? (counter lead).candidate t.names (t.names.toFinset.card + 1) c =
          some (lead ++ Nat.repr m, m + 1) ∧
        t.makeName = (lead ++ Nat.repr m, { t with
          names := t.names ++ [lead ++ Nat.repr m]
          source := { counter lead with position := m + 1 } }) := by
  refine ⟨exists_source_iff, exists_findsAt, fun t lead c hsource hroom => ?_⟩
  obtain ⟨id, names, source⟩ := t
  cases hsource
  obtain ⟨m, hfirst, hsearch, hmake⟩ := exists_findsAt ⟨id, names, { counter lead with position := c }⟩
  have hle : m ≤ c + names.toFinset.card := hfirst.le_add_card (counter_injective lead)
  refine ⟨m, hfirst, Nat.lt_of_le_of_lt (Nat.succ_le_succ hle) hroom, ?_, hmake⟩
  exact (hsearch (names.toFinset.card + 1)).trans (if_pos (by dsimp only; omega))

/-- The next name after `t0`, where `t1` was chosen by hand. -/
theorem makeName_finds_first_t2 :
    let t : Trace := ⟨⟨0⟩, ["t1", "t0"], { counter "t" with position := 1 }⟩
    1 + t.names.toFinset.card + 1 < UInt64.size ∧
    t.makeName = ("t2", ⟨⟨0⟩, ["t1", "t0", "t2"], { counter "t" with position := 3 }⟩) := by
  intro t
  have hroom : 1 + t.names.toFinset.card + 1 < UInt64.size := by decide
  obtain ⟨m, ⟨⟨hlow, hfree⟩, hleast⟩, -, -, hmake⟩ := makeName_finds_first.2.2 t "t" 1 rfl hroom
  have hm : m = 2 := by
    have hle : m ≤ 2 := hleast ⟨by decide, by decide⟩
    have hne : m ≠ 1 := by
      rintro rfl
      exact hfree (by decide)
    omega
  subst hm
  exact ⟨hroom, hmake⟩

end Trace

end ProxyTrace
