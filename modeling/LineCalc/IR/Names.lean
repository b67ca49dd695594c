import Std.Data.TreeMap
import Std.Data.TreeSet
import Std.Data.TreeSet.Lemmas

/-!
# Fresh names

A routine's registers and labels share one supply of names. It stands for the supply that the
library for building code keeps, and the numbering of that library is assumed here: a wanted name
that is taken gets a number after a dot; the numbers of each wanted name go up. The empty name
counts as taken, so whatever has no name of its own is numbered.

* `Names.fresh_notMem`: a name that is given out was not in use before.
-/

namespace LineCalc.IR

/-- The names in use, and the last number given to each wanted name. -/
structure Names where
  /-- The names in use. -/
  used : Std.TreeSet String
  /-- The last number tried for each wanted name. -/
  counters : Std.TreeMap String Nat

namespace Names

/-- No name but the empty one is in use. -/
def init : Names := ⟨Std.TreeSet.empty.insert "", .empty⟩

/-- A wanted name with a number. -/
def numbered (base : String) (number : Nat) : String := base ++ "." ++ toString number

/-- The first number from `number` on that makes the name a free one, if at most `tries` are
taken. -/
def firstFree (used : Std.TreeSet String) (base : String) : Nat → Nat → Nat
  | 0, number => number
  | tries + 1, number =>
    if used.contains (numbered base number) then firstFree used base tries (number + 1)
    else number

/-- A free name for a wanted one. -/
def fresh (names : Names) (base : String) : String × Names :=
  if names.used.contains base then
    let number :=
      firstFree names.used base names.used.size (names.counters.getD base 0 + 1)
    let name := numbered base number
    (name, ⟨names.used.insert name, names.counters.insert base number⟩)
  else
    (base, { names with used := names.used.insert base })

/-- Use up a number for something that has no name of its own and is never referred to. -/
def skip (names : Names) : Names := (names.fresh "").2

/-! ### Freshness -/

/-- The number can be read off a numbered name. -/
theorem numbered_injective (base : String) {m n : Nat} (h : numbered base m = numbered base n) :
    m = n := by
  have hchars := congrArg String.toList h
  simp only [numbered, String.toList_append] at hchars
  have hdigits := List.append_cancel_left hchars
  have hvalue := congrArg (fun digits => Nat.ofDigitChars 10 digits 0) hdigits
  simpa [Nat.toString_eq_repr, Nat.toList_repr] using hvalue

/-- A list that holds every one of `count` consecutive numbered names has at least that length. -/
theorem le_length_of_numbered_mem (base : String) (count : Nat) :
    ∀ (number : Nat) (taken : List String),
      (∀ i < count, numbered base (number + i) ∈ taken) → count ≤ taken.length := by
  induction count with
  | zero => intros; exact Nat.zero_le _
  | succ count ih =>
    intro number taken hmem
    have hfirst : numbered base number ∈ taken := hmem 0 (Nat.succ_pos _)
    have hothers : ∀ i < count,
        numbered base (number + 1 + i) ∈ taken.erase (numbered base number) := by
      intro i hi
      refine (List.mem_erase_of_ne fun heq => ?_).2 ?_
      · have := numbered_injective base heq
        omega
      · have := hmem (i + 1) (Nat.succ_lt_succ hi)
        rwa [Nat.add_comm i 1, ← Nat.add_assoc] at this
    have hle := ih (number + 1) _ hothers
    have hpos := List.length_pos_of_mem hfirst
    rw [List.length_erase_of_mem hfirst] at hle
    omega

/-- A search that ends on a taken name has met taken names only. -/
theorem numbered_mem_of_firstFree_mem {used : Std.TreeSet String} {base : String} :
    ∀ {tries number : Nat}, numbered base (firstFree used base tries number) ∈ used →
      ∀ i < tries + 1, numbered base (number + i) ∈ used := by
  intro tries
  induction tries with
  | zero =>
    intro number hmem i hi
    obtain rfl : i = 0 := by omega
    simpa [firstFree] using hmem
  | succ tries ih =>
    intro number hmem i hi
    rw [firstFree] at hmem
    split at hmem
    case isFalse hfree => exact absurd (Std.TreeSet.mem_iff_contains.1 hmem) hfree
    case isTrue htaken =>
      cases i with
      | zero => exact Std.TreeSet.mem_iff_contains.2 htaken
      | succ i =>
        have := ih hmem i (by omega)
        rwa [Nat.add_assoc, Nat.add_comm 1 i] at this

/-- As many tries as there are names in use lead to a free name. -/
theorem numbered_firstFree_notMem (used : Std.TreeSet String) (base : String) (number : Nat) :
    numbered base (firstFree used base used.size number) ∉ used := by
  intro hmem
  have hall := numbered_mem_of_firstFree_mem hmem
  have hle := le_length_of_numbered_mem base (used.size + 1) number used.toList
    fun i hi => Std.TreeSet.mem_toList.2 (hall i hi)
  rw [Std.TreeSet.length_toList] at hle
  omega

/-- A name that is given out was not in use before. -/
theorem fresh_notMem (names : Names) (base : String) : (names.fresh base).1 ∉ names.used := by
  unfold fresh
  split
  case isTrue => exact numbered_firstFree_notMem _ _ _
  case isFalse hfree => exact fun hmem => hfree (Std.TreeSet.mem_iff_contains.1 hmem)

/-- After a name is given out, the names in use are that one and those before. -/
theorem mem_used_fresh (names : Names) (base name : String) :
    name ∈ (names.fresh base).2.used ↔ name = (names.fresh base).1 ∨ name ∈ names.used := by
  unfold fresh
  split <;> simp [Std.TreeSet.mem_insert, @eq_comm String name]

end Names

end LineCalc.IR
