import Deobfuscation.Batch
import Mathlib.Algebra.Group.Nat.Defs
import Mathlib.Data.List.Basic

/-!
How items are shared out among workers. The bound of every worker is a fraction of the number of
items, so the ranges follow each other and lose nothing, and their sizes differ by one at most.
Cutting the items off from the back, one range after the other, never asks for more than is left
and gives the same parts.
-/

namespace Deobfuscation.Batch

variable {Item : Type}

def bound (length workers worker : Nat) : Nat := length * worker / max workers 1

section Bounds

variable (length workers : Nat)

theorem bound_zero : bound length workers 0 = 0 := by
  simp [bound]

theorem bound_last : bound length workers (max workers 1) = length :=
  Nat.mul_div_cancel length (by omega)

theorem bound_mono {first second : Nat} (le : first ≤ second) :
    bound length workers first ≤ bound length workers second :=
  Nat.div_le_div_right (Nat.mul_le_mul_left length le)

theorem bound_le_succ (worker : Nat) :
    bound length workers worker ≤ bound length workers (worker + 1) :=
  bound_mono length workers (Nat.le_succ worker)

theorem bound_le {worker : Nat} (inside : worker ≤ max workers 1) :
    bound length workers worker ≤ length := by
  have upper := bound_mono length workers inside
  rwa [bound_last] at upper

/-- A range has the share of a worker when it is rounded down, or one item more. -/
theorem bound_succ_bounds (worker : Nat) :
    bound length workers worker + length / max workers 1 ≤ bound length workers (worker + 1) ∧
      bound length workers (worker + 1) ≤
        bound length workers worker + length / max workers 1 + 1 := by
  have positive : 0 < max workers 1 := by omega
  unfold bound
  rw [Nat.mul_succ, Nat.add_div positive]
  constructor
  · exact Nat.le_add_right _ _
  · apply Nat.add_le_add_left
    split <;> omega

/-- Below a bound, every index lies between two bounds that follow each other. -/
theorem exists_between_bounds {index count : Nat} (below : index < bound length workers count) :
    ∃ worker < count, bound length workers worker ≤ index ∧
      index < bound length workers (worker + 1) := by
  induction count with
  | zero =>
      rw [bound_zero] at below
      exact absurd below (Nat.not_lt_zero index)
  | succ count ih =>
      rcases Nat.lt_or_ge index (bound length workers count) with before | behind
      · obtain ⟨worker, inside, between⟩ := ih before
        exact ⟨worker, by omega, between⟩
      · exact ⟨count, Nat.lt_succ_self count, behind, below⟩

variable {length workers} in
theorem between_bounds_unique {index first second : Nat}
    (low : bound length workers first ≤ index) (high : index < bound length workers (first + 1))
    (otherLow : bound length workers second ≤ index)
    (otherHigh : index < bound length workers (second + 1)) : first = second := by
  -- an index below one range lies below all that follow
  by_contra different
  rcases Nat.lt_or_gt_of_ne different with before | behind
  · have order : bound length workers (first + 1) ≤ bound length workers second :=
      bound_mono length workers before
    omega
  · have order : bound length workers (second + 1) ≤ bound length workers first :=
      bound_mono length workers behind
    omega

theorem bounds_eq :
    bounds length workers = (List.range (max workers 1 + 1)).map (bound length workers) := by
  rw [List.range_succ, List.map_append, List.map_singleton, bound_last]
  rfl

theorem partition_eq : partition length workers = (List.range (max workers 1)).map fun worker =>
    (bound length workers worker, bound length workers (worker + 1)) := by
  unfold partition
  rw [bounds_eq]
  apply List.ext_getElem
  · simp
  · intro worker _ _
    simp

theorem partition_eq_some_iff {worker : Nat} {range : Nat × Nat} :
    (partition length workers)[worker]? = some range ↔ worker < max workers 1 ∧
      range = (bound length workers worker, bound length workers (worker + 1)) := by
  rw [partition_eq, List.getElem?_map, Option.map_eq_some_iff]
  constructor
  · rintro ⟨_, found, rfl⟩
    obtain ⟨inside, rfl⟩ := List.getElem?_eq_some_iff.mp found
    rw [List.length_range] at inside
    rw [List.getElem_range]
    exact ⟨inside, rfl⟩
  · rintro ⟨inside, rfl⟩
    exact ⟨worker, List.getElem?_range inside, rfl⟩

theorem mem_partition_iff {range : Nat × Nat} :
    range ∈ partition length workers ↔ ∃ worker < max workers 1,
      range = (bound length workers worker, bound length workers (worker + 1)) := by
  simp only [List.mem_iff_getElem?, partition_eq_some_iff]

theorem length_partition : (partition length workers).length = max workers 1 := by
  rw [partition_eq, List.length_map, List.length_range]

/-- The bounds can be computed in 64 bits, if the number of items times that of workers has no
more. -/
theorem bound_words {worker : Nat} (room : length * max workers 1 < 2 ^ 64)
    (inside : worker < max workers 1) : length * worker < 2 ^ 64 ∧
      (UInt64.ofNat length * UInt64.ofNat worker / UInt64.ofNat (max workers 1)).toNat =
        bound length workers worker := by
  have product : length * worker < 2 ^ 64 :=
    Nat.lt_of_le_of_lt (Nat.mul_le_mul_left length (Nat.le_of_lt inside)) room
  refine ⟨product, ?_⟩
  rw [UInt64.toNat_div, UInt64.toNat_mul, UInt64.toNat_ofNat', UInt64.toNat_ofNat',
    UInt64.toNat_ofNat']
  rcases Nat.eq_zero_or_pos length with rfl | positive
  · simp [bound]
  -- both factors are at most the product, so none of the numbers is cut
  · have lengthFits : length ≤ length * max workers 1 := Nat.le_mul_of_pos_right length (by omega)
    have workersFit : max workers 1 ≤ length * max workers 1 :=
      Nat.le_mul_of_pos_left (max workers 1) positive
    rw [Nat.mod_eq_of_lt (by omega : length < 2 ^ 64),
      Nat.mod_eq_of_lt (by omega : worker < 2 ^ 64),
      Nat.mod_eq_of_lt (by omega : max workers 1 < 2 ^ 64), Nat.mod_eq_of_lt product]
    rfl

end Bounds

def chunk (items : List Item) (workers worker : Nat) : List Item :=
  (items.drop (bound items.length workers worker)).take
    (bound items.length workers (worker + 1) - bound items.length workers worker)

section Chunks

variable (items : List Item) (workers : Nat)

theorem assign_eq :
    assign items workers = (List.range (max workers 1)).map (chunk items workers) := by
  unfold assign
  rw [partition_eq, List.map_map]
  rfl

theorem length_assign : (assign items workers).length = max workers 1 := by
  rw [assign_eq, List.length_map, List.length_range]

/-- The parts up to a worker are all items up to its bound. -/
theorem flatten_chunks (count : Nat) :
    ((List.range count).map (chunk items workers)).flatten =
      items.take (bound items.length workers count) := by
  induction count with
  | zero => simp [bound_zero]
  | succ count ih =>
      rw [List.range_succ, List.map_append, List.flatten_append, ih, List.map_singleton,
        List.flatten_singleton, chunk, ← List.take_add,
        Nat.add_sub_cancel' (bound_le_succ items.length workers count)]

theorem flatten_assign : (assign items workers).flatten = items := by
  rw [assign_eq, flatten_chunks, bound_last, List.take_length]

end Chunks

def splitOff? (items : List Item) (start : Nat) : Option (List Item × List Item) :=
  if start ≤ items.length then some (items.take start, items.drop start) else none

/-- Cuts one more range off from what is left, behind those that were cut off before. -/
def cutRange? (state : List Item × List (List Item)) (range : Nat × Nat) :
    Option (List Item × List (List Item)) := do
  let (left, part) ← splitOff? state.1 range.1
  return (left, state.2 ++ [part])

def cutOff? (items : List Item) (ranges : List (Nat × Nat)) : Option (List (List Item)) := do
  let (_, parts) ← ranges.reverse.foldlM cutRange? (items, [])
  return parts.reverse

theorem foldlM_cutRange (items : List Item) (workers : Nat) {count : Nat}
    (inside : count ≤ max workers 1) (parts : List (List Item)) :
    (((List.range count).map fun worker => (bound items.length workers worker,
      bound items.length workers (worker + 1))).reverse.foldlM cutRange?
        (items.take (bound items.length workers count), parts)) =
      some ([], parts ++ ((List.range count).map (chunk items workers)).reverse) := by
  induction count generalizing parts with
  | zero => simp [bound_zero]
  | succ count ih =>
      have le := bound_le_succ items.length workers count
      have upper := bound_le items.length workers inside
      -- what is left ends where the last range does, so its start lies inside
      have cut : cutRange? (items.take (bound items.length workers (count + 1)), parts)
          (bound items.length workers count, bound items.length workers (count + 1)) =
          some (items.take (bound items.length workers count),
            parts ++ [chunk items workers count]) := by
        have start : bound items.length workers count ≤
            (items.take (bound items.length workers (count + 1))).length := by
          rw [List.length_take]
          omega
        simp only [cutRange?, splitOff?, if_pos start]
        simp [List.take_take, List.drop_take, chunk, le]
      rw [List.range_succ, List.map_append, List.map_append, List.reverse_append,
        List.reverse_append, List.map_singleton, List.map_singleton, List.reverse_singleton,
        List.reverse_singleton, List.singleton_append, List.foldlM_cons, cut]
      exact (ih (by omega) _).trans (by rw [List.append_assoc])

theorem cutOff_partition (items : List Item) (workers : Nat) :
    cutOff? items (partition items.length workers) = some (assign items workers) := by
  have cuts := foldlM_cutRange items workers (Nat.le_refl (max workers 1)) []
  rw [bound_last, List.take_length, ← partition_eq, ← assign_eq, List.nil_append] at cuts
  unfold cutOff?
  rw [cuts]
  simp

/-- The ranges are one for each worker and follow each other from the first item to the last. No
range has two items more than another one, and every item is in just one of them. If the number of
items times that of workers has 64 bits, no product on the way has more. -/
theorem partition_balanced (length workers : Nat) (room : length * max workers 1 < 2 ^ 64) :
    (partition length workers).length = max workers 1 ∧
    (partition length workers).head?.map Prod.fst = some 0 ∧
    (∀ worker first second, (partition length workers)[worker]? = some first →
      (partition length workers)[worker + 1]? = some second → second.1 = first.2) ∧
    (partition length workers).getLast?.map Prod.snd = some length ∧
    (∀ range ∈ partition length workers, range.1 ≤ range.2) ∧
    (∀ first ∈ partition length workers, ∀ second ∈ partition length workers,
      first.2 - first.1 ≤ second.2 - second.1 + 1) ∧
    (∀ worker range, (partition length workers)[worker]? = some range →
      length * worker < 2 ^ 64 ∧ range.1 =
        (UInt64.ofNat length * UInt64.ofNat worker / UInt64.ofNat (max workers 1)).toNat) ∧
    ∀ index < length, ∃! worker : Nat, ∃ range : Nat × Nat,
      (partition length workers)[worker]? = some range ∧ range.1 ≤ index ∧ index < range.2 := by
  have positive : 0 < max workers 1 := by omega
  refine ⟨?_, ?_, ?_, ?_, ?_, ?_, ?_, ?_⟩
  · exact length_partition length workers
  · rw [List.head?_eq_getElem?, (partition_eq_some_iff length workers).mpr ⟨positive, rfl⟩,
      Option.map_some, bound_zero]
  · intro worker first second foundFirst foundSecond
    obtain ⟨-, rfl⟩ := (partition_eq_some_iff length workers).mp foundFirst
    obtain ⟨-, rfl⟩ := (partition_eq_some_iff length workers).mp foundSecond
    rfl
  · have last : max workers 1 - 1 + 1 = max workers 1 := Nat.sub_add_cancel positive
    rw [List.getLast?_eq_getElem?, length_partition,
      (partition_eq_some_iff length workers).mpr ⟨by omega, rfl⟩, Option.map_some, last, bound_last]
  · intro range member
    obtain ⟨worker, -, rfl⟩ := (mem_partition_iff length workers).mp member
    exact bound_le_succ length workers worker
  · intro first firstMember second secondMember
    obtain ⟨worker, -, rfl⟩ := (mem_partition_iff length workers).mp firstMember
    obtain ⟨other, -, rfl⟩ := (mem_partition_iff length workers).mp secondMember
    have share := bound_succ_bounds length workers worker
    have otherShare := bound_succ_bounds length workers other
    dsimp only
    omega
  · intro worker range found
    obtain ⟨inside, rfl⟩ := (partition_eq_some_iff length workers).mp found
    obtain ⟨product, words⟩ := bound_words length workers room inside
    exact ⟨product, words.symm⟩
  · intro index inside
    rw [← bound_last length workers] at inside
    obtain ⟨worker, below, low, high⟩ := exists_between_bounds length workers inside
    refine ⟨worker, ⟨_, (partition_eq_some_iff length workers).mpr ⟨below, rfl⟩, low, high⟩, ?_⟩
    rintro other ⟨_, found, otherLow, otherHigh⟩
    obtain ⟨-, rfl⟩ := (partition_eq_some_iff length workers).mp found
    exact between_bounds_unique otherLow otherHigh low high

/-- More workers than items, and one item too many for an even share. -/
theorem partition_balanced_crowded :
    2 * max 4 1 < 2 ^ 64 ∧ partition 2 4 = [(0, 0), (0, 1), (1, 1), (1, 2)] ∧
      ∃! worker : Nat, ∃ range : Nat × Nat,
        (partition 2 4)[worker]? = some range ∧ range.1 ≤ 1 ∧ 1 < range.2 := by
  have room : 2 * max 4 1 < 2 ^ 64 := by decide
  obtain ⟨-, -, -, -, -, -, -, unique⟩ := partition_balanced 2 4 room
  exact ⟨room, by decide, unique 1 (by decide)⟩

end Deobfuscation.Batch
