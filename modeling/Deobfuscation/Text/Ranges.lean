/-!
Sets of code points as ascending ranges. A search stops at the first range that
ends at or after the code point, so it says which ranges hold it only if they ascend.
-/

namespace Deobfuscation.Text

abbrev Ranges := List (Nat × Nat)

namespace Ranges

def has : Ranges → Nat → Bool
  | [], _ => false
  | (first, last) :: rest, code => if code ≤ last then first ≤ code else has rest code

/-- Every range holds something and starts behind the one before it. -/
def ascendsFrom : Nat → Ranges → Bool
  | _, [] => true
  | least, (first, last) :: rest =>
      least ≤ first && first ≤ last && ascendsFrom (last + 1) rest

theorem le_of_mem {least : Nat} {ranges : Ranges} (ascends : ascendsFrom least ranges = true)
    {range : Nat × Nat} (member : range ∈ ranges) : least ≤ range.1 := by
  induction ranges generalizing least with
  | nil => cases member
  | cons head rest ih =>
      simp only [ascendsFrom, Bool.and_eq_true, decide_eq_true_eq] at ascends
      cases member with
      | head => exact ascends.1.1
      | tail _ later =>
          have := ih ascends.2 later
          omega

theorem has_iff {least : Nat} {ranges : Ranges} (ascends : ascendsFrom least ranges = true)
    (code : Nat) :
    has ranges code = true ↔ ∃ range ∈ ranges, range.1 ≤ code ∧ code ≤ range.2 := by
  induction ranges generalizing least with
  | nil => simp [has]
  | cons head rest ih =>
      obtain ⟨first, last⟩ := head
      simp only [ascendsFrom, Bool.and_eq_true, decide_eq_true_eq] at ascends
      by_cases inside : code ≤ last
      · simp only [has, inside, if_true, decide_eq_true_eq, List.mem_cons]
        constructor
        · exact fun low => ⟨(first, last), .inl rfl, low, inside⟩
        · rintro ⟨range, rfl | later, low, _⟩
          · exact low
          · have := le_of_mem ascends.2 later
            omega
      · simp only [has, inside, if_false, ih ascends.2, List.mem_cons]
        constructor
        · rintro ⟨range, later, bounds⟩
          exact ⟨range, .inr later, bounds⟩
        · rintro ⟨range, rfl | later, bounds⟩
          · exact absurd bounds.2 inside
          · exact ⟨range, later, bounds⟩

end Ranges

end Deobfuscation.Text
