/-! # Searching by halves

Where the members of a list that have a property come before all others, the place at which the property
ends is found by looking at the member in the middle and going on in one half.
-/

namespace ShellAwait

variable {α : Type}

/-- The number of members that have a property, in a list where these come first. -/
def partitionPoint (p : α → Bool) (xs : List α) : Nat :=
  match _hmiddle : xs.drop (xs.length / 2) with
  | [] => 0
  | middle :: later =>
      if p middle then xs.length / 2 + 1 + partitionPoint p later
      else partitionPoint p (xs.take (xs.length / 2))
termination_by xs.length
decreasing_by
  all_goals
    have hlength := congrArg List.length _hmiddle
    rw [List.length_drop, List.length_cons] at hlength
    grind

/-- The search ends between the members with the property and the others. -/
theorem partitionPoint_append {p : α → Bool} {front back : List α} (hfront : ∀ x ∈ front, p x = true)
    (hback : ∀ x ∈ back, p x = false) : partitionPoint p (front ++ back) = front.length := by
  generalize hxs : front ++ back = xs
  fun_induction partitionPoint p xs generalizing front back with
  | case1 xs hmiddle =>
      have hlength : xs.length ≤ xs.length / 2 := List.drop_eq_nil_iff.mp hmiddle
      rw [← hxs, List.length_append] at hlength
      omega
  | case2 xs middle later hmiddle hp ih =>
      have hhalf : (xs.take (xs.length / 2)).length = xs.length / 2 := by
        rw [List.length_take]
        omega
      rw [← xs.take_append_drop (xs.length / 2), hmiddle] at hxs
      -- The middle has the property, so it lies in front.
      obtain ⟨others, -, hothers⟩ | ⟨others, hearlier, hothers⟩ := List.append_eq_append_iff.mp hxs
      · simp [hback middle (by simp [hothers])] at hp
      · cases others with
        | nil =>
            rw [List.nil_append] at hothers
            simp [hback middle (by simp [← hothers])] at hp
        | cons first others =>
            obtain ⟨rfl, hlater⟩ := List.cons.inj hothers
            have hwhere : ∀ x ∈ others, p x = true := fun x hx => hfront x (by simp [hearlier, hx])
            rw [ih hwhere hback hlater.symm, hearlier, List.length_append, hhalf, List.length_cons]
            omega
  | case3 xs middle later hmiddle hp ih =>
      rw [← xs.take_append_drop (xs.length / 2), hmiddle] at hxs
      obtain ⟨others, hearlier, hothers⟩ | ⟨others, hearlier, hothers⟩ :=
        List.append_eq_append_iff.mp hxs
      · exact ih hfront (fun x hx => hback x (by simp [hothers, hx])) hearlier.symm
      · cases others with
        | nil =>
            have hnone : ∀ x ∈ ([] : List α), p x = false := fun x hx => absurd hx List.not_mem_nil
            exact ih hfront hnone (by rw [hearlier, List.append_nil, List.append_nil])
        | cons first others =>
            obtain ⟨rfl, -⟩ := List.cons.inj hothers
            exact absurd (hfront middle (by simp [hearlier])) hp

end ShellAwait
