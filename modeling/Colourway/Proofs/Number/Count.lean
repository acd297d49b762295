/-
  Products and sums of many counts. Multiplying and adding hold at `Count.limit` at every
  step; `prod_eq_ofNat` and `sum_eq_ofNat` say that holding once, at the end, comes to the
  same. Repeats add up one less than each count (`one_add_sum_pred`), and there holding each
  product first makes no difference either.
-/
import Mathlib
import Colourway.Number.Count

namespace Colourway.Count

/-- The product of several counts, held at the limit. -/
def prod (l : List Count) : Count := l.foldl mul 1

/-- The product of several counts as a true number. -/
def trueProd (l : List Count) : Nat := (l.map (·.val)).prod

theorem one_eq_ofNat : (1 : Count) = ofNat 1 := rfl

theorem zero_eq_ofNat : (0 : Count) = ofNat 0 := rfl

theorem val_ofNat_of_le {n : Nat} (h : n ≤ limit) : (ofNat n).val = n := Nat.min_eq_left h

theorem lt_val_ofNat_iff {k n : Nat} (hk : k < limit) : k < (ofNat n).val ↔ k < n := by
  rw [val_ofNat]
  omega

theorem ofNat_mul (m : Nat) (b : Count) : (ofNat m).mul b = ofNat (m * b.val) := by
  apply ext
  simp only [val_mul, val_ofNat]
  rcases Nat.le_total m limit with hm | hm
  · rw [Nat.min_eq_left hm]
  · rw [Nat.min_eq_right hm]
    rcases Nat.eq_zero_or_pos b.val with hb | hb
    · rw [hb, Nat.mul_zero, Nat.mul_zero]
    · have h1 : limit ≤ limit * b.val := Nat.le_mul_of_pos_right _ hb
      have h2 : limit ≤ m * b.val := Nat.le_trans hm (Nat.le_mul_of_pos_right _ hb)
      rw [Nat.min_eq_right h1, Nat.min_eq_right h2]

theorem ofNat_add (m : Nat) (b : Count) : (ofNat m).add b = ofNat (m + b.val) := by
  rw [← ofNat_val b, ofNat_add_ofNat, val_ofNat, Nat.min_eq_left b.val_le_limit]

/-! ## Products -/

theorem prod_concat (l : List Count) (n : Count) : prod (l ++ [n]) = (prod l).mul n := by
  rw [prod, List.foldl_append]
  rfl

theorem prod_eq_ofNat (l : List Count) : prod l = ofNat (trueProd l) := by
  induction l using List.reverseRecOn with
  | nil => rfl
  | append_singleton l n ih =>
    rw [prod_concat, ih, ofNat_mul]
    simp [trueProd]

theorem one_le_trueProd {l : List Count} (h : ∀ n ∈ l, 1 ≤ n.val) : 1 ≤ trueProd l := by
  refine List.one_le_prod fun k hk => ?_
  obtain ⟨n, hn, rfl⟩ := List.mem_map.1 hk
  exact h n hn

theorem one_le_prod {l : List Count} (h : ∀ n ∈ l, 1 ≤ n.val) : 1 ≤ (prod l).val := by
  have hprod := one_le_trueProd h
  have hlimit : 1 ≤ limit := by decide
  rw [prod_eq_ofNat, val_ofNat]
  omega

/-! ## Sums -/

/-- The sum of several counts as a true number. -/
def trueSum (l : List Count) : Nat := (l.map (·.val)).sum

theorem sum_concat (l : List Count) (n : Count) : sum (l ++ [n]) = (sum l).add n := by
  rw [sum, List.foldl_append]
  rfl

theorem add_right_comm (a b c : Count) : (a.add b).add c = (a.add c).add b := by
  apply ext
  simp only [val_add]
  omega

theorem one_add_pred {a : Count} (h : 1 ≤ a.val) : (1 : Count).add a.pred = a := by
  apply ext
  have ha := a.val_le_limit
  rw [one_eq_ofNat, val_add, val_pred, val_ofNat_of_le (by decide)]
  omega

theorem sum_eq_ofNat (l : List Count) : sum l = ofNat (trueSum l) := by
  induction l using List.reverseRecOn with
  | nil => rfl
  | append_singleton l n ih =>
    rw [sum_concat, ih, ofNat_add]
    simp [trueSum]

/-- A sum of held numbers is the held sum. -/
theorem sum_map_ofNat (l : List Nat) : sum (l.map ofNat) = ofNat l.sum := by
  induction l using List.reverseRecOn with
  | nil => rfl
  | append_singleton l n ih =>
    rw [List.map_append, List.map_singleton, sum_concat, ih, ofNat_add_ofNat]
    simp

theorem ofNat_add_pred {m n : Nat} (hm : 1 ≤ m) (hn : 1 ≤ n) :
    (ofNat m).add (ofNat n).pred = ofNat (m + (n - 1)) := by
  apply ext
  simp only [val_add, val_pred, val_ofNat]
  omega

/-- One and what each number exceeds one by: the numbers may be held before they are added
up. -/
theorem one_add_sum_pred (l : List Nat) (h : ∀ n ∈ l, 1 ≤ n) :
    (sum (l.map fun n => (ofNat n).pred)).add 1 = ofNat (1 + (l.map (· - 1)).sum) := by
  induction l using List.reverseRecOn with
  | nil => rfl
  | append_singleton l n ih =>
    have hn : 1 ≤ n := h n (List.mem_append_right _ List.mem_cons_self)
    have hl : ∀ k ∈ l, 1 ≤ k := fun k hk => h k (List.mem_append_left _ hk)
    rw [List.map_append, List.map_singleton, sum_concat, add_right_comm, ih hl,
      ofNat_add_pred (Nat.le_add_right _ _) hn]
    simp [Nat.add_assoc]

end Colourway.Count
