/-
  The mean of weighted colours, written out channel by channel. `mix` gives this mean as soon
  as one of the colours weighs something (`mix_eq_mean`).
-/
import Colourway.Proofs.Number.Count
import Colourway.Colour.Stop

namespace Colourway.Stop

/-- The weighted sum of every channel, over the total of the weights. -/
def mean (members : List (Colour × Count)) : Stop :=
  let total := (Count.sum (members.map (·.2))).toFloat
  ⟨weigh (·.r) members / total, weigh (·.g) members / total, weigh (·.b) members / total,
    weigh (·.a) members / total⟩

theorem sum_weights_ne_zero {members : List (Colour × Count)}
    (h : ∃ m ∈ members, 1 ≤ m.2.val) : Count.sum (members.map (·.2)) ≠ 0 := by
  obtain ⟨m, hm, hpos⟩ := h
  intro hzero
  have hle : m.2.val ≤ Count.trueSum (members.map (·.2)) :=
    List.single_le_sum (fun _ _ => Nat.zero_le _) _
      (List.mem_map_of_mem (List.mem_map_of_mem hm))
  have hv := congrArg Count.val hzero
  rw [Count.sum_eq_ofNat, Count.val_ofNat, Count.zero_eq_ofNat, Count.val_ofNat] at hv
  have hlimit : 1 ≤ Count.limit := by decide
  omega

theorem mix_eq_mean {members : List (Colour × Count)} (h : ∃ m ∈ members, 1 ≤ m.2.val) :
    mix members = some (mean members) := by
  unfold mix
  rw [if_neg (sum_weights_ne_zero h)]
  rfl

end Colourway.Stop
