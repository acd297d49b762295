/-
  The mean of weighted colours among the colours themselves. In truth a mean lies between the
  least and the greatest of its members, channel by channel. What is computed does so as long
  as 255 times the total of the weights is at most `2 ^ 53`, for until then every sum is exact
  (`weigh_eq_toFloat`) and a single rounding at the end does not lead past a whole number.

  Beyond that two things go astray. The sums are rounded again and again, which may put a channel
  below the least member. And the total is held at `Count.limit` while the sums grow on, which
  lifts all channels by the ratio of the true total to the held one. `mix_near_members` is the
  main statement; both ways of going astray are in `exists_mix_beyond_members`.
-/
import Colourway.Proofs.Colour.Blend
import Colourway.Proofs.Colour.Stop
import Colourway.Proofs.Double.Drift
import Colourway.Proofs.Number.Exact
import Colourway.Recipe.Draft

namespace Colourway

open Double

namespace Stop

/-! ## True sums -/

/-- The weighted sum of some colours in true numbers, each colour counting as it is told to. -/
def weighed (f : Colour → ℕ) (members : List (Colour × Count)) : ℕ :=
  (members.map fun m => f m.1 * m.2.val).sum

/-- The total of the weights, not held at any limit. -/
def weight (members : List (Colour × Count)) : ℕ := Count.trueSum (members.map (·.2))

/-- What a channel counts. -/
def level (k : Channel) (c : Colour) : ℕ := (k.ofColour c).toNat

variable {members : List (Colour × Count)} {f g : Colour → ℕ}

theorem level_le (k : Channel) (c : Colour) : level k c ≤ 255 :=
  Nat.le_of_lt_succ (k.ofColour c).toNat_lt

theorem weighed_nil (f : Colour → ℕ) : weighed f [] = 0 := rfl

theorem weighed_cons (f : Colour → ℕ) (m : Colour × Count) (members : List (Colour × Count)) :
    weighed f (m :: members) = f m.1 * m.2.val + weighed f members := by
  unfold weighed
  rw [List.map_cons, List.sum_cons]

theorem weighed_append (f : Colour → ℕ) (members more : List (Colour × Count)) :
    weighed f (members ++ more) = weighed f members + weighed f more := by
  unfold weighed
  rw [List.map_append, List.sum_append]

theorem weighed_concat (f : Colour → ℕ) (members : List (Colour × Count)) (m : Colour × Count) :
    weighed f (members ++ [m]) = weighed f members + f m.1 * m.2.val := by
  rw [weighed_append, weighed_cons, weighed_nil, add_zero]

theorem weighed_const (n : ℕ) (members : List (Colour × Count)) :
    weighed (fun _ => n) members = n * weight members := by
  unfold weighed weight Count.trueSum
  rw [List.map_map, ← List.sum_map_mul_left]
  rfl

/-- Colours that weigh nothing do not matter. -/
theorem weighed_mono (h : ∀ m ∈ members, 1 ≤ m.2.val → f m.1 ≤ g m.1) :
    weighed f members ≤ weighed g members := by
  induction members with
  | nil => exact le_rfl
  | cons m members ih =>
    rw [weighed_cons, weighed_cons]
    refine add_le_add ?_ (ih fun m hm => h m (List.mem_cons_of_mem _ hm))
    rcases Nat.eq_zero_or_pos m.2.val with hzero | hpos
    · rw [hzero, mul_zero, mul_zero]
    · exact Nat.mul_le_mul_right _ (h m List.mem_cons_self hpos)

theorem weighed_level_le (k : Channel) (members : List (Colour × Count)) :
    weighed (level k) members ≤ 255 * weight members := by
  rw [← weighed_const]
  exact weighed_mono fun m _ _ => level_le k m.1

theorem one_le_weight (h : ∃ m ∈ members, 1 ≤ m.2.val) : 1 ≤ weight members := by
  obtain ⟨m, hm, hpos⟩ := h
  exact hpos.trans (List.single_le_sum (fun _ _ => Nat.zero_le _) _
    (List.mem_map_of_mem (List.mem_map_of_mem hm)))

theorem weigh_concat (channel : Colour → UInt8) (members : List (Colour × Count))
    (m : Colour × Count) :
    weigh channel (members ++ [m]) =
      weigh channel members + (channel m.1).toFloat * m.2.toFloat := by
  unfold weigh
  rw [List.foldl_append]
  rfl

theorem ofStop_mean (k : Channel) (members : List (Colour × Count)) :
    k.ofStop (mean members) =
      weigh k.ofColour members / (Count.sum (members.map (·.2))).toFloat := by
  cases k <;> rfl

/-! ## Exact sums -/

/-- The weights are so small that no sum is rounded. -/
def Exact (members : List (Colour × Count)) : Prop := 255 * weight members ≤ 2 ^ 53

theorem weigh_eq_toFloat (k : Channel) (h : Exact members) :
    weigh k.ofColour members = Whole.toFloat (weighed (level k) members) := by
  unfold Exact at h
  induction members using List.reverseRecOn with
  | nil => exact Whole.toFloat_zero.symm
  | append_singleton members m ih =>
    have hsum := weighed_level_le k members
    have hterm : level k m.1 * m.2.val ≤ 255 * m.2.val :=
      Nat.mul_le_mul_right _ (level_le k m.1)
    have hlevel := level_le k m.1
    have hcount : m.2.toFloat = Whole.toFloat m.2.val := rfl
    rw [← weighed_const, weighed_concat, weighed_const] at h
    rw [weigh_concat, ih (by omega), weighed_concat, toFloat_uint8, hcount, ← level,
      Whole.toFloat_mul (by omega) (by omega) (by omega), Whole.toFloat_add (by omega)]

theorem toFloat_sum_of_exact (h : Exact members) :
    (Count.sum (members.map (·.2))).toFloat = Whole.toFloat (weight members) := by
  have hlimit : 2 ^ 53 ≤ Count.limit := by decide
  unfold Exact at h
  have hle : weight members ≤ Count.limit := by omega
  have hval : (Count.sum (members.map (·.2))).val = weight members := by
    rw [Count.sum_eq_ofNat]
    exact Count.val_ofNat_of_le hle
  exact congrArg Whole.toFloat hval

/-- The mean of a colour with itself is the colour. -/
theorem mean_of_one_colour {c : Colour} (hexact : Exact members) (hpos : 1 ≤ weight members)
    (h : ∀ m ∈ members, 1 ≤ m.2.val → m.1 = c) : mean members = ofColour c := by
  have hchannel : ∀ k : Channel, k.ofStop (mean members) = (k.ofColour c).toFloat := by
    intro k
    have hweighed : weighed (level k) members = level k c * weight members := by
      rw [← weighed_const]
      exact le_antisymm (weighed_mono fun m hm hw => by rw [h m hm hw])
        (weighed_mono fun m hm hw => by rw [h m hm hw])
    have hle := weighed_level_le k members
    unfold Exact at hexact
    rw [ofStop_mean, weigh_eq_toFloat k hexact, toFloat_sum_of_exact hexact, hweighed,
      toFloat_uint8]
    exact Whole.toFloat_mul_div hpos (by omega) (by omega)
  have hr := hchannel .red
  have hg := hchannel .green
  have hb := hchannel .blue
  have ha := hchannel .cover
  exact Stop.mk.injEq .. ▸ ⟨hr, hg, hb, ha⟩

/-! ## Rounded sums -/

/-- The double is a number, zero or not small, that no more than `n` roundings part from the
true one. -/
structure Tracks (n : ℕ) (x : Float) (p q : ℚ) : Prop where
  standsFor : StandsFor x p
  within : Within n p q
  notSmall : NotSmall p

theorem nearest_count_le (w : Count) : nearest w.val ≤ 2 ^ (64 : ℤ) := by
  have hlimit : Count.limit ≤ 2 ^ 64 := by decide
  have hle : (w.val : ℚ) ≤ 2 ^ (64 : ℤ) := by exact_mod_cast w.val_le_limit.trans hlimit
  exact nearest_le (representable_two_zpow (by norm_num)) hle

theorem tracks_count (w : Count) : Tracks 1 w.toFloat (nearest w.val) w.val where
  standsFor := standsFor_toFloat_nearest (Nat.lt_succ_of_le w.val_le)
  within := (notSmall_natCast _).within_nearest
  notSmall := (notSmall_natCast _).nearest

/-- What one member adds to a sum. -/
theorem tracks_member (k : Channel) (m : Colour × Count) :
    ∃ p ≤ 2 ^ (72 : ℤ), Tracks 2 ((k.ofColour m.1).toFloat * m.2.toFloat) p
      ((level k m.1 * m.2.val : ℕ) : ℚ) := by
  have hcount := tracks_count m.2
  have hlevel : (level k m.1 : ℚ) ≤ 255 := by exact_mod_cast level_le k m.1
  have hproduct := (notSmall_natCast (level k m.1)).mul hcount.notSmall
  have hmost : (level k m.1 : ℚ) * nearest m.2.val ≤ 2 ^ (72 : ℤ) :=
    calc (level k m.1 : ℚ) * nearest m.2.val
        ≤ 255 * 2 ^ (64 : ℤ) :=
          mul_le_mul hlevel (nearest_count_le m.2) hcount.notSmall.nonneg (by norm_num)
      _ ≤ 2 ^ (72 : ℤ) := by norm_num
  have hle := nearest_le (representable_two_zpow (show (-1074 : ℤ) ≤ 72 by norm_num)) hmost
  have hlt := abs_nearest_lt_of_le hproduct.nonneg hle (by norm_num)
  refine ⟨_, hle, (standsFor_toFloat_uint8 _).mul hcount.standsFor hlt, ?_, hproduct.nearest⟩
  rw [Nat.cast_mul]
  exact hproduct.within_nearest.trans (hcount.within.mul_left (Nat.cast_nonneg _))

/-- A sum is rounded once for each member, on top of the roundings of the members. -/
theorem tracks_weigh (k : Channel) (members : List (Colour × Count)) :
    ∃ p ≤ 2 ^ (126 : ℤ), Tracks (members.length + 2) (weigh k.ofColour members) p
      (weighed (level k) members) := by
  induction members using List.reverseRecOn with
  | nil =>
    refine ⟨0, by norm_num, standsFor_zero, ?_, .inl rfl⟩
    rw [weighed_nil, Nat.cast_zero]
    exact (within_zero 0).mono (Nat.zero_le _) le_rfl le_rfl
  | append_singleton members m ih =>
    obtain ⟨p, hp, hsum⟩ := ih
    obtain ⟨t, ht, hmember⟩ := tracks_member k m
    have hnext := hsum.notSmall.add hmember.notSmall
    have hle := nearest_add_le hp ht
    have hlt := abs_nearest_lt_of_le hnext.nonneg hle (by norm_num)
    have hterm := hmember.within.mono (Nat.le_add_left 2 members.length)
      hmember.notSmall.nonneg (Nat.cast_nonneg _)
    have hround := hnext.within_nearest.trans (hsum.within.add hterm)
    have hlength : 1 + (members.length + 2) = (members ++ [m]).length + 2 := by
      rw [List.length_append, List.length_singleton]
      omega
    rw [hlength, ← Nat.cast_add, ← weighed_concat] at hround
    rw [weigh_concat]
    exact ⟨_, hle, hsum.standsFor.add hmember.standsFor hlt, hround, hnext.nearest⟩

theorem val_sum (members : List (Colour × Count)) :
    (Count.sum (members.map (·.2))).val = min (weight members) Count.limit := by
  rw [Count.sum_eq_ofNat]
  rfl

/-- The mean as it is computed, and the true sum over the held total. -/
theorem within_mean (k : Channel) (hpos : 1 ≤ weight members) :
    ∃ p, StandsFor (k.ofStop (mean members)) p ∧
      Within (members.length + 4) p
        (weighed (level k) members / (min (weight members) Count.limit : ℕ)) := by
  have hlimit : 1 ≤ Count.limit := by decide
  have hheld : (1 : ℚ) ≤ (min (weight members) Count.limit : ℕ) := by
    exact_mod_cast le_min hpos hlimit
  have htotal := tracks_count (Count.sum (members.map (·.2)))
  have hmost := nearest_count_le (Count.sum (members.map (·.2)))
  rw [val_sum] at htotal hmost
  have hleast := le_nearest representable_one hheld
  obtain ⟨p, hp, hsum⟩ := tracks_weigh k members
  obtain ⟨t, ht⟩ : ∃ t, t = nearest (min (weight members) Count.limit : ℕ) := ⟨_, rfl⟩
  rw [← ht] at htotal hmost hleast
  have htpos : 0 < t := zero_lt_one.trans_le hleast
  have hquotient : p / t = 0 ∨ 2 ^ (-1022 : ℤ) ≤ p / t := by
    rcases hsum.notSmall with rfl | hone
    · exact .inl (zero_div t)
    · refine .inr ?_
      calc (2 : ℚ) ^ (-1022 : ℤ) ≤ 2 ^ (-64 : ℤ) := zpow_le_zpow_right₀ one_le_two (by norm_num)
        _ = 1 / 2 ^ (64 : ℤ) := by rw [zpow_neg, one_div]
        _ ≤ p / t := div_le_div₀ hsum.notSmall.nonneg hone htpos hmost
  have hle : nearest (p / t) ≤ 2 ^ (126 : ℤ) :=
    nearest_le (representable_two_zpow (by norm_num))
      ((div_le_self hsum.notSmall.nonneg hleast).trans hp)
  have hlt := abs_nearest_lt_of_le (div_nonneg hsum.notSmall.nonneg htpos.le) hle (by norm_num)
  have hdiv := hsum.within.div htotal.within hsum.notSmall.nonneg (Nat.cast_nonneg _) htpos
    (zero_lt_one.trans_le hheld)
  have hround := (within_nearest hquotient).trans hdiv
  rw [show 1 + (members.length + 2 + 1) = members.length + 4 by omega] at hround
  rw [ofStop_mean]
  exact ⟨_, hsum.standsFor.div htotal.standsFor htpos.ne' hlt, hround⟩

/-- The mean as it is computed when no sum is rounded. -/
theorem standsFor_mean_of_exact (k : Channel) (hexact : Exact members)
    (hpos : 1 ≤ weight members) :
    StandsFor (k.ofStop (mean members))
      (nearest (weighed (level k) members / weight members)) := by
  have hle := weighed_level_le k members
  unfold Exact at hexact
  have hpos' : (1 : ℚ) ≤ weight members := by exact_mod_cast hpos
  have hnonneg : (0 : ℚ) ≤ weighed (level k) members / weight members := by positivity
  have hmost : (weighed (level k) members : ℚ) / weight members ≤ 255 := by
    rw [div_le_iff₀ (zero_lt_one.trans_le hpos')]
    exact_mod_cast hle
  have hbound := (nearest_mem (n := 255) (by norm_num) (by norm_num) ⟨hnonneg, hmost⟩).2
  rw [ofStop_mean, weigh_eq_toFloat k hexact, toFloat_sum_of_exact hexact]
  exact (standsFor_toFloat (by omega)).div (standsFor_toFloat (by omega))
    (zero_lt_one.trans_le hpos').ne' hbound

/-! ## The mean among its members -/

/-- The total of the weights over the total that is held. -/
def overshoot (members : List (Colour × Count)) : ℚ :=
  weight members / (min (weight members) Count.limit : ℕ)

/-- The total is not held back before it exceeds the limit. -/
theorem overshoot_eq_one (hpos : 1 ≤ weight members) (h : weight members ≤ Count.limit) :
    overshoot members = 1 := by
  unfold overshoot
  rw [Nat.min_eq_left h]
  exact div_self (Nat.cast_ne_zero.2 (by omega))

/-- A channel of the mean among those of the members that weigh something. -/
theorem mean_mem (k : Channel) {low high : UInt8} (hpos : 1 ≤ weight members)
    (hlow : ∀ m ∈ members, 1 ≤ m.2.val → low ≤ k.ofColour m.1)
    (hhigh : ∀ m ∈ members, 1 ≤ m.2.val → k.ofColour m.1 ≤ high) :
    ∃ p, StandsFor (k.ofStop (mean members)) p ∧
      kept ^ (members.length + 4) * (low.toNat * overshoot members) ≤ p ∧
      kept ^ (members.length + 4) * p ≤ high.toNat * overshoot members ∧
      (Exact members → low.toNat ≤ p ∧ p ≤ high.toNat) := by
  have hleast : low.toNat * weight members ≤ weighed (level k) members := by
    rw [← weighed_const]
    exact weighed_mono fun m hm hw => UInt8.le_iff_toNat_le.1 (hlow m hm hw)
  have hmost : weighed (level k) members ≤ high.toNat * weight members := by
    rw [← weighed_const]
    exact weighed_mono fun m hm hw => UInt8.le_iff_toNat_le.1 (hhigh m hm hw)
  have hleast' : (low.toNat : ℚ) * weight members ≤ weighed (level k) members := by
    exact_mod_cast hleast
  have hmost' : (weighed (level k) members : ℚ) ≤ high.toNat * weight members := by
    exact_mod_cast hmost
  obtain ⟨p, hp, hwithin⟩ := within_mean k hpos
  have hkept := pow_nonneg kept_nonneg (members.length + 4)
  refine ⟨p, hp, ?_, ?_, fun hexact => ?_⟩
  · refine le_trans (mul_le_mul_of_nonneg_left ?_ hkept) hwithin.1
    unfold overshoot
    rw [← mul_div_assoc]
    exact div_le_div_of_nonneg_right hleast' (Nat.cast_nonneg _)
  · refine le_trans hwithin.2 ?_
    unfold overshoot
    rw [← mul_div_assoc]
    exact div_le_div_of_nonneg_right hmost' (Nat.cast_nonneg _)
  · -- the double is the same whichever way its number is told
    have hnearest : p = nearest (weighed (level k) members / weight members) :=
      hp.value_eq.symm.trans (standsFor_mean_of_exact k hexact hpos).value_eq
    have hweight : (0 : ℚ) < weight members := Nat.cast_pos.2 hpos
    have hbyte : ∀ b : UInt8, Representable b.toNat := fun b =>
      representable_natCast (b.toNat_lt.le.trans (by norm_num))
    rw [hnearest]
    exact ⟨le_nearest (hbyte low) ((le_div_iff₀ hweight).2 hleast'),
      nearest_le (hbyte high) ((div_le_iff₀ hweight).2 hmost')⟩

/-- A mean of colours some of which weigh something: there always is one. In each channel it lies
between the members that weigh something, but for as many roundings as there are members and
four more, and for the overshoot of the weights. As long as the weights are so small that no sum
is rounded, it lies between them as it is, and a layer of one colour comes to this colour. -/
theorem mix_near_members (h : ∃ m ∈ members, 1 ≤ m.2.val) :
    ∃ s, mix members = some s ∧
      (∀ (k : Channel) (low high : UInt8),
        (∀ m ∈ members, 1 ≤ m.2.val → low ≤ k.ofColour m.1) →
        (∀ m ∈ members, 1 ≤ m.2.val → k.ofColour m.1 ≤ high) →
        ∃ p, StandsFor (k.ofStop s) p ∧
          kept ^ (members.length + 4) * (low.toNat * overshoot members) ≤ p ∧
          kept ^ (members.length + 4) * p ≤ high.toNat * overshoot members ∧
          (255 * weight members ≤ 2 ^ 53 → low.toNat ≤ p ∧ p ≤ high.toNat)) ∧
      (weight members < 2 ^ 64 → overshoot members = 1) ∧
      (255 * weight members ≤ 2 ^ 53 → ∀ c, (∀ m ∈ members, 1 ≤ m.2.val → m.1 = c) →
        ∀ repeats, Recipe.Draft.stopsOf ⟨members.reverse, repeats⟩ =
          List.replicate repeats.val (ofColour c)) := by
  have hpos := one_le_weight h
  have hmix := mix_eq_mean h
  refine ⟨mean members, hmix, fun k low high => mean_mem k hpos, ?_, ?_⟩
  · intro hlt
    exact overshoot_eq_one hpos (Nat.le_of_lt_succ hlt)
  · intro hexact c hc repeats
    unfold Recipe.Draft.stopsOf
    dsimp only
    rw [List.reverse_reverse, hmix, mean_of_one_colour hexact hpos hc]

/-- Two greys, and a white that weighs nothing. -/
theorem mix_near_members_two_greys :
    let members : List (Colour × Count) := [(.grey 100, 3), (.white, 0), (.grey 200, 5)]
    (∃ m ∈ members, 1 ≤ m.2.val) ∧ 255 * weight members ≤ 2 ^ 53 ∧
      ∃ s p, mix members = some s ∧ StandsFor s.r p ∧ 100 ≤ p ∧ p ≤ 200 := by
  intro members
  have hpos : ∃ m ∈ members, 1 ≤ m.2.val := ⟨(.grey 100, 3), by decide, by decide⟩
  have hexact : 255 * weight members ≤ 2 ^ 53 := by decide
  obtain ⟨s, hs, hmem, -, -⟩ := mix_near_members hpos
  obtain ⟨p, hp, -, -, hbetween⟩ := hmem .red 100 200 (by decide) (by decide)
  exact ⟨hpos, hexact, s, p, hs, hp, by exact_mod_cast hbetween hexact⟩

/-- Outside: a grey with itself, so often that the total is held back, comes to twice the
grey; and one so often that the sum is rounded falls short of itself. -/
theorem exists_mix_beyond_members :
    (∃ s, mix [(.grey 100, .ofNat Count.limit), (.grey 100, .ofNat Count.limit)] = some s ∧
      s.truncate = ⟨200, 200, 200, 255⟩) ∧
    ∃ s, mix [(.grey 127, .ofNat (2 ^ 53 + 1)), (.grey 127, 1)] = some s ∧
      s.truncate = ⟨126, 126, 126, 254⟩ := by
  exact ⟨⟨_, rfl, by decide +kernel⟩, ⟨_, rfl, by decide +kernel⟩⟩

end Stop

end Colourway
