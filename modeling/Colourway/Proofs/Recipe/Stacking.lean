/-
  Multipliers before an adjustment. They make the adjustment as often as they say in one go;
  without them it may be written out as many times. The two drafts hold what waits for a colour
  in different ways, but it does the same to every colour (`adjust_replicate`), so they are
  alike from there on.

  The number of times need not fit a count: what is held back at `Count.limit`, and what is cut
  off at `Draft.adjustmentLimit`, is never missed, since an adjustment that was made eight times
  changes nothing any more. `finish_stacked` is the main statement.
-/
import Colourway.Proofs.Recipe.Likeness
import Colourway.Proofs.Recipe.Repetition

namespace Colourway.Recipe

namespace Draft

theorem foldl_step_adjustments (m : Adjustment) (n : Nat) (d : Draft) (hd : d.multiplier = 1) :
    (List.replicate n (.adjustment m)).foldl step d =
      { d with pending := List.replicate n (m, 1) ++ d.pending } := by
  induction n generalizing d with
  | zero => rfl
  | succ n ih =>
    rw [List.replicate_succ, List.foldl_cons, ih _ rfl, step, hd, List.replicate_succ',
      List.append_assoc]
    rfl

/-- Told apart, the same adjustment is made as often as it is told. -/
theorem adjust_replicate (m : Adjustment) (n : Nat) (pending : List (Adjustment × Count))
    (c : Colour) :
    adjust (List.replicate n (m, 1) ++ pending) c = adjust pending (m.apply^[n] c) := by
  induction n generalizing c with
  | zero => rfl
  | succ n ih =>
    have hone : (1 : Count).val = 1 := rfl
    rw [List.replicate_succ, List.cons_append, adjust_cons, hone, Function.iterate_one, ih,
      Function.iterate_succ_apply]

/-- A number of times that is held at the limit is as good as the true one. -/
theorem adjust_ofNat (m : Adjustment) (n : Nat) (pending : List (Adjustment × Count))
    (c : Colour) : adjust ((m, .ofNat n) :: pending) c = adjust pending (m.apply^[n] c) := by
  have hlimit : adjustmentLimit ≤ Count.limit := by decide
  have hmin : min (Count.ofNat n).val adjustmentLimit = min n adjustmentLimit := by
    rw [Count.val_ofNat]
    omega
  unfold adjust
  rw [List.foldl_cons, hmin, Adjustment.applyTimes_min]

/-- Behind a draft where no multiplier waits, a multiplied adjustment and the adjustment written
out lead to drafts alike. -/
theorem alike_stacked {d : Draft} (hd : d.multiplier = 1) (counts : List Count) (m : Adjustment) :
    Alike (· = ·) ((counts.map Word.multiplier ++ [Word.adjustment m]).foldl step d)
      ((List.replicate (Count.trueProd counts) (Word.adjustment m)).foldl step d) := by
  have hprod : counts.foldl Count.mul d.multiplier = .ofNat (Count.trueProd counts) := by
    rw [hd]
    exact Count.prod_eq_ofNat counts
  rw [List.foldl_append, foldl_step_multipliers, foldl_step_adjustments m _ d hd, hprod]
  refine ⟨rfl, List.forall₂_refl _, fun c => ?_, hd.symm⟩
  exact (adjust_ofNat m _ _ c).trans (adjust_replicate m _ _ c).symm

end Draft

/-- A multiplied adjustment is the adjustment written as often as the multipliers say, however
often that is. -/
theorem finish_stacked {pre : List Word} (post : List Word) (counts : List Count) (m : Adjustment)
    (hpre : (Draft.ofWords pre).multiplier = 1) :
    (Draft.ofWords (pre ++ counts.map .multiplier ++ .adjustment m :: post)).finish =
      (Draft.ofWords (pre ++
        List.replicate (Count.trueProd counts) (.adjustment m) ++ post)).finish := by
  have hleft : pre ++ counts.map Word.multiplier ++ .adjustment m :: post =
      pre ++ (counts.map Word.multiplier ++ [Word.adjustment m]) ++ post := by simp
  have halike := (Draft.alike_stacked hpre counts m).foldl_step layerRelation_eq post
  rw [hleft, Draft.ofWords_append, Draft.ofWords_append, Draft.ofWords_append,
    Draft.ofWords_append]
  exact halike.finish_eq layerRelation_eq fun l _ l' h => congrArg Draft.stopsOf h

/-- Thirteen to the twentieth times, more than a count holds, between two other adjustments. -/
theorem finish_stacked_beyond_limit :
    let pre : List Word := [.colour .white, .transition, .multiplier 3, .adjustment .solid]
    let post : List Word := [.adjustment .light, .colour .white]
    let counts : List Count := List.replicate 20 13
    (Draft.ofWords pre).multiplier = 1 ∧ 2 ^ 64 < Count.trueProd counts ∧
      (Draft.ofWords (pre ++ counts.map .multiplier ++ .adjustment .dark :: post)).finish =
        (Draft.ofWords (pre ++
          List.replicate (Count.trueProd counts) (.adjustment .dark) ++ post)).finish ∧
      ∃ g, (Draft.ofWords (pre ++
          List.replicate (Count.trueProd counts) (.adjustment .dark) ++ post)).finish = .ok g ∧
        g.stops.map Stop.truncate = [.white, .black] := by
  intro pre post counts
  have hpre : (Draft.ofWords pre).multiplier = 1 := by decide
  have hmany : 2 ^ 64 < Count.trueProd counts := by decide +kernel
  have h := finish_stacked post counts .dark hpre
  refine ⟨hpre, hmany, h, ?_⟩
  rw [← h]
  exact ⟨_, rfl, by decide +kernel⟩

end Colourway.Recipe
