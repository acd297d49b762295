/-
  Layers as mixtures. What a layer comes to does not depend on the order of its colours, nor on
  whether a colour is written once with a weight or as often as the weight says, as long as no
  sum of the mean is rounded (`SameMixture.stopsOf_eq`). Two layers are the same mixture when
  every way of counting colours gives them the same weighted sum.

  Adjustments and multipliers in front of a colour act on this colour alone, and behind it
  nothing waits (`Idle`), so a colour with what stands in front of it is one member of its layer
  wherever it stands (`Idle.foldl_step_member`). `finish_mixture` puts this together: a
  multiplied colour may be written out, and neighbouring colours may change places.
-/
import Colourway.Proofs.Colour.Mix
import Colourway.Proofs.Recipe.Likeness

namespace Colourway

namespace Stop

variable {members members' : List (Colour × Count)}

theorem weighed_reverse (f : Colour → ℕ) (members : List (Colour × Count)) :
    weighed f members.reverse = weighed f members := by
  unfold weighed
  rw [List.map_reverse, List.sum_reverse]

theorem weight_eq_weighed (members : List (Colour × Count)) :
    weight members = weighed (fun _ => 1) members := by
  rw [weighed_const, one_mul]

/-- A mean of which no sum is rounded is told by the weighted sums. -/
theorem mix_congr (hexact : Exact members)
    (h : ∀ f, weighed f members = weighed f members') : mix members = mix members' := by
  have hweight : weight members = weight members' := by
    rw [weight_eq_weighed, h, ← weight_eq_weighed]
  have hexact' : Exact members' := by
    unfold Exact at hexact ⊢
    rwa [← hweight]
  have htotal : Count.sum (members.map (·.2)) = Count.sum (members'.map (·.2)) := by
    rw [Count.sum_eq_ofNat, Count.sum_eq_ofNat]
    exact congrArg Count.ofNat hweight
  have hsum : ∀ k : Channel, weigh k.ofColour members = weigh k.ofColour members' := by
    intro k
    rw [weigh_eq_toFloat k hexact, weigh_eq_toFloat k hexact', h]
  have hr : weigh (·.r) members = weigh (·.r) members' := hsum .red
  have hg : weigh (·.g) members = weigh (·.g) members' := hsum .green
  have hb : weigh (·.b) members = weigh (·.b) members' := hsum .blue
  have ha : weigh (·.a) members = weigh (·.a) members' := hsum .cover
  unfold mix
  dsimp only
  rw [htotal, hr, hg, hb, ha]

end Stop

namespace Recipe

open Stop

/-! ## Layers that are the same mixture -/

/-- The layers have the same weight of every colour, however it is told, and are repeated the
same number of times. -/
structure SameMixture (l l' : Layer) : Prop where
  repeats_eq : l.repeats = l'.repeats
  members_eq_nil_iff : l.members = [] ↔ l'.members = []
  weighed_eq : ∀ f, weighed f l.members = weighed f l'.members

theorem SameMixture.refl (l : Layer) : SameMixture l l := ⟨rfl, Iff.rfl, fun _ => rfl⟩

theorem layerRelation_sameMixture : LayerRelation SameMixture where
  empty := fun _ => .refl _
  push := fun h m => by
    refine ⟨h.repeats_eq, by simp [Layer.push], fun f => ?_⟩
    simp only [Layer.push, weighed_cons, h.weighed_eq]
  members_eq_nil_iff := SameMixture.members_eq_nil_iff
  repeats_eq := SameMixture.repeats_eq

theorem SameMixture.stopsOf_eq {l l' : Layer} (h : SameMixture l l') (hexact : Exact l.members) :
    Draft.stopsOf l = Draft.stopsOf l' := by
  have hreverse : Exact l.members.reverse := by
    unfold Exact at hexact ⊢
    rwa [weight_eq_weighed, weighed_reverse, ← weight_eq_weighed]
  have hmix : mix l.members.reverse = mix l'.members.reverse :=
    mix_congr hreverse fun f => by rw [weighed_reverse, weighed_reverse, h.weighed_eq]
  unfold Draft.stopsOf
  rw [hmix, h.repeats_eq]

/-! ## Members of a layer -/

/-- The word belongs to the colour that follows it: an adjustment or a multiplier. -/
def Word.prepares : Word → Bool
  | .adjustment _ | .multiplier _ => true
  | _ => false

namespace Draft

/-- No layer weighs so much that a sum of its mean is rounded. -/
def Light (d : Draft) : Prop := ∀ layer ∈ d.layers, 255 * weight layer.members ≤ 2 ^ 53

/-- Nothing waits for a colour. -/
structure Idle (d : Draft) : Prop where
  pending : d.pending = []
  multiplier : d.multiplier = 1

/-- The draft with one more member in its current layer. -/
def put (d : Draft) (m : Colour × Count) : Draft := { d with current := d.current.push m }

@[simp] theorem members_put (d : Draft) (m : Colour × Count) :
    (d.put m).current.members = m :: d.current.members := rfl

theorem Idle.put {d : Draft} (hd : d.Idle) (m : Colour × Count) : (d.put m).Idle :=
  ⟨hd.pending, hd.multiplier⟩

/-- The member that a colour becomes behind some words. -/
def memberOf (words : List Word) (c : Colour) : Colour × Count :=
  (adjust (ofWords words).pending c, (ofWords words).multiplier)

variable {d : Draft} {u v : List Word}

theorem Idle.foldl_step_prepares (hd : d.Idle) (hu : ∀ w ∈ u, w.prepares = true) :
    u.foldl step d =
      { d with pending := (ofWords u).pending, multiplier := (ofWords u).multiplier } := by
  induction u using List.reverseRecOn with
  | nil =>
    obtain ⟨hpending, hmultiplier⟩ := hd
    cases d
    subst hpending hmultiplier
    rfl
  | append_singleton u w ih =>
    have hw := hu w (List.mem_append_right _ List.mem_cons_self)
    rw [List.foldl_append, ih fun w hmem => hu w (List.mem_append_left _ hmem), ofWords_concat]
    cases w with
    | adjustment m => rfl
    | multiplier n => rfl
    | _ => exact absurd hw Bool.false_ne_true

theorem Idle.foldl_step_member (hd : d.Idle) (hu : ∀ w ∈ u, w.prepares = true) (c : Colour) :
    (u ++ [Word.colour c]).foldl step d = d.put (memberOf u c) := by
  rw [List.foldl_append, hd.foldl_step_prepares hu]
  obtain ⟨hpending, hmultiplier⟩ := hd
  cases d
  subst hpending hmultiplier
  rfl

theorem Idle.foldl_step_two_members (hd : d.Idle) (hu : ∀ w ∈ u, w.prepares = true)
    (hv : ∀ w ∈ v, w.prepares = true) (c c' : Colour) :
    (u ++ [Word.colour c] ++ (v ++ [Word.colour c'])).foldl step d =
      (d.put (memberOf u c)).put (memberOf v c') := by
  rw [List.foldl_append, hd.foldl_step_member hu, (hd.put _).foldl_step_member hv]

theorem Idle.foldl_step_members (hd : d.Idle) (hu : ∀ w ∈ u, w.prepares = true) (c : Colour)
    (n : ℕ) :
    (List.replicate n (u ++ [Word.colour c])).flatten.foldl step d =
      { d with
        current := ⟨List.replicate n (memberOf u c) ++ d.current.members, d.current.repeats⟩ } := by
  induction n generalizing d with
  | zero => rfl
  | succ n ih =>
    rw [List.replicate_succ, List.flatten_cons, List.foldl_append, hd.foldl_step_member hu,
      ih (hd.put _), List.replicate_succ', List.append_assoc]
    rfl

theorem weighed_replicate (f : Colour → ℕ) (n : ℕ) (m : Colour × Count) :
    weighed f (List.replicate n m) = n * (f m.1 * m.2.val) := by
  unfold weighed
  rw [List.map_replicate, List.sum_replicate, smul_eq_mul]

/-- A multiplied colour, and the colour written out. -/
theorem Idle.alike_multiplied (hd : d.Idle) (hu : ∀ w ∈ u, w.prepares = true)
    (hone : (ofWords u).multiplier = 1) {n : Count} (hn : 1 ≤ n.val) (c : Colour) :
    Alike SameMixture ((u ++ [Word.multiplier n] ++ [Word.colour c]).foldl step d)
      ((List.replicate n.val (u ++ [Word.colour c])).flatten.foldl step d) := by
  have hun : ∀ w ∈ u ++ [Word.multiplier n], w.prepares = true := by
    intro w hw
    rcases List.mem_append.1 hw with hw | hw
    · exact hu w hw
    · rw [List.mem_singleton.1 hw]
      rfl
  have honeval : (1 : Count).val = 1 := rfl
  have hmul : (1 : Count).mul n = n := by
    rw [Count.one_eq_ofNat, Count.ofNat_mul, one_mul, Count.ofNat_val]
  have hmember : memberOf (u ++ [Word.multiplier n]) c = ((memberOf u c).1, n) := by
    unfold memberOf
    rw [ofWords_concat, step, hone, hmul]
  have hunit : (memberOf u c).2 = 1 := hone
  rw [hd.foldl_step_member hun, hd.foldl_step_members hu, hmember]
  refine ⟨⟨rfl, ?_, fun f => ?_⟩, List.forall₂_same.2 fun l _ => .refl l, fun _ => rfl, rfl⟩
  · simp only [members_put, List.append_eq_nil_iff, List.replicate_eq_nil_iff]
    constructor
    · intro h
      exact absurd h (List.cons_ne_nil _ _)
    · intro h
      omega
  · rw [members_put, weighed_cons, weighed_append, weighed_replicate, hunit, honeval]
    ring

/-- Two colours, each with what stands in front of it, in either order. -/
theorem Idle.alike_swapped (hd : d.Idle) (hu : ∀ w ∈ u, w.prepares = true)
    (hv : ∀ w ∈ v, w.prepares = true) (c c' : Colour) :
    Alike SameMixture ((u ++ [Word.colour c] ++ (v ++ [Word.colour c'])).foldl step d)
      ((v ++ [Word.colour c'] ++ (u ++ [Word.colour c])).foldl step d) := by
  rw [hd.foldl_step_two_members hu hv, hd.foldl_step_two_members hv hu]
  refine ⟨⟨rfl, by simp, fun f => ?_⟩,
    List.forall₂_same.2 fun l _ => .refl l, fun _ => rfl, rfl⟩
  simp only [members_put, weighed_cons]
  ring

/-- Runs that lead to drafts alike end in the same way, whatever follows. -/
theorem finish_eq_of_alike {pre post words words' : List Word}
    (h : Alike SameMixture (words.foldl step (ofWords pre)) (words'.foldl step (ofWords pre)))
    (hlight : (ofWords (pre ++ words ++ post)).Light) :
    (ofWords (pre ++ words ++ post)).finish = (ofWords (pre ++ words' ++ post)).finish := by
  have halike := h.foldl_step layerRelation_sameMixture post
  rw [ofWords_append, ofWords_append] at hlight ⊢
  rw [ofWords_append, ofWords_append]
  exact halike.finish_eq layerRelation_sameMixture fun l hl _ hl' =>
    hl'.stopsOf_eq (hlight l hl)

end Draft

/-- A stop depends on the mixture of its layer alone, as long as the weights are so small that no
sum is rounded: a multiplied colour is the colour written out, with all that stands in front of
it, and two neighbouring colours may change places. -/
theorem finish_mixture {pre u v : List Word} (post : List Word)
    (hpending : (Draft.ofWords pre).pending = []) (hmultiplier : (Draft.ofWords pre).multiplier = 1)
    (hu : ∀ w ∈ u, w.prepares = true) (hv : ∀ w ∈ v, w.prepares = true) (c d : Colour) :
    (∀ n : Count, 1 ≤ n.val → (Draft.ofWords u).multiplier = 1 →
      (Draft.ofWords (pre ++ (u ++ [Word.multiplier n] ++ [Word.colour c]) ++ post)).Light →
      (Draft.ofWords (pre ++ (u ++ [Word.multiplier n] ++ [Word.colour c]) ++ post)).finish =
        (Draft.ofWords
          (pre ++ (List.replicate n.val (u ++ [Word.colour c])).flatten ++ post)).finish) ∧
    ((Draft.ofWords (pre ++ (u ++ [Word.colour c] ++ (v ++ [Word.colour d])) ++ post)).Light →
      (Draft.ofWords (pre ++ (u ++ [Word.colour c] ++ (v ++ [Word.colour d])) ++ post)).finish =
        (Draft.ofWords
          (pre ++ (v ++ [Word.colour d] ++ (u ++ [Word.colour c])) ++ post)).finish) := by
  have hidle : (Draft.ofWords pre).Idle := ⟨hpending, hmultiplier⟩
  constructor
  · intro n hn hone hlight
    exact Draft.finish_eq_of_alike (hidle.alike_multiplied hu hone hn c) hlight
  · intro hlight
    exact Draft.finish_eq_of_alike (hidle.alike_swapped hu hv c d) hlight

/-- In a layer that has a colour already: a dark red written three times, and a red and a
translucent white that change places. -/
theorem finish_mixture_dark_red :
    let pre : List Word := [Word.colour .black]
    let post : List Word := [Word.colour .white, .transition, .colour .clear]
    let u : List Word := [Word.multiplier 2, .adjustment .dark]
    let v : List Word := [.adjustment .translucent, .multiplier 7]
    let red : Colour := .rgb 255 0 0
    (Draft.ofWords pre).pending = [] ∧ (Draft.ofWords pre).multiplier = 1 ∧
      (Draft.ofWords u).multiplier = 1 ∧
      (∀ w ∈ u, w.prepares = true) ∧ (∀ w ∈ v, w.prepares = true) ∧
      (Draft.ofWords (pre ++ (u ++ [Word.multiplier 3] ++ [Word.colour red]) ++ post)).Light ∧
      (Draft.ofWords
          (pre ++ (u ++ [Word.colour red] ++ (v ++ [Word.colour .white])) ++ post)).Light ∧
      (Draft.ofWords (pre ++ (u ++ [Word.multiplier 3] ++ [Word.colour red]) ++ post)).finish =
        (Draft.ofWords (pre ++ (u ++ [Word.colour red] ++ (u ++ [Word.colour red] ++
          (u ++ [Word.colour red]))) ++ post)).finish ∧
      (Draft.ofWords
          (pre ++ (u ++ [Word.colour red] ++ (v ++ [Word.colour .white])) ++ post)).finish =
        (Draft.ofWords
          (pre ++ (v ++ [Word.colour .white] ++ (u ++ [Word.colour red])) ++ post)).finish := by
  intro pre post u v red
  have hu : ∀ w ∈ u, w.prepares = true := by decide
  have hv : ∀ w ∈ v, w.prepares = true := by decide
  have hone : (Draft.ofWords u).multiplier = 1 := by decide
  have hmultiplied : (Draft.ofWords (pre ++ (u ++ [Word.multiplier 3] ++ [Word.colour red]) ++
      post)).Light := by
    unfold Draft.Light
    decide
  have hswapped : (Draft.ofWords (pre ++ (u ++ [Word.colour red] ++ (v ++ [Word.colour .white])) ++
      post)).Light := by
    unfold Draft.Light
    decide
  have hthree : (List.replicate (3 : Count).val (u ++ [Word.colour red])).flatten =
      u ++ [Word.colour red] ++ (u ++ [Word.colour red] ++ (u ++ [Word.colour red])) := rfl
  obtain ⟨hmany, hswap⟩ := @finish_mixture pre u v post rfl rfl hu hv red .white
  have hmany' := hmany 3 (by decide) hone hmultiplied
  rw [hthree] at hmany'
  exact ⟨rfl, rfl, hone, hu, hv, hmultiplied, hswapped, hmany', hswap hswapped⟩

end Recipe

end Colourway
