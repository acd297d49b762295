/-
  Two recipes joined by a transition. Where the first one ends with a colour, the draft that
  the transition leaves has nothing waiting and an empty layer told once: it is the draft of no
  words at all, above the layers of the first recipe (`ofWords_join`). So the second recipe is
  read as it would be alone, and the stops of both follow each other (`stops_join`). The text
  of a transition neither changes the words before it nor those behind it, for it does not
  start with a digit (`wordsOf_join`).
-/
import Colourway.Catalogue.Basic
import Colourway.Proofs.Recipe.Reading

namespace Colourway.Recipe

/-! ## Words -/

theorem step_transition_step_colour (d : Draft) (c : Colour) :
    (d.step (.colour c)).step .transition =
      Draft.start.above ((d.step (.colour c)).current :: (d.step (.colour c)).closed) := rfl

theorem ofWords_join {first : List Word} {c : Colour} (hlast : first.getLast? = some (.colour c))
    (second : List Word) :
    Draft.ofWords (first ++ .transition :: second) =
      (Draft.ofWords second).above
        ((Draft.ofWords first).current :: (Draft.ofWords first).closed) := by
  obtain ⟨before, rfl⟩ := List.getLast?_eq_some_iff.1 hlast
  have hjoin : before ++ [.colour c] ++ .transition :: second =
      before ++ [.colour c] ++ [.transition] ++ second := by simp
  rw [hjoin, Draft.ofWords_append, Draft.ofWords_concat _ .transition, Draft.ofWords_concat,
    step_transition_step_colour, Draft.foldl_step_above]
  rfl

theorem stops_above (d : Draft) (base : List Layer) :
    (d.above base).stops = base.reverse.flatMap Draft.stopsOf ++ d.stops := by
  rw [Draft.stops, Draft.layers_above, List.flatMap_append]
  rfl

theorem stops_join {first : List Word} {c : Colour} (hlast : first.getLast? = some (.colour c))
    (second : List Word) :
    (Draft.ofWords (first ++ .transition :: second)).stops =
      (Draft.ofWords first).stops ++ (Draft.ofWords second).stops := by
  rw [ofWords_join hlast, stops_above]
  rfl

/-- Two runs of words that are gradients, the first with a colour at its end, are joined by a
transition into the gradient of the stops of both, if they are not too many. -/
theorem finish_join {first second : List Word} {c : Colour} {g h : Gradient}
    (hf : Positive first) (hs : Positive second) (hlast : first.getLast? = some (.colour c))
    (hg : (Draft.ofWords first).finish = .ok g) (hh : (Draft.ofWords second).finish = .ok h) :
    (g.length + h.length ≤ Gradient.maxStops →
      ∃ k, (Draft.ofWords (first ++ .transition :: second)).finish = .ok k ∧
        k.stops = g.stops ++ h.stops) ∧
    (Gradient.maxStops < g.length + h.length →
      (Draft.ofWords (first ++ .transition :: second)).finish =
        .error (.tooManyStops (.ofNat (g.length + h.length)))) := by
  have hpos : Positive (first ++ .transition :: second) := by
    refine positive_append.2 ⟨hf, fun n hn => ?_⟩
    rcases List.mem_cons.1 hn with hn | hn
    · cases hn
    · exact hs n hn
  have hd := Draft.sound_ofWords hpos
  obtain ⟨-, -, hgs⟩ := (Draft.finish_eq_ok_iff (Draft.sound_ofWords hf)).1 hg
  obtain ⟨hne, -, hhs⟩ := (Draft.finish_eq_ok_iff (Draft.sound_ofWords hs)).1 hh
  have hstops : (Draft.ofWords (first ++ .transition :: second)).stops = g.stops ++ h.stops := by
    rw [stops_join hlast, hgs, hhs]
  have hlen : (Draft.ofWords (first ++ .transition :: second)).stops.length =
      g.length + h.length := by
    rw [hstops, List.length_append]
    rfl
  have hcur : (Draft.ofWords (first ++ .transition :: second)).current.members ≠ [] := by
    rw [ofWords_join hlast]
    exact hne
  constructor
  · intro hle
    obtain ⟨k, hk, hks⟩ := Draft.exists_finish_eq_ok hd hcur (hlen ▸ hle)
    exact ⟨k, hk, hks.trans hstops⟩
  · intro hlt
    rw [Draft.finish_of_too_long hd hcur (hlen ▸ hlt), hlen]

/-! ## Texts -/

theorem lower_join (a b : String) :
    Text.lower (a ++ "To" ++ b).toList =
      Text.lower a.toList ++ ("to".toList ++ Text.lower b.toList) := by
  have hto : Text.lower "To".toList = "to".toList := by decide
  rw [String.toList_append, String.toList_append, Text.lower_append, Text.lower_append, hto,
    List.append_assoc]

theorem scan_join {a b : String} (hs : strays (wordsOf .basic a) = []) :
    scan .basic (Text.lower (a ++ "To" ++ b).toList) =
      scan .basic (Text.lower a.toList) ++
        ⟨.transition, "to".toList⟩ :: scan .basic (Text.lower b.toList) := by
  have hto : ⟨.transition, "to".toList⟩ ∈ fixedPieces := transition_mem_fixed
  have hhead : ∀ c ∈ ("to".toList ++ Text.lower b.toList).head?, HexCode.isDigit c = false := by
    intro c hc
    obtain rfl : 't' = c := by simpa using hc
    decide
  rw [lower_join, scan_append (strays_wordsOf_eq_nil_iff.1 hs) hhead]
  exact congrArg _ (scan_append_of_word? (word?_append_of_mem_fixed hto _))

theorem strays_join {a b : String} (ha : strays (wordsOf .basic a) = [])
    (hb : strays (wordsOf .basic b) = []) : strays (wordsOf .basic (a ++ "To" ++ b)) = [] := by
  rw [strays_wordsOf_eq_nil_iff, scan_join ha]
  intro p hp
  rcases List.mem_append.1 hp with hp | hp
  · exact strays_wordsOf_eq_nil_iff.1 ha p hp
  · rcases List.mem_cons.1 hp with rfl | hp
    · rfl
    · exact strays_wordsOf_eq_nil_iff.1 hb p hp

theorem wordsOf_join {a b : String} (hs : strays (wordsOf .basic a) = []) :
    (wordsOf .basic (a ++ "To" ++ b)).map (·.2) =
      (wordsOf .basic a).map (·.2) ++ .transition :: (wordsOf .basic b).map (·.2) := by
  rw [map_snd_wordsOf, map_snd_wordsOf, map_snd_wordsOf, scan_join hs, List.map_append,
    List.map_cons]

theorem readRecipe_eq_ok_iff {s : Swatches} {policy : Policy} {text : String} {g : Gradient} :
    Catalogue.readRecipe s policy text = .ok g ↔ read s policy text = .ok g := by
  unfold Catalogue.readRecipe
  cases read s policy text <;> simp [Except.mapError]

theorem exists_of_map_length {ε : Type} {r : Except ε Gradient} {n : Nat}
    (h : r.map Gradient.length = .ok n) : ∃ g, r = .ok g ∧ g.length = n := by
  cases r with
  | error e => cases h
  | ok g => exact ⟨g, rfl, Except.ok.inj h⟩

/-- `To` between two strict recipes, the first of which ends with a colour, puts the stops of
the second one behind those of the first one. -/
theorem readRecipe_join {a b : String} {g h : Gradient}
    (ha : Catalogue.readRecipe .basic .strict a = .ok g)
    (hb : Catalogue.readRecipe .basic .strict b = .ok h)
    (hlast : ∃ c, ((wordsOf .basic a).map (·.2)).getLast? = some (.colour c)) :
    (g.length + h.length ≤ 1024 →
      ∃ k, Catalogue.readRecipe .basic .strict (a ++ "To" ++ b) = .ok k ∧
        k.stops = g.stops ++ h.stops) ∧
    (1024 < g.length + h.length →
      ∃ found : Count, found.val = g.length + h.length ∧
        Catalogue.readRecipe .basic .strict (a ++ "To" ++ b) =
          .error (.malformed (a ++ "To" ++ b) (.tooManyStops found))) := by
  obtain ⟨c, hlast⟩ := hlast
  obtain ⟨has, hg⟩ := read_strict_eq_ok_iff.1 (readRecipe_eq_ok_iff.1 ha)
  obtain ⟨hbs, hh⟩ := read_strict_eq_ok_iff.1 (readRecipe_eq_ok_iff.1 hb)
  have hread : read .basic .strict (a ++ "To" ++ b) =
      (Draft.ofWords
        ((wordsOf .basic a).map (·.2) ++ .transition :: (wordsOf .basic b).map (·.2))).finish := by
    rw [read_of_no_strays (strays_join has hbs), wordsOf_join has]
  obtain ⟨hfits, hlong⟩ :=
    finish_join (positive_wordsOf .basic a) (positive_wordsOf .basic b) hlast hg hh
  constructor
  · intro hle
    obtain ⟨k, hk, hks⟩ := hfits hle
    exact ⟨k, readRecipe_eq_ok_iff.2 (hread.trans hk), hks⟩
  · intro hlt
    have hglen : g.length ≤ 1024 := g.length_le
    have hhlen : h.length ≤ 1024 := h.length_le
    have hlimit : g.length + h.length ≤ Count.limit := by
      unfold Count.limit
      omega
    refine ⟨.ofNat (g.length + h.length), Count.val_ofNat_of_le hlimit, ?_⟩
    rw [Catalogue.readRecipe, hread, hlong hlt]
    rfl

/-- A transition at the front of the second recipe still repeats its layer; and behind a recipe
of as many stops as there may be, the number of both is reported. -/
theorem readRecipe_join_at_limit :
    (∃ g h, Catalogue.readRecipe .basic .strict "RedTo#00f" = .ok g ∧
      Catalogue.readRecipe .basic .strict "DoubleToTripleGreenYellow" = .ok h ∧
      ∃ k, Catalogue.readRecipe .basic .strict "RedTo#00fToDoubleToTripleGreenYellow" = .ok k ∧
        k.stops = g.stops ++ h.stops ∧ k.length = 4) ∧
    ∃ found : Count, found.val = 1026 ∧
      Catalogue.readRecipe .basic .strict
          "OctupleOctupleOctupleDoubleToRedToDoubleToTripleGreenYellow" =
        .error (.malformed "OctupleOctupleOctupleDoubleToRedToDoubleToTripleGreenYellow"
          (.tooManyStops found)) := by
  have hlength : (Catalogue.readRecipe .basic .strict "RedTo#00f").map Gradient.length = .ok 2 ∧
      (Catalogue.readRecipe .basic .strict "DoubleToTripleGreenYellow").map Gradient.length =
        .ok 2 ∧
      (Catalogue.readRecipe .basic .strict "OctupleOctupleOctupleDoubleToRed").map
        Gradient.length = .ok 1024 := by
    decide +kernel
  obtain ⟨g, hg, hglen⟩ := exists_of_map_length hlength.1
  obtain ⟨h, hh, hhlen⟩ := exists_of_map_length hlength.2.1
  obtain ⟨most, hmost, hmostlen⟩ := exists_of_map_length hlength.2.2
  have hblue : ((wordsOf .basic "RedTo#00f").map (·.2)).getLast? =
      some (.colour (.rgb 0 0 255)) := by
    decide +kernel
  have hred : ((wordsOf .basic "OctupleOctupleOctupleDoubleToRed").map (·.2)).getLast? =
      some (.colour (.rgb 255 0 0)) := by
    decide +kernel
  constructor
  · obtain ⟨k, hk, hks⟩ := (readRecipe_join hg hh ⟨_, hblue⟩).1 (by omega)
    have hklen : k.length = g.length + h.length := by
      rw [Gradient.length, hks, List.length_append]
      rfl
    exact ⟨g, h, hg, hh, k, hk, hks, by omega⟩
  · obtain ⟨found, hfound, hjoin⟩ := (readRecipe_join hmost hh ⟨_, hred⟩).2 (by omega)
    exact ⟨found, by omega, hjoin⟩

end Colourway.Recipe
