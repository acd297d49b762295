/-
  How the words of a text cover it. The pieces follow each other from the first character to the
  last, each of them selected in what the pieces before it have left (`selected_drop_iff`). Said
  of words and their offsets, this is `words_tile`.
-/
import Colourway.Proofs.Recipe.Vocabulary

namespace Colourway.Recipe

variable {s : Swatches} {text : List Char} {p : Piece}

/-! ## All pieces -/

theorem text_ne_nil_of_mem_scan (hp : p ∈ scan s text) : p.text ≠ [] := by
  obtain ⟨i, hi, rfl⟩ := List.getElem_of_mem hp
  obtain ⟨c, rest, -, hfirst⟩ := exists_firstPiece_eq hi
  rw [hfirst]
  exact (text_firstPiece s c rest).1

theorem selected_drop_iff {i : Nat} (hi : i < (scan s text).length) :
    Selected s (((scan s text).drop i).flatMap (·.text)) p ↔ p = (scan s text)[i] := by
  obtain ⟨c, rest, hrest, hfirst⟩ := exists_firstPiece_eq hi
  rw [hrest, hfirst]
  exact selected_iff

theorem length_scan_le (s : Swatches) (text : List Char) :
    (scan s text).length ≤ text.length := by
  have hone : ∀ n ∈ (scan s text).map (·.text.length), 1 ≤ n := by
    intro n hn
    obtain ⟨p, hp, rfl⟩ := List.mem_map.1 hn
    exact List.length_pos_iff.2 (text_ne_nil_of_mem_scan hp)
  calc (scan s text).length
      = ((scan s text).map (·.text.length)).length := (List.length_map _).symm
    _ ≤ ((scan s text).map (·.text.length)).sum := List.length_le_sum_of_one_le _ hone
    _ = text.length := by rw [← List.length_flatMap, flatMap_text_scan]

/-! ## Offsets -/

theorem words_eq_mapIdx (s : Swatches) (text : List Char) :
    words s text = (scan s text).mapIdx
      fun i p => (byteLength (((scan s text).take i).flatMap (·.text)), p.word) := by
  rw [words, placeFrom_eq_mapIdx]
  simp only [Nat.zero_add]

/-- A word starts where the pieces before it end, and behind the last word the text ends. -/
theorem offset_words (s : Swatches) (text : List Char) (i : Nat) :
    ((words s text)[i]?.map (·.1)).getD (byteLength text) =
      byteLength (((scan s text).take i).flatMap (·.text)) := by
  rw [words_eq_mapIdx, List.getElem?_mapIdx]
  cases hi : (scan s text)[i]? with
  | some p => rfl
  | none =>
    rw [List.take_of_length_le (List.getElem?_eq_none_iff.1 hi), flatMap_text_scan]
    rfl

theorem byteLength_eq (text : List Char) : byteLength text = (String.ofList text).utf8ByteSize := by
  rw [String.utf8ByteSize_ofList]
  induction text with
  | nil => rfl
  | cons c text ih => rw [byteLength, ih, String.utf8Len_cons, Nat.add_comm]

/-- The word is read from one part of the text, which starts at one offset and ends before
another: it is the word that is selected in what follows the text before this part. -/
structure Covers (s : Swatches) (text : String) (start stop : Nat) (word : Word)
    (before part after : String) : Prop where
  text_eq : text = before ++ part ++ after
  ne_empty : part ≠ ""
  start_eq : start = before.utf8ByteSize
  stop_eq : stop = (before ++ part).utf8ByteSize
  selected : ∀ p, Selected s (part ++ after).toList p ↔ p = ⟨word, part.toList⟩

theorem covers_words (s : Swatches) (text : String) {i : Nat}
    (hi : i < (words s text.toList).length) :
    ∃ before part after, Covers s text (words s text.toList)[i].1
      (((words s text.toList)[i + 1]?.map (·.1)).getD text.utf8ByteSize)
      (words s text.toList)[i].2 before part after := by
  have hi' : i < (scan s text.toList).length := by
    rwa [words_eq_mapIdx, List.length_mapIdx] at hi
  have hword : (words s text.toList)[i] =
      (byteLength (((scan s text.toList).take i).flatMap (·.text)),
        (scan s text.toList)[i].word) := by
    simp only [words_eq_mapIdx, List.getElem_mapIdx]
  have hsize : text.utf8ByteSize = byteLength text.toList := by
    rw [byteLength_eq, String.ofList_toList]
  -- what is cut off, and what is left, when all words before this one are read
  have hleft : ((scan s text.toList).drop i).flatMap (·.text) =
      (scan s text.toList)[i].text ++
        ((scan s text.toList).drop (i + 1)).flatMap (·.text) := by
    rw [List.drop_eq_getElem_cons hi', List.flatMap_cons]
  have hread : ((scan s text.toList).take (i + 1)).flatMap (·.text) =
      ((scan s text.toList).take i).flatMap (·.text) ++ (scan s text.toList)[i].text := by
    rw [List.take_add_one, List.getElem?_eq_getElem hi', Option.toList_some,
      List.flatMap_append, List.flatMap_singleton]
  refine ⟨String.ofList (((scan s text.toList).take i).flatMap (·.text)),
    String.ofList (scan s text.toList)[i].text,
    String.ofList (((scan s text.toList).drop (i + 1)).flatMap (·.text)), ?_, ?_, ?_, ?_, ?_⟩
  · rw [← String.ofList_append, ← hread, ← String.ofList_append, ← List.flatMap_append,
      List.take_append_drop, flatMap_text_scan, String.ofList_toList]
  · rw [Ne, ← String.toList_inj, String.toList_ofList]
    exact text_ne_nil_of_mem_scan (List.getElem_mem hi')
  · rw [hword, byteLength_eq]
  · rw [hsize, offset_words, hread, byteLength_eq, String.ofList_append]
  · intro p
    rw [← String.ofList_append, String.toList_ofList, String.toList_ofList, ← hleft, hword]
    exact selected_drop_iff hi'

theorem words_eq_nil_iff (s : Swatches) (text : List Char) : words s text = [] ↔ text = [] := by
  constructor
  · intro h
    rw [words_eq_mapIdx, List.mapIdx_eq_nil_iff] at h
    rw [← flatMap_text_scan s text, h, List.flatMap_nil]
  · rintro rfl
    rfl

/-- The words of a text are no more than its characters. They cover the text without a gap,
each from its offset to the one of the next word, and the last one to the end. -/
theorem words_tile (s : Swatches) (text : String) :
    (words s text.toList).length ≤ text.length ∧
      (words s text.toList = [] ↔ text = "") ∧
      (∀ place ∈ (words s text.toList).head?, place.1 = 0) ∧
      ∀ i (hi : i < (words s text.toList).length), ∃ before part after,
        Covers s text (words s text.toList)[i].1
          (((words s text.toList)[i + 1]?.map (·.1)).getD text.utf8ByteSize)
          (words s text.toList)[i].2 before part after := by
  refine ⟨?_, ?_, ?_, fun i hi => covers_words s text hi⟩
  · rw [words_eq_mapIdx, List.length_mapIdx, ← String.length_toList]
    exact length_scan_le s text.toList
  · rw [words_eq_nil_iff, ← String.toList_inj]
    rfl
  · intro place hplace
    have hstart := offset_words s text.toList 0
    rw [← List.head?_eq_getElem?, hplace, Option.map_some, Option.getD_some] at hstart
    rw [hstart]
    rfl

/-- Swatches with an empty name, a name that looks like a colour code, one with a blank, and
one of two bytes. -/
def harbour : Swatches :=
  (((Swatches.basic.insert "" .black).insert "#F" (.rgb 1 0 0)).insert "Sea Blue"
    (.rgb 2 0 0)).insert "É" (.rgb 3 0 0)

theorem words_tile_harbour :
    words harbour "#00f#fsea blueétodouble##".toList =
        [(0, .colour (.rgb 0 0 255)), (4, .colour (.rgb 1 0 0)), (6, .colour (.rgb 2 0 0)),
          (14, .colour (.rgb 3 0 0)), (16, .transition), (18, .multiplier 2), (24, .stray '#'),
          (25, .stray '#')] ∧
      ∃ before part after, Covers harbour "#00f#fsea blueétodouble##" 6 14
        (.colour (.rgb 2 0 0)) before part after := by
  have hwords : words harbour "#00f#fsea blueétodouble##".toList =
      [(0, .colour (.rgb 0 0 255)), (4, .colour (.rgb 1 0 0)), (6, .colour (.rgb 2 0 0)),
        (14, .colour (.rgb 3 0 0)), (16, .transition), (18, .multiplier 2), (24, .stray '#'),
        (25, .stray '#')] := by
    decide +kernel
  have hcovers := (words_tile harbour "#00f#fsea blueétodouble##").2.2.2 2
    (by rw [hwords]; decide)
  simp only [hwords] at hcovers
  exact ⟨hwords, hcovers⟩

end Colourway.Recipe
