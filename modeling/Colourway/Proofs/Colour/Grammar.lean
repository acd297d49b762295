/-
  The grammar of codes, told without their readers. A digit is worth its place among the
  sixteen (`digitValue`), a capital as much as its small letter. The digits of a code stand for
  the channels in turn, in the longer codes two for each channel, in the shorter ones a single
  digit that is doubled, and a channel without digits is full (`Denotes`).

  Both readers follow this grammar, and read back what is written (`readers_follow_grammar`).
  They differ in hash signs and in what may be left over: the one that reads the start of a text
  takes at most one sign off and then the longest code that the run of digits has room for; the
  other takes off any number, and needs the digits to be one code, with white space around it or
  not.
-/
import Colourway.Proofs.Colour.HexCode
import Colourway.Proofs.Text.ByteOrder
import Colourway.Proofs.Text.LetterCase
import Colourway.Proofs.Text.LineEnds

namespace Colourway.HexCode

/-! ## The grammar -/

/-- The sixteen digits, each in the place of its value. -/
def sixteenDigits : List Char :=
  ['0', '1', '2', '3', '4', '5', '6', '7', '8', '9', 'a', 'b', 'c', 'd', 'e', 'f']

/-- The value of a digit, whatever its case. -/
def digitValue (c : Char) : ℕ := sixteenDigits.idxOf c.toLower

/-- The digits at the start of a text, up to the first other character. -/
def leadingDigits (text : List Char) : List Char :=
  text.takeWhile fun c => decide (c.toLower ∈ sixteenDigits)

/-- The text without a hash sign at its start. Only one is taken off. -/
def withoutSign : List Char → List Char
  | '#' :: text => text
  | text => text

/-- The value of one channel, by the values of all digits: the digits are dealt out in pairs, or
one by one if there are few, and a channel that gets none is full. -/
def channelValue (values : List ℕ) (channel : ℕ) : ℕ :=
  let share := if values.length < 6 then 1 else 2
  match (values.drop (share * channel)).take share with
  | [d] => 16 * d + d
  | [d, e] => 16 * d + e
  | _ => 255

/-- The colour has the channels that the digits give it. -/
def Denotes (digits : List Char) (c : Colour) : Prop :=
  c.channels.map UInt8.toNat = [0, 1, 2, 3].map (channelValue (digits.map digitValue))

/-! ## Digits -/

theorem isAscii_of_mem_sixteenDigits {c : Char} (h : c ∈ sixteenDigits) :
    Text.isAscii c = true := by
  have hall : sixteenDigits.all Text.isAscii = true := by decide
  exact List.all_eq_true.1 hall c h

theorem value?_ascii :
    ∀ n ∈ List.range 128, Hexadecimal.value? (Char.ofNat n) =
      if (Char.ofNat n).toLower ∈ sixteenDigits then some (digitValue (Char.ofNat n))
      else none := by
  decide +kernel

theorem value?_of_not_isAscii {c : Char} (h : Text.isAscii c = false) :
    Hexadecimal.value? c = none := by
  have hbeyond : ¬c.toNat < 0x80 := of_decide_eq_false h
  have hle : ∀ d : Char, d.toNat < 0x80 → ¬c ≤ d := by
    intro d hd hcd
    have hnat : c.toNat ≤ d.toNat := UInt32.le_iff_toNat_le.1 hcd
    omega
  rw [Hexadecimal.value?, if_neg fun h => hle '9' (by decide) h.2,
    if_neg fun h => hle 'f' (by decide) h.2, if_neg fun h => hle 'F' (by decide) h.2]

/-- The characters that are read as digits are the sixteen and their capitals, and are read as
what they are worth. -/
theorem value?_eq (c : Char) :
    Hexadecimal.value? c =
      if c.toLower ∈ sixteenDigits then some (digitValue c) else none := by
  cases hc : Text.isAscii c with
  | true =>
    have h := value?_ascii c.toNat (List.mem_range.2 (of_decide_eq_true hc))
    rwa [Char.ofNat_toNat] at h
  | false =>
    have hnot : c.toLower ∉ sixteenDigits := by
      intro hmem
      have hascii := isAscii_of_mem_sixteenDigits hmem
      rw [Text.isAscii_toLower, hc] at hascii
      cases hascii
    rw [value?_of_not_isAscii hc, if_neg hnot]

theorem isDigit_eq (c : Char) : isDigit c = decide (c.toLower ∈ sixteenDigits) := by
  rw [isDigit, value?_eq]
  split
  case isTrue h => rw [decide_eq_true h]; rfl
  case isFalse h => rw [decide_eq_false h]; rfl

theorem leadingDigits_eq (text : List Char) : leadingDigits text = digitRun text := by
  rw [digitRun, funext isDigit_eq]
  rfl

theorem isAscii_of_isDigit {c : Char} (h : isDigit c = true) : Text.isAscii c = true := by
  rw [isDigit_eq] at h
  rw [← Text.isAscii_toLower]
  exact isAscii_of_mem_sixteenDigits (of_decide_eq_true h)

theorem isDigit_hash : isDigit '#' = false := by
  decide

/-- A digit is a single byte. -/
theorem utf8EncodeChar_of_isAscii {c : Char} (h : Text.isAscii c = true) :
    String.utf8EncodeChar c = [c.toUInt8] := by
  have hlt : c.val.toNat ≤ 127 := Nat.le_of_lt_succ (of_decide_eq_true h)
  unfold String.utf8EncodeChar
  rw [if_pos hlt]
  rfl

/-! ## Codes -/

variable {digits : List Char} {c d : Colour}

theorem Denotes.eq (hc : Denotes digits c) (hd : Denotes digits d) : c = d := by
  have hmap : c.channels.map UInt8.toNat = d.channels.map UInt8.toNat := hc.trans hd.symm
  simp only [Colour.channels, List.map_cons, List.map_nil, List.cons.injEq, UInt8.toNat_inj,
    and_true] at hmap
  obtain ⟨hr, hg, hb, ha⟩ := hmap
  cases c
  cases d
  simp_all

theorem toNat_pair {high low : ℕ} (hhigh : high < 16) (hlow : low < 16) :
    (pair high low).toNat = 16 * high + low :=
  UInt8.toNat_ofNat_of_lt' (by omega : 16 * high + low < 256)

theorem map_digitValue {values : List ℕ} (h : digits.map Hexadecimal.value? = values.map some) :
    digits.map digitValue = values ∧ ∀ v ∈ values, v < 16 := by
  induction digits generalizing values with
  | nil => cases values with
    | nil => simp
    | cons => simp at h
  | cons e digits ih =>
    cases values with
    | nil => simp at h
    | cons v values =>
      obtain ⟨hv, hrest⟩ := List.cons.inj h
      obtain ⟨hmap, hlt⟩ := ih hrest
      have hvalue := hv
      rw [value?_eq] at hvalue
      split at hvalue
      case isTrue =>
        refine ⟨by rw [List.map_cons, Option.some.inj hvalue, hmap], ?_⟩
        exact List.forall_mem_cons.2 ⟨Hexadecimal.lt_of_value? hv, hlt⟩
      case isFalse => cases hvalue

theorem denotes_of_spells (h : Spells digits c) : Denotes digits c := by
  obtain ⟨values, hmap, hc⟩ := h
  obtain ⟨rfl, hlt⟩ := map_digitValue hmap
  unfold Denotes
  generalize digits.map digitValue = values at hc hlt ⊢
  unfold ofDigits? at hc
  -- one case for each number of digits, and one for all others
  split at hc
  case h_5 => cases hc
  all_goals
    cases hc
    simp [Colour.channels, Colour.rgb, double, channelValue, toNat_pair, hlt]

theorem mem_widths_iff {n : ℕ} : n ∈ widths ↔ n ∈ [3, 4, 6, 8] := by
  simp only [widths, List.mem_cons, List.not_mem_nil, or_false]
  omega

/-- Digits spell a colour if there are as many as a code has, and they denote it. -/
theorem spells_iff_denotes :
    Spells digits c ↔ (∀ e ∈ digits, e.toLower ∈ sixteenDigits) ∧
      digits.length ∈ [3, 4, 6, 8] ∧ Denotes digits c := by
  have hdigit : ∀ e, isDigit e = true ↔ e.toLower ∈ sixteenDigits := fun e => by
    rw [isDigit_eq, decide_eq_true_iff]
  rw [← mem_widths_iff]
  constructor
  · intro h
    refine ⟨fun e he => (hdigit e).1 ?_, h.length_mem, denotes_of_spells h⟩
    exact h.isDigit_of_mem e he
  · rintro ⟨hdigits, hlength, hdenotes⟩
    obtain ⟨d, hd⟩ := exists_spells (fun e he => (hdigit e).2 (hdigits e he)) hlength
    rwa [hdenotes.eq (denotes_of_spells hd)]

/-! ## Reading the start of a text -/

theorem readStart?_eq (text : List Char) : readStart? text = readDigits? (withoutSign text) := by
  cases text with
  | nil => rfl
  | cons c text =>
    by_cases hc : c = '#'
    · rw [hc]
      rfl
    · have htext : withoutSign (c :: text) = c :: text := by
        unfold withoutSign
        split
        case h_1 heq => exact absurd (List.cons.inj heq).1 hc
        case h_2 => rfl
      rw [htext]
      unfold readStart?
      split
      case h_1 heq => exact absurd (List.cons.inj heq).1 hc
      case h_2 => rfl

theorem Spells.prefix_digitRun {text : List Char} (h : Spells digits c) (hstart : digits <+: text) :
    digits <+: digitRun text := by
  obtain ⟨more, rfl⟩ := hstart
  rw [digitRun, List.takeWhile_append_of_pos h.isDigit_of_mem]
  exact List.prefix_append digits _

/-- The numbers of digits that codes have, as far as some digits go. -/
def widthsWithin (m : ℕ) : Set ℕ := {w | w ∈ [3, 4, 6, 8] ∧ w ≤ m}

theorem exists_isGreatest_widthsWithin {m : ℕ} (h : 3 ≤ m) :
    ∃ k, IsGreatest (widthsWithin m) k := by
  have hbounded : BddAbove (widthsWithin m) := ⟨m, fun _ hw => hw.2⟩
  exact ⟨_, Nat.sSup_mem ⟨3, List.mem_cons_self, h⟩ hbounded, fun _ hw => le_csSup hbounded hw⟩

theorem readDigits?_eq_none_of_length_lt {text : List Char} (h : (digitRun text).length < 3) :
    readDigits? text = none := by
  rw [readDigits?_eq_none_iff]
  rintro ⟨digits, c, hspells, hstart⟩
  have hle := (hspells.prefix_digitRun hstart).length_le
  have hmem := (spells_iff_denotes.1 hspells).2.1
  simp only [List.mem_cons, List.not_mem_nil, or_false] at hmem
  omega

theorem exists_readDigits?_eq_some {text : List Char} {k : ℕ}
    (h : IsGreatest (widthsWithin (digitRun text).length) k) :
    ∃ c, readDigits? text = some (k, c) ∧ Denotes ((digitRun text).take k) c := by
  obtain ⟨⟨hwidth, hle⟩, hmax⟩ := h
  have hrun : digitRun text <+: text := List.takeWhile_prefix isDigit
  have htake : text.take k = (digitRun text).take k := by
    obtain ⟨more, hmore⟩ := hrun
    conv_lhs => rw [← hmore, List.take_append_of_le_length hle]
  have hlength : ((digitRun text).take k).length = k := List.length_take_of_le hle
  have hdigit : ∀ e ∈ (digitRun text).take k, isDigit e = true := fun e he =>
    List.mem_takeWhile_imp (List.mem_of_mem_take he)
  obtain ⟨c, hc⟩ := exists_spells hdigit (by
    rw [hlength]
    exact mem_widths_iff.2 hwidth)
  refine ⟨c, ?_, (spells_iff_denotes.1 hc).2.2⟩
  rw [readDigits?_eq_some_iff, htake]
  refine ⟨hle.trans hrun.length_le, hc, fun others d hd hstart => hmax ⟨?_, ?_⟩⟩
  · exact (spells_iff_denotes.1 hd).2.1
  · exact (hd.prefix_digitRun hstart).length_le

/-- The digits at the start of a text are its first bytes, one for each, whatever comes behind
them. -/
theorem take_bytes {text : List Char} {k : ℕ} (h : k ≤ (digitRun text).length) :
    (Text.bytes (String.ofList text)).take k = ((digitRun text).take k).map Char.toUInt8 := by
  have hbytes : ((digitRun text).take k).flatMap String.utf8EncodeChar =
      ((digitRun text).take k).map Char.toUInt8 := by
    rw [List.map_eq_flatMap]
    exact List.flatMap_congr fun e he => utf8EncodeChar_of_isAscii
      (isAscii_of_isDigit (List.mem_takeWhile_imp (List.mem_of_mem_take he)))
  obtain ⟨more, hmore⟩ : (digitRun text).take k <+: text :=
    (List.take_prefix k _).trans (List.takeWhile_prefix isDigit)
  rw [Text.bytes_eq_flatMap, String.toList_ofList]
  conv_lhs => rw [← hmore, List.flatMap_append, hbytes]
  exact List.take_left' (by rw [List.length_map, List.length_take_of_le h])

end Colourway.HexCode

namespace Colourway.Colour

open HexCode

variable {text : String} {c : Colour}

/-! ## Reading a whole text -/

theorem ofHexCode?_eq_some_iff_spells :
    ofHexCode? text = some c ↔ Spells ((Text.trim text.toList).dropWhile (· == '#')) c := by
  unfold ofHexCode?
  dsimp only
  generalize (Text.trim text.toList).dropWhile (· == '#') = digits
  constructor
  · intro h
    split at h
    case h_1 n d hread =>
      split at h
      case isTrue hall =>
        cases h
        have hspells := (readDigits?_eq_some_iff.1 hread).2.1
        rwa [hall, List.take_length] at hspells
      case isFalse => cases h
    case h_2 => cases h
  · intro h
    rw [readDigits?_of_spells h]
    exact if_pos rfl

/-- A whole text is a code if hash signs come first, any number of them, and then the digits of
one colour. -/
theorem ofHexCode?_eq_some_iff :
    ofHexCode? text = some c ↔ ∃ signs digits,
      Text.trim text.toList = List.replicate signs '#' ++ digits ∧
        (∀ e ∈ digits, e.toLower ∈ sixteenDigits) ∧ digits.length ∈ [3, 4, 6, 8] ∧
          Denotes digits c := by
  rw [ofHexCode?_eq_some_iff_spells]
  simp only [← spells_iff_denotes]
  constructor
  · intro h
    have hsigns : (Text.trim text.toList).takeWhile (· == '#') =
        List.replicate ((Text.trim text.toList).takeWhile (· == '#')).length '#' :=
      List.eq_replicate_iff.2 ⟨rfl, fun e he =>
        eq_of_beq (List.mem_takeWhile_imp (p := (· == '#')) he)⟩
    exact ⟨_, _, by rw [← hsigns, List.takeWhile_append_dropWhile], h⟩
  · rintro ⟨signs, digits, htext, h⟩
    have hdigits : digits.dropWhile (· == '#') = digits := by
      refine List.dropWhile_eq_self_iff.2 fun hl hhash => ?_
      have hdigit := h.isDigit_of_mem _ (List.getElem_mem hl)
      rw [eq_of_beq hhash, isDigit_hash] at hdigit
      cases hdigit
    have hsigns : ∀ e ∈ List.replicate signs '#', (e == '#') = true := fun e he =>
      beq_iff_eq.2 (List.eq_of_mem_replicate he)
    rwa [htext, List.dropWhile_append_of_pos hsigns, hdigits]

/-! ## Reading what is written -/

theorem toList_hexCode (c : Colour) :
    c.hexCode.toList = '#' :: c.channels.flatMap Hexadecimal.writeByte := by
  rw [hexCode, String.toList_ofList]

theorem readStart?_hexCode (c : Colour) (suffix : List Char) :
    readStart? (c.hexCode.toList ++ suffix) = some (8, c) := by
  have hread : readDigits? (c.channels.flatMap Hexadecimal.writeByte ++ suffix) = some (8, c) :=
    readDigits?_append (spells_flatMap_writeByte c) (.inl rfl)
  rw [toList_hexCode]
  exact hread

theorem not_isBlank_of_isDigit :
    ∀ n ∈ List.range 128, isDigit (Char.ofNat n) = true → Text.isBlank (Char.ofNat n) = false := by
  decide +kernel

theorem not_isBlank_hexCode (c : Colour) : ∀ e ∈ c.hexCode.toList, Text.isBlank e = false := by
  intro e he
  rw [toList_hexCode] at he
  rcases List.mem_cons.1 he with rfl | he
  · decide
  · have hdigit := (spells_flatMap_writeByte c).isDigit_of_mem e he
    have hascii := of_decide_eq_true (isAscii_of_isDigit hdigit)
    have hblank := not_isBlank_of_isDigit e.toNat (List.mem_range.2 hascii)
    rw [Char.ofNat_toNat] at hblank
    exact hblank hdigit

theorem ofHexCode?_hexCode {left right : List Char} (hleft : ∀ e ∈ left, Text.isBlank e = true)
    (hright : ∀ e ∈ right, Text.isBlank e = true) (c : Colour) :
    ofHexCode? (String.ofList (left ++ (c.hexCode.toList ++ right))) = some c := by
  have htrim : Text.trim (left ++ (c.hexCode.toList ++ right)) = c.hexCode.toList := by
    rw [Text.trim_append_of_isBlank hleft hright, Text.trim_eq_self (not_isBlank_hexCode c)]
  rw [ofHexCode?_eq_some_iff, String.toList_ofList, htrim]
  exact ⟨1, _, toList_hexCode c, spells_iff_denotes.1 (spells_flatMap_writeByte c)⟩

/-- The readers of codes accept what the grammar says, and give the colour that it says. -/
theorem readers_follow_grammar :
    (∀ text, (leadingDigits (withoutSign text)).length < 3 → readStart? text = none) ∧
    (∀ text, 3 ≤ (leadingDigits (withoutSign text)).length → ∃ k c,
      IsGreatest (widthsWithin (leadingDigits (withoutSign text)).length) k ∧
        readStart? text = some (k, c) ∧
        Denotes ((leadingDigits (withoutSign text)).take k) c ∧
        (Text.bytes (String.ofList (withoutSign text))).take k =
          ((leadingDigits (withoutSign text)).take k).map Char.toUInt8) ∧
    (∀ (text : String) (c : Colour), ofHexCode? text = some c ↔ ∃ signs digits,
      Text.trim text.toList = List.replicate signs '#' ++ digits ∧
        (∀ e ∈ digits, e.toLower ∈ sixteenDigits) ∧ digits.length ∈ [3, 4, 6, 8] ∧
          Denotes digits c) ∧
    (∀ (c : Colour) (suffix : List Char),
      readStart? (c.hexCode.toList ++ suffix) = some (8, c)) ∧
    (∀ (c : Colour) (left right : List Char), (∀ e ∈ left, Text.isBlank e = true) →
      (∀ e ∈ right, Text.isBlank e = true) →
        ofHexCode? (String.ofList (left ++ (c.hexCode.toList ++ right))) = some c) := by
  simp only [leadingDigits_eq, readStart?_eq]
  refine ⟨fun text h => readDigits?_eq_none_of_length_lt h, fun text h => ?_,
    fun text c => ofHexCode?_eq_some_iff, ?_, fun c left right hl hr => ofHexCode?_hexCode hl hr c⟩
  · obtain ⟨k, hk⟩ := exists_isGreatest_widthsWithin h
    obtain ⟨c, hread, hdenotes⟩ := exists_readDigits?_eq_some hk
    exact ⟨k, c, hk, hread, hdenotes, take_bytes hk.1.2⟩
  · simp only [← readStart?_eq]
    exact readStart?_hexCode

/-- Five digits and a character of two bytes behind a hash sign: four digits are a code. Two hash
signs are too many at the start of a text, and not for a whole text. -/
theorem readers_follow_grammar_five_digits :
    readStart? "#AbCd5é".toList = some (4, ⟨0xAA, 0xBB, 0xCC, 0xDD⟩) ∧
      readStart? "##fff".toList = none ∧
      ofHexCode? " ##fff\t" = some .white ∧
      ofHexCode? (String.ofList (['\t'] ++ (black.hexCode.toList ++ ['\u3000']))) =
        some black := by
  obtain ⟨hshort, hlong, hwhole, -, hwritten⟩ := readers_follow_grammar
  obtain ⟨k, c, hk, hread, hdenotes, -⟩ := hlong "#AbCd5é".toList (by decide +kernel)
  have hfour : IsGreatest (widthsWithin 5) 4 := by
    refine ⟨⟨by decide, by decide⟩, fun w hw => ?_⟩
    obtain ⟨hmem, hle⟩ := hw
    simp only [List.mem_cons, List.not_mem_nil, or_false] at hmem
    omega
  obtain rfl : k = 4 := hk.unique hfour
  have hcolour : Denotes ['A', 'b', 'C', 'd'] ⟨0xAA, 0xBB, 0xCC, 0xDD⟩ := rfl
  obtain rfl : c = ⟨0xAA, 0xBB, 0xCC, 0xDD⟩ := hdenotes.eq hcolour
  have hdigits : ∀ e ∈ List.replicate 3 'f', e.toLower ∈ sixteenDigits := fun e he =>
    List.eq_of_mem_replicate he ▸ by decide
  refine ⟨hread, hshort _ (by decide +kernel), ?_, hwritten black ['\t'] ['\u3000'] ?_ ?_⟩
  · exact (hwhole _ _).2 ⟨2, List.replicate 3 'f', by decide +kernel, hdigits, by decide, rfl⟩
  · exact fun e he => List.mem_singleton.1 he ▸ by decide
  · exact fun e he => List.mem_singleton.1 he ▸ by decide

end Colourway.Colour
