/-
  Codes of colours among other text. `Spells` says which colour some digits stand for; any
  three, four, six or eight digits stand for one (`exists_spells`). The reader takes a code as
  far as its digits go (`readDigits?_digitRun`), so what follows the last digit of a text has
  no say (`readDigits?_append_of_not_digit`), and a code of eight digits is read whatever
  follows (`readDigits?_append`). The digits that are written for a colour spell it
  (`spells_flatMap_writeByte`).
-/
import Mathlib
import Colourway.Colour.HexCode

namespace Colourway.HexCode

/-- The character is a hexadecimal digit. -/
def isDigit (c : Char) : Bool := (Hexadecimal.value? c).isSome

/-- The digits at the start of a text. -/
def digitRun (text : List Char) : List Char := text.takeWhile isDigit

/-- The colour has the code with these digits. -/
def Spells (digits : List Char) (c : Colour) : Prop :=
  ∃ values, digits.map Hexadecimal.value? = values.map some ∧ ofDigits? values = some c

/-! ## The first digits of a text -/

theorem leading?_eq_some_iff {n : Nat} {text : List Char} {values : List Nat} :
    leading? n text = some values ↔
      n ≤ text.length ∧ (text.take n).map Hexadecimal.value? = values.map some := by
  induction n generalizing text values with
  | zero =>
    rw [leading?, List.take_zero, List.map_nil]
    cases values <;> simp
  | succ n ih =>
    cases text with
    | nil => simp [leading?]
    | cons c text =>
      rw [leading?, List.take_succ_cons, List.map_cons, List.length_cons, Nat.succ_le_succ_iff]
      cases hc : Hexadecimal.value? c with
      | none => cases values <;> simp
      | some d =>
        constructor
        · intro h
          cases hl : leading? n text with
          | none => simp [hl] at h
          | some ds =>
            rw [hl] at h
            simp only [Option.some.injEq] at h
            subst h
            obtain ⟨hlen, hmap⟩ := ih.1 hl
            exact ⟨hlen, by rw [hmap, List.map_cons]⟩
        · rintro ⟨hlen, hmap⟩
          cases values with
          | nil => simp at hmap
          | cons v values =>
            rw [List.map_cons] at hmap
            obtain ⟨hv, hmap⟩ := List.cons.inj hmap
            rw [ih.2 ⟨hlen, hmap⟩]
            simpa using hv

theorem leading?_append {n : Nat} {text rest : List Char} {values : List Nat}
    (h : leading? n text = some values) : leading? n (text ++ rest) = some values := by
  obtain ⟨hlen, hmap⟩ := leading?_eq_some_iff.1 h
  refine leading?_eq_some_iff.2 ⟨?_, ?_⟩
  · rw [List.length_append]
    omega
  · rw [List.take_append_of_le_length hlen, hmap]

theorem leading?_digitRun (n : Nat) (text : List Char) :
    leading? n (digitRun text) = leading? n text := by
  induction n generalizing text with
  | zero => rfl
  | succ n ih =>
    cases text with
    | nil => rfl
    | cons c text =>
      rw [digitRun, List.takeWhile_cons]
      cases hc : Hexadecimal.value? c with
      | none =>
        rw [if_neg (by simp [isDigit, hc])]
        simp [leading?, hc]
      | some d =>
        rw [if_pos (by simp [isDigit, hc])]
        have h := ih text
        rw [digitRun] at h
        simp [leading?, h]

theorem readDigits?_digitRun (text : List Char) :
    readDigits? (digitRun text) = readDigits? text := by
  simp only [readDigits?, readWidth?, leading?_digitRun]

/-- A character that is no digit hides what follows it. -/
theorem digitRun_append {text rest : List Char}
    (hr : ∀ c ∈ rest.head?, isDigit c = false) :
    digitRun (text ++ rest) = digitRun text := by
  induction text with
  | nil =>
    cases rest with
    | nil => rfl
    | cons c rest =>
      rw [List.nil_append, digitRun, List.takeWhile_cons, hr c rfl]
      rfl
  | cons c text ih =>
    unfold digitRun at ih ⊢
    rw [List.cons_append, List.takeWhile_cons, ih, List.takeWhile_cons]

theorem readDigits?_append_of_not_digit {text rest : List Char}
    (hr : ∀ c ∈ rest.head?, isDigit c = false) :
    readDigits? (text ++ rest) = readDigits? text := by
  rw [← readDigits?_digitRun, digitRun_append hr, readDigits?_digitRun]

/-! ## Codes -/

theorem length_of_ofDigits? {values : List Nat} {c : Colour} (h : ofDigits? values = some c) :
    values.length ∈ widths := by
  unfold ofDigits? at h
  split at h <;> simp [widths] at h ⊢

theorem exists_ofDigits? {values : List Nat} (h : values.length ∈ widths) :
    ∃ c, ofDigits? values = some c := by
  simp only [widths, List.mem_cons, List.not_mem_nil, or_false] at h
  -- one case for each number of digits up to eight, and one for more
  rcases values with
    - | ⟨a, - | ⟨b, - | ⟨c, - | ⟨d, - | ⟨e, - | ⟨f, - | ⟨g, - | ⟨k, - | ⟨l, more⟩⟩⟩⟩⟩⟩⟩⟩⟩
  · simp at h
  · simp at h
  · simp at h
  · exact ⟨_, rfl⟩
  · exact ⟨_, rfl⟩
  · simp at h
  · exact ⟨_, rfl⟩
  · simp at h
  · exact ⟨_, rfl⟩
  · simp only [List.length_cons] at h
    omega

theorem exists_values {digits : List Char} (hd : ∀ d ∈ digits, isDigit d = true) :
    ∃ values : List Nat, digits.map Hexadecimal.value? = values.map some := by
  induction digits with
  | nil => exact ⟨[], rfl⟩
  | cons d digits ih =>
    obtain ⟨values, hv⟩ := ih fun e he => hd e (List.mem_cons_of_mem _ he)
    obtain ⟨v, hd⟩ := Option.isSome_iff_exists.1 (hd d List.mem_cons_self)
    exact ⟨v :: values, by rw [List.map_cons, hd, hv, List.map_cons]⟩

/-- Any three, four, six or eight digits make a code. -/
theorem exists_spells {digits : List Char} (hd : ∀ d ∈ digits, isDigit d = true)
    (hlen : digits.length ∈ widths) : ∃ c, Spells digits c := by
  obtain ⟨values, hv⟩ := exists_values hd
  have hl := congrArg List.length hv
  rw [List.length_map, List.length_map] at hl
  obtain ⟨c, hc⟩ := exists_ofDigits? (hl ▸ hlen)
  exact ⟨c, values, hv, hc⟩

variable {digits : List Char} {c : Colour}

theorem Spells.length_mem (h : Spells digits c) : digits.length ∈ widths := by
  obtain ⟨values, hmap, hc⟩ := h
  have hlen := congrArg List.length hmap
  rw [List.length_map, List.length_map] at hlen
  rw [hlen]
  exact length_of_ofDigits? hc

theorem Spells.isDigit_of_mem (h : Spells digits c) : ∀ d ∈ digits, isDigit d = true := by
  obtain ⟨values, hvalues, -⟩ := h
  intro d hd
  have hmem : Hexadecimal.value? d ∈ values.map some := hvalues ▸ List.mem_map_of_mem hd
  obtain ⟨v, -, hv⟩ := List.mem_map.1 hmem
  rw [isDigit, ← hv, Option.isSome_some]

theorem spells_iff : Spells digits c ↔ readWidth? digits.length digits = some c := by
  simp only [readWidth?, Option.bind_eq_some_iff, leading?_eq_some_iff, Nat.le_refl, true_and,
    List.take_length]
  rfl

theorem readWidth?_of_length_lt {n : Nat} {text : List Char} (h : text.length < n) :
    readWidth? n text = none := by
  cases hl : leading? n text with
  | none => rw [readWidth?, hl]; rfl
  | some values =>
    have hle := (leading?_eq_some_iff.1 hl).1
    omega

theorem readDigits?_of_spells (h : Spells digits c) :
    readDigits? digits = some (digits.length, c) := by
  have hread := spells_iff.1 h
  have hlonger : ∀ n, digits.length < n → readWidth? n digits = none :=
    fun n hn => readWidth?_of_length_lt hn
  have hlen := h.length_mem
  simp only [widths, List.mem_cons, List.not_mem_nil, or_false] at hlen
  rcases hlen with hl | hl | hl | hl
  all_goals
    rw [hl] at hread hlonger ⊢
    simp [readDigits?, widths, hread, hlonger]

/-- A code is read to its end, unless it might be longer and the text goes on with a digit. -/
theorem readDigits?_append {rest : List Char} (h : Spells digits c)
    (hr : digits.length = 8 ∨ ∀ c ∈ rest.head?, isDigit c = false) :
    readDigits? (digits ++ rest) = some (digits.length, c) := by
  rcases hr with hl | hr
  · obtain ⟨values, hv, hc⟩ := h
    have hlead : leading? 8 digits = some values :=
      leading?_eq_some_iff.2 ⟨Nat.le_of_eq hl.symm, by rw [← hl, List.take_length, hv]⟩
    simp [readDigits?, widths, readWidth?, leading?_append hlead, hc, hl]
  · rw [readDigits?_append_of_not_digit hr, readDigits?_of_spells h]

theorem readWidth?_eq_some_iff {n : Nat} {text : List Char} :
    readWidth? n text = some c ↔ n ≤ text.length ∧ Spells (text.take n) c := by
  simp only [readWidth?, Option.bind_eq_some_iff, leading?_eq_some_iff, and_assoc,
    exists_and_left]
  rfl

theorem readWidth?_of_spells {text : List Char} (h : Spells digits c) (hstart : digits <+: text) :
    readWidth? digits.length text = some c := by
  refine readWidth?_eq_some_iff.2 ⟨hstart.length_le, ?_⟩
  rwa [← List.prefix_iff_eq_take.1 hstart]

theorem readDigits?_eq_none_iff {text : List Char} :
    readDigits? text = none ↔ ¬∃ digits c, Spells digits c ∧ digits <+: text := by
  rw [readDigits?, List.findSome?_eq_none_iff]
  constructor
  · rintro h ⟨digits, c, hspells, hstart⟩
    have hnone := h digits.length hspells.length_mem
    rw [readWidth?_of_spells hspells hstart] at hnone
    cases hnone
  · intro h n _
    rw [Option.map_eq_none_iff, Option.eq_none_iff_forall_ne_some]
    intro c hc
    obtain ⟨-, hspells⟩ := readWidth?_eq_some_iff.1 hc
    exact h ⟨_, c, hspells, List.take_prefix n text⟩

theorem pairwise_widths : widths.Pairwise (· > ·) := by
  decide

/-- The code that is read is the longest one at the start of the text. -/
theorem readDigits?_eq_some_iff {n : Nat} {text : List Char} :
    readDigits? text = some (n, c) ↔ n ≤ text.length ∧ Spells (text.take n) c ∧
      ∀ digits d, Spells digits d → digits <+: text → digits.length ≤ n := by
  have hread : ∀ {m : Nat} {d : Colour}, readDigits? text = some (m, d) →
      readWidth? m text = some d ∧
        ∀ digits e, Spells digits e → digits <+: text → digits.length ≤ m := by
    intro m d h
    obtain ⟨longer, k, shorter, hwidths, hk, hlonger⟩ := List.findSome?_eq_some_iff.1 h
    obtain ⟨e, he, heq⟩ := Option.map_eq_some_iff.1 hk
    cases heq
    refine ⟨he, fun digits e hspells hstart => ?_⟩
    have hmem := hspells.length_mem
    have hsorted := pairwise_widths
    rw [hwidths] at hmem hsorted
    rcases List.mem_append.1 hmem with hmem | hmem
    · have hnone := hlonger _ hmem
      rw [readWidth?_of_spells hspells hstart] at hnone
      cases hnone
    · rcases List.mem_cons.1 hmem with heq | hmem
      · exact heq.le
      · have htail := (List.pairwise_append.1 hsorted).2.1
        exact (List.rel_of_pairwise_cons htail hmem).le
  constructor
  · intro h
    obtain ⟨hwidth, hlongest⟩ := hread h
    obtain ⟨hlen, hspells⟩ := readWidth?_eq_some_iff.1 hwidth
    exact ⟨hlen, hspells, hlongest⟩
  · rintro ⟨hlen, hspells, hlongest⟩
    cases hfound : readDigits? text with
    | none =>
      exact absurd ⟨_, c, hspells, List.take_prefix n text⟩ (readDigits?_eq_none_iff.1 hfound)
    | some code =>
      obtain ⟨m, d⟩ := code
      obtain ⟨hwidth, hlongest'⟩ := hread hfound
      obtain ⟨hlen', hspells'⟩ := readWidth?_eq_some_iff.1 hwidth
      have hmn := hlongest _ d hspells' (List.take_prefix m text)
      have hnm := hlongest' _ c hspells (List.take_prefix n text)
      rw [List.length_take_of_le hlen'] at hmn
      rw [List.length_take_of_le hlen] at hnm
      obtain rfl : m = n := Nat.le_antisymm hmn hnm
      rw [readWidth?_eq_some_iff.2 ⟨hlen, hspells⟩] at hwidth
      cases hwidth
      rfl

/-! ## Written codes -/

theorem pair_div_mod (b : UInt8) : pair (b.toNat / 16) (b.toNat % 16) = b := by
  rw [pair, Nat.div_add_mod]
  exact UInt8.ofNat_toNat

theorem map_value?_writeByte (b : UInt8) :
    (Hexadecimal.writeByte b).map Hexadecimal.value? =
      [some (b.toNat / 16), some (b.toNat % 16)] := by
  have hb := b.toNat_lt
  rw [Hexadecimal.writeByte, List.map_cons, List.map_singleton,
    Hexadecimal.value?_digit (by omega), Hexadecimal.value?_digit (by omega)]

/-- The digits that are written for a colour spell this colour. -/
theorem spells_flatMap_writeByte (c : Colour) :
    Spells (c.channels.flatMap Hexadecimal.writeByte) c := by
  refine ⟨c.channels.flatMap fun b => [b.toNat / 16, b.toNat % 16], ?_, ?_⟩
  · simp [Colour.channels, map_value?_writeByte]
  · simp [Colour.channels, ofDigits?, pair_div_mod]

end Colourway.HexCode
