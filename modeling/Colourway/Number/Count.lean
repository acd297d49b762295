/-
  Counts that stop growing. Multipliers in a recipe compound without bound, so the numbers
  they stand for are kept exactly up to `Count.limit` and held there from then on: a count
  is the smaller of the true number and the limit.

  `val_mul` and `val_add` say that the operations keep to this reading; `ofNat_mul_ofNat`
  and `ofNat_add_ofNat` say that holding early or late makes no difference.
-/

namespace Colourway

/-- A natural number held at `2^64 - 1`. -/
structure Count where
  val : Nat
  val_le : val ≤ 0xFFFFFFFFFFFFFFFF
  deriving DecidableEq

namespace Count

/-- The greatest count. -/
def limit : Nat := 0xFFFFFFFFFFFFFFFF

/-- The count of a true number: the number itself, or the limit if it is greater. -/
def ofNat (n : Nat) : Count := ⟨min n limit, Nat.min_le_right _ _⟩

instance (n : Nat) : OfNat Count n := ⟨ofNat n⟩

instance : Inhabited Count := ⟨0⟩

/-- The product, held at the limit. -/
def mul (a b : Count) : Count := ofNat (a.val * b.val)

/-- The sum, held at the limit. -/
def add (a b : Count) : Count := ofNat (a.val + b.val)

/-- One less, and nothing less than zero. -/
def pred (a : Count) : Count := ⟨a.val - 1, Nat.le_trans (Nat.sub_le _ _) a.val_le⟩

/-- The total of several counts, held at the limit. -/
def sum (l : List Count) : Count := l.foldl add 0

/-- The nearest double. -/
def toFloat (a : Count) : Float := a.val.toUInt64.toFloat

theorem val_le_limit (a : Count) : a.val ≤ limit := a.val_le

@[simp] theorem val_ofNat (n : Nat) : (ofNat n).val = min n limit := rfl

@[ext] theorem ext {a b : Count} (h : a.val = b.val) : a = b := by
  cases a; cases b; simp_all

@[simp] theorem ofNat_val (a : Count) : ofNat a.val = a :=
  ext (Nat.min_eq_left a.val_le_limit)

@[simp] theorem val_mul (a b : Count) : (a.mul b).val = min (a.val * b.val) limit := rfl

@[simp] theorem val_add (a b : Count) : (a.add b).val = min (a.val + b.val) limit := rfl

@[simp] theorem val_pred (a : Count) : a.pred.val = a.val - 1 := rfl

theorem ofNat_mul_ofNat (m n : Nat) (hm : 1 ≤ m) (hn : 1 ≤ n) :
    (ofNat m).mul (ofNat n) = ofNat (m * n) := by
  apply ext
  simp only [val_mul, val_ofNat]
  have hl : 1 ≤ limit := by decide
  rcases Nat.le_total m limit with h | h <;> rcases Nat.le_total n limit with h' | h'
  · rw [Nat.min_eq_left h, Nat.min_eq_left h']
  · have h1 : limit ≤ m * limit := Nat.le_mul_of_pos_left _ hm
    have h2 : limit ≤ m * n := Nat.le_trans h' (Nat.le_mul_of_pos_left _ hm)
    rw [Nat.min_eq_left h, Nat.min_eq_right h', Nat.min_eq_right h1, Nat.min_eq_right h2]
  · have h1 : limit ≤ limit * n := Nat.le_mul_of_pos_right _ hn
    have h2 : limit ≤ m * n := Nat.le_trans h (Nat.le_mul_of_pos_right _ hn)
    rw [Nat.min_eq_right h, Nat.min_eq_left h', Nat.min_eq_right h1, Nat.min_eq_right h2]
  · have h1 : limit ≤ limit * limit := Nat.le_mul_of_pos_right _ hl
    have h2 : limit ≤ m * n :=
      Nat.le_trans h (Nat.le_mul_of_pos_right _ hn)
    rw [Nat.min_eq_right h, Nat.min_eq_right h', Nat.min_eq_right h1, Nat.min_eq_right h2]

theorem ofNat_add_ofNat (m n : Nat) : (ofNat m).add (ofNat n) = ofNat (m + n) := by
  apply ext
  simp only [val_add, val_ofNat]
  omega

end Count

end Colourway
