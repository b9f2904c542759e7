import Mathlib.Data.Nat.GCD.Basic
import Mathlib.Data.List.Basic
import Mathlib.Tactic.Linarith
import Mathlib.Tactic.LinearCombination
import Mathlib.Tactic.Ring
import Mathlib.Tactic.Zify

/-!
# Fractions of small terms near a ratio

Two neighbours around a ratio `a / b` leave no room between them for a fraction whose terms both
stay below a limit. A fraction of such terms that agrees with the ratio to 52 bits is therefore one
of the two neighbours, its terms perhaps multiplied by a number. How the neighbours were found does
not matter: that they are neighbours is checked on their terms.
-/

namespace CounterStream

/-- A fraction by its terms, which may have a common divisor. -/
structure Fraction where
  num : Nat
  den : Nat

namespace Fraction

/-- The terms of so many of `g` added to those of `f`. -/
def plus (f g : Fraction) (count : Nat) : Fraction :=
  ⟨f.num + count * g.num, f.den + count * g.den⟩

/-- How often `g` can be added to `f` before a term passes the limit. -/
def room (limit : Nat) (f g : Fraction) : Nat :=
  min ((limit - f.num) / g.num) ((limit - f.den) / g.den)

/-- How often `gap` fits into `rest`, at most so often. -/
def steps (rest gap most : Nat) : Nat :=
  bif Nat.beq gap 0 then most else min most (rest / gap)

/-- One of the two neighbours is moved towards the ratio as often as it stays on its side and its
terms below the limit, until no fraction fits between the two. -/
def close (a b limit : Nat) : Nat → Fraction → Fraction → Fraction × Fraction
  | 0, l, r => (l, r)
  | fuel + 1, l, r =>
    bif Nat.blt limit (l.num + r.num) || Nat.blt limit (l.den + r.den) then (l, r)
    else
      let below := l.den * a - l.num * b
      let above := r.num * b - r.den * a
      bif Nat.ble above below then
        close a b limit fuel (l.plus r (steps below above (room limit l r))) r
      else
        close a b limit fuel l (r.plus l (steps above below (room limit r l)))

/-- The neighbours of `a / b`, from the two whole numbers around it on. -/
def around (a b limit : Nat) : Fraction × Fraction :=
  close a b limit 100 ⟨a / b, 1⟩ ⟨a / b + 1, 1⟩

end Fraction

/-- The ratio `a / b` lies between `l` and `r`, and what lies between these has a term past the
limit. -/
structure Neighbours (a b limit : Nat) (l r : Fraction) : Prop where
  below : l.num * b ≤ l.den * a
  above : r.den * a ≤ r.num * b
  adjacent : r.num * l.den = l.num * r.den + 1
  full : limit < l.num + r.num ∨ limit < l.den + r.den
  num_le : l.num ≤ limit + 1
  den_le : r.den ≤ limit + 1

instance (a b limit : Nat) (l r : Fraction) : Decidable (Neighbours a b limit l r) :=
  decidable_of_iff (l.num * b ≤ l.den * a ∧ r.den * a ≤ r.num * b ∧
      r.num * l.den = l.num * r.den + 1 ∧ (limit < l.num + r.num ∨ limit < l.den + r.den) ∧
      l.num ≤ limit + 1 ∧ r.den ≤ limit + 1)
    ⟨fun ⟨h₁, h₂, h₃, h₄, h₅, h₆⟩ => ⟨h₁, h₂, h₃, h₄, h₅, h₆⟩,
      fun ⟨h₁, h₂, h₃, h₄, h₅, h₆⟩ => ⟨h₁, h₂, h₃, h₄, h₅, h₆⟩⟩

/-- `x` exceeds `y` by no more than one part in `2 ^ 52` of it. -/
def NotAbove (x y : Nat) : Prop := x * 2 ^ 52 ≤ y * 2 ^ 52 + x

instance (x y : Nat) : Decidable (NotAbove x y) :=
  inferInstanceAs (Decidable (x * 2 ^ 52 ≤ y * 2 ^ 52 + x))

/-- The fraction `m / c` agrees with `a / b` to 52 bits. -/
def Near (a b c m : Nat) : Prop := NotAbove (c * a) (m * b) ∧ NotAbove (m * b) (c * a)

instance (a b c m : Nat) : Decidable (Near a b c m) :=
  inferInstanceAs (Decidable (NotAbove (c * a) (m * b) ∧ NotAbove (m * b) (c * a)))

variable {a b c d m n limit : Nat} {l r : Fraction}

theorem notAbove_of_le {x y : Nat} (h : x ≤ y) : NotAbove x y := by
  unfold NotAbove
  omega

theorem Neighbours.outside (h : Neighbours a b limit l r) (hc : c ≤ limit) (hm : m ≤ limit) :
    m * l.den ≤ l.num * c ∨ c * r.num ≤ r.den * m := by
  by_contra hbetween
  obtain ⟨hl, hr⟩ := not_or.mp hbetween
  obtain ⟨i, hi⟩ := Nat.exists_eq_add_of_lt (not_le.mp hl)
  obtain ⟨j, hj⟩ := Nat.exists_eq_add_of_lt (not_le.mp hr)
  have hadjacent := h.adjacent
  -- A fraction in between is put together from both neighbours, so one of its terms is too large.
  have hnum : m = r.num * (i + 1) + l.num * (j + 1) := by
    zify at *
    linear_combination (-m) * hadjacent + r.num * hi + l.num * hj
  have hden : c = r.den * (i + 1) + l.den * (j + 1) := by
    zify at *
    linear_combination (-c) * hadjacent + r.den * hi + l.den * hj
  rcases h.full with hfull | hfull <;> nlinarith

theorem notAbove_of_between (hc : 0 < c) (hout : m * d ≤ n * c)
    (hnear : NotAbove (c * a) (m * b)) : NotAbove (d * a) (n * b) := by
  unfold NotAbove at *
  apply Nat.le_of_mul_le_mul_left _ hc
  calc c * (d * a * 2 ^ 52) = d * (c * a * 2 ^ 52) := by ring
    _ ≤ d * (m * b * 2 ^ 52 + c * a) := Nat.mul_le_mul_left d hnear
    _ = m * d * (b * 2 ^ 52) + c * (d * a) := by ring
    _ ≤ n * c * (b * 2 ^ 52) + c * (d * a) := by gcongr
    _ = c * (n * b * 2 ^ 52 + d * a) := by ring

theorem proportional_of_notAbove (hb : 0 < b) (hside : n * b ≤ d * a) (hout : m * d ≤ n * c)
    (hnear : NotAbove (c * a) (m * b)) (hterms : n * c + 1 < 2 ^ 52) : m * d = n * c := by
  by_contra hne
  have hgap : m * d + 1 ≤ n * c := by omega
  have hscaled : b * (n * c * (2 ^ 52 - 1)) ≤ b * (m * d * 2 ^ 52) := by
    calc b * (n * c * (2 ^ 52 - 1)) = c * (n * b) * (2 ^ 52 - 1) := by ring
      _ ≤ c * (d * a) * (2 ^ 52 - 1) := by gcongr
      _ = d * (c * a * 2 ^ 52 - c * a) := by rw [← Nat.mul_sub_one]; ring
      _ ≤ d * (m * b * 2 ^ 52) := Nat.mul_le_mul_left d (Nat.sub_le_of_le_add hnear)
      _ = b * (m * d * 2 ^ 52) := by ring
  have hcancel := Nat.le_of_mul_le_mul_left hscaled hb
  omega

theorem exists_multiple (hd : 0 < d) (hcoprime : Nat.Coprime d n) (h : m * d = n * c) :
    ∃ g, c = g * d ∧ m = g * n := by
  obtain ⟨g, rfl⟩ := hcoprime.dvd_of_dvd_mul_left (h ▸ Nat.dvd_mul_left d m)
  exact ⟨g, Nat.mul_comm d g, Nat.eq_of_mul_eq_mul_right hd (by rw [h]; ring)⟩

theorem Neighbours.coprime (h : Neighbours a b limit l r) :
    Nat.Coprime l.den l.num ∧ Nat.Coprime r.num r.den := by
  have hadjacent := h.adjacent
  constructor
  · apply Nat.eq_one_of_dvd_one
    rw [← Nat.dvd_add_right (Nat.dvd_mul_right_of_dvd (Nat.gcd_dvd_right l.den l.num) r.den),
      ← hadjacent]
    exact Nat.dvd_mul_left_of_dvd (Nat.gcd_dvd_left l.den l.num) r.num
  · apply Nat.eq_one_of_dvd_one
    rw [← Nat.dvd_add_right (Nat.dvd_mul_left_of_dvd (Nat.gcd_dvd_right r.num r.den) l.num),
      ← hadjacent]
    exact Nat.dvd_mul_right_of_dvd (Nat.gcd_dvd_left r.num r.den) l.den

/-- A near fraction of small terms is one of the neighbours, or a multiple of one. -/
theorem Neighbours.multiple_of_near (h : Neighbours a b limit l r) (hlimit : limit ≤ 2 ^ 25)
    (ha : 0 < a) (hb : 0 < b) (hc : 0 < c) (hm : 0 < m) (hclimit : c ≤ limit) (hmlimit : m ≤ limit)
    (hnear : Near a b c m) :
    ∃ f, (f = l ∨ f = r) ∧ Near a b f.den f.num ∧ ∃ g, c = g * f.den ∧ m = g * f.num := by
  have hterms {x y : Nat} (hx : x ≤ limit + 1) (hy : y ≤ limit) : x * y + 1 < 2 ^ 52 :=
    calc x * y + 1 ≤ (2 ^ 25 + 1) * 2 ^ 25 + 1 :=
          Nat.succ_le_succ (Nat.mul_le_mul (by omega) (by omega))
      _ < 2 ^ 52 := by norm_num
  have hpos : 0 < r.num * l.den := by
    rw [h.adjacent]
    exact Nat.succ_pos _
  rcases h.outside hclimit hmlimit with hout | hout
  · refine ⟨l, Or.inl rfl, ⟨notAbove_of_between hc hout hnear.1, notAbove_of_le h.below⟩, ?_⟩
    exact exists_multiple (Nat.pos_of_mul_pos_left hpos) h.coprime.1
      (proportional_of_notAbove hb h.below hout hnear.1 (hterms h.num_le hclimit))
  · -- Above the ratio numerators and denominators change places.
    refine ⟨r, Or.inr rfl, ⟨notAbove_of_le h.above, notAbove_of_between hm hout hnear.2⟩, ?_⟩
    obtain ⟨g, hmg, hcg⟩ := exists_multiple (Nat.pos_of_mul_pos_right hpos) h.coprime.2
      (proportional_of_notAbove ha h.above hout hnear.2 (hterms h.den_le hmlimit))
    exact ⟨g, hcg, hmg⟩

end CounterStream
