import CounterStream.Proofs.Config

/-!
# Configurations that cannot be saved

Checking a configuration puts no bound on its unsigned numbers, but a document holds signed numbers
of 64 bits only. The larger half of the unsigned numbers is refused when it is to be written, and
with it every configuration that never shards, since its threshold is the greatest number.
-/

namespace CounterStream.Config

theorem toText_error {c : Config} {e : ConfigError} (h : c.toText = .error e) : e = .unwritable := by
  rw [toText] at h
  split at h
  · cases h
    rfl
  · cases h

theorem unwritable_of_not_ok {c : Config} (h : ¬ ∃ s, c.toText = .ok s) :
    c.toText = .error .unwritable := by
  cases htext : c.toText with
  | ok s => exact absurd ⟨s, htext⟩ h
  | error e => rw [toText_error htext]

theorem not_fits_iff (c : Config) :
    ¬ c.Fits ↔ 2 ^ 63 ≤ c.offset.toNat ∨ 2 ^ 63 ≤ c.sharding.threshold.toNat ∨
      2 ^ 63 ≤ c.sharding.blocks.toNat := by
  rw [Fits]
  omega

theorem not_fits_of_sequential {c : Config} (h : c.sharding = .sequential) : ¬ c.Fits := by
  rw [not_fits_iff, h]
  right
  left
  decide

/-- An accepted configuration is written, or refused because one of its unsigned numbers is too
large. The seed and the distribution are never in the way, and without sharding nothing is
written. -/
theorem refused_iff_too_large (c : Config) (hcheck : c.check = .ok ()) :
    ((∃ s, c.toText = .ok s) ↔ c.offset.toNat < 2 ^ 63 ∧ c.sharding.threshold.toNat < 2 ^ 63 ∧
      c.sharding.blocks.toNat < 2 ^ 63) ∧
    (c.toText = .error .unwritable ↔ 2 ^ 63 ≤ c.offset.toNat ∨
      2 ^ 63 ≤ c.sharding.threshold.toNat ∨ 2 ^ 63 ≤ c.sharding.blocks.toNat) ∧
    (c.sharding = .sequential → c.toText = .error .unwritable) := by
  have hwritten := c.exists_toText_iff hcheck
  have hrefused (hfits : ¬ c.Fits) : c.toText = .error .unwritable :=
    unwritable_of_not_ok fun htext => hfits (hwritten.mp htext)
  refine ⟨hwritten, ⟨?_, ?_⟩, ?_⟩
  · intro htext
    rw [← not_fits_iff]
    intro hfits
    obtain ⟨s, hs⟩ := hwritten.mpr hfits
    rw [htext] at hs
    cases hs
  · intro hlarge
    exact hrefused (c.not_fits_iff.mpr hlarge)
  · intro hsequential
    exact hrefused (not_fits_of_sequential hsequential)

theorem refused_iff_too_large_at_limits :
    let greatest : Config := {
      offset := 0x7FFFFFFFFFFFFFFF
      distribution := .exponential (Binary.ofNat 1)
      sharding := ⟨0x7FFFFFFFFFFFFFFF, 0x7FFFFFFFFFFFFFFF⟩ }
    let beyond : Config := { greatest with offset := 0x8000000000000000 }
    greatest.check = .ok () ∧ (∃ s, greatest.toText = .ok s) ∧
    beyond.check = .ok () ∧ beyond.toText = .error .unwritable := by
  intro greatest beyond
  have hgreatest : greatest.check = .ok () := by decide +kernel
  have hbeyond : beyond.check = .ok () := by decide +kernel
  obtain ⟨hwritten, -, -⟩ := refused_iff_too_large greatest hgreatest
  obtain ⟨-, hrefused, -⟩ := refused_iff_too_large beyond hbeyond
  exact ⟨hgreatest, hwritten.mpr (by decide), hbeyond, hrefused.mpr (Or.inl (by decide))⟩

theorem sequential_is_accepted_but_refused :
    ¬ ∀ c : Config, c.check = .ok () → ∃ s, c.toText = .ok s := by
  intro hall
  obtain ⟨s, hs⟩ := hall { sharding := .sequential } rfl
  have hrefused : ({ sharding := .sequential } : Config).toText = .error .unwritable := by
    decide +kernel
  rw [hrefused] at hs
  cases hs

end CounterStream.Config
