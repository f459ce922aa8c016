/-
# The random source

A random source is an endless row of words.  Numbers below a bound are drawn from it without bias:
words from the incomplete last interval are thrown away.

Any row of words can be a source.  One that is convenient is given by a seed, a 64-bit counter that
advances by a fixed odd step, and a mixing function that turns each counter value into a word.
-/

namespace Pseudocode

/-- The number of words. -/
def wordBound : Nat := 9223372036854775808

theorem wordBound_pos : 0 < wordBound := by decide

/-- The words that are yet to come, the next one first. -/
structure RandomSource where
  word : Nat → Fin wordBound

namespace RandomSource

instance : Inhabited RandomSource := ⟨⟨fun _ => ⟨0, wordBound_pos⟩⟩⟩

/-- The word that a counter is mixed into. -/
def mix (counter : UInt64) : Fin wordBound :=
  let z := (counter ^^^ (counter >>> 30)) * 0xBF58476D1CE4E5B9
  let z := (z ^^^ (z >>> 27)) * 0x94D049BB133111EB
  let z := z ^^^ (z >>> 31)
  ⟨(z >>> 1).toNat % wordBound, Nat.mod_lt _ wordBound_pos⟩

/-- The words after a seed. -/
def seeded (seed : UInt64) (n : Nat) : Fin wordBound :=
  mix (seed + 0x9E3779B97F4A7C15 * (n + 1).toUInt64)

instance : Coe UInt64 (Nat → Fin wordBound) := ⟨seeded⟩

/-- The next word, and those after it. -/
def next (r : RandomSource) : Nat × RandomSource := (r.word 0, ⟨fun n => r.word (n + 1)⟩)

/-- Draws words until one is at most `top`, or the fuel is spent. -/
def drawUpTo (top : Nat) : (fuel : Nat) → RandomSource → Nat × RandomSource
  | 0, r => r.next
  | fuel + 1, r =>
      let (v, r) := r.next
      if v ≤ top then (v, r) else drawUpTo top fuel r

/-- A number below `n`, which must be positive. -/
def below (r : RandomSource) (n : Nat) : Nat × RandomSource :=
  if n &&& (n - 1) = 0 then
    let (v, r) := r.next
    (v &&& (n - 1), r)
  else
    let top := wordBound - 1 - wordBound % n
    let (v, r) := r.drawUpTo top wordBound
    (v % n, r)

end RandomSource

end Pseudocode
