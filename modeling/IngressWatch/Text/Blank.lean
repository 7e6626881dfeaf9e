/-!
# White space

The characters with the Unicode property White_Space. A label selector refuses them and a line of
PEM text loses them at its end.

* `blankRanges`: the property as inclusive ranges of code points.
* `isBlank_of_isWhitespace`: the ASCII class of the core library is part of it.
-/

namespace IngressWatch.Text

/-- White_Space as inclusive ranges of code points, in ascending order. -/
def blankRanges : List (Nat × Nat) :=
  [(0x9, 0xd), (0x20, 0x20), (0x85, 0x85), (0xa0, 0xa0), (0x1680, 0x1680), (0x2000, 0x200a),
   (0x2028, 0x2029), (0x202f, 0x202f), (0x205f, 0x205f), (0x3000, 0x3000)]

def isBlank (c : Char) : Bool := blankRanges.any fun r => r.1 ≤ c.toNat && c.toNat ≤ r.2

theorem isBlank_of_isWhitespace {c : Char} (h : c.isWhitespace) : isBlank c := by
  simp only [Char.isWhitespace, Bool.or_eq_true, decide_eq_true_eq] at h
  rcases h with ((rfl | rfl) | rfl) | rfl <;> decide

end IngressWatch.Text
