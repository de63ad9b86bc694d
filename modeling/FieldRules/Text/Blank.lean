/-!
# Blank characters

The Unicode property White_Space and the trimming of texts by it.  Texts are
lists of characters, so that scanners can recurse on them.

**Results.**
* `trim_of_not_blank`: a text that neither starts nor ends with a blank stays as
  it is.
-/

namespace FieldRules
namespace Text

/-- The inclusive ranges of code points with the property White_Space. -/
def blankRanges : List (Nat × Nat) :=
  [(0x9, 0xd), (0x20, 0x20), (0x85, 0x85), (0xa0, 0xa0), (0x1680, 0x1680),
    (0x2000, 0x200a), (0x2028, 0x2029), (0x202f, 0x202f), (0x205f, 0x205f),
    (0x3000, 0x3000)]

/-- Whether a number lies in one of the inclusive ranges. -/
def inRanges (ranges : List (Nat × Nat)) (n : Nat) : Bool :=
  ranges.any fun r => decide (r.1 ≤ n) && decide (n ≤ r.2)

def isBlank (c : Char) : Bool :=
  inRanges blankRanges c.toNat

/-- A text without the blanks in front of it. -/
def trimStart (s : List Char) : List Char :=
  s.dropWhile isBlank

def trim (s : List Char) : List Char :=
  (trimStart (trimStart s).reverse).reverse

theorem trimStart_cons_of_not_blank {c : Char} (s : List Char)
    (h : isBlank c = false) : trimStart (c :: s) = c :: s := by
  simp [trimStart, h]

/-- A text that neither starts nor ends with a blank is its own trimming. -/
theorem trim_of_not_blank {s : List Char}
    (hfirst : ∀ c, s.head? = some c → isBlank c = false)
    (hlast : ∀ c, s.getLast? = some c → isBlank c = false) : trim s = s := by
  cases s with
  | nil => rfl
  | cons c r =>
      have h1 : trimStart (c :: r) = c :: r :=
        trimStart_cons_of_not_blank r (hfirst c rfl)
      have h2 : trimStart (c :: r).reverse = (c :: r).reverse := by
        cases hr : (c :: r).reverse with
        | nil => rfl
        | cons d t =>
            refine trimStart_cons_of_not_blank t (hlast d ?_)
            rw [← List.head?_reverse, hr]
            rfl
      rw [trim, h1, h2, List.reverse_reverse]

end Text
end FieldRules
