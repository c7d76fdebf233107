/-!
# White space

The characters with the Unicode property `White_Space`, and trimming text by it.

## Main definitions

* `isBlank` — the property
* `trimStart`, `trimEnd` — text without the white space at one end
-/

namespace RobotPuzzle

/-- The code points with the property `White_Space`. -/
def blankCodes : List Nat :=
  [0x9, 0xA, 0xB, 0xC, 0xD, 0x20, 0x85, 0xA0, 0x1680, 0x2000, 0x2001, 0x2002, 0x2003, 0x2004,
    0x2005, 0x2006, 0x2007, 0x2008, 0x2009, 0x200A, 0x2028, 0x2029, 0x202F, 0x205F, 0x3000]

/-- A character of white space. -/
def isBlank (c : Char) : Bool := blankCodes.contains c.toNat

/-- Text without the white space it begins with. -/
def trimStart (cs : List Char) : List Char := cs.dropWhile isBlank

/-- Text without the white space it ends with. -/
def trimEnd (cs : List Char) : List Char := (cs.reverse.dropWhile isBlank).reverse

theorem trimEnd_isPrefixOf (cs : List Char) : trimEnd cs <+: cs := by
  have h := List.dropWhile_suffix isBlank (l := cs.reverse)
  have h' := List.reverse_prefix.mpr h
  simpa [trimEnd] using h'

/-- Text that is trimmed ends with no white space. -/
theorem isBlank_eq_false_of_getLast?_trimEnd {cs : List Char} {c : Char}
    (h : (trimEnd cs).getLast? = some c) : isBlank c = false := by
  have hfirst := List.head?_dropWhile_not isBlank cs.reverse
  rw [trimEnd, List.getLast?_reverse] at h
  rwa [h] at hfirst

/-- Trimming stops at the latest at a character that is no white space. -/
theorem prefix_trimEnd_append {cs : List Char} {c : Char} (h : cs.getLast? = some c)
    (hc : isBlank c = false) (ds : List Char) : cs <+: trimEnd (cs ++ ds) := by
  obtain ⟨bs, rfl⟩ := List.getLast?_eq_some_iff.mp h
  rw [trimEnd, List.reverse_append, List.dropWhile_append]
  split
  · have htrim : ((bs ++ [c]).reverse.dropWhile isBlank).reverse = bs ++ [c] := by
      rw [List.reverse_append, List.reverse_singleton, List.singleton_append,
        List.dropWhile_cons_of_neg (by simp [hc]), List.reverse_cons, List.reverse_reverse]
    exact ⟨[], by rw [List.append_nil, htrim]⟩
  · rw [List.reverse_append, List.reverse_reverse]
    exact List.prefix_append _ _

end RobotPuzzle
