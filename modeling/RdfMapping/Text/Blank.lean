/-!
White space in the sense of the Unicode property `White_Space`, and trimming by it.

`trim` removes blank characters from both ends of a text and none from its middle
(`trimBlanks_eq_iff` says what is left).
-/

namespace RdfMapping

/-- The code points with the property `White_Space`. -/
def isBlank (c : Char) : Bool :=
  let n := c.toNat
  (0x09 ≤ n && n ≤ 0x0D) || n == 0x20 || n == 0x85 || n == 0xA0 || n == 0x1680 ||
    (0x2000 ≤ n && n ≤ 0x200A) || n == 0x2028 || n == 0x2029 || n == 0x202F || n == 0x205F ||
    n == 0x3000

/-- Removes the blank characters at both ends of a character list. -/
def trimBlanks (cs : List Char) : List Char :=
  ((cs.dropWhile isBlank).reverse.dropWhile isBlank).reverse

def trim (s : String) : String := String.ofList (trimBlanks s.toList)

theorem dropWhile_blank_eq_nil_iff {cs : List Char} :
    cs.dropWhile isBlank = [] ↔ ∀ c ∈ cs, isBlank c := by
  induction cs with
  | nil => simp
  | cons d ds ih =>
    by_cases hd : isBlank d
    · rw [List.dropWhile_cons_of_pos hd, ih]
      simp [hd]
    · rw [List.dropWhile_cons_of_neg hd]
      simp [hd]

theorem trimBlanks_eq_nil_iff {cs : List Char} : trimBlanks cs = [] ↔ ∀ c ∈ cs, isBlank c := by
  rw [← dropWhile_blank_eq_nil_iff]
  simp only [trimBlanks, List.reverse_eq_nil_iff]
  refine ⟨fun h => ?_, fun h => by simp [h]⟩
  cases hd : cs.dropWhile isBlank with
  | nil => rfl
  | cons d ds =>
    rw [hd] at h
    have all := dropWhile_blank_eq_nil_iff.mp h
    have first : isBlank d = false := by
      have := List.head_dropWhile_not isBlank (l := cs) (by simp [hd])
      simpa [hd] using this
    have := all d (by simp)
    simp_all

theorem isBlank_of_mem_takeWhile {cs : List Char} : ∀ c ∈ cs.takeWhile isBlank, isBlank c = true :=
  List.all_eq_true.mp List.all_takeWhile

theorem isBlank_of_head?_dropWhile (cs : List Char) {c : Char}
    (h : (cs.dropWhile isBlank).head? = some c) : isBlank c = false := by
  have := List.head?_dropWhile_not isBlank cs
  simpa [h] using this

theorem dropWhile_isBlank_eq_self {cs : List Char} (h : ∀ c, cs.head? = some c → isBlank c = false) :
    cs.dropWhile isBlank = cs := by
  cases cs with
  | nil => rfl
  | cons c cs => exact List.dropWhile_cons_of_neg (by simp [h c rfl])

/-- What is left of a text has no blank character at its ends, and what stood around it is blank. -/
theorem trimBlanks_eq_iff {cs core : List Char} :
    trimBlanks cs = core ↔
      (∀ c, core.head? = some c → isBlank c = false) ∧
      (∀ c, core.getLast? = some c → isBlank c = false) ∧
      ∃ before after, cs = before ++ (core ++ after) ∧
        (∀ c ∈ before, isBlank c = true) ∧ ∀ c ∈ after, isBlank c = true := by
  refine ⟨?_, ?_⟩
  · intro h
    have front : cs = cs.takeWhile isBlank ++ cs.dropWhile isBlank :=
      List.takeWhile_append_dropWhile.symm
    have back : cs.dropWhile isBlank =
        core ++ ((cs.dropWhile isBlank).reverse.takeWhile isBlank).reverse := by
      rw [← h, trimBlanks, ← List.reverse_append, List.takeWhile_append_dropWhile,
        List.reverse_reverse]
    refine ⟨fun c hc => ?_, fun c hc => ?_, _, _, back ▸ front, isBlank_of_mem_takeWhile,
      fun c hc => isBlank_of_mem_takeWhile c (List.mem_reverse.mp hc)⟩
    · -- what is left starts as the text does behind its blank characters
      refine isBlank_of_head?_dropWhile cs ?_
      rw [back, List.head?_append, hc, Option.some_or]
    · refine isBlank_of_head?_dropWhile (cs.dropWhile isBlank).reverse ?_
      rwa [← List.getLast?_reverse, ← trimBlanks, h]
  · intro h
    obtain ⟨first, last, before, after, rfl, blankBefore, blankAfter⟩ := h
    cases core with
    | nil =>
      rw [trimBlanks_eq_nil_iff, List.nil_append]
      intro c hc
      exact (List.mem_append.mp hc).elim (blankBefore c) (blankAfter c)
    | cons d core =>
      have blankEnd : ∀ c ∈ after.reverse, isBlank c = true :=
        fun c hc => blankAfter c (List.mem_reverse.mp hc)
      have start : ((d :: core) ++ after).dropWhile isBlank = (d :: core) ++ after :=
        dropWhile_isBlank_eq_self first
      have stop : (d :: core).reverse.dropWhile isBlank = (d :: core).reverse :=
        dropWhile_isBlank_eq_self fun c hc => last c (List.head?_reverse ▸ hc)
      rw [trimBlanks, List.dropWhile_append_of_pos blankBefore, start, List.reverse_append,
        List.dropWhile_append_of_pos blankEnd, stop, List.reverse_reverse]

end RdfMapping
