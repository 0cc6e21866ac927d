import Mathlib.Data.List.Basic
import Mathlib.Data.List.Infix
import Mathlib.Tactic.Lemma

/-!
# Reading line by line, and looking for a pair

A reader that hands out a line with its newline, or as much of it as it has
room for, and the first occurrence of a pattern in a text. All that the reader
hands out are the pieces into which the lines of the text are cut.
-/
namespace LineScan

variable {α : Type*} {x y : α}

/-- A pair does not reach across an element that is in neither place of it. -/
lemma pair_infix_split {z : α} (first : z ≠ x) (second : z ≠ y) {a b : List α}
    (h : [x, y] <:+: a ++ z :: b) : [x, y] <:+: a ∨ [x, y] <:+: b := by
  induction a with
  | nil =>
    rcases List.infix_cons_iff.mp h with h | h
    · exact absurd (List.cons_prefix_cons.mp h).1.symm first
    · exact Or.inr h
  | cons c a ih =>
    rcases List.infix_cons_iff.mp h with h | h
    · obtain ⟨hc, hrest⟩ := List.cons_prefix_cons.mp h
      cases a with
      | nil => exact absurd (List.cons_prefix_cons.mp hrest).1.symm second
      | cons d a =>
        have hd := (List.cons_prefix_cons.mp hrest).1
        exact Or.inl ⟨[], a, by rw [hc, hd]; rfl⟩
    · exact (ih h).imp (fun h => h.trans (List.suffix_cons c a).isInfix) id

lemma pair_not_infix {s : List α} (absent : x ∉ s) : ¬ [x, y] <:+: s :=
  fun h => absent (h.subset List.mem_cons_self)

/-- A text cut after every `n + 1` elements. -/
def pieces (n : Nat) (s : List α) : List (List α) :=
  if h : s = [] then [] else s.take (n + 1) :: pieces n (s.drop (n + 1))
termination_by s.length
decreasing_by
  have hpos := List.length_pos_iff.mpr h
  rw [List.length_drop]
  omega

@[simp] lemma pieces_nil (n : Nat) : pieces n ([] : List α) = [] := by
  rw [pieces, dif_pos rfl]

lemma pieces_cons (n : Nat) {s : List α} (h : s ≠ []) :
    pieces n s = s.take (n + 1) :: pieces n (s.drop (n + 1)) := by
  rw [pieces, dif_neg h]

lemma pieces_short {n : Nat} {s : List α} (h : s ≠ []) (fits : s.length ≤ n + 1) :
    pieces n s = [s] := by
  rw [pieces_cons n h, List.take_of_length_le fits, List.drop_eq_nil_of_le fits, pieces_nil]

/-- The pieces by their numbers. -/
lemma pieces_getElem (n : Nat) (s : List α) (k : Nat) :
    (pieces n s)[k]? =
      if (n + 1) * k < s.length then some ((s.drop ((n + 1) * k)).take (n + 1)) else none := by
  induction k generalizing s with
  | zero =>
    by_cases h : s = []
    · rw [h, pieces_nil]
      rfl
    · rw [pieces_cons n h, Nat.mul_zero, if_pos (List.length_pos_iff.mpr h)]
      rfl
  | succ k ih =>
    by_cases h : s = []
    · rw [h, pieces_nil]
      rfl
    · have hrest := ih (s.drop (n + 1))
      rw [List.length_drop, List.drop_drop] at hrest
      rw [pieces_cons n h, List.getElem?_cons_succ, hrest, Nat.mul_succ,
        Nat.add_comm ((n + 1) * k)]
      by_cases hlt : n + 1 + (n + 1) * k < s.length
      · rw [if_pos hlt, if_pos (by omega)]
      · rw [if_neg hlt, if_neg (by omega)]

variable [DecidableEq α]

/-- The next line with its newline, cut at `n` elements, and what is behind it. -/
def readLine (newline : α) : Nat → List α → List α × List α
  | 0, s => ([], s)
  | _ + 1, [] => ([], [])
  | n + 1, c :: rest =>
    if c = newline then ([c], rest)
    else (c :: (readLine newline n rest).1, (readLine newline n rest).2)

/-- The place of the first occurrence of `pattern`. -/
def occurrence (pattern : List α) : List α → Option Nat
  | [] => if pattern = [] then some 0 else none
  | c :: rest =>
    if pattern <+: c :: rest then some 0 else (occurrence pattern rest).map Nat.succ

variable {newline : α}

lemma readLine_split (n : Nat) (s : List α) :
    (readLine newline n s).1 ++ (readLine newline n s).2 = s := by
  induction n generalizing s with
  | zero => rfl
  | succ n ih =>
    cases s with
    | nil => rfl
    | cons c rest =>
      rw [readLine]
      split
      · rfl
      · exact congrArg (List.cons c) (ih rest)

lemma readLine_length (n : Nat) (s : List α) : (readLine newline n s).1.length ≤ n := by
  induction n generalizing s with
  | zero => exact Nat.le_refl 0
  | succ n ih =>
    cases s with
    | nil => exact Nat.zero_le _
    | cons c rest =>
      rw [readLine]
      split
      · exact Nat.succ_le_succ (Nat.zero_le n)
      · exact Nat.succ_le_succ (ih rest)

/-- A reader with any room gets on. -/
lemma readLine_shorter (n : Nat) {s : List α} (h : s ≠ []) :
    (readLine newline (n + 1) s).2.length < s.length := by
  cases s with
  | nil => exact absurd rfl h
  | cons c rest =>
    rw [readLine]
    split
    · exact Nat.lt_succ_self _
    · have hsplit := congrArg List.length (@readLine_split α _ newline n rest)
      rw [List.length_append] at hsplit
      change (readLine newline n rest).2.length < rest.length + 1
      omega

/-- Behind a newline nothing more is read. -/
lemma readLine_newline (n : Nat) (s : List α) {before behind : List α}
    (h : (readLine newline n s).1 = before ++ newline :: behind) : behind = [] := by
  induction n generalizing s before with
  | zero =>
    cases before <;> cases h
  | succ n ih =>
    cases s with
    | nil => cases before <;> cases h
    | cons c rest =>
      rw [readLine] at h
      split at h
      · cases before with
        | nil => exact (List.cons.inj h).2.symm
        | cons d before => exact absurd (List.cons.inj h).2 (by simp)
      · rename_i hc
        cases before with
        | nil => exact absurd (List.cons.inj h).1 hc
        | cons d before => exact ih rest (List.cons.inj h).2

/-- A line that fits is read whole. -/
theorem readLine_line {n : Nat} {line : List α} (rest : List α) (one : newline ∉ line)
    (fits : line.length < n) :
    readLine newline n (line ++ newline :: rest) = (line ++ [newline], rest) := by
  induction line generalizing n with
  | nil =>
    cases n with
    | zero => exact absurd fits (Nat.not_lt_zero _)
    | succ n =>
      rw [List.nil_append, readLine, if_pos rfl]
      rfl
  | cons c line ih =>
    cases n with
    | zero => exact absurd fits (Nat.not_lt_zero _)
    | succ n =>
      have hc : c ≠ newline := fun h => one (h ▸ List.mem_cons_self)
      have hrest := ih (fun h => one (List.mem_cons_of_mem c h)) (Nat.lt_of_succ_lt_succ fits)
      rw [List.cons_append, readLine, if_neg hc, hrest]
      rfl

/-- Without a newline in reach as much is read as there is room for. -/
theorem readLine_cut {n : Nat} {s : List α} (none_near : newline ∉ s.take n) :
    readLine newline n s = (s.take n, s.drop n) := by
  induction n generalizing s with
  | zero => rfl
  | succ n ih =>
    cases s with
    | nil => rfl
    | cons c rest =>
      rw [List.take_succ_cons] at none_near
      have hc : c ≠ newline := fun h => none_near (h ▸ List.mem_cons_self)
      have hrest := ih fun h => none_near (List.mem_cons_of_mem c h)
      rw [readLine, if_neg hc, hrest]
      rfl

/-- The lines of a text with their newlines. The last one may have none. -/
def linesOf (newline : α) : List α → List (List α)
  | [] => []
  | c :: rest =>
    if c = newline then [c] :: linesOf newline rest
    else
      match linesOf newline rest with
      | [] => [[c]]
      | line :: lines => (c :: line) :: lines

/-- All that a reader with room for `n + 1` elements hands out. -/
def readAll (newline : α) (n : Nat) (s : List α) : List (List α) :=
  if h : s = [] then []
  else (readLine newline (n + 1) s).1 :: readAll newline n (readLine newline (n + 1) s).2
termination_by s.length
decreasing_by exact readLine_shorter n h

lemma linesOf_line {front : List α} (one : newline ∉ front) (rest : List α) :
    linesOf newline (front ++ newline :: rest) = (front ++ [newline]) :: linesOf newline rest := by
  induction front with
  | nil =>
    rw [List.nil_append, linesOf, if_pos rfl]
    rfl
  | cons c front ih =>
    have hc : c ≠ newline := fun h => one (h ▸ List.mem_cons_self)
    rw [List.cons_append, linesOf, if_neg hc, ih fun h => one (List.mem_cons_of_mem c h)]
    rfl

lemma linesOf_tail {s : List α} (h : s ≠ []) (none : newline ∉ s) : linesOf newline s = [s] := by
  induction s with
  | nil => exact absurd rfl h
  | cons c rest ih =>
    have hc : c ≠ newline := fun h => none (h ▸ List.mem_cons_self)
    rw [linesOf, if_neg hc]
    cases rest with
    | nil => rfl
    | cons d rest =>
      rw [ih (List.cons_ne_nil d rest) fun h => none (List.mem_cons_of_mem c h)]

/-- A text is read line by line to its end. -/
theorem lines_induction {P : List α → Prop} (nil : P [])
    (tail : ∀ s, s ≠ [] → newline ∉ s → P s)
    (line : ∀ front rest, newline ∉ front → P rest → P (front ++ newline :: rest))
    (s : List α) : P s := by
  generalize hlength : s.length = n
  induction n using Nat.strongRecOn generalizing s with
  | ind n ih =>
    by_cases hmem : newline ∈ s
    · obtain ⟨front, rest, rfl, hfront⟩ := List.eq_append_cons_of_mem hmem
      refine line front rest hfront (ih rest.length ?_ rest rfl)
      rw [← hlength, List.length_append, List.length_cons]
      omega
    · by_cases hs : s = []
      · rw [hs]
        exact nil
      · exact tail s hs hmem

/-- A line of a text is the only line of its own. -/
lemma linesOf_mem {s line : List α} (h : line ∈ linesOf newline s) :
    linesOf newline line = [line] := by
  induction s using @lines_induction α _ newline with
  | nil => cases h
  | tail s hs hnone =>
    rw [linesOf_tail hs hnone] at h
    rw [List.mem_singleton.mp h]
    exact linesOf_tail hs hnone
  | line front rest hfront ih =>
    rw [linesOf_line hfront] at h
    rcases List.mem_cons.mp h with rfl | h
    · exact linesOf_line hfront []
    · exact ih h

lemma linesOf_flatten (s : List α) : (linesOf newline s).flatten = s := by
  induction s using @lines_induction α _ newline with
  | nil => rfl
  | tail s hs hnone =>
    rw [linesOf_tail hs hnone, List.flatten_cons, List.flatten_nil, List.append_nil]
  | line front rest hfront ih =>
    rw [linesOf_line hfront, List.flatten_cons, ih, List.append_assoc, List.singleton_append]

lemma readAll_cons (n : Nat) {s first rest : List α} (h : s ≠ [])
    (read : readLine newline (n + 1) s = (first, rest)) :
    readAll newline n s = first :: readAll newline n rest := by
  rw [readAll, dif_neg h, read]

/-- What is read are the lines of the text, each cut into pieces from its start. -/
theorem readAll_pieces (n : Nat) (s : List α) :
    readAll newline n s = (linesOf newline s).flatMap (pieces n) := by
  generalize hlength : s.length = k
  induction k using Nat.strongRecOn generalizing s with
  | ind k ih =>
    by_cases hs : s = []
    · rw [hs, readAll, dif_pos rfl]
      rfl
    have hpos := List.length_pos_iff.mpr hs
    by_cases hmem : newline ∈ s
    · obtain ⟨front, rest, rfl, hfront⟩ := List.eq_append_cons_of_mem hmem
      rw [List.length_append, List.length_cons] at hlength
      have hsome : front ++ [newline] ≠ [] := by simp
      rw [linesOf_line hfront, List.flatMap_cons]
      by_cases hfits : front.length < n + 1
      · rw [readAll_cons n hs (readLine_line rest hfront hfits),
          ih rest.length (by omega) rest rfl, pieces_short hsome (by rw [List.length_append]; exact hfits)]
        rfl
      · -- the line is longer than the room there is: its first piece is read
        have hcut : readLine newline (n + 1) (front ++ newline :: rest) =
            (front.take (n + 1), front.drop (n + 1) ++ newline :: rest) := by
          have hle : n + 1 ≤ front.length := Nat.le_of_not_lt hfits
          rw [readLine_cut, List.take_append_of_le_length hle, List.drop_append_of_le_length hle]
          rw [List.take_append_of_le_length hle]
          exact fun h => hfront (List.mem_of_mem_take h)
        have hbehind : newline ∉ front.drop (n + 1) := fun h => hfront (List.mem_of_mem_drop h)
        have hle : n + 1 ≤ front.length := Nat.le_of_not_lt hfits
        rw [readAll_cons n hs hcut, ih (front.drop (n + 1) ++ newline :: rest).length
          (by simp; omega) _ rfl, linesOf_line hbehind, List.flatMap_cons, pieces_cons n hsome,
          List.take_append_of_le_length hle, List.drop_append_of_le_length hle]
        rfl
    · rw [linesOf_tail hs hmem, List.flatMap_cons, List.flatMap_nil, List.append_nil,
        readAll_cons n hs (readLine_cut fun h => hmem (List.mem_of_mem_take h)), pieces_cons n hs,
        ih (s.drop (n + 1)).length (by rw [List.length_drop]; omega) _ rfl]
      by_cases hlast : s.drop (n + 1) = []
      · rw [hlast, pieces_nil]
        rfl
      · rw [linesOf_tail hlast fun h => hmem (List.mem_of_mem_drop h), List.flatMap_cons,
          List.flatMap_nil, List.append_nil]

/-- A pair is found where it stands first. -/
theorem occurrence_pair (different : x ≠ y) {before : List α} (rest : List α)
    (absent : ¬ [x, y] <:+: before) :
    occurrence [x, y] (before ++ x :: y :: rest) = some before.length := by
  induction before with
  | nil =>
    rw [List.nil_append, occurrence, if_pos ⟨rest, rfl⟩]
    rfl
  | cons c before ih =>
    have htail := ih (fun h => absent (h.trans (List.suffix_cons c before).isInfix))
    have hhere : ¬ [x, y] <+: c :: (before ++ x :: y :: rest) := by
      intro h
      obtain ⟨hc, hrest⟩ := List.cons_prefix_cons.mp h
      cases before with
      | nil => exact different (List.cons_prefix_cons.mp hrest).1.symm
      | cons d before =>
        have hd := (List.cons_prefix_cons.mp hrest).1
        exact absent ⟨[], before, by rw [hc, hd]; rfl⟩
    rw [List.cons_append, occurrence, if_neg hhere, htail]
    rfl

/-- What is found stands there, and not earlier. -/
theorem occurrence_some {pattern s : List α} {k : Nat} (some_pattern : pattern ≠ [])
    (h : occurrence pattern s = some k) :
    ∃ before rest, s = before ++ (pattern ++ rest) ∧ before.length = k ∧
      ¬ pattern <:+: before := by
  induction s generalizing k with
  | nil =>
    rw [occurrence, if_neg some_pattern] at h
    cases h
  | cons c s ih =>
    rw [occurrence] at h
    split at h
    · rename_i hhere
      cases h
      obtain ⟨rest, hrest⟩ := hhere
      refine ⟨[], rest, hrest.symm, rfl, fun hinfix => ?_⟩
      exact some_pattern (List.infix_nil.mp hinfix)
    · rename_i hnot
      obtain ⟨k, hk, rfl⟩ := Option.map_eq_some_iff.mp h
      obtain ⟨before, rest, rfl, rfl, habsent⟩ := ih hk
      refine ⟨c :: before, rest, rfl, rfl, fun hinfix => ?_⟩
      rcases List.infix_cons_iff.mp hinfix with hahead | hinfix
      · exact hnot (hahead.trans (List.prefix_append (c :: before) _))
      · exact habsent hinfix

end LineScan
