import Mathlib.Data.List.Basic
import Mathlib.Data.List.TakeWhile
import Mathlib.Tactic.Lemma

/-!
# Blocks of memory with their bounds

Reads and writes of a block that fail outside it, and strings that have to end
inside it. A block that holds a text and its terminator answers all accesses up
to the terminator.
-/
namespace BoundedMemory

variable {ε α : Type} (fault : ε)

def byteAt (block : List α) (i : Nat) : Except ε α :=
  match block[i]? with
  | none => .error fault
  | some c => .ok c

def setByte (block : List α) (i : Nat) (c : α) : Except ε (List α) :=
  if i < block.length then .ok (block.set i c) else .error fault

variable (nul : α)

lemma byteAt_of_drop {text rest : List α} {i : Nat} {c : α} (h : text.drop i = c :: rest) :
    byteAt fault (text ++ [nul]) i = .ok c ∧
      byteAt fault (text ++ [nul]) (i + 1) = .ok (rest.headD nul) := by
  have hi : i < text.length := by
    have hlength := congrArg List.length h
    rw [List.length_drop, List.length_cons] at hlength
    omega
  have hblock : (text ++ [nul]).drop i = c :: (rest ++ [nul]) := by
    rw [List.drop_append_of_le_length (Nat.le_of_lt hi), h, List.cons_append]
  constructor
  · have hget : (text ++ [nul])[i]? = some c := by
      rw [← List.head?_drop, hblock, List.head?_cons]
    rw [byteAt, hget]
  · have hget : (text ++ [nul])[i + 1]? = some (rest.headD nul) := by
      rw [← List.head?_drop, ← List.drop_drop, hblock]
      cases rest <;> rfl
    rw [byteAt, hget]

/-- The byte where a string ends or goes on. -/
lemma byteAt_headD {text : List α} {i : Nat} (h : i ≤ text.length) :
    byteAt fault (text ++ [nul]) i = .ok ((text.drop i).headD nul) := by
  have hget : (text ++ [nul])[i]? = some ((text.drop i).headD nul) := by
    rw [← List.head?_drop, List.drop_append_of_le_length h]
    cases text.drop i <;> rfl
  rw [byteAt, hget]

lemma setByte_text {text : List α} {i : Nat} (h : i < text.length) (c : α) :
    setByte fault (text ++ [nul]) i c = .ok (text.set i c ++ [nul]) := by
  rw [setByte, if_pos (by rw [List.length_append]; omega), List.set_append_left _ _ h]

/-- Behind its first bytes a string is the string that begins there. -/
lemma takeWhile_drop (p : α → Bool) {s : List α} {n : Nat} (h : n ≤ (s.takeWhile p).length) :
    (s.takeWhile p).drop n = (s.drop n).takeWhile p := by
  induction s generalizing n with
  | nil => simp
  | cons c rest ih =>
    cases n with
    | zero => rfl
    | succ n =>
      rw [List.takeWhile_cons] at h ⊢
      split at h
      · rename_i hc
        rw [if_pos hc, List.drop_succ_cons, List.drop_succ_cons]
        exact ih (Nat.le_of_succ_le_succ h)
      · exact absurd h (Nat.not_succ_le_zero n)

variable [DecidableEq α]

/-- The string that begins at a position: its terminator has to be in the block. -/
def stringAt (block : List α) (i : Nat) : Except ε (List α) :=
  if nul ∈ block.drop i then .ok ((block.drop i).takeWhile (fun c => c != nul))
  else .error fault

lemma stringAt_text {text : List α} {i : Nat} (h : i ≤ text.length) :
    stringAt fault nul (text ++ [nul]) i =
      .ok ((text.drop i).takeWhile (fun c => c != nul)) := by
  have hdrop : (text ++ [nul]).drop i = text.drop i ++ [nul] :=
    List.drop_append_of_le_length h
  have hends : (text.drop i ++ [nul]).takeWhile (fun c => c != nul) =
      (text.drop i).takeWhile (fun c => c != nul) := by
    induction text.drop i with
    | nil => simp
    | cons c rest ih =>
      rw [List.cons_append, List.takeWhile_cons, List.takeWhile_cons, ih]
  rw [stringAt, hdrop, if_pos (by simp), hends]

/-- A string and the block it begins in go on alike. -/
lemma headD_takeWhile (s : List α) : (s.takeWhile (fun c => c != nul)).headD nul = s.headD nul := by
  cases s with
  | nil => rfl
  | cons c rest =>
    by_cases hc : c = nul <;> simp [hc]

lemma takeWhile_eq_nil_iff (s : List α) :
    s.takeWhile (fun c => c != nul) = [] ↔ s.headD nul = nul := by
  cases s with
  | nil => simp
  | cons c rest =>
    by_cases hc : c = nul <;> simp [hc]

/-- A string ends at a terminator written into it. -/
lemma takeWhile_set (s : List α) (n : Nat) :
    (s.set n nul).takeWhile (fun c => c != nul) =
      (s.takeWhile (fun c => c != nul)).take n := by
  induction s generalizing n with
  | nil => simp
  | cons c rest ih =>
    cases n with
    | zero => simp
    | succ n =>
      rw [List.set_cons_succ, List.takeWhile_cons, List.takeWhile_cons, ih]
      split <;> simp

end BoundedMemory
