import Mathlib.Data.List.Basic
import Mathlib.Tactic.Lemma

/-!
# Paths resolved by their text

A path names a location once its "." and ".." segments are resolved, no links
assumed. A relative location starts some number of directories above the place
where the resolution starts. What a path does to any location is its course:
so many directories up, and then down along some names.
-/
namespace LexicalPath

universe u

variable {α : Type u}

/-- What one segment of a path asks for. -/
inductive Move (α : Type u) where
  | stay
  | up
  | down (name : α)
  deriving DecidableEq, Repr

/-- Where a location starts: at the root, or above the current directory. -/
inductive Base where
  | root
  | above (directories : Nat)
  deriving DecidableEq, Repr

namespace Base

def parent : Base → Base
  | root => root
  | above n => above (n + 1)

/-- The root is its own parent. -/
def climb (b : Base) (n : Nat) : Base :=
  match b with
  | root => root
  | above k => above (k + n)

@[simp] lemma climb_zero (b : Base) : b.climb 0 = b := by
  cases b <;> rfl

lemma parent_climb (b : Base) (n : Nat) : (b.climb n).parent = b.climb (n + 1) := by
  cases b <;> rfl

lemma climb_eq_self {b : Base} {n : Nat} : b.climb n = b ↔ b = root ∨ n = 0 := by
  cases b with
  | root => simp [climb]
  | above k => simp [climb]

end Base

structure Location (α : Type u) where
  base : Base
  names : List α
  deriving DecidableEq, Repr

namespace Location

def step (l : Location α) : Move α → Location α
  | .stay => l
  | .up => if l.names.isEmpty then ⟨l.base.parent, []⟩ else ⟨l.base, l.names.dropLast⟩
  | .down name => ⟨l.base, l.names ++ [name]⟩

def walk (l : Location α) (moves : List (Move α)) : Location α := moves.foldl step l

/-- A location below another one, or that location itself. -/
def Inside (dir l : Location α) : Prop := l.base = dir.base ∧ dir.names <+: l.names

instance [DecidableEq α] (dir l : Location α) : Decidable (Inside dir l) :=
  inferInstanceAs (Decidable (_ ∧ _))

@[simp] lemma walk_cons (l : Location α) (m : Move α) (moves : List (Move α)) :
    l.walk (m :: moves) = (l.step m).walk moves := rfl

lemma walk_append (l : Location α) (first second : List (Move α)) :
    l.walk (first ++ second) = (l.walk first).walk second := List.foldl_append

end Location

/-- The net effect of some moves: the directories climbed over and above those
descended into, and the names descended along in the end. -/
structure Course (α : Type u) where
  climbs : Nat
  names : List α
  deriving DecidableEq, Repr

namespace Course

def step (c : Course α) : Move α → Course α
  | .stay => c
  | .up => if c.names.isEmpty then ⟨c.climbs + 1, []⟩ else ⟨c.climbs, c.names.dropLast⟩
  | .down name => ⟨c.climbs, c.names ++ [name]⟩

def ofMoves (moves : List (Move α)) : Course α := moves.foldl step ⟨0, []⟩

@[simp] lemma ofMoves_stay (moves : List (Move α)) : ofMoves (.stay :: moves) = ofMoves moves := rfl

end Course

namespace Location

/-- Where a course leads from a location. -/
def follow (l : Location α) (c : Course α) : Location α :=
  ⟨l.base.climb (c.climbs - l.names.length), l.names.take (l.names.length - c.climbs) ++ c.names⟩

lemma follow_start (l : Location α) : l.follow ⟨0, []⟩ = l := by
  simp [follow]

/-- One more move, made before or after the course is followed. -/
lemma follow_step (l : Location α) (c : Course α) (m : Move α) :
    (l.follow c).step m = l.follow (c.step m) := by
  cases m with
  | stay => rfl
  | down name => simp [follow, step, Course.step]
  | up =>
    obtain ⟨climbs, names⟩ := c
    rcases List.eq_nil_or_concat names with rfl | ⟨front, last, rfl⟩
    · -- the move climbs out of what is left of the location itself
      rcases Nat.lt_or_ge climbs l.names.length with hlt | hge
      · have htake : l.names.take (l.names.length - climbs) ≠ [] := by
          intro hnil
          have hlength := congrArg List.length hnil
          rw [List.length_take, List.length_nil] at hlength
          omega
        have hdrop : (l.names.take (l.names.length - climbs)).dropLast =
            l.names.take (l.names.length - (climbs + 1)) := by
          rw [List.dropLast_eq_take, List.take_take, List.length_take]
          congr 1
          omega
        have hbase : climbs - l.names.length = 0 ∧ climbs + 1 - l.names.length = 0 := by omega
        simp [follow, step, Course.step, htake, hdrop, hbase.1, hbase.2]
      · have htake : l.names.length - climbs = 0 ∧ l.names.length - (climbs + 1) = 0 := by omega
        have hclimbs : climbs - l.names.length + 1 = climbs + 1 - l.names.length := by omega
        simp [follow, step, Course.step, htake.1, htake.2, Base.parent_climb, hclimbs]
    · simp [follow, step, Course.step, List.dropLast_append_of_ne_nil]

/-- A walk follows the course of its moves, wherever it starts. -/
theorem walk_eq_follow (l : Location α) (moves : List (Move α)) :
    l.walk moves = l.follow (Course.ofMoves moves) := by
  have general : ∀ c : Course α,
      (l.follow c).walk moves = l.follow (moves.foldl Course.step c) := by
    induction moves with
    | nil => exact fun _ => rfl
    | cons m rest ih =>
      intro c
      rw [walk_cons, follow_step]
      exact ih (c.step m)
  have h := general ⟨0, []⟩
  rw [follow_start] at h
  exact h

/-- A course that stays inside a directory: what it climbs over it descends
into again, along the directory's own last names. -/
def Returns (dir : Location α) (c : Course α) : Prop :=
  (dir.base = .root ∨ c.climbs ≤ dir.names.length) ∧
    dir.names.drop (dir.names.length - c.climbs) <+: c.names

instance [DecidableEq α] (dir : Location α) (c : Course α) : Decidable (dir.Returns c) :=
  inferInstanceAs (Decidable (_ ∧ _))

theorem inside_follow_iff (dir : Location α) (c : Course α) :
    dir.Inside (dir.follow c) ↔ dir.Returns c := by
  have hnames : dir.names <+: dir.names.take (dir.names.length - c.climbs) ++ c.names ↔
      dir.names.drop (dir.names.length - c.climbs) <+: c.names := by
    have h := @List.prefix_append_right_inj α (dir.names.drop (dir.names.length - c.climbs))
      c.names (dir.names.take (dir.names.length - c.climbs))
    rwa [List.take_append_drop] at h
  have hbase : dir.base.climb (c.climbs - dir.names.length) = dir.base ↔
      dir.base = .root ∨ c.climbs ≤ dir.names.length := by
    rw [Base.climb_eq_self, Nat.sub_eq_zero_iff_le]
  exact and_congr hbase hnames

end Location

section Text

variable [DecidableEq α] (slash dot : α)

def moveOf (segment : List α) : Move (List α) :=
  if segment = [] ∨ segment = [dot] then .stay
  else if segment = [dot, dot] then .up
  else .down segment

def movesOf (path : List α) : List (Move (List α)) := (path.splitOn slash).map (moveOf dot)

/-- The location a path names. -/
def locate (path : List α) : Location (List α) :=
  Location.walk ⟨if path.head? = some slash then .root else .above 0, []⟩ (movesOf slash dot path)

lemma movesOf_join (first second : List α) :
    movesOf slash dot (first ++ slash :: second) =
      movesOf slash dot first ++ movesOf slash dot second := by
  rw [movesOf, List.splitOn_append_cons_self, List.map_append]
  rfl

lemma movesOf_nil : movesOf slash dot [] = [.stay] := by
  simp [movesOf, moveOf]

/-- Slashes in front of a path make no difference to its moves. -/
lemma movesOf_slash (path : List α) :
    movesOf slash dot (slash :: path) = .stay :: movesOf slash dot path := by
  have h := movesOf_join slash dot [] path
  rw [movesOf_nil] at h
  exact h

/-- A path that goes on behind a directory's. -/
theorem locate_join (dir path : List α) :
    locate slash dot (dir ++ slash :: path) =
      (locate slash dot (dir ++ [slash])).follow (Course.ofMoves (movesOf slash dot path)) := by
  have hhead : (dir ++ slash :: path).head? = (dir ++ [slash]).head? := by
    cases dir <;> rfl
  rw [← Location.walk_eq_follow, locate, locate, hhead, movesOf_join, movesOf_join, movesOf_nil,
    ← Location.walk_append, List.append_assoc]
  simp [Location.walk_append, Location.step]

end Text

end LexicalPath
