import Mathlib.Data.List.Nodup
import Mathlib.Logic.Function.Basic
import Mathlib.Tactic.Lemma

/-!
# Linked cells

A heap of cells, each of which holds a value and a pointer to another cell, and
the segments that are passed by following the pointers. Writing to a cell leaves
every segment alone that does not pass it, so a list is changed by writing to
its first or its last cell only.
-/
namespace LinkedCells

variable {κ α : Type*}

/-- A value and the pointer `next`, none for NULL. -/
structure Cell (κ α : Type*) where
  value : α
  next : Option κ
  deriving DecidableEq, Repr

abbrev Heap (κ α : Type*) := κ → Option (Cell κ α)

/-- The pointer `head` leads through the given cells to the pointer `tail`. -/
def Segment (heap : Heap κ α) : Option κ → List (κ × α) → Option κ → Prop
  | head, [], tail => head = tail
  | head, (a, v) :: rest, tail =>
    head = some a ∧ ∃ next, heap a = some ⟨v, next⟩ ∧ Segment heap next rest tail

/-- A list that ends with NULL. -/
abbrev Chain (heap : Heap κ α) (head : Option κ) (cells : List (κ × α)) : Prop :=
  Segment heap head cells none

def addresses (cells : List (κ × α)) : List κ := cells.map Prod.fst

def values (cells : List (κ × α)) : List α := cells.map Prod.snd

/-- The pointer to the last cell, NULL for the empty list. -/
def lastAddress (cells : List (κ × α)) : Option κ := (addresses cells).getLast?

@[simp] lemma addresses_nil : addresses ([] : List (κ × α)) = [] := rfl

@[simp] lemma addresses_cons (x : κ × α) (cells : List (κ × α)) :
    addresses (x :: cells) = x.1 :: addresses cells := rfl

@[simp] lemma addresses_append (first second : List (κ × α)) :
    addresses (first ++ second) = addresses first ++ addresses second :=
  List.map_append

@[simp] lemma values_nil : values ([] : List (κ × α)) = [] := rfl

@[simp] lemma values_cons (x : κ × α) (cells : List (κ × α)) :
    values (x :: cells) = x.2 :: values cells := rfl

@[simp] lemma values_append (first second : List (κ × α)) :
    values (first ++ second) = values first ++ values second :=
  List.map_append

@[simp] lemma lastAddress_nil : lastAddress ([] : List (κ × α)) = none := rfl

@[simp] lemma lastAddress_concat (cells : List (κ × α)) (x : κ × α) :
    lastAddress (cells ++ [x]) = some x.1 := by
  simp [lastAddress]

lemma lastAddress_cons (x y : κ × α) (cells : List (κ × α)) :
    lastAddress (x :: y :: cells) = lastAddress (y :: cells) := by
  simp [lastAddress]

lemma lastAddress_mem {a : κ} {cells : List (κ × α)} (h : lastAddress cells = some a) :
    a ∈ addresses cells :=
  List.mem_of_getLast? h

variable {heap : Heap κ α} {head tail : Option κ} {cells : List (κ × α)}

theorem segment_append {first second : List (κ × α)} :
    Segment heap head (first ++ second) tail ↔
      ∃ middle, Segment heap head first middle ∧ Segment heap middle second tail := by
  induction first generalizing head with
  | nil =>
    constructor
    · intro h
      exact ⟨head, rfl, h⟩
    · rintro ⟨middle, rfl, h⟩
      exact h
  | cons x rest ih =>
    constructor
    · rintro ⟨hhead, next, hcell, h⟩
      obtain ⟨middle, hfirst, hsecond⟩ := ih.mp h
      exact ⟨middle, ⟨hhead, next, hcell, hfirst⟩, hsecond⟩
    · rintro ⟨middle, ⟨hhead, next, hcell, hfirst⟩, hsecond⟩
      exact ⟨hhead, next, hcell, ih.mpr ⟨middle, hfirst, hsecond⟩⟩

/-- A segment depends on its own cells only. -/
theorem segment_congr {heap' : Heap κ α} (same : ∀ a ∈ addresses cells, heap' a = heap a)
    (h : Segment heap head cells tail) : Segment heap' head cells tail := by
  induction cells generalizing head with
  | nil => exact h
  | cons x rest ih =>
    obtain ⟨hhead, next, hcell, hrest⟩ := h
    refine ⟨hhead, next, ?_, ih (fun a ha => same a (List.mem_cons_of_mem _ ha)) hrest⟩
    rw [same x.1 List.mem_cons_self]
    exact hcell

/-- The cells of a segment are allocated. -/
lemma segment_allocated (h : Segment heap head cells tail) {a : κ} (ha : a ∈ addresses cells) :
    ∃ cell, heap a = some cell := by
  induction cells generalizing head with
  | nil => cases ha
  | cons x rest ih =>
    obtain ⟨_, next, hcell, hrest⟩ := h
    rcases List.mem_cons.mp ha with rfl | ha
    · exact ⟨_, hcell⟩
    · exact ih hrest ha

/-- The last cell of a segment leads to its end. -/
lemma segment_concat {a : κ} {v : α} (h : Segment heap head (cells ++ [(a, v)]) tail) :
    heap a = some ⟨v, tail⟩ := by
  obtain ⟨_, _, _, next, hcell, hnext⟩ := segment_append.mp h
  rw [hcell, show next = tail from hnext]

/-- A list is empty exactly where the pointer to it is NULL. -/
lemma chain_nil_iff (h : Chain heap head cells) : head = none ↔ cells = [] := by
  cases cells with
  | nil => exact ⟨fun _ => rfl, fun _ => h⟩
  | cons x rest =>
    obtain ⟨rfl, _⟩ := h
    constructor
    · intro hnil
      cases hnil
    · intro hnil
      cases hnil

lemma lastAddress_nil_iff : lastAddress cells = none ↔ cells = [] := by
  rw [lastAddress, List.getLast?_eq_none_iff, addresses, List.map_eq_nil_iff]

variable [DecidableEq κ]

/-- Writing to a cell elsewhere changes nothing. -/
lemma segment_update {a : κ} (off : a ∉ addresses cells) (cell : Option (Cell κ α))
    (h : Segment heap head cells tail) :
    Segment (Function.update heap a cell) head cells tail := by
  refine segment_congr (fun b hb => ?_) h
  apply Function.update_of_ne
  rintro rfl
  exact off hb

/-- A cell written in front of a segment. -/
lemma segment_cons_update {a : κ} (v : α) (off : a ∉ addresses cells)
    (h : Segment heap head cells tail) :
    Segment (Function.update heap a (some ⟨v, head⟩)) (some a) ((a, v) :: cells) tail :=
  ⟨rfl, head, Function.update_self .., segment_update off _ h⟩

/-- Writing to the last cell of a segment sets its value and where it leads. -/
lemma segment_concat_update {a : κ} {v : α} (w : α) (next : Option κ)
    (off : a ∉ addresses cells) (h : Segment heap head (cells ++ [(a, v)]) tail) :
    Segment (Function.update heap a (some ⟨w, next⟩)) head (cells ++ [(a, w)]) next := by
  obtain ⟨middle, hcells, hmiddle, _⟩ := segment_append.mp h
  exact segment_append.mpr ⟨middle, segment_update off _ hcells, hmiddle, next,
    Function.update_self .., rfl⟩

/-- A new last cell, behind the one that is made to point to it. -/
theorem chain_snoc {a b : κ} {v w : α} (off : a ∉ addresses cells) (fresh : b ≠ a)
    (aside : b ∉ addresses cells) (h : Chain heap head (cells ++ [(a, v)])) :
    Chain (Function.update (Function.update heap b (some ⟨w, none⟩)) a (some ⟨v, some b⟩)) head
      (cells ++ [(a, v)] ++ [(b, w)]) := by
  have hnew : b ∉ addresses (cells ++ [(a, v)]) := by
    simp [aside, fresh]
  have hlinked := segment_concat_update v (some b) off (segment_update hnew (some ⟨w, none⟩) h)
  refine segment_append.mpr ⟨some b, hlinked, rfl, none, ?_, rfl⟩
  rw [Function.update_of_ne fresh, Function.update_self]

end LinkedCells
