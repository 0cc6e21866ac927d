import Mathlib.Data.List.Basic
import Mathlib.Data.List.Infix
import Mathlib.Tactic.Lemma

/-!
# Framing by a separator

A message is cut from a stream behind the first occurrence of a separator. The
second part is about heads made of lines, and about a client that finds the
length of a body in such a head.
-/
namespace Framing

section Separator
variable {α : Type*} {sep : List α}

/-- `s` ends with `sep`, and none of its proper prefixes does. -/
structure OnlyAtEnd (sep s : List α) : Prop where
  ending : sep <:+ s
  first : ∀ p, p <+: s → sep <:+ p → p = s

lemma onlyAtEnd_self : OnlyAtEnd sep sep :=
  ⟨List.suffix_rfl, fun _ hp hs => hp.eq_of_length (Nat.le_antisymm hp.length_le hs.length_le)⟩

/-- Nothing is in front of the separator, or the rest has it only at its end. -/
lemma onlyAtEnd_cons {b : α} {s : List α} (nonempty : sep ≠ []) :
    OnlyAtEnd sep (b :: s) ↔ sep = b :: s ∨ ¬ sep <+: b :: s ∧ OnlyAtEnd sep s := by
  constructor
  · intro h
    rcases List.suffix_cons_iff.mp h.ending with heq | hsuffix
    · exact Or.inl heq
    · right
      have hno : ¬ sep <+: b :: s := by
        intro hstarts
        have heq := h.first sep hstarts List.suffix_rfl
        have hlength := hsuffix.length_le
        rw [heq, List.length_cons] at hlength
        omega
      refine ⟨hno, hsuffix, fun p hp hs => ?_⟩
      have hcons := h.first (b :: p) (List.cons_prefix_cons.mpr ⟨rfl, hp⟩)
        (hs.trans (List.suffix_cons b p))
      exact (List.cons.inj hcons).2
  · rintro (rfl | ⟨hno, h⟩)
    · exact onlyAtEnd_self
    · refine ⟨h.ending.trans (List.suffix_cons b s), fun p hp hs => ?_⟩
      cases p with
      | nil => exact absurd (List.suffix_nil.mp hs) nonempty
      | cons c p =>
        rcases List.suffix_cons_iff.mp hs with rfl | hs
        · exact absurd hp hno
        · obtain ⟨hc, hrest⟩ := List.cons_prefix_cons.mp hp
          rw [hc, h.first p hrest hs]

variable [DecidableEq α]

/-- The shortest prefix that ends with `sep`, and what follows it. -/
def cutAfter (sep : List α) : List α → Option (List α × List α)
  | [] => none
  | b :: rest =>
    if sep <+: b :: rest then some (sep, (b :: rest).drop sep.length)
    else (cutAfter sep rest).map fun cut => (b :: cut.1, cut.2)

theorem cutAfter_append {s p r : List α} (h : cutAfter sep s = some (p, r)) : s = p ++ r := by
  induction s generalizing p with
  | nil => cases h
  | cons b rest ih =>
    rw [cutAfter] at h
    split at h
    · rename_i hstarts
      cases h
      exact (List.prefix_iff_eq_append.mp hstarts).symm
    · obtain ⟨⟨p', r'⟩, hcut, heq⟩ := Option.map_eq_some_iff.mp h
      cases heq
      rw [ih hcut]
      rfl

theorem cutAfter_onlyAtEnd (nonempty : sep ≠ []) {s p r : List α}
    (h : cutAfter sep s = some (p, r)) : OnlyAtEnd sep p := by
  induction s generalizing p with
  | nil => cases h
  | cons b rest ih =>
    rw [cutAfter] at h
    split at h
    · cases h
      exact onlyAtEnd_self
    · rename_i hno
      obtain ⟨⟨p', r'⟩, hcut, heq⟩ := Option.map_eq_some_iff.mp h
      cases heq
      refine (onlyAtEnd_cons nonempty).mpr (Or.inr ⟨fun hstarts => hno ?_, ih hcut⟩)
      rw [cutAfter_append hcut]
      exact hstarts.trans (List.prefix_append (b :: p') _)

/-- A stream that starts with a message is cut behind it. -/
theorem OnlyAtEnd.cutAfter_eq (nonempty : sep ≠ []) {p : List α} (h : OnlyAtEnd sep p)
    (r : List α) : cutAfter sep (p ++ r) = some (p, r) := by
  induction p with
  | nil => exact absurd (List.suffix_nil.mp h.ending) nonempty
  | cons b p ih =>
    rw [List.cons_append, cutAfter]
    rcases (onlyAtEnd_cons nonempty).mp h with rfl | ⟨hno, hp⟩
    · rw [← List.cons_append, if_pos (List.prefix_append _ _), List.drop_left]
    · have hlength := hp.ending.length_le
      have hstill : ¬ sep <+: b :: (p ++ r) := by
        intro hstarts
        rw [← List.cons_append] at hstarts
        exact hno (List.prefix_of_prefix_length_le hstarts (List.prefix_append _ _)
          (Nat.le_succ_of_le hlength))
      rw [if_neg hstill, ih hp]
      rfl

/-- A stretch inside of which no occurrence starts is passed over. -/
lemma cutAfter_skip {skipped t : List α}
    (none_starts : ∀ a b, skipped = a ++ b → b ≠ [] → ¬ sep <+: b ++ t) :
    cutAfter sep (skipped ++ t) = (cutAfter sep t).map fun cut => (skipped ++ cut.1, cut.2) := by
  induction skipped with
  | nil => exact Option.map_id'.symm
  | cons c rest ih =>
    have hhere : ¬ sep <+: c :: (rest ++ t) := none_starts [] (c :: rest) rfl (List.cons_ne_nil _ _)
    have hrest := ih (fun a b hab => none_starts (c :: a) b (congrArg (c :: ·) hab))
    rw [List.cons_append, cutAfter, if_neg hhere, hrest, Option.map_map]
    rfl

/-- The cut is behind the first place where the separator starts. -/
theorem cutAfter_first (nonempty : sep ≠ []) {s : List α} {start : Nat}
    (here : sep <+: s.drop start) (earliest : ∀ i, i < start → ¬ sep <+: s.drop i) :
    cutAfter sep s = some (s.take (start + sep.length), s.drop (start + sep.length)) := by
  induction start generalizing s with
  | zero =>
    cases s with
    | nil =>
      rw [List.drop_nil] at here
      exact absurd (List.prefix_nil.mp here) nonempty
    | cons b s =>
      rw [List.drop_zero] at here
      rw [cutAfter, if_pos here, Nat.zero_add, ← List.prefix_iff_eq_take.mp here]
  | succ start ih =>
    cases s with
    | nil =>
      rw [List.drop_nil] at here
      exact absurd (List.prefix_nil.mp here) nonempty
    | cons b s =>
      have hno : ¬ sep <+: b :: s := earliest 0 (Nat.succ_pos _)
      have hrest := ih here (fun i hi => earliest (i + 1) (Nat.succ_lt_succ hi))
      rw [cutAfter, if_neg hno, hrest, Nat.succ_add]
      rfl

theorem cutAfter_eq_none (nonempty : sep ≠ []) {s : List α} :
    cutAfter sep s = none ↔ ¬ sep <:+: s := by
  induction s with
  | nil =>
    rw [List.infix_nil]
    exact iff_of_true rfl nonempty
  | cons b rest ih =>
    rw [cutAfter, List.infix_cons_iff, not_or]
    by_cases hstarts : sep <+: b :: rest
    · rw [if_pos hstarts]
      exact iff_of_false (Option.some_ne_none _) (fun h => h.1 hstarts)
    · rw [if_neg hstarts, Option.map_eq_none_iff, ih]
      exact (and_iff_right hstarts).symm

end Separator

abbrev Text := List UInt8

def crlf : Text := [13, 10]

def blankLine : Text := [13, 10, 13, 10]

lemma blankLine_ne_nil : blankLine ≠ [] := List.cons_ne_nil _ _

structure OneLine (line : Text) : Prop where
  noCr : (13 : UInt8) ∉ line
  noLf : (10 : UInt8) ∉ line

def joinLines (lines : List Text) : Text := (lines.map (· ++ crlf)).flatten

/-- The lines of a text; the last one is what follows the last CRLF. -/
def splitLines : Text → List Text
  | [] => [[]]
  | b :: rest =>
    match splitLines rest with
    | [] => [[b]]
    | line :: lines =>
      if b = 13 ∧ line.head? = some 10 then [] :: line.drop 1 :: lines
      else (b :: line) :: lines

lemma splitLines_ne_nil (s : Text) : splitLines s ≠ [] := by
  cases s with
  | nil => exact List.cons_ne_nil _ _
  | cons b rest =>
    rw [splitLines]
    cases splitLines rest with
    | nil => exact List.cons_ne_nil _ _
    | cons line lines =>
      simp only
      split <;> exact List.cons_ne_nil _ _

lemma splitLines_crlf (rest : Text) : splitLines (crlf ++ rest) = [] :: splitLines rest := by
  change splitLines (13 :: 10 :: rest) = _
  cases h : splitLines rest with
  | nil => exact absurd h (splitLines_ne_nil rest)
  | cons line lines =>
    rw [splitLines, splitLines, h]
    rfl

/-- A CR inside of a line does not end it. -/
lemma splitLines_line {line : Text} (noLf : (10 : UInt8) ∉ line) (rest : Text) :
    splitLines (line ++ (crlf ++ rest)) = line :: splitLines rest := by
  induction line with
  | nil => exact splitLines_crlf rest
  | cons b line ih =>
    have hhead : line.head? ≠ some 10 := by
      intro h
      exact noLf (List.mem_cons_of_mem _ (List.mem_of_head? h))
    rw [List.cons_append, splitLines, ih (fun h => noLf (List.mem_cons_of_mem _ h))]
    exact if_neg (fun h => hhead h.2)

theorem splitLines_joinLines {lines : List Text} (noLf : ∀ line ∈ lines, (10 : UInt8) ∉ line)
    (rest : Text) : splitLines (joinLines lines ++ rest) = lines ++ splitLines rest := by
  induction lines with
  | nil => rfl
  | cons line lines ih =>
    have hjoin : joinLines (line :: lines) ++ rest = line ++ (crlf ++ (joinLines lines ++ rest)) := by
      simp only [joinLines, List.map_cons, List.flatten_cons, List.append_assoc]
    rw [hjoin, splitLines_line (noLf line List.mem_cons_self),
      ih (fun l hl => noLf l (List.mem_cons_of_mem _ hl)), List.cons_append]

lemma joinLines_cons (line : Text) (lines : List Text) (rest : Text) :
    joinLines (line :: lines) ++ rest = line ++ (crlf ++ (joinLines lines ++ rest)) := by
  simp only [joinLines, List.map_cons, List.flatten_cons, List.append_assoc]

/-- No blank line starts inside of a line. -/
lemma cutAfter_inLine {line : Text} (one : OneLine line) (t : Text) :
    cutAfter blankLine (line ++ t) =
      (cutAfter blankLine t).map fun cut => (line ++ cut.1, cut.2) := by
  apply cutAfter_skip
  intro a b hab hb hstarts
  obtain ⟨c, b, rfl⟩ := List.exists_cons_of_ne_nil hb
  have hc : c = 13 := (List.cons_prefix_cons.mp hstarts).1.symm
  apply one.noCr
  rw [hab, hc]
  exact List.mem_append_right a List.mem_cons_self

/-- Nor does one start at the end of a line that has another one behind it. -/
lemma cutAfter_lineEnd {c : UInt8} (hc : c ≠ 13) (t : Text) :
    cutAfter blankLine (crlf ++ c :: t) =
      (cutAfter blankLine (c :: t)).map fun cut => (crlf ++ cut.1, cut.2) := by
  have hcr : ¬ blankLine <+: 13 :: 10 :: c :: t := by
    intro hstarts
    simp only [blankLine, List.cons_prefix_cons] at hstarts
    exact hc hstarts.2.2.1.symm
  have hlf : ¬ blankLine <+: 10 :: c :: t :=
    fun hstarts => absurd (List.cons_prefix_cons.mp hstarts).1 (by decide)
  change cutAfter blankLine (13 :: 10 :: c :: t) = _
  rw [cutAfter, if_neg hcr, cutAfter, if_neg hlf, Option.map_map]
  rfl

/-- The first CRLFCRLF of a head of lines is the one that ends it. -/
theorem cutAfter_head {line : Text} {lines : List Text} (first : OneLine line)
    (one : ∀ l ∈ lines, OneLine l ∧ l ≠ []) (rest : Text) :
    cutAfter blankLine (joinLines (line :: lines) ++ crlf ++ rest) =
      some (joinLines (line :: lines) ++ crlf, rest) := by
  rw [List.append_assoc, joinLines_cons, joinLines_cons, cutAfter_inLine first]
  induction lines generalizing line with
  | nil =>
    have hend : cutAfter blankLine (blankLine ++ rest) = some (blankLine, rest) :=
      onlyAtEnd_self.cutAfter_eq blankLine_ne_nil rest
    change (cutAfter blankLine (blankLine ++ rest)).map _ = _
    rw [hend]
    rfl
  | cons next lines ih =>
    obtain ⟨hnext, hnonempty⟩ := one next List.mem_cons_self
    have hrest := ih hnext (fun l hl => one l (List.mem_cons_of_mem _ hl))
    obtain ⟨c, next, rfl⟩ := List.exists_cons_of_ne_nil hnonempty
    have hc : c ≠ 13 := fun h => hnext.noCr (h ▸ List.mem_cons_self)
    rw [joinLines_cons, joinLines_cons, List.cons_append, cutAfter_lineEnd hc,
      ← List.cons_append, cutAfter_inLine hnext, hrest]
    rfl

def lowerByte (c : UInt8) : UInt8 := if 65 ≤ c ∧ c ≤ 90 then c + 32 else c

/-- What stands in front of the first colon, in lower case. -/
def fieldName (line : Text) : Text := (line.takeWhile (fun c => c != 58)).map lowerByte

/-- What stands behind the first colon, without leading spaces. -/
def fieldValue (line : Text) : Text :=
  ((line.dropWhile (fun c => c != 58)).drop 1).dropWhile (fun c => c == 32)

def isDigitByte (c : UInt8) : Bool := 48 ≤ c && c ≤ 57

def readDecimal (digits : Text) : Option Nat :=
  if digits ≠ [] ∧ digits.all isDigitByte = true then
    some (digits.foldl (fun value c => 10 * value + (c.toNat - 48)) 0)
  else none

def hasName (name line : Text) : Bool := fieldName line == name

/-- The lines of a head that have the field `name`. -/
def fieldLines (name : Text) (head : Text) : List Text := (splitLines head).filter (hasName name)

/-- A client that reads a head up to its blank line, and as many bytes behind
it as the one line with the field `name` says. It gives the head, the body and
what follows them. -/
def readMessage (name : Text) (stream : Text) : Option (Text × Text × Text) := do
  let (head, rest) ← cutAfter blankLine stream
  match fieldLines name head with
  | [line] =>
    let length ← readDecimal (fieldValue line)
    if rest.length < length then none
    else some (head, rest.take length, rest.drop length)
  | _ => none

lemma readMessage_eq {name head rest line : Text} {stream : Text} {length : Nat}
    (cut : cutAfter blankLine stream = some (head, rest)) (field : fieldLines name head = [line])
    (value : readDecimal (fieldValue line) = some length) (enough : length ≤ rest.length) :
    readMessage name stream = some (head, rest.take length, rest.drop length) := by
  simp only [readMessage, cut, Option.bind_eq_bind, Option.bind_some, field, value]
  exact if_neg (Nat.not_lt.mpr enough)

lemma hasName_append (field : Text) (noColon : (58 : UInt8) ∉ field) (name rest : Text) :
    hasName name (field ++ 58 :: rest) = (field.map lowerByte == name) := by
  rw [hasName, fieldName, List.takeWhile_append_of_pos, List.takeWhile_cons_of_neg, List.append_nil]
  · exact fun h => by cases h
  · intro c hc
    exact bne_iff_ne.mpr (fun h => noColon (h ▸ hc))

lemma fieldValue_append {name value : Text} (noColon : (58 : UInt8) ∉ name)
    (noSpace : value.head? ≠ some 32) : fieldValue (name ++ 58 :: 32 :: value) = value := by
  rw [fieldValue, List.dropWhile_append_of_pos, List.dropWhile_cons_of_neg, List.drop_succ_cons,
    List.drop_zero, List.dropWhile_cons_of_pos]
  · cases value with
    | nil => rfl
    | cons c value =>
      apply List.dropWhile_cons_of_neg
      intro h
      exact noSpace (congrArg some (beq_iff_eq.mp h))
  · rfl
  · exact fun h => by cases h
  · intro c hc
    exact bne_iff_ne.mpr (fun h => noColon (h ▸ hc))

end Framing
