import Minihttpd.Library.Framing

/-!
# Streams of messages

A reader takes one message off the front of a stream, and knows when there is
not a whole one yet. A stream of such messages is read back as it was written,
and so is every first part of it: its whole messages are read, and the rest is
left.
-/
namespace MessageStream

variable {α μ : Type*} {read : List α → Option (μ × List α)}

/-- `bytes` is read as the message `m`, whatever follows, and no part of it is. -/
structure Delimits (read : List α → Option (μ × List α)) (m : μ) (bytes : List α) : Prop where
  whole : ∀ rest, read (bytes ++ rest) = some (m, rest)
  part : ∀ p, p <+: bytes → p ≠ bytes → read p = none

/-- At most `fuel` messages are read, and what is left of the stream. -/
def readAll (read : List α → Option (μ × List α)) : Nat → List α → List μ × List α
  | 0, stream => ([], stream)
  | fuel + 1, stream =>
    match read stream with
    | none => ([], stream)
    | some (m, rest) =>
      let later := readAll read fuel rest
      (m :: later.1, later.2)

/-- A message has a byte at least, so the stream is long enough for its messages. -/
def readStream (read : List α → Option (μ × List α)) (stream : List α) : List μ × List α :=
  readAll read stream.length stream

lemma Delimits.nonempty {m : μ} {bytes : List α} (empty : read [] = none)
    (h : Delimits read m bytes) : bytes ≠ [] := by
  rintro rfl
  have hwhole := h.whole []
  rw [List.append_nil, empty] at hwhole
  cases hwhole

lemma readAll_messages {messages : List (μ × List α)} {tail : List α} {fuel : Nat}
    (each : ∀ m ∈ messages, Delimits read m.1 m.2) (stuck : read tail = none)
    (enough : messages.length ≤ fuel) :
    readAll read fuel ((messages.map Prod.snd).flatten ++ tail) =
      (messages.map Prod.fst, tail) := by
  induction messages generalizing fuel with
  | nil =>
    cases fuel with
    | zero => rfl
    | succ fuel =>
      change readAll read (fuel + 1) tail = _
      rw [readAll, stuck]
      rfl
  | cons m rest ih =>
    cases fuel with
    | zero => exact absurd enough (Nat.not_succ_le_zero _)
    | succ fuel =>
      have hrest := ih (fun d hd => each d (List.mem_cons_of_mem _ hd))
        (Nat.le_of_succ_le_succ enough)
      rw [List.map_cons, List.flatten_cons, List.append_assoc, readAll,
        (each m List.mem_cons_self).whole]
      simp only [hrest, List.map_cons]

lemma length_messages {messages : List (μ × List α)} (empty : read [] = none)
    (each : ∀ m ∈ messages, Delimits read m.1 m.2) :
    messages.length ≤ (messages.map Prod.snd).flatten.length := by
  induction messages with
  | nil => exact Nat.le_refl 0
  | cons m rest ih =>
    have hone := List.length_pos_of_ne_nil ((each m List.mem_cons_self).nonempty empty)
    have hrest := ih fun d hd => each d (List.mem_cons_of_mem _ hd)
    rw [List.map_cons, List.flatten_cons, List.length_append, List.length_cons]
    omega

/-- The messages are read back, and the tail that holds none is left. -/
theorem readStream_messages {messages : List (μ × List α)} {tail : List α}
    (empty : read [] = none) (each : ∀ m ∈ messages, Delimits read m.1 m.2)
    (stuck : read tail = none) : readStream read ((messages.map Prod.snd).flatten ++ tail) =
      (messages.map Prod.fst, tail) := by
  apply readAll_messages each stuck
  have hlength := length_messages empty each
  rw [List.length_append]
  omega

/-- A first part of a stream is some of its pieces and a part of the next. -/
lemma prefix_flatten {pieces : List (List α)} {s : List α} (h : s <+: pieces.flatten) :
    s = pieces.flatten ∨ ∃ done piece rest tail, pieces = done ++ piece :: rest ∧
      s = done.flatten ++ tail ∧ tail <+: piece ∧ tail ≠ piece := by
  induction pieces generalizing s with
  | nil => exact Or.inl (List.prefix_nil.mp h)
  | cons piece rest ih =>
    rw [List.flatten_cons] at h
    by_cases hpiece : piece <+: s
    · obtain ⟨t, rfl⟩ := hpiece
      rcases ih ((List.prefix_append_right_inj piece).mp h) with
        heq | ⟨done, next, later, tail, hsplit, ht, hpart, hne⟩
      · left
        rw [heq, List.flatten_cons]
      · right
        refine ⟨piece :: done, next, later, tail, ?_, ?_, hpart, hne⟩
        · rw [hsplit]
          rfl
        · rw [ht, List.flatten_cons, List.append_assoc]
    · right
      refine ⟨[], piece, rest, s, rfl, rfl, ?_, ?_⟩
      · rcases List.prefix_or_prefix_of_prefix h (List.prefix_append piece _) with hs | hs
        · exact hs
        · exact absurd hs hpiece
      · rintro rfl
        exact hpiece (List.prefix_refl _)

/-- Of a first part of the stream the whole messages are read, and what is left
is a part of the next one. -/
theorem readStream_prefix {messages : List (μ × List α)} {s : List α} (empty : read [] = none)
    (each : ∀ m ∈ messages, Delimits read m.1 m.2)
    (h : s <+: (messages.map Prod.snd).flatten) : ∃ done later,
      messages = done ++ later ∧ (readStream read s).1 = done.map Prod.fst ∧
      (later = [] ∧ (readStream read s).2 = [] ∨ ∃ next rest, later = next :: rest ∧
        (readStream read s).2 <+: next.2 ∧ (readStream read s).2 ≠ next.2) := by
  rcases prefix_flatten h with rfl | ⟨front, piece, back, tail, hsplit, rfl, hpart, hne⟩
  · have hread := readStream_messages empty each empty
    rw [List.append_nil] at hread
    rw [hread]
    exact ⟨messages, [], (List.append_nil _).symm, rfl, Or.inl ⟨rfl, rfl⟩⟩
  · obtain ⟨done, later, rfl, rfl, hlater⟩ := List.map_eq_append_iff.mp hsplit
    obtain ⟨next, rest, rfl, rfl, _⟩ := List.map_eq_cons_iff.mp hlater
    have hstuck := (each next (List.mem_append_right _ List.mem_cons_self)).part tail hpart hne
    have hread := readStream_messages empty
      (fun m hm => each m (List.mem_append_left _ hm)) hstuck
    rw [hread]
    exact ⟨done, next :: rest, rfl, rfl, Or.inr ⟨next, rest, rfl, hpart, hne⟩⟩

section Heads
open Framing

/-- The reader of `readMessage`, with its head and body as one message. -/
def readHeadBody (name : Text) (stream : Text) : Option ((Text × Text) × Text) :=
  (readMessage name stream).map fun m => ((m.1, m.2.1), m.2.2)

/-- What a head that is read with its body says of it. -/
lemma readMessage_field {name head body : Text} (ending : OnlyAtEnd blankLine head)
    (h : readMessage name (head ++ body) = some (head, body, [])) :
    ∃ line, fieldLines name head = [line] ∧ readDecimal (fieldValue line) = some body.length := by
  rw [readMessage, ending.cutAfter_eq blankLine_ne_nil] at h
  simp only [Option.bind_eq_bind, Option.bind_some] at h
  split at h
  · rename_i line hline
    obtain ⟨length, hlength, h⟩ := Option.bind_eq_some_iff.mp h
    split at h
    · cases h
    · rename_i henough
      have hparts := Option.some.inj h
      have htake : body.take length = body := congrArg (fun m => m.2.1) hparts
      have hdrop : body.drop length = [] := congrArg (fun m => m.2.2) hparts
      have hshort := List.drop_eq_nil_iff.mp hdrop
      refine ⟨line, hline, ?_⟩
      rw [hlength]
      congr 1
      omega
  · cases h

/-- Neither a part of a head nor a head with a part of its body is a message. -/
theorem headBody_delimits {name head body : Text} (ending : OnlyAtEnd blankLine head)
    (whole : ∀ rest, readMessage name (head ++ body ++ rest) = some (head, body, rest)) :
    Delimits (readHeadBody name) (head, body) (head ++ body) := by
  constructor
  · intro rest
    rw [readHeadBody, whole rest]
    rfl
  · intro p hp hne
    rw [readHeadBody, Option.map_eq_none_iff]
    by_cases hhead : head <+: p
    · obtain ⟨part, rfl⟩ := hhead
      have hpart := (List.prefix_append_right_inj head).mp hp
      have hshort : part.length < body.length := by
        apply Nat.lt_of_le_of_ne hpart.length_le
        exact fun heq => hne (congrArg (head ++ ·) (hpart.eq_of_length heq))
      have hread := whole []
      rw [List.append_nil] at hread
      obtain ⟨line, hline, hlength⟩ := readMessage_field ending hread
      rw [readMessage, ending.cutAfter_eq blankLine_ne_nil]
      simp only [Option.bind_eq_bind, Option.bind_some, hline, hlength]
      exact if_pos hshort
    · -- the blank line of the head has not come yet
      have hcut : cutAfter blankLine p = none := by
        cases hcut : cutAfter blankLine p with
        | none => rfl
        | some cut =>
          exfalso
          have hfront : cut.1 <+: p := by
            rw [cutAfter_append hcut]
            exact List.prefix_append _ _
          have hends := (cutAfter_onlyAtEnd blankLine_ne_nil hcut).ending
          rcases List.prefix_or_prefix_of_prefix (hfront.trans hp) (List.prefix_append head body)
            with hbefore | hbehind
          · rw [ending.first cut.1 hbefore hends] at hfront
            exact hhead hfront
          · exact hhead (hbehind.trans hfront)
      rw [readMessage, hcut]
      rfl

lemma readHeadBody_nil (name : Text) : readHeadBody name [] = none := rfl

end Heads

end MessageStream
