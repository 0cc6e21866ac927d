import Minihttpd.Library.Framing

/-!
# A framer that drops what it has read too much

A stream of messages, each of which ends at its first separator, arrives in
pieces. This framer takes a message as soon as a piece completes it, and drops
the rest of that piece. It loses nothing exactly when no piece goes past the
end of the message it completes.
-/
namespace Framing

variable {α : Type*} [DecidableEq α] {sep : List α}

/-- The messages taken so far, the beginning of the next one, and what has been
dropped behind each message. -/
structure Framer (α : Type*) where
  messages : List (List α)
  pending : List α
  dropped : List (List α)

namespace Framer

def start : Framer α := ⟨[], [], []⟩

def feed (sep : List α) (f : Framer α) (piece : List α) : Framer α :=
  match cutAfter sep (f.pending ++ piece) with
  | none => { f with pending := f.pending ++ piece }
  | some (message, rest) => ⟨f.messages ++ [message], [], f.dropped ++ [rest]⟩

def run (sep : List α) (pieces : List (List α)) : Framer α := pieces.foldl (feed sep) start

lemma feed_none {f : Framer α} {piece : List α} (h : cutAfter sep (f.pending ++ piece) = none) :
    feed sep f piece = { f with pending := f.pending ++ piece } := by
  simp only [feed, h]

lemma feed_some {f : Framer α} {piece message rest : List α}
    (h : cutAfter sep (f.pending ++ piece) = some (message, rest)) :
    feed sep f piece = ⟨f.messages ++ [message], [], f.dropped ++ [rest]⟩ := by
  simp only [feed, h]

lemma run_concat (pieces : List (List α)) (piece : List α) :
    run sep (pieces ++ [piece]) = feed sep (run sep pieces) piece := by
  rw [run, run, List.foldl_append, List.foldl_cons, List.foldl_nil]

/-- What a framer has made of the bytes it was fed. -/
structure Accounts (sep : List α) (fed : List α) (f : Framer α) : Prop where
  messages : ∀ m ∈ f.messages, OnlyAtEnd sep m
  pending : cutAfter sep f.pending = none
  length : f.messages.flatten.length + f.dropped.flatten.length + f.pending.length = fed.length
  conserved : f.dropped.flatten = [] → f.messages.flatten ++ f.pending = fed

lemma feed_accounts (nonempty : sep ≠ []) {fed : List α} {f : Framer α} (h : Accounts sep fed f)
    (piece : List α) : Accounts sep (fed ++ piece) (feed sep f piece) := by
  have hlength := h.length
  cases hcut : cutAfter sep (f.pending ++ piece) with
  | none =>
    rw [feed_none hcut]
    refine ⟨h.messages, hcut, ?_, fun hnone => ?_⟩
    · simp only [List.length_append]
      omega
    · rw [← h.conserved hnone, List.append_assoc]
  | some cut =>
    obtain ⟨message, rest⟩ := cut
    have hsplit := cutAfter_append hcut
    have hsplitLength := congrArg List.length hsplit
    rw [feed_some hcut]
    refine ⟨?_, ?_, ?_, fun hnone => ?_⟩
    · intro m hm
      rcases List.mem_append.mp hm with hm | hm
      · exact h.messages m hm
      · rw [List.mem_singleton.mp hm]
        exact cutAfter_onlyAtEnd nonempty hcut
    · rfl
    · simp only [List.flatten_append, List.flatten_cons, List.flatten_nil, List.append_nil,
        List.length_append, List.length_nil] at hsplitLength ⊢
      omega
    · simp only [List.flatten_append, List.flatten_cons, List.flatten_nil, List.append_nil,
        List.append_eq_nil_iff] at hnone ⊢
      rw [hnone.2, List.append_nil] at hsplit
      rw [← hsplit, ← h.conserved hnone.1, List.append_assoc]

theorem run_accounts (nonempty : sep ≠ []) (pieces : List (List α)) :
    Accounts sep pieces.flatten (run sep pieces) := by
  induction pieces using List.reverseRecOn with
  | nil => exact ⟨fun m hm => (by cases hm), rfl, rfl, fun _ => rfl⟩
  | append_singleton pieces piece ih =>
    rw [run_concat, List.flatten_append, List.flatten_cons, List.flatten_nil, List.append_nil]
    exact feed_accounts nonempty ih piece

end Framer

/-- A framer that has taken no message has everything pending. -/
lemma Framer.run_pending {pieces : List (List α)} (none_taken : (Framer.run sep pieces).messages = []) :
    (Framer.run sep pieces).pending = pieces.flatten := by
  induction pieces using List.reverseRecOn with
  | nil => rfl
  | append_singleton pieces piece ih =>
    rw [Framer.run_concat] at none_taken ⊢
    cases hcut : cutAfter sep ((Framer.run sep pieces).pending ++ piece) with
    | none =>
      rw [Framer.feed_none hcut] at none_taken ⊢
      rw [List.flatten_append, List.flatten_singleton, ← ih none_taken]
    | some cut =>
      rw [Framer.feed_some hcut] at none_taken
      exact absurd none_taken (List.concat_ne_nil _ _)

inductive FirstMessage (α : Type*) where
  | message (m : List α)
  | tooLong
  deriving DecidableEq

/-- The first message of a stream that arrives in pieces, given up where a piece
leaves more than `limit` elements without a separator; `pending` came before. -/
def limitedCut (sep : List α) (limit : Nat) :
    List α → List (List α) → Option (FirstMessage α)
  | _, [] => none
  | pending, piece :: rest =>
    match cutAfter sep (pending ++ piece) with
    | some (message, _) => some (.message message)
    | none =>
      if limit < (pending ++ piece).length then some .tooLong
      else limitedCut sep limit (pending ++ piece) rest

/-- Some piece ends beyond the limit, and in front of the end of the message. -/
def Overshoots (sep : List α) (limit : Nat) (pending : List α) (pieces : List (List α)) : Prop :=
  ∃ k, limit < (pending ++ (pieces.take k).flatten).length ∧
    cutAfter sep (pending ++ (pieces.take k).flatten) = none

lemma cutAfter_prefix_none (nonempty : sep ≠ []) {p s : List α} (hp : p <+: s)
    (h : cutAfter sep s = none) : cutAfter sep p = none := by
  rw [cutAfter_eq_none nonempty] at h ⊢
  exact fun hsep => h (hsep.trans hp.isInfix)

lemma cutAfter_some_prefix (nonempty : sep ≠ []) {p s message rest : List α} (hp : p <+: s)
    (h : cutAfter sep p = some (message, rest)) :
    ∃ more, cutAfter sep s = some (message, more) := by
  obtain ⟨more, rfl⟩ := hp
  have hmessage := cutAfter_onlyAtEnd nonempty h
  rw [cutAfter_append h, List.append_assoc]
  exact ⟨rest ++ more, hmessage.cutAfter_eq nonempty _⟩

section Limit
variable {limit : Nat} {pending : List α} {pieces : List (List α)}

/-- A first message is the first message of the whole stream. -/
theorem limitedCut_message (nonempty : sep ≠ []) {m stream : List α}
    (h : limitedCut sep limit pending pieces = some (.message m))
    (arrives : pending ++ pieces.flatten <+: stream) :
    ∃ rest, cutAfter sep stream = some (m, rest) := by
  induction pieces generalizing pending with
  | nil => cases h
  | cons piece rest ih =>
    rw [List.flatten_cons, ← List.append_assoc] at arrives
    rw [limitedCut] at h
    split at h
    · rename_i message behind hcut
      cases h
      exact cutAfter_some_prefix nonempty ((List.prefix_append _ _).trans arrives) hcut
    · split at h
      · cases h
      · exact ih h arrives

lemma overshoots_cons (piece : List α) (start : pending.length ≤ limit) :
    Overshoots sep limit pending (piece :: pieces) ↔
      Overshoots sep limit (pending ++ piece) pieces := by
  constructor
  · rintro ⟨k, hlong, hcut⟩
    cases k with
    | zero =>
      rw [List.take_zero, List.flatten_nil, List.append_nil] at hlong
      omega
    | succ k =>
      rw [List.take_succ_cons, List.flatten_cons, ← List.append_assoc] at hlong hcut
      exact ⟨k, hlong, hcut⟩
  · rintro ⟨k, hlong, hcut⟩
    refine ⟨k + 1, ?_, ?_⟩
    · rw [List.take_succ_cons, List.flatten_cons, ← List.append_assoc]
      exact hlong
    · rw [List.take_succ_cons, List.flatten_cons, ← List.append_assoc]
      exact hcut

/-- The stream is given up exactly where a piece overshoots the limit. -/
theorem limitedCut_tooLong_iff (nonempty : sep ≠ []) (start : pending.length ≤ limit) :
    limitedCut sep limit pending pieces = some .tooLong ↔
      Overshoots sep limit pending pieces := by
  induction pieces generalizing pending with
  | nil =>
    constructor
    · intro h
      cases h
    · rintro ⟨k, hlong, _⟩
      rw [List.take_nil, List.flatten_nil, List.append_nil] at hlong
      omega
  | cons piece rest ih =>
    rw [overshoots_cons piece start, limitedCut]
    cases hcut : cutAfter sep (pending ++ piece) with
    | some cut =>
      constructor
      · intro h
        cases h
      · rintro ⟨k, _, hnone⟩
        rw [cutAfter_prefix_none nonempty (List.prefix_append _ _) hnone] at hcut
        cases hcut
    | none =>
      by_cases hlong : limit < (pending ++ piece).length
      · simp only [if_pos hlong]
        refine iff_of_true trivial ⟨0, ?_, ?_⟩
        · rwa [List.take_zero, List.flatten_nil, List.append_nil]
        · rwa [List.take_zero, List.flatten_nil, List.append_nil]
      · simp only [if_neg hlong]
        exact ih (Nat.le_of_not_lt hlong)

/-- Nothing is decided yet: all that has come is short, and not a message. -/
theorem limitedCut_none_iff (nonempty : sep ≠ []) (start : pending.length ≤ limit)
    (fresh : cutAfter sep pending = none) :
    limitedCut sep limit pending pieces = none ↔
      (pending ++ pieces.flatten).length ≤ limit ∧
        cutAfter sep (pending ++ pieces.flatten) = none := by
  induction pieces generalizing pending with
  | nil =>
    rw [List.flatten_nil, List.append_nil]
    exact iff_of_true rfl ⟨start, fresh⟩
  | cons piece rest ih =>
    have hstarts : pending ++ piece <+: pending ++ piece ++ rest.flatten := List.prefix_append _ _
    rw [List.flatten_cons, ← List.append_assoc, limitedCut]
    cases hcut : cutAfter sep (pending ++ piece) with
    | some cut =>
      constructor
      · intro h
        cases h
      · rintro ⟨_, hnone⟩
        rw [cutAfter_prefix_none nonempty hstarts hnone] at hcut
        cases hcut
    | none =>
      by_cases hlong : limit < (pending ++ piece).length
      · simp only [if_pos hlong]
        constructor
        · intro h
          cases h
        · rintro ⟨hshort, _⟩
          have := hstarts.length_le
          omega
      · simp only [if_neg hlong]
        exact ih (Nat.le_of_not_lt hlong) hcut

/-- The piece that follows where nothing is decided yet. -/
lemma limitedCut_concat (piece : List α) (undecided : limitedCut sep limit pending pieces = none) :
    limitedCut sep limit pending (pieces ++ [piece]) =
      limitedCut sep limit (pending ++ pieces.flatten) [piece] := by
  induction pieces generalizing pending with
  | nil =>
    rw [List.nil_append, List.flatten_nil, List.append_nil]
  | cons first rest ih =>
    rw [limitedCut] at undecided
    rw [List.cons_append, limitedCut, List.flatten_cons, ← List.append_assoc]
    cases hcut : cutAfter sep (pending ++ first) with
    | some cut =>
      rw [hcut] at undecided
      cases undecided
    | none =>
      rw [hcut] at undecided
      by_cases hlong : limit < (pending ++ first).length
      · simp only [if_pos hlong] at undecided
        cases undecided
      · simp only [if_neg hlong] at undecided ⊢
        exact ih undecided

end Limit

section Decided
variable {limit : Nat} {pieces : List (List α)} {stream : List α} {decision : FirstMessage α}

/-- A message within the limit is found, however the stream is cut. -/
theorem limitedCut_within (nonempty : sep ≠ [])
    (h : limitedCut sep limit [] pieces = some decision) (arrives : pieces.flatten <+: stream)
    {m rest : List α} (cut : cutAfter sep stream = some (m, rest)) (short : m.length ≤ limit) :
    decision = .message m := by
  cases decision with
  | message m' =>
    obtain ⟨rest', hrest'⟩ := limitedCut_message nonempty h arrives
    rw [cut] at hrest'
    rw [(Prod.mk.inj (Option.some.inj hrest')).1]
  | tooLong =>
    obtain ⟨k, hlong, hnone⟩ := (limitedCut_tooLong_iff nonempty (Nat.zero_le _)).mp h
    rw [List.nil_append] at hlong hnone
    have hstarts : (pieces.take k).flatten <+: stream :=
      ((List.take_prefix k pieces).flatten).trans arrives
    -- the message is shorter than what has come, so it has come
    have hm : m <+: (pieces.take k).flatten := by
      have hstream : m <+: stream := ⟨rest, (cutAfter_append cut).symm⟩
      exact List.prefix_of_prefix_length_le hstream hstarts (by omega)
    have hself := (cutAfter_onlyAtEnd nonempty cut).cutAfter_eq nonempty []
    rw [List.append_nil] at hself
    obtain ⟨more, hmore⟩ := cutAfter_some_prefix nonempty hm hself
    rw [hnone] at hmore
    cases hmore

/-- A stream without a message is given up at some time, or not decided. -/
theorem limitedCut_endless (nonempty : sep ≠ [])
    (h : limitedCut sep limit [] pieces = some decision) (arrives : pieces.flatten <+: stream)
    (endless : cutAfter sep stream = none) : decision = .tooLong := by
  cases decision with
  | tooLong => rfl
  | message m =>
    obtain ⟨rest, hrest⟩ := limitedCut_message nonempty h arrives
    rw [endless] at hrest
    cases hrest

end Decided

/-- Two ways of cutting one stream come to the same unless one overshoots and
the other does not. -/
theorem limitedCut_agree_iff (nonempty : sep ≠ []) {limit : Nat} {first second : List (List α)}
    {stream : List α} {a b : FirstMessage α} (ha : limitedCut sep limit [] first = some a)
    (hb : limitedCut sep limit [] second = some b) (hfirst : first.flatten <+: stream)
    (hsecond : second.flatten <+: stream) :
    a = b ↔ (Overshoots sep limit [] first ↔ Overshoots sep limit [] second) := by
  rw [← limitedCut_tooLong_iff nonempty (Nat.zero_le _), ha,
    ← limitedCut_tooLong_iff nonempty (Nat.zero_le _), hb]
  constructor
  · rintro rfl
    exact Iff.rfl
  · intro h
    cases a with
    | tooLong => exact (Option.some.inj (h.mp rfl)).symm
    | message m =>
      cases b with
      | tooLong => exact Option.some.inj (h.mpr rfl)
      | message m' =>
        obtain ⟨rest, hrest⟩ := limitedCut_message nonempty ha hfirst
        obtain ⟨rest', hrest'⟩ := limitedCut_message nonempty hb hsecond
        rw [hrest] at hrest'
        rw [(Prod.mk.inj (Option.some.inj hrest')).1]

/-- No piece goes past the end of the message it completes; `pending` is what
the pieces before have left over. -/
def Aligned (sep : List α) : List α → List (List α) → Prop
  | _, [] => True
  | pending, piece :: rest =>
    match cutAfter sep (pending ++ piece) with
    | none => Aligned sep (pending ++ piece) rest
    | some (_, behind) => behind = [] ∧ Aligned sep [] rest

theorem aligned_iff (pieces : List (List α)) :
    Aligned sep [] pieces ↔ (Framer.run sep pieces).dropped.flatten = [] := by
  have general : ∀ (f : Framer α), (f.dropped.flatten = [] ∧ Aligned sep f.pending pieces ↔
      (pieces.foldl (Framer.feed sep) f).dropped.flatten = []) := by
    induction pieces with
    | nil => exact fun f => and_iff_left trivial
    | cons piece rest ih =>
      intro f
      rw [List.foldl_cons, ← ih, Aligned]
      cases hcut : cutAfter sep (f.pending ++ piece) with
      | none =>
        rw [Framer.feed_none hcut]
      | some cut =>
        obtain ⟨message, behind⟩ := cut
        rw [Framer.feed_some hcut]
        simp only [List.flatten_append, List.flatten_cons, List.flatten_nil, List.append_nil,
          List.append_eq_nil_iff, and_assoc]
  exact (and_iff_right rfl).symm.trans (general Framer.start)

/-- The framer loses nothing exactly when the pieces are aligned. -/
theorem conserved_iff (nonempty : sep ≠ []) (pieces : List (List α)) :
    (Framer.run sep pieces).messages.flatten ++ (Framer.run sep pieces).pending =
      pieces.flatten ↔ Aligned sep [] pieces := by
  have haccounts := Framer.run_accounts nonempty pieces
  rw [aligned_iff]
  constructor
  · intro h
    have hlength := haccounts.length
    rw [← h, List.length_append] at hlength
    exact List.length_eq_zero_iff.mp (by omega)
  · exact haccounts.conserved

/-- Two ways of reading a stream as messages agree as far as both go. -/
theorem messages_unique (nonempty : sep ≠ []) {taken sent : List (List α)} {pending : List α}
    (takenOk : ∀ m ∈ taken, OnlyAtEnd sep m) (sentOk : ∀ m ∈ sent, OnlyAtEnd sep m)
    (stream : taken.flatten ++ pending <+: sent.flatten) : taken = sent.take taken.length := by
  induction taken generalizing sent with
  | nil => rfl
  | cons m taken ih =>
    have hm := takenOk m List.mem_cons_self
    rw [List.flatten_cons, List.append_assoc] at stream
    obtain ⟨rest, hrest⟩ := stream
    rw [List.append_assoc] at hrest
    have hcut := hm.cutAfter_eq nonempty (taken.flatten ++ pending ++ rest)
    cases sent with
    | nil =>
      rw [hrest] at hcut
      cases hcut
    | cons s sent =>
      have hs := (sentOk s List.mem_cons_self).cutAfter_eq nonempty sent.flatten
      rw [hrest, List.flatten_cons, hs] at hcut
      obtain ⟨rfl, hflat⟩ := Prod.mk.inj (Option.some.inj hcut)
      have htake := ih (fun x hx => takenOk x (List.mem_cons_of_mem _ hx))
        (fun x hx => sentOk x (List.mem_cons_of_mem _ hx)) ⟨rest, hflat.symm⟩
      rw [List.length_cons, List.take_succ_cons, ← htake]

end Framing
