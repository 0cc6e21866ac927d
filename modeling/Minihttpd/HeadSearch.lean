import Minihttpd.HttpConnection
import Minihttpd.Library.Framing

/-!
# The search for the end of a head

The search walks over chunks, and the terminator may be split over any of them.
What it finds is the first CRLFCRLF of the concatenation.
-/
namespace HeadSearch

open ByteBuffer ChunkQueue HttpConnection Framing

/-- The number of bytes in front of byte `index` of string number `chunk`. -/
def offset (strings : List Bytes) (position : Nat × Nat) : Nat :=
  ((strings.take position.1).flatten).length + position.2

/-- A position lies inside of the strings when it is at most at the end of its own. -/
def Within (strings : List Bytes) (position : Nat × Nat) : Prop :=
  ∃ s, strings[position.1]? = some s ∧ position.2 ≤ s.length

/-- The comparison inside of one chunk: it succeeds, fails, or runs out of
bytes while the target goes on. -/
lemma matchInChunk_spec (bytes : Bytes) (j : Nat) (target rest : Bytes) (nonempty : target ≠ []) :
    match matchInChunk bytes j target with
    | .found next => target <+: bytes ∧ next = j + target.length
    | .retry => ¬ target <+: bytes ++ rest
    | .more left => left ≠ [] ∧ target = bytes ++ left := by
  induction bytes generalizing j target with
  | nil =>
    obtain ⟨t, target, rfl⟩ := List.exists_cons_of_ne_nil nonempty
    exact ⟨nonempty, rfl⟩
  | cons b bytes ih =>
    obtain ⟨t, target, rfl⟩ := List.exists_cons_of_ne_nil nonempty
    rw [matchInChunk]
    by_cases hbt : b = t
    · subst hbt
      rw [if_pos rfl]
      by_cases hend : target = []
      · rw [if_pos hend, hend]
        exact ⟨List.cons_prefix_cons.mpr ⟨rfl, List.nil_prefix⟩, rfl⟩
      · rw [if_neg hend]
        have hrest := ih (j + 1) target hend
        cases hmatch : matchInChunk bytes (j + 1) target with
        | found next =>
          rw [hmatch] at hrest
          refine ⟨List.cons_prefix_cons.mpr ⟨rfl, hrest.1⟩, ?_⟩
          rw [hrest.2, List.length_cons]
          omega
        | retry =>
          rw [hmatch] at hrest
          exact fun h => hrest (List.cons_prefix_cons.mp h).2
        | more left =>
          rw [hmatch] at hrest
          exact ⟨hrest.1, congrArg (b :: ·) hrest.2⟩
    · rw [if_neg hbt]
      exact fun h => hbt (List.cons_prefix_cons.mp h).1.symm

/-- The comparison over the chunks is one with their concatenation. -/
lemma matchHead_spec (strings : List Bytes) (chunk j : Nat) (target : Bytes)
    (nonempty : target ≠ []) (inside : ∀ s ∈ strings.head?, j ≤ s.length) :
    match matchHead strings chunk j target with
    | some (last, next) => chunk ≤ last ∧ target <+: strings.flatten.drop j ∧
        Within strings (last - chunk, next) ∧
        offset strings (last - chunk, next) = j + target.length
    | none => ¬ target <+: strings.flatten.drop j := by
  induction strings generalizing chunk j target with
  | nil =>
    rw [matchHead, List.flatten_nil, List.drop_nil]
    exact fun h => nonempty (List.prefix_nil.mp h)
  | cons s rest ih =>
    have hj : j ≤ s.length := inside s rfl
    have hdrop : (s :: rest).flatten.drop j = s.drop j ++ rest.flatten := by
      rw [List.flatten_cons, List.drop_append_of_le_length hj]
    have hlength : (s.drop j).length = s.length - j := List.length_drop
    have hmatch := matchInChunk_spec (s.drop j) j target rest.flatten nonempty
    rw [matchHead, hdrop]
    cases hresult : matchInChunk (s.drop j) j target with
    | found next =>
      rw [hresult] at hmatch
      obtain ⟨hstarts, hnext⟩ := hmatch
      have hle := hstarts.length_le
      refine ⟨Nat.le_refl _, hstarts.trans (List.prefix_append _ _), ?_, ?_⟩
      · rw [Nat.sub_self]
        exact ⟨s, rfl, by rw [hnext]; omega⟩
      · rw [Nat.sub_self, offset, hnext]
        exact Nat.zero_add _
    | retry =>
      rw [hresult] at hmatch
      exact hmatch
    | more left =>
      rw [hresult] at hmatch
      obtain ⟨hleft, htarget⟩ := hmatch
      have hstarts : ∀ t, target <+: s.drop j ++ t ↔ left <+: t := by
        intro t
        rw [htarget]
        exact List.prefix_append_right_inj _
      have hrest := ih (chunk + 1) 0 left hleft (fun _ _ => Nat.zero_le _)
      rw [List.drop_zero] at hrest
      simp only
      cases hnext : matchHead rest (chunk + 1) 0 left with
      | none =>
        rw [hnext] at hrest
        rw [hstarts]
        exact hrest
      | some position =>
        obtain ⟨last, next⟩ := position
        rw [hnext] at hrest
        obtain ⟨hchunk, hleftPrefix, hwithin, hoffset⟩ := hrest
        have hsub : last - chunk = last - (chunk + 1) + 1 := by omega
        refine ⟨by omega, (hstarts _).mpr hleftPrefix, ?_, ?_⟩
        · rw [hsub]
          exact hwithin
        · have hlen := congrArg List.length htarget
          rw [List.length_append, hlength] at hlen
          simp only [offset] at hoffset ⊢
          rw [hsub, List.take_succ_cons, List.flatten_cons, List.length_append]
          omega

/-- A terminator starts at `start`, at no earlier place from `index` on, and the
position is the one behind it. -/
structure FoundAt (strings : List Bytes) (chunk index start : Nat) (position : Nat × Nat) :
    Prop where
  reached : index ≤ start
  terminator : blankLine <+: strings.flatten.drop start
  earliest : ∀ i, index ≤ i → i < start → ¬ blankLine <+: strings.flatten.drop i
  later : chunk ≤ position.1
  within : Within strings (position.1 - chunk, position.2)
  behind : offset strings (position.1 - chunk, position.2) = start + 4

/-- The first place in one chunk where a terminator starts. -/
lemma findInChunk_spec (s : Bytes) (rest : List Bytes) (chunk : Nat) (bytes : Bytes) (index : Nat)
    (here : s.drop index = bytes) :
    match findInChunk (s :: rest) chunk bytes index with
    | some position => ∃ start, FoundAt (s :: rest) chunk index start position
    | none => ∀ i, index ≤ i → i < s.length → ¬ blankLine <+: (s :: rest).flatten.drop i := by
  induction bytes generalizing index with
  | nil =>
    have hlength := List.drop_eq_nil_iff.mp here
    intro i hi his
    omega
  | cons b bytes ih =>
    have hindex : index < s.length := by
      by_contra hge
      rw [List.drop_eq_nil_of_le (Nat.le_of_not_lt hge)] at here
      cases here
    have hnext : s.drop (index + 1) = bytes := by
      rw [← List.drop_drop, here]
      rfl
    have hflat : (s :: rest).flatten.drop index = b :: (s :: rest).flatten.drop (index + 1) := by
      rw [List.flatten_cons, List.drop_append_of_le_length (Nat.le_of_lt hindex), here,
        List.drop_append_of_le_length hindex, hnext, List.cons_append]
    have hstep := ih (index + 1) hnext
    -- where no terminator starts at `index`, the search goes on behind it
    have goOn : ¬ blankLine <+: (s :: rest).flatten.drop index →
        match findInChunk (s :: rest) chunk bytes (index + 1) with
        | some position => ∃ start, FoundAt (s :: rest) chunk index start position
        | none => ∀ i, index ≤ i → i < s.length →
            ¬ blankLine <+: (s :: rest).flatten.drop i := by
      intro hno
      cases hrest : findInChunk (s :: rest) chunk bytes (index + 1) with
      | some position =>
        rw [hrest] at hstep
        obtain ⟨start, hfound⟩ := hstep
        have hreached := hfound.reached
        refine ⟨start, by omega, hfound.terminator, fun i hi hlt => ?_, hfound.later,
          hfound.within, hfound.behind⟩
        rcases Nat.eq_or_lt_of_le hi with rfl | hi
        · exact hno
        · exact hfound.earliest i hi hlt
      | none =>
        rw [hrest] at hstep
        intro i hi hlt
        rcases Nat.eq_or_lt_of_le hi with rfl | hi
        · exact hno
        · exact hstep i hi hlt
    rw [findInChunk]
    by_cases hb : b = 13
    · rw [if_pos hb]
      have hmatch := matchHead_spec (s :: rest) chunk (index + 1) [10, 13, 10]
        (List.cons_ne_nil _ _) (fun _ h => by cases h; exact hindex)
      have hhere : blankLine <+: (s :: rest).flatten.drop index ↔
          [10, 13, 10] <+: (s :: rest).flatten.drop (index + 1) := by
        rw [hflat, hb, blankLine, List.cons_prefix_cons]
        exact and_iff_right rfl
      cases hresult : matchHead (s :: rest) chunk (index + 1) [10, 13, 10] with
      | some position =>
        rw [hresult] at hmatch
        obtain ⟨hlater, hstarts, hwithin, hoffset⟩ := hmatch
        refine ⟨index, Nat.le_refl _, hhere.mpr hstarts, fun i hi hlt => by omega, hlater,
          hwithin, ?_⟩
        rw [hoffset]
        rfl
      | none =>
        rw [hresult] at hmatch
        exact goOn (fun h => hmatch (hhere.mp h))
    · rw [if_neg hb]
      apply goOn
      rw [hflat]
      exact fun h => hb (List.cons_prefix_cons.mp h).1.symm

/-- The first place of all where a terminator starts. -/
lemma findHead_spec (active : List Chunk) (chunk : Nat)
    (mem : ∀ c ∈ active, c.chunkType = .mem) :
    match findHead active chunk with
    | .ok (some position) => ∃ start, FoundAt (active.map chunkString) chunk 0 start position
    | .ok none => ∀ i, ¬ blankLine <+: (active.map chunkString).flatten.drop i
    | .error _ => False := by
  induction active generalizing chunk with
  | nil =>
    intro i
    rw [List.map_nil, List.flatten_nil, List.drop_nil]
    exact fun h => List.cons_ne_nil _ _ (List.prefix_nil.mp h)
  | cons c rest ih =>
    have hrest := ih (chunk + 1) (fun d hd => mem d (List.mem_cons_of_mem _ hd))
    have hchunk := findInChunk_spec (chunkString c) (rest.map chunkString) chunk (chunkString c) 0 rfl
    rw [findHead, if_pos (mem c List.mem_cons_self), List.map_cons]
    cases hfind : findInChunk (chunkString c :: rest.map chunkString) chunk (chunkString c) 0 with
    | some position =>
      rw [hfind] at hchunk
      exact hchunk
    | none =>
      rw [hfind] at hchunk
      -- what starts in a later chunk starts that much later in the whole
      have hlater : ∀ i, (chunkString c :: rest.map chunkString).flatten.drop
          ((chunkString c).length + i) = (rest.map chunkString).flatten.drop i := by
        intro i
        rw [List.flatten_cons, ← List.drop_drop, List.drop_left]
      have hearly : ∀ i bound, (∀ k, k < bound → ¬ blankLine <+: (rest.map chunkString).flatten.drop k) →
          i < (chunkString c).length + bound →
          ¬ blankLine <+: (chunkString c :: rest.map chunkString).flatten.drop i := by
        intro i bound hbound hi
        by_cases hlt : i < (chunkString c).length
        · exact hchunk i (Nat.zero_le _) hlt
        · obtain ⟨k, rfl⟩ := Nat.exists_eq_add_of_le (Nat.le_of_not_lt hlt)
          rw [hlater]
          exact hbound k (by omega)
      simp only
      cases hfound : findHead rest (chunk + 1) with
      | error e =>
        rw [hfound] at hrest
        exact hrest
      | ok result =>
        rw [hfound] at hrest
        cases result with
        | none =>
          intro i
          exact hearly i (i + 1) (fun k _ => hrest k) (by omega)
        | some position =>
          obtain ⟨start, hstart⟩ := hrest
          obtain ⟨last, next⟩ := position
          obtain ⟨s, hs, hnext⟩ := hstart.within
          have hlast : chunk + 1 ≤ last := hstart.later
          have hsub : last - chunk = last - (chunk + 1) + 1 := by omega
          refine ⟨(chunkString c).length + start, Nat.zero_le _, ?_, fun i _ hi => ?_, ?_, ?_, ?_⟩
          · rw [hlater]
            exact hstart.terminator
          · exact hearly i start (fun k hk => hstart.earliest k (Nat.zero_le _) hk) hi
          · exact Nat.le_of_succ_le hlast
          · exact ⟨s, by rw [hsub]; exact hs, hnext⟩
          · have hbehind := hstart.behind
            simp only [offset] at hbehind ⊢
            rw [hsub, List.take_succ_cons, List.flatten_cons, List.length_append]
            omega

/-- The pieces that are copied out are the bytes in front of the position. -/
lemma headPieces_flatten {active : List Chunk} {position : Nat × Nat}
    (within : Within (active.map chunkString) position) :
    (headPieces active position.1 position.2).flatten =
      (active.map chunkString).flatten.take (offset (active.map chunkString) position) := by
  obtain ⟨s, hs, hle⟩ := within
  obtain ⟨c, hc, rfl⟩ : ∃ c, active[position.1]? = some c ∧ chunkString c = s := by
    rw [List.getElem?_map] at hs
    exact Option.map_eq_some_iff.mp hs
  obtain ⟨hlt, hget⟩ := List.getElem?_eq_some_iff.mp hc
  have hsplit : active = active.take position.1 ++ c :: active.drop (position.1 + 1) := by
    rw [← hget, List.cons_getElem_drop_succ, List.take_append_drop]
  have hdrop : (active.drop position.1).take 1 = [c] := by
    rw [List.drop_eq_getElem_cons hlt, hget]
    rfl
  have hflat : (active.map chunkString).flatten =
      ((active.take position.1).map chunkString).flatten ++
        (chunkString c ++ ((active.drop (position.1 + 1)).map chunkString).flatten) := by
    conv_lhs => rw [hsplit]
    rw [List.map_append, List.flatten_append, List.map_cons, List.flatten_cons]
  rw [headPieces, hdrop, offset, hflat, ← List.map_take, List.take_length_add_append,
    List.take_append_of_le_length hle, List.flatten_append]
  simp only [List.map_cons, List.map_nil, List.flatten_cons, List.flatten_nil, List.append_nil]

/-- The search over the chunks is the search in what they hold. -/
theorem findHead_eq {active : List Chunk} (mem : ∀ c ∈ active, c.chunkType = .mem) :
    match findHead active 0 with
    | .ok (some position) => ∃ rest, cutAfter blankLine (active.map chunkString).flatten =
        some ((headPieces active position.1 position.2).flatten, rest)
    | .ok none => cutAfter blankLine (active.map chunkString).flatten = none
    | .error _ => False := by
  have hspec := findHead_spec active 0 mem
  cases hfound : findHead active 0 with
  | error e =>
    rw [hfound] at hspec
    exact hspec
  | ok result =>
    rw [hfound] at hspec
    cases result with
    | none =>
      apply (cutAfter_eq_none blankLine_ne_nil).mpr
      rintro ⟨before, after, heq⟩
      apply hspec before.length
      rw [← heq, List.append_assoc, List.drop_left]
      exact List.prefix_append _ _
    | some position =>
      obtain ⟨start, hstart⟩ := hspec
      have hcut := cutAfter_first blankLine_ne_nil hstart.terminator
        (fun i hi => hstart.earliest i (Nat.zero_le _) hi)
      have hbehind : offset (active.map chunkString) position = start + blankLine.length :=
        hstart.behind
      have hpieces : (headPieces active position.1 position.2).flatten =
          (active.map chunkString).flatten.take (start + blankLine.length) := by
        rw [← hbehind]
        exact headPieces_flatten hstart.within
      change ∃ rest, cutAfter blankLine _ = some (_, rest)
      rw [hpieces]
      exact ⟨_, hcut⟩

end HeadSearch
