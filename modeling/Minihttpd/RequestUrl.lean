import Mathlib.Data.List.TakeWhile
import Minihttpd.RequestOutcome

/-!
# The URL of a request

Where the parser finds the URL, and what the handler makes of it: the second
word of the first line, up to a NUL, a '#' or a '?'.
-/
namespace RequestUrl

open ByteBuffer ConnectionTypes HttpRequest HttpResponse FailingRun

/-- The URL of a head as far as a path is made of it. -/
def visibleUrl (head : Bytes) : Bytes :=
  ((head.dropWhile (fun c => c != 32)).drop 1).takeWhile
    (fun c => c != 32 && (c != 0 && (c != 35 && c != 63)))

/-- A head whose first line has two words in front of its last blank. -/
structure Words (head method url rest : Bytes) : Prop where
  split : head = method ++ 32 :: (url ++ 32 :: rest)
  method : ∀ c ∈ method, c ≠ 32
  url : ∀ c ∈ url, c ≠ 32

lemma visibleUrl_words {head method url rest : Bytes} (h : Words head method url rest) :
    visibleUrl head = (cString url).takeWhile (fun c => c != 35 && c != 63) := by
  have hmethod : ∀ c ∈ method, (c != 32) = true := fun c hc => bne_iff_ne.mpr (h.method c hc)
  have hurl : ∀ c ∈ url, (c != 32) = true := fun c hc => bne_iff_ne.mpr (h.url c hc)
  have hdrop : head.dropWhile (fun c => c != 32) = 32 :: (url ++ 32 :: rest) := by
    rw [h.split, List.dropWhile_append_of_pos hmethod]
    rfl
  have hword : (url ++ 32 :: rest).takeWhile (fun c => c != 32) = url := by
    rw [List.takeWhile_append_of_pos hurl]
    simp
  rw [visibleUrl, hdrop, List.drop_one, List.tail_cons, cString, List.takeWhile_takeWhile]
  conv_rhs => rw [← hword]
  rw [List.takeWhile_takeWhile]
  congr 1
  funext c
  grind

lemma cString_append (s : Bytes) (t : Bytes) : cString (s ++ 0 :: t) = cString s := by
  induction s with
  | nil => rfl
  | cons c rest ih =>
    rw [cString, cString] at ih ⊢
    rw [List.cons_append, List.takeWhile_cons, List.takeWhile_cons, ih]

lemma cString_nulFree (s : Bytes) : ∀ c ∈ cString s, c ≠ 0 :=
  fun _ hc => by simpa using List.mem_takeWhile_imp hc

lemma cString_before {s : Bytes} (nulFree : ∀ c ∈ s, c ≠ 0) (t : Bytes) :
    cString (s ++ 0 :: t) = s := by
  rw [cString_append, cString, List.takeWhile_eq_self_iff]
  exact fun c hc => bne_iff_ne.mpr (nulFree c hc)

lemma cString_terminated {s : Bytes} (nulFree : ∀ c ∈ s, c ≠ 0) : cString (s ++ [0]) = s :=
  cString_before nulFree []

/-- Behind the second blank the line only has to end. -/
lemma scan_proto (bytes : Bytes) {index offset method url m u p i : Nat}
    (h : scanRequestLine bytes index offset 2 method url = .found m u p i) :
    u = url ∧ p = offset ∧ index ≤ i := by
  induction bytes generalizing index with
  | nil => cases h
  | cons c rest ih =>
    simp only [scanRequestLine] at h
    split at h
    · cases h
    · split at h
      · cases h
        exact ⟨rfl, rfl, Nat.le_refl _⟩
      · obtain ⟨hu, hp, hi⟩ := ih h
        exact ⟨hu, hp, by omega⟩

/-- The URL ends at the second blank. -/
lemma scan_url (bytes : Bytes) {index offset method url m u p i : Nat}
    (h : scanRequestLine bytes index offset 1 method url = .found m u p i) :
    ∃ word rest, bytes = word ++ 32 :: rest ∧ (∀ c ∈ word, c ≠ 32) ∧ u = offset ∧
      p = index + word.length + 1 ∧ p ≤ i := by
  induction bytes generalizing index with
  | nil => cases h
  | cons c rest ih =>
    simp only [scanRequestLine] at h
    split at h
    · rename_i hc
      obtain ⟨hu, hp, hi⟩ := scan_proto rest h
      exact ⟨[], rest, by rw [hc]; rfl, fun c hc => absurd hc List.not_mem_nil, hu, hp, hp ▸ hi⟩
    · rename_i hc
      split at h
      · cases h
      · obtain ⟨word, behind, hrest, hword, hu, hp, hi⟩ := ih h
        refine ⟨c :: word, behind, by rw [hrest]; rfl, ?_, hu, ?_, hi⟩
        · intro d hd
          rcases List.mem_cons.mp hd with rfl | hd
          · exact hc
          · exact hword d hd
        · rw [hp, List.length_cons]
          omega

/-- The first line of a head, up to the end of its URL. -/
lemma scan_line (bytes : Bytes) {index offset method url m u p i : Nat}
    (h : scanRequestLine bytes index offset 0 method url = .found m u p i) :
    ∃ first second rest, Words bytes first second rest ∧ u = index + first.length + 1 ∧
      p = u + second.length + 1 ∧ p ≤ i := by
  induction bytes generalizing index with
  | nil => cases h
  | cons c rest ih =>
    simp only [scanRequestLine] at h
    split at h
    · rename_i hc
      obtain ⟨word, behind, hrest, hword, hu, hp, hi⟩ := scan_url rest h
      refine ⟨[], word, behind, ⟨by rw [hc, hrest]; rfl, fun c hc => absurd hc List.not_mem_nil,
        hword⟩, hu, ?_, hi⟩
      rw [hp, hu]
    · rename_i hc
      split at h
      · cases h
      · obtain ⟨first, second, behind, hwords, hu, hp, hi⟩ := ih h
        refine ⟨c :: first, second, behind, ⟨by rw [hwords.split]; rfl, ?_, hwords.url⟩, ?_, hp, hi⟩
        · intro d hd
          rcases List.mem_cons.mp hd with rfl | hd
          · exact hc
          · exact hwords.method d hd
        · rw [hu, List.length_cons]
          omega

/-- The NULs the parser writes leave the URL a C string of its own. -/
lemma cString_url {head first second rest : Bytes} {u p i : Nat}
    (h : Words head first second rest) (hu : u = first.length + 1)
    (hp : p = u + second.length + 1) (hi : p ≤ i) :
    cString (((((head.set i 0).set (i + 1) 0).set (u - 1) 0).set (p - 1) 0).drop u) =
      cString second := by
  have behind : ∀ (x : UInt8) (tail : Bytes) (j : Nat), p ≤ j →
      ∃ tail', (first ++ x :: (second ++ 32 :: tail)).set j 0 =
        first ++ x :: (second ++ 32 :: tail') := by
    intro x tail j hj
    refine ⟨tail.set (j - p) 0, ?_⟩
    have hfirst : j - first.length = j - first.length - 1 + 1 := by omega
    have hsecond : j - first.length - 1 - second.length = j - p + 1 := by omega
    rw [List.set_append_right j 0 (by omega), hfirst, List.set_cons_succ,
      List.set_append_right _ 0 (by omega), hsecond, List.set_cons_succ]
  obtain ⟨tail₁, h₁⟩ := behind 32 rest i hi
  obtain ⟨tail₂, h₂⟩ := behind 32 tail₁ (i + 1) (by omega)
  have hfirst : (first ++ 32 :: (second ++ 32 :: tail₂)).set (u - 1) 0 =
      first ++ 0 :: (second ++ 32 :: tail₂) := by
    rw [hu, Nat.add_sub_cancel, List.set_append_right _ 0 (Nat.le_refl _), Nat.sub_self,
      List.set_cons_zero]
  have hsecond : (first ++ 0 :: (second ++ 32 :: tail₂)).set (p - 1) 0 =
      first ++ 0 :: (second ++ 0 :: tail₂) := by
    have hlast : p - 1 - first.length = second.length + 1 := by omega
    rw [List.set_append_right _ 0 (by omega), hlast, List.set_cons_succ,
      List.set_append_right _ 0 (Nat.le_refl _), Nat.sub_self, List.set_cons_zero]
  have hdrop : (first ++ 0 :: (second ++ 0 :: tail₂)).drop u = second ++ 0 :: tail₂ := by
    rw [hu, ← List.drop_drop, List.drop_left]
    rfl
  rw [h.split, h₁, h₂, hfirst, hsecond, hdrop, cString_append]

lemma applyOption_url (r : Request) (optionKey optionBuf : Bytes) :
    (applyOption r optionKey optionBuf).requestUrl = r.requestUrl := by
  rw [applyOption]
  grind

/-- No option of a request changes its URL. -/
lemma scanOptions_url (bytes : Bytes) (s : OptionScan) :
    (scanOptions bytes s).2.request.requestUrl = s.request.requestUrl := by
  fun_induction scanOptions bytes s with
  | case1 => rfl
  | case2 _ _ _ ih => exact ih
  | case3 _ _ _ _ _ ih => exact ih
  | case4 s _ _ ih =>
    rw [ih, OptionScan.endLine]
    dsimp only
    split
    · exact applyOption_url _ _ _
    · rfl
  | case5 => rfl
  | case6 _ _ _ _ _ _ ih => exact ih
  | case7 _ _ _ _ _ _ ih => exact ih

lemma finishRequest_url (conn : Connection) :
    (finishRequest conn).2.connectionRequest.requestUrl = conn.connectionRequest.requestUrl := by
  rw [finishRequest]
  split
  · dsimp only
    split <;> rfl
  · rfl

lemma parseOptions_url (conn : Connection) (content : Bytes) (index : Nat) :
    (parseOptions conn content index).2.connectionRequest.requestUrl =
      conn.connectionRequest.requestUrl := by
  rw [parseOptions]
  split
  · rfl
  · have hscan := scanOptions_url (content.drop index)
      ⟨index, index, 0, true, content, conn.connectionRequest⟩
    generalize scanOptions (content.drop index)
      ⟨index, index, 0, true, content, conn.connectionRequest⟩ = scan at hscan
    obtain ⟨valid, s⟩ := scan
    cases valid with
    | true => exact (finishRequest_url _).trans hscan
    | false => exact hscan

/-- An accepted head has its URL between the first two blanks. -/
theorem accepted_url {config : ServerConfig} {conn after : Connection}
    (fresh : bufferIsEmpty conn.connectionRequest.requestUrl = true)
    (h : httpReuqestParse config conn = .ok (0, after)) :
    ∃ method url rest, Words conn.connectionRequest.requestContent.str method url rest ∧
      after.connectionRequest.requestUrl =
        bufferCopyString conn.connectionRequest.requestUrl (cString url) := by
  rw [httpReuqestParse] at h
  cases hline : scanRequestLine conn.connectionRequest.requestContent.str 0 0 0 0 0 with
  | extraSpace =>
    simp only [hline] at h
    cases h
  | malformed =>
    simp only [hline] at h
    cases h
  | unfinished =>
    -- without a first line there is no URL
    simp only [hline, parseOptions, if_pos fresh] at h
    cases h
  | found m u p i =>
    simp only [hline, parseRequestLine] at h
    obtain ⟨method, url, rest, hwords, hu, hp, hi⟩ := scan_line _ hline
    rw [Nat.zero_add] at hu
    obtain ⟨_, _, h⟩ := bind_eq_ok.mp h
    obtain ⟨methodKey, _, h⟩ := bind_eq_ok.mp h
    split at h
    · cases h
    · obtain ⟨httpMethod, _, h⟩ := bind_eq_ok.mp h
      split at h
      · cases h
      · have hurl := congrArg (fun r : Int × Connection => r.2.connectionRequest.requestUrl)
          (Except.ok.inj h)
        rw [parseOptions_url] at hurl
        refine ⟨method, url, rest, hwords, ?_⟩
        rw [← hurl, ← cString_url hwords hu hp hi]
        rfl

end RequestUrl
