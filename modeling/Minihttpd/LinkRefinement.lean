import Minihttpd.ChunkLinks
import Minihttpd.ChunkQueueLaws
import Minihttpd.Library.SideBySide

/-!
# The linked queue refines the two lists

A linked queue is laid out as two lists of chunks that share no address. Each
function over the pointers takes a layout to a layout and does to its values
what the function over the lists does.
-/
namespace LinkRefinement

open ByteBuffer SystemCalls LinkedCells ChunkLinks FailingRun SideBySide
open ChunkQueue (Chunk Chunkqueue KernelCall Mapping chunkInitialize chunkReset chunkRelease
  chunkRemainingLen)

/-- The active chunks from `head` on and the idle chunks, each at an address of
its own. The pointer `head` is `first`, except while `chunkqueue_reset` runs. -/
structure Layout (q : LinkedQueue) (head : Option Nat) (active idle : List (Nat × Chunk)) :
    Prop where
  activeChain : Chain q.heap head active
  idleChain : Chain q.heap q.idle idle
  apart : (addresses active ++ addresses idle).Nodup
  fresh : ∀ a, q.nextAddress ≤ a → q.heap a = none
  count : q.idleChunkSize = idle.length

/-- The queue that the list model has in place of a layout. -/
def listed (q : LinkedQueue) (active idle : List (Nat × Chunk)) : Chunkqueue :=
  ⟨values active, values idle, q.calls⟩

/-- An allocated chunk that is linked into neither list. -/
structure Aside (q : LinkedQueue) (active idle : List (Nat × Chunk)) (a : Nat) (node : Node) :
    Prop where
  cell : q.heap a = some node
  offActive : a ∉ addresses active
  offIdle : a ∉ addresses idle

/-- The linked queue `q` stands for the two lists of `l`. -/
def Represents (q : LinkedQueue) (l : Chunkqueue) : Prop :=
  ∃ active idle, Layout q q.first active idle ∧ q.last = lastAddress active ∧
    l = listed q active idle

section

variable {q : LinkedQueue} {head : Option Nat} {active idle : List (Nat × Chunk)}

lemma load_eq {a : Nat} {node : Node} (h : q.heap a = some node) : q.load a = .ok node := by
  rw [LinkedQueue.load, h]

@[simp] lemma store_heap_self (q : LinkedQueue) (a : Nat) (node : Node) :
    (q.store a node).heap a = some node :=
  Function.update_self ..

lemma Layout.allocated (h : Layout q head active idle) {a : Nat} {cell : Node}
    (hcell : q.heap a = some cell) : a < q.nextAddress := by
  by_contra hge
  rw [h.fresh a (Nat.le_of_not_lt hge)] at hcell
  cases hcell

lemma Layout.active_lt (h : Layout q head active idle) {a : Nat} (ha : a ∈ addresses active) :
    a < q.nextAddress := by
  obtain ⟨cell, hcell⟩ := segment_allocated h.activeChain ha
  exact h.allocated hcell

lemma Layout.idle_lt (h : Layout q head active idle) {a : Nat} (ha : a ∈ addresses idle) :
    a < q.nextAddress := by
  obtain ⟨cell, hcell⟩ := segment_allocated h.idleChain ha
  exact h.allocated hcell

/-- The fuel of the loops reaches past the end of the active list. -/
lemma Layout.active_length_lt (h : Layout q head active idle) : active.length < q.loopFuel := by
  have hsub : addresses active ⊆ List.range q.nextAddress :=
    fun a ha => List.mem_range.mpr (h.active_lt ha)
  have hlen := List.Nodup.length_le_of_subset (List.Nodup.of_append_left h.apart) hsub
  rw [List.length_range, addresses, List.length_map] at hlen
  exact Nat.lt_succ_of_le hlen

lemma fresh_update {a : Nat} (fresh : ∀ b, q.nextAddress ≤ b → q.heap b = none)
    (cell : Option Node) (allocated : a < q.nextAddress) :
    ∀ b, q.nextAddress ≤ b → Function.update q.heap a cell b = none := by
  intro b hb
  rw [Function.update_of_ne (Nat.ne_of_gt (Nat.lt_of_lt_of_le allocated hb))]
  exact fresh b hb

/-- Writing to an allocated address outside both lists keeps the layout. -/
lemma Layout.write (h : Layout q head active idle) {a : Nat} (cell : Option Node)
    (allocated : a < q.nextAddress) (hactive : a ∉ addresses active) (hidle : a ∉ addresses idle) :
    Layout { q with heap := Function.update q.heap a cell } head active idle :=
  ⟨segment_update hactive cell h.activeChain, segment_update hidle cell h.idleChain, h.apart,
    fresh_update h.fresh cell allocated, h.count⟩

lemma Aside.write (h : Layout q head active idle) {a : Nat} {node : Node}
    (aside : Aside q active idle a node) (node' : Node) :
    Layout (q.store a node') head active idle ∧ Aside (q.store a node') active idle a node' :=
  ⟨h.write _ (h.allocated aside.cell) aside.offActive aside.offIdle,
    store_heap_self q a node', aside.offActive, aside.offIdle⟩

/-- A new chunk in front of the idle list. -/
lemma Layout.allocate (h : Layout q head active idle) :
    Layout { q.store q.nextAddress ⟨chunkInitialize, q.idle⟩ with
        idle := some q.nextAddress, nextAddress := q.nextAddress + 1,
        idleChunkSize := q.idleChunkSize + 1 } head active
      ((q.nextAddress, chunkInitialize) :: idle) := by
  have hactive : q.nextAddress ∉ addresses active := fun ha => Nat.lt_irrefl _ (h.active_lt ha)
  have hidle : q.nextAddress ∉ addresses idle := fun ha => Nat.lt_irrefl _ (h.idle_lt ha)
  refine ⟨segment_update hactive _ h.activeChain, segment_cons_update _ hidle h.idleChain, ?_, ?_, ?_⟩
  · rw [addresses_cons, List.nodup_middle, List.nodup_cons]
    exact ⟨fun ha => (List.mem_append.mp ha).elim hactive hidle, h.apart⟩
  · intro b hb
    have hlt : q.nextAddress < b := hb
    change Function.update q.heap q.nextAddress _ b = none
    rw [Function.update_of_ne (Nat.ne_of_gt hlt)]
    exact h.fresh b (Nat.le_of_lt hlt)
  · change q.idleChunkSize + 1 = _
    rw [h.count, List.length_cons]

/-- The allocations of `chunkqueue_get_unused_chunk`, the count aside. -/
lemma allocateIdle_layout (n size : Nat)
    (h : Layout { q with idleChunkSize := size } head active idle) :
    ∃ idle', Layout { allocateIdle n q with idleChunkSize := size + n } head active idle' ∧
      values idle' = List.replicate n chunkInitialize ++ values idle ∧
      (allocateIdle n q).first = q.first ∧ (allocateIdle n q).last = q.last ∧
      (allocateIdle n q).calls = q.calls ∧ (allocateIdle n q).idleChunkSize = q.idleChunkSize := by
  induction n generalizing q idle size with
  | zero => exact ⟨idle, h, rfl, rfl, rfl, rfl, rfl⟩
  | succ n ih =>
    obtain ⟨idle', hlayout, hvalues, hfirst, hlast, hcalls, hsize⟩ := ih (size + 1)
      (q := { q.store q.nextAddress ⟨chunkInitialize, q.idle⟩ with
        idle := some q.nextAddress, nextAddress := q.nextAddress + 1 }) h.allocate
    refine ⟨idle', ?_, ?_, hfirst, hlast, hcalls, hsize⟩
    · rw [show size + (n + 1) = size + 1 + n by omega]
      exact hlayout
    · rw [hvalues, values_cons, List.replicate_succ', List.append_assoc, List.singleton_append]

lemma refillIdle_layout (h : Layout q head active idle) :
    ∃ q' a v rest, refillIdle q = .ok q' ∧ Layout q' head active ((a, v) :: rest) ∧
      q'.first = q.first ∧ q'.last = q.last ∧ q'.calls = q.calls ∧
      v :: values rest = (if values idle = [] then List.replicate 4 chunkInitialize
        else values idle) := by
  cases idle with
  | nil =>
    have hsize : q.idleChunkSize = 0 := h.count
    have hidle : q.idle = none := h.idleChain
    obtain ⟨idle', hlayout, hvalues, hfirst, hlast, hcalls, hcount⟩ :=
      allocateIdle_layout 4 0 (q := { q with idleChunkSize := 4 })
        ⟨h.activeChain, h.idleChain, h.apart, h.fresh, rfl⟩
    rw [values_nil, List.append_nil] at hvalues
    cases idle' with
    | nil => cases hvalues
    | cons x rest =>
      refine ⟨allocateIdle 4 { q with idleChunkSize := 4 }, x.1, x.2, rest, ?_, ?_, hfirst, hlast,
        hcalls, hvalues⟩
      · rw [refillIdle, if_pos hsize, if_pos hidle]
      · refine ⟨hlayout.activeChain, hlayout.idleChain, hlayout.apart, hlayout.fresh, ?_⟩
        rw [hcount]
        exact hlayout.count
  | cons x rest =>
    refine ⟨q, x.1, x.2, rest, ?_, h, rfl, rfl, rfl, rfl⟩
    have hsize : q.idleChunkSize ≠ 0 := by
      rw [h.count, List.length_cons]
      exact Nat.succ_ne_zero _
    rw [refillIdle, if_neg hsize]

theorem getUnused_refines (h : Layout q head active idle) :
    ∃ a node q' idle', chunkqueueGetUnusedChunk q = .ok (a, q') ∧
      Layout q' head active idle' ∧ Aside q' active idle' a node ∧
      q'.first = q.first ∧ q'.last = q.last ∧
      ChunkQueue.chunkqueueGetUnusedChunk (listed q active idle) =
        (node.value, listed q' active idle') := by
  obtain ⟨p, a, v, rest, hrefill, hp, hfirst, hlast, hcalls, hvalues⟩ := refillIdle_layout h
  obtain ⟨hidle, next, hcell, hrest⟩ := hp.idleChain
  have hnodup := hp.apart
  rw [addresses_cons, List.nodup_middle, List.nodup_cons] at hnodup
  obtain ⟨hoff, hapart⟩ := hnodup
  refine ⟨a, ⟨v, next⟩, { p with idle := next, idleChunkSize := p.idleChunkSize - 1 }, rest, ?_,
    ⟨hp.activeChain, hrest, hapart, hp.fresh, ?_⟩,
    ⟨hcell, fun ha => hoff (List.mem_append_left _ ha), fun ha => hoff (List.mem_append_right _ ha)⟩,
    hfirst, hlast, ?_⟩
  · refine bind_eq_ok.mpr ⟨p, hrefill, ?_⟩
    rw [hidle]
    exact bind_eq_ok.mpr ⟨⟨v, next⟩, load_eq hcell, rfl⟩
  · change p.idleChunkSize - 1 = rest.length
    rw [hp.count, List.length_cons, Nat.add_sub_cancel]
  · simp only [ChunkQueue.chunkqueueGetUnusedChunk, listed]
    cases hi : values idle with
    | nil =>
      rw [hi, if_pos rfl, List.replicate_succ] at hvalues
      obtain ⟨hv, hothers⟩ := List.cons_eq_cons.mp hvalues
      simp [hcalls, hv, hothers]
    | cons c others =>
      rw [hi, if_neg (List.cons_ne_nil _ _)] at hvalues
      obtain ⟨hv, hothers⟩ := List.cons_eq_cons.mp hvalues
      simp [hcalls, hv, hothers]

theorem pushUnused_refines (h : Layout q head active idle) {a : Nat} {node : Node}
    (aside : Aside q active idle a node) :
    ∃ q' idle', chunkqueuePushUnusedChunk q a = .ok q' ∧ Layout q' head active idle' ∧
      q'.first = q.first ∧ q'.last = q.last ∧
      ChunkQueue.chunkqueuePushUnusedChunk (listed q active idle) node.value =
        listed q' active idle' := by
  have hlt := h.allocated aside.cell
  have hlength : (values idle).length = q.idleChunkSize := by
    rw [values, List.length_map, h.count]
  by_cases hfull : q.idleChunkSize ≥ 4
  · refine ⟨{ q.free a with calls := q.calls ++ chunkRelease node.value }, idle, ?_, ?_, rfl, rfl, ?_⟩
    · refine bind_eq_ok.mpr ⟨node, load_eq aside.cell, ?_⟩
      rw [if_pos hfull]
      rfl
    · have hwrite := h.write none hlt aside.offActive aside.offIdle
      exact ⟨hwrite.activeChain, hwrite.idleChain, hwrite.apart, hwrite.fresh, hwrite.count⟩
    · rw [ChunkQueue.chunkqueuePushUnusedChunk, listed, if_pos (by rw [hlength]; exact hfull)]
      rfl
  · refine ⟨{ q.store a ⟨chunkReset node.value, q.idle⟩ with
      idle := some a, idleChunkSize := q.idleChunkSize + 1,
      calls := q.calls ++ chunkRelease node.value }, (a, chunkReset node.value) :: idle, ?_, ?_, rfl,
      rfl, ?_⟩
    · refine bind_eq_ok.mpr ⟨node, load_eq aside.cell, ?_⟩
      rw [if_neg hfull]
      rfl
    · have hwrite := h.write (some ⟨chunkReset node.value, q.idle⟩) hlt aside.offActive aside.offIdle
      refine ⟨hwrite.activeChain, segment_cons_update _ aside.offIdle h.idleChain, ?_, hwrite.fresh, ?_⟩
      · rw [addresses_cons, List.nodup_middle, List.nodup_cons]
        exact ⟨fun ha => (List.mem_append.mp ha).elim aside.offActive aside.offIdle, h.apart⟩
      · change q.idleChunkSize + 1 = _
        rw [h.count, List.length_cons]
    · rw [ChunkQueue.chunkqueuePushUnusedChunk, listed, if_neg (by rw [hlength]; exact hfull)]
      rfl

theorem appendChunk_refines (h : Layout q q.first active idle) (hlast : q.last = lastAddress active)
    {a : Nat} {node : Node} (aside : Aside q active idle a node) :
    ∃ q', chunkqueueAppendChunk q a = .ok q' ∧
      Layout q' q'.first (active ++ [(a, node.value)]) idle ∧ q'.last = some a ∧
      q'.calls = q.calls ∧ q'.heap a = some ⟨node.value, none⟩ := by
  have hlt := h.allocated aside.cell
  have hapart : (addresses (active ++ [(a, node.value)]) ++ addresses idle).Nodup := by
    rw [addresses_append, List.append_assoc, addresses_cons, addresses_nil, List.singleton_append,
      List.nodup_middle, List.nodup_cons]
    exact ⟨fun ha => (List.mem_append.mp ha).elim aside.offActive aside.offIdle, h.apart⟩
  rcases List.eq_nil_or_concat active with rfl | ⟨init, x, hconcat⟩
  · have hfirst : q.first = none := h.activeChain
    have hnone : q.last = none := hlast
    refine ⟨{ q.store a { node with next := none } with last := some a, first := some a }, ?_,
      ⟨⟨rfl, none, store_heap_self .., rfl⟩, segment_update aside.offIdle _ h.idleChain, hapart,
        fresh_update h.fresh _ hlt, h.count⟩, rfl, rfl, store_heap_self ..⟩
    refine bind_eq_ok.mpr ⟨node, load_eq aside.cell, ?_⟩
    simp [LinkedQueue.store, hnone, hfirst, pure, Except.pure]
  · obtain ⟨l, v⟩ := x
    rw [List.concat_eq_append] at hconcat
    subst hconcat
    have hsome : q.last = some l := by rw [hlast, lastAddress_concat]
    have hfirst : q.first ≠ none := fun hnil => by
      have := (chain_nil_iff h.activeChain).mp hnil
      simp at this
    have htail : q.heap l = some ⟨v, none⟩ := segment_concat h.activeChain
    have hnodup := h.apart
    rw [addresses_append, List.append_assoc, addresses_cons, addresses_nil, List.singleton_append,
      List.nodup_middle, List.nodup_cons] at hnodup
    have hoff := aside.offActive
    rw [addresses_append, addresses_cons, addresses_nil, List.mem_append, List.mem_singleton,
      not_or] at hoff
    obtain ⟨hinit, hne⟩ := hoff
    refine ⟨{ (q.store a { node with next := none }).store l ⟨v, some a⟩ with last := some a }, ?_,
      ⟨chain_snoc (fun hl => hnodup.1 (List.mem_append_left _ hl)) hne hinit h.activeChain,
        segment_update (fun hl => hnodup.1 (List.mem_append_right _ hl)) _
          (segment_update aside.offIdle _ h.idleChain), hapart,
        fresh_update (q := q.store a { node with next := none }) (fresh_update h.fresh _ hlt) _
          (h.allocated htail), h.count⟩, rfl, rfl, ?_⟩
    · refine bind_eq_ok.mpr ⟨node, load_eq aside.cell, ?_⟩
      have hload : (q.store a { node with next := none }).load l = .ok ⟨v, none⟩ :=
        load_eq ((Function.update_of_ne (Ne.symm hne) ..).trans htail)
      simp only [show (q.store a { node with next := none }).last = some l from hsome, hload]
      simp [LinkedQueue.store, hfirst, pure, Except.pure, bind, Except.bind]
    · change Function.update _ l _ a = _
      rw [Function.update_of_ne hne]
      exact store_heap_self ..

/-- Changing the value of the last chunk. -/
lemma Layout.storeLast {init : List (Nat × Chunk)} {l : Nat} {v : Chunk}
    (h : Layout q head (init ++ [(l, v)]) idle) (w : Chunk) :
    q.heap l = some ⟨v, none⟩ ∧ Layout (q.store l ⟨w, none⟩) head (init ++ [(l, w)]) idle := by
  have hcell : q.heap l = some ⟨v, none⟩ := segment_concat h.activeChain
  have hnodup := h.apart
  rw [addresses_append, List.append_assoc, addresses_cons, addresses_nil, List.singleton_append,
    List.nodup_middle, List.nodup_cons] at hnodup
  refine ⟨hcell, segment_concat_update w none (fun hl => hnodup.1 (List.mem_append_left _ hl))
    h.activeChain, segment_update (fun hl => hnodup.1 (List.mem_append_right _ hl)) _ h.idleChain, ?_,
    fresh_update h.fresh _ (h.allocated hcell), h.count⟩
  have hapart := h.apart
  rw [addresses_append, addresses_cons] at hapart ⊢
  exact hapart

/-- Changing the value of the first chunk, and taking it out of the list. -/
lemma Layout.storeHead {a : Nat} {v : Chunk} {rest : List (Nat × Chunk)}
    (h : Layout q head ((a, v) :: rest) idle) :
    head = some a ∧ ∃ next, q.heap a = some ⟨v, next⟩ ∧
      (∀ w, Layout (q.store a ⟨w, next⟩) head ((a, w) :: rest) idle) ∧
      ∀ w, Layout (q.store a ⟨w, next⟩) next rest idle ∧
        Aside (q.store a ⟨w, next⟩) rest idle a ⟨w, next⟩ := by
  obtain ⟨hhead, next, hcell, hrest⟩ := h.activeChain
  have hnodup := h.apart
  rw [addresses_cons, List.cons_append, List.nodup_cons] at hnodup
  have hoffRest : a ∉ addresses rest := fun ha => hnodup.1 (List.mem_append_left _ ha)
  have hoffIdle : a ∉ addresses idle := fun ha => hnodup.1 (List.mem_append_right _ ha)
  have hfresh := fun w => fresh_update h.fresh (some ⟨w, next⟩) (h.allocated hcell)
  refine ⟨hhead, next, hcell, fun w => ?_, fun w => ?_⟩
  · exact ⟨⟨hhead, next, store_heap_self .., segment_update hoffRest _ hrest⟩,
      segment_update hoffIdle _ h.idleChain, h.apart, hfresh w, h.count⟩
  · exact ⟨⟨segment_update hoffRest _ hrest, segment_update hoffIdle _ h.idleChain, hnodup.2, hfresh w,
      h.count⟩, store_heap_self .., hoffRest, hoffIdle⟩

lemma Layout.setEnds (h : Layout q head active idle) (first last : Option Nat) :
    Layout { q with first := first, last := last } head active idle :=
  ⟨h.activeChain, h.idleChain, h.apart, h.fresh, h.count⟩

lemma Aside.setEnds {a : Nat} {node : Node} (h : Aside q active idle a node)
    (first last : Option Nat) :
    Aside { q with first := first, last := last } active idle a node :=
  ⟨h.cell, h.offActive, h.offIdle⟩

/-- `if(queue->last==c) queue->last=NULL` -/
lemma unlinked_last {last : Option Nat} {a : Nat} {v : Chunk} {rest : List (Nat × Chunk)}
    (hlast : last = lastAddress ((a, v) :: rest)) (off : a ∉ addresses rest) :
    (if last = some a then none else last) = lastAddress rest := by
  cases rest with
  | nil =>
    rw [hlast]
    exact if_pos rfl
  | cons y others =>
    rw [lastAddress_cons] at hlast
    rw [if_neg, hlast]
    intro ha
    exact off (lastAddress_mem (hlast.symm.trans ha))

/-- The chunk in front is changed, unlinked and pushed. -/
lemma unlinkFirst_refines {a : Nat} {v : Chunk} {rest : List (Nat × Chunk)}
    (h : Layout q q.first ((a, v) :: rest) idle) (hlast : q.last = lastAddress ((a, v) :: rest)) :
    q.first = some a ∧ ∃ next, q.heap a = some ⟨v, next⟩ ∧ ∀ w, ∃ q' idle',
      chunkqueuePushUnusedChunk { q.store a ⟨w, next⟩ with
        first := next, last := if q.last = some a then none else q.last } a = .ok q' ∧
      Layout q' q'.first rest idle' ∧ q'.last = lastAddress rest ∧
      ChunkQueue.chunkqueuePushUnusedChunk (listed q rest idle) w = listed q' rest idle' := by
  obtain ⟨hhead, next, hcell, _, hout⟩ := h.storeHead
  refine ⟨hhead, next, hcell, fun w => ?_⟩
  obtain ⟨hlayout, haside⟩ := hout w
  obtain ⟨q', idle', hpush, hlayout', hfirst', hlast', hlisted⟩ := pushUnused_refines
    (hlayout.setEnds next (if q.last = some a then none else q.last)) (haside.setEnds _ _)
  refine ⟨q', idle', hpush, ?_, ?_, hlisted⟩
  · rw [hfirst']
    exact hlayout'
  · rw [hlast']
    exact unlinked_last hlast haside.offActive

lemma pushUnused_setActive (l : Chunkqueue) (active : List Chunk) (c : Chunk) :
    ChunkQueue.chunkqueuePushUnusedChunk { l with active := active } c =
      { ChunkQueue.chunkqueuePushUnusedChunk l c with active := active } := by
  simp only [ChunkQueue.chunkqueuePushUnusedChunk]
  split <;> rfl

lemma markWrittenLoop_setActive (l : Chunkqueue) (active chunks : List Chunk) (len : Nat) :
    ChunkQueue.markWrittenLoop { l with active := active } chunks len =
      ChunkQueue.markWrittenLoop l chunks len := by
  induction chunks generalizing l len with
  | nil => rfl
  | cons c rest ih => simp only [ChunkQueue.markWrittenLoop, pushUnused_setActive, ih]

lemma removeFinishedLoop_setActive (l : Chunkqueue) (active chunks : List Chunk) :
    ChunkQueue.removeFinishedLoop { l with active := active } chunks =
      ChunkQueue.removeFinishedLoop l chunks := by
  induction chunks generalizing l with
  | nil => rfl
  | cons c rest ih => simp only [ChunkQueue.removeFinishedLoop, pushUnused_setActive, ih]

lemma pushAll_setActive (l : Chunkqueue) (active chunks : List Chunk) :
    chunks.foldl ChunkQueue.chunkqueuePushUnusedChunk { l with active := active } =
      { chunks.foldl ChunkQueue.chunkqueuePushUnusedChunk l with active := active } := by
  induction chunks generalizing l with
  | nil => rfl
  | cons c rest ih => rw [List.foldl_cons, pushUnused_setActive, ih, List.foldl_cons]

theorem markWrittenLoop_refines {fuel : Nat} (hfuel : active.length < fuel)
    (h : Layout q q.first active idle) (hlast : q.last = lastAddress active) (len : Nat) :
    ∃ q', markWrittenLoop fuel q len =
        .ok ((ChunkQueue.markWrittenLoop (listed q active idle) (values active) len).1, q') ∧
      Represents q' (ChunkQueue.markWrittenLoop (listed q active idle) (values active) len).2 := by
  induction active generalizing q idle len fuel with
  | nil =>
    obtain ⟨fuel, rfl⟩ := Nat.exists_eq_succ_of_ne_zero (Nat.ne_of_gt hfuel)
    have hfirst : q.first = none := h.activeChain
    refine ⟨q, ?_, [], idle, h, hlast, rfl⟩
    rw [markWrittenLoop, hfirst]
    rfl
  | cons x rest ih =>
    obtain ⟨a, v⟩ := x
    obtain ⟨fuel, rfl⟩ := Nat.exists_eq_succ_of_ne_zero (Nat.ne_of_gt (Nat.zero_lt_of_lt hfuel))
    have hrest : rest.length < fuel := Nat.lt_of_succ_lt_succ hfuel
    obtain ⟨hfirst, next, hcell, hunlink⟩ := unlinkFirst_refines h hlast
    simp only [markWrittenLoop, hfirst, values_cons, ChunkQueue.markWrittenLoop]
    by_cases h0 : len = 0 ∧ chunkRemainingLen v > 0
    · refine ⟨q, bind_eq_ok.mpr ⟨_, load_eq hcell, ?_⟩, (a, v) :: rest, idle, h, hlast, ?_⟩
      · simp only [if_pos h0]
        rfl
      · simp only [if_pos h0]
        rfl
    · by_cases h1 : len ≥ chunkRemainingLen v
      · obtain ⟨q', idle', hpush, hlayout, hlast', hlisted⟩ :=
          hunlink { v with chunkOffset := u32 (v.chunkOffset + chunkRemainingLen v) }
        obtain ⟨p, hp, hrepresents⟩ := ih hrest hlayout hlast' (len - chunkRemainingLen v)
        rw [← hlisted, listed, ← markWrittenLoop_setActive _ (v :: values rest),
          ← pushUnused_setActive] at hp hrepresents
        simp only [if_neg h0, if_pos h1]
        exact ⟨p, bind_eq_ok.mpr ⟨_, load_eq hcell, by
          rw [if_neg h0, if_pos h1]
          exact bind_eq_ok.mpr ⟨q', hpush, hp⟩⟩, hrepresents⟩
      · obtain ⟨_, next', hcell', hkeep, _⟩ := h.storeHead
        rw [hcell] at hcell'
        cases hcell'
        simp only [if_neg h0, if_neg h1]
        refine ⟨_, bind_eq_ok.mpr ⟨_, load_eq hcell, ?_⟩, _, idle,
          hkeep { v with chunkOffset := u32 (v.chunkOffset + len) }, hlast, rfl⟩
        rw [if_neg h0, if_neg h1]
        rfl

theorem removeFinishedLoop_refines {fuel : Nat} (hfuel : active.length < fuel)
    (h : Layout q q.first active idle) (hlast : q.last = lastAddress active) :
    ∃ q', removeFinishedLoop fuel q = .ok q' ∧
      Represents q' (ChunkQueue.removeFinishedLoop (listed q active idle) (values active)) := by
  induction active generalizing q idle fuel with
  | nil =>
    obtain ⟨fuel, rfl⟩ := Nat.exists_eq_succ_of_ne_zero (Nat.ne_of_gt hfuel)
    have hfirst : q.first = none := h.activeChain
    refine ⟨q, ?_, [], idle, h, hlast, rfl⟩
    rw [removeFinishedLoop, hfirst]
  | cons x rest ih =>
    obtain ⟨a, v⟩ := x
    obtain ⟨fuel, rfl⟩ := Nat.exists_eq_succ_of_ne_zero (Nat.ne_of_gt (Nat.zero_lt_of_lt hfuel))
    have hrest : rest.length < fuel := Nat.lt_of_succ_lt_succ hfuel
    obtain ⟨hfirst, next, hcell, hunlink⟩ := unlinkFirst_refines h hlast
    simp only [removeFinishedLoop, hfirst, load_eq hcell, values_cons,
      ChunkQueue.removeFinishedLoop, bind, Except.bind, pure, Except.pure]
    by_cases h0 : chunkRemainingLen v > 0
    · simp only [if_pos h0]
      exact ⟨q, rfl, (a, v) :: rest, idle, h, hlast, rfl⟩
    · obtain ⟨q', idle', hpush, hlayout, hlast', hlisted⟩ := hunlink v
      have hsame : q.store a ⟨v, next⟩ = q := by
        rw [LinkedQueue.store, ← hcell, Function.update_eq_self]
      rw [hsame] at hpush
      simp only [if_neg h0, hpush]
      obtain ⟨p, hp, hrepresents⟩ := ih hrest hlayout hlast'
      rw [← hlisted, listed, ← removeFinishedLoop_setActive _ (v :: values rest),
        ← pushUnused_setActive] at hrepresents
      exact ⟨p, hp, hrepresents⟩

/-- `first` and `last` dangle while the loop runs: only the rest of the list
that the local pointer leads to is still laid out. -/
theorem resetLoop_refines {fuel : Nat} (hfuel : active.length < fuel)
    (h : Layout q head active idle) :
    ∃ q' idle', resetLoop fuel q head = .ok q' ∧ Layout q' none [] idle' ∧
      (values active).foldl ChunkQueue.chunkqueuePushUnusedChunk (listed q [] idle) =
        listed q' [] idle' := by
  induction active generalizing q head idle fuel with
  | nil =>
    obtain ⟨fuel, rfl⟩ := Nat.exists_eq_succ_of_ne_zero (Nat.ne_of_gt hfuel)
    obtain rfl : head = none := h.activeChain
    exact ⟨q, idle, rfl, h, rfl⟩
  | cons x rest ih =>
    obtain ⟨a, v⟩ := x
    obtain ⟨fuel, rfl⟩ := Nat.exists_eq_succ_of_ne_zero (Nat.ne_of_gt (Nat.zero_lt_of_lt hfuel))
    have hrest : rest.length < fuel := Nat.lt_of_succ_lt_succ hfuel
    obtain ⟨rfl, next, hcell, _, hout⟩ := h.storeHead
    have hsame : q.store a ⟨v, next⟩ = q := by
      rw [LinkedQueue.store, ← hcell, Function.update_eq_self]
    obtain ⟨hlayout, haside⟩ := hout v
    rw [hsame] at hlayout haside
    obtain ⟨q', idle', hpush, hlayout', _, _, hlisted⟩ := pushUnused_refines hlayout haside
    obtain ⟨p, idle'', hloop, hp, hfold⟩ := ih hrest hlayout'
    refine ⟨p, idle'', ?_, hp, ?_⟩
    · simp only [resetLoop, load_eq hcell, hpush, bind, Except.bind]
      exact hloop
    · rw [values_cons, List.foldl_cons, ← hfold]
      congr 1
      exact (pushUnused_setActive (listed q rest idle) [] v).trans (by rw [hlisted]; rfl)

end

variable {q : LinkedQueue} {l : Chunkqueue}

lemma represents_first (h : Represents q l) : q.first = none ↔ l.active = [] := by
  obtain ⟨active, idle, hl, _, rfl⟩ := h
  rw [chain_nil_iff hl.activeChain, listed, values, List.map_eq_nil_iff]

theorem init_represents : Represents ChunkLinks.chunkqueueInit ChunkQueue.chunkqueueInit :=
  ⟨[], [], ⟨rfl, rfl, List.nodup_nil, fun _ _ => rfl, rfl⟩, rfl, rfl⟩

theorem reset_refines (h : Represents q l) :
    ∃ q', ChunkLinks.chunkqueueReset q = .ok q' ∧
      Represents q' (ChunkQueue.chunkqueueReset l) := by
  obtain ⟨active, idle, hl, _, rfl⟩ := h
  obtain ⟨p, idle', hloop, hp, hfold⟩ := resetLoop_refines hl.active_length_lt hl
  refine ⟨{ p with first := none, last := none }, ?_, [], idle', hp.setEnds _ _, rfl, ?_⟩
  · rw [ChunkLinks.chunkqueueReset, hloop]
    rfl
  · rw [ChunkQueue.chunkqueueReset]
    refine (pushAll_setActive (listed q active idle) [] (values active)).symm.trans ?_
    exact hfold

theorem markWritten_refines (h : Represents q l) (len : Nat) :
    ∃ q', ChunkLinks.chunkqueueMarkWritten q len =
        .ok ((ChunkQueue.chunkqueueMarkWritten l len).1, q') ∧
      Represents q' (ChunkQueue.chunkqueueMarkWritten l len).2 := by
  obtain ⟨active, idle, hl, hlast, rfl⟩ := h
  exact markWrittenLoop_refines hl.active_length_lt hl hlast len

theorem removeFinished_refines (h : Represents q l) :
    ∃ q', ChunkLinks.chunkqueueRemoveFinishedChunk q = .ok q' ∧
      Represents q' (ChunkQueue.chunkqueueRemoveFinishedChunk l) := by
  obtain ⟨active, idle, hl, hlast, rfl⟩ := h
  exact removeFinishedLoop_refines hl.active_length_lt hl hlast

/-- An unused chunk, filled in and appended. -/
lemma appendFilled_represents {active idle : List (Nat × Chunk)} {a : Nat} {node : Node}
    (hl : Layout q q.first active idle) (hlast : q.last = lastAddress active)
    (aside : Aside q active idle a node) (w : Chunk) :
    ∃ q', chunkqueueAppendChunk (q.store a { node with value := w }) a = .ok q' ∧
      Represents q' (ChunkQueue.chunkqueueAppendChunk (listed q active idle) w) := by
  obtain ⟨hstored, haside⟩ := aside.write hl { node with value := w }
  obtain ⟨q', happend, hl', hlast', hcalls, _⟩ := appendChunk_refines hstored hlast haside
  refine ⟨q', happend, _, idle, hl', ?_, ?_⟩
  · rw [hlast', lastAddress_concat]
  · simp only [listed, ChunkQueue.chunkqueueAppendChunk, values_append, values_cons, values_nil,
      hcalls]
    rfl

theorem appendBuffer_refines (h : Represents q l) (mem : Buffer) :
    Agree Represents (ChunkLinks.chunkqueueAppendBuffer q mem)
      (ChunkQueue.chunkqueueAppendBuffer l mem) := by
  obtain ⟨active, idle, hl, hlast, rfl⟩ := h
  obtain ⟨a, node, p, idle', hget, hp, haside, hfirst, hplast, hlisted⟩ := getUnused_refines hl
  rw [← hfirst] at hp
  simp only [ChunkLinks.chunkqueueAppendBuffer, ChunkQueue.chunkqueueAppendBuffer, hget, hlisted,
    ok_bind, load_eq haside.cell]
  refine agree_bind (agree_refl _) ?_
  rintro b _ rfl
  obtain ⟨q', happend, hrep⟩ := appendFilled_represents hp (hplast.trans hlast) haside
    { node.value with chunkType := .mem, mem := b }
  rw [happend]
  exact hrep

theorem prependBuffer_refines (h : Represents q l) (mem : Buffer) :
    Agree Represents (ChunkLinks.chunkqueuePrependBuffer q mem)
      (ChunkQueue.chunkqueuePrependBuffer l mem) := by
  obtain ⟨active, idle, hl, hlast, rfl⟩ := h
  obtain ⟨a, node, p, idle', hget, hp, haside, hfirst, hplast, hlisted⟩ := getUnused_refines hl
  rw [← hfirst] at hp
  simp only [ChunkLinks.chunkqueuePrependBuffer, ChunkQueue.chunkqueuePrependBuffer, hget, hlisted,
    ok_bind, load_eq haside.cell]
  refine agree_bind (agree_refl _) ?_
  rintro b _ rfl
  refine ⟨(a, { node.value with chunkType := .mem, mem := b }) :: active, idle', ?_, ?_, rfl⟩
  · refine ⟨segment_cons_update _ haside.offActive hp.activeChain,
      segment_update haside.offIdle _ hp.idleChain, ?_, fresh_update hp.fresh _
      (hp.allocated haside.cell), hp.count⟩
    rw [addresses_cons, List.cons_append, List.nodup_cons]
    exact ⟨fun ha => (List.mem_append.mp ha).elim haside.offActive haside.offIdle, hp.apart⟩
  · change (if p.last = none then some a else p.last) = _
    rw [hplast, hlast]
    cases active with
    | nil => rfl
    | cons x rest =>
      rw [if_neg (fun hnil => List.cons_ne_nil _ _ (lastAddress_nil_iff.mp hnil)),
        lastAddress_cons]

theorem appendFile_refines (h : Represents q l) (filename : Buffer) (offset len : Nat) :
    Agree Represents (ChunkLinks.chunkqueueAppendFile q filename offset len)
      (ChunkQueue.chunkqueueAppendFile l filename offset len) := by
  obtain ⟨active, idle, hl, hlast, rfl⟩ := h
  simp only [ChunkLinks.chunkqueueAppendFile, ChunkQueue.chunkqueueAppendFile]
  by_cases hnull : filename.isNull = true
  · simp only [if_pos hnull]
    rfl
  · by_cases hskip : (cString filename.data).length = 0 ∨ len = 0
    · simp only [if_neg hnull, if_pos hskip]
      exact ⟨active, idle, hl, hlast, rfl⟩
    · obtain ⟨a, node, p, idle', hget, hp, haside, hfirst, hplast, hlisted⟩ := getUnused_refines hl
      rw [← hfirst] at hp
      simp only [if_neg hnull, if_neg hskip, hget, hlisted, ok_bind, load_eq haside.cell]
      refine agree_bind (agree_refl _) ?_
      rintro b _ rfl
      obtain ⟨q', happend, hrep⟩ := appendFilled_represents hp (hplast.trans hlast) haside
        { node.value with
          chunkType := .file, filename := b, fileFd := none, fileOffset := offset,
          fileLength := len }
      rw [happend]
      exact hrep

lemma getNewMemory_refines (h : Represents q l) (need : Nat) :
    ∃ q', ChunkLinks.chunkGetNewMemory q need =
        .ok (q', (ChunkQueue.chunkGetNewMemory l need).2) ∧
      Represents q' (ChunkQueue.chunkGetNewMemory l need).1 := by
  obtain ⟨active, idle, hl, hlast, rfl⟩ := h
  obtain ⟨a, node, p, idle', hget, hp, haside, hfirst, hplast, hlisted⟩ := getUnused_refines hl
  rw [← hfirst] at hp
  obtain ⟨p', happend, hp', hlast', hcalls, hcell⟩ :=
    appendChunk_refines hp (hplast.trans hlast) haside
  obtain ⟨_, hstored⟩ := hp'.storeLast
    { node.value with chunkType := .mem, mem := bufferAllocSize node.value.mem need }
  simp only [ChunkLinks.chunkGetNewMemory, ChunkQueue.chunkGetNewMemory, hget, hlisted, ok_bind,
    happend, load_eq hcell]
  refine ⟨_, rfl, _, idle', hstored, ?_, ?_⟩
  · rw [lastAddress_concat]
    exact hlast'
  · simp only [listed, ChunkQueue.chunkqueueAppendChunk, values_append, values_cons, values_nil]
    rw [← hcalls]
    rfl

/-- The chunk at the end of a queue that is not empty. -/
lemma represents_last (h : Represents q l) {c : Chunk} (hc : l.active.getLast? = some c) :
    ∃ a, q.last = some a ∧ q.heap a = some ⟨c, none⟩ ∧
      ∀ w, Represents (q.store a ⟨w, none⟩) { l with active := l.active.dropLast ++ [w] } := by
  obtain ⟨active, idle, hl, hlast, rfl⟩ := h
  rcases List.eq_nil_or_concat active with rfl | ⟨init, x, hconcat⟩
  · cases hc
  · obtain ⟨a, v⟩ := x
    rw [List.concat_eq_append] at hconcat
    subst hconcat
    have hv : v = c := by simpa [listed] using hc
    subst hv
    rw [lastAddress_concat] at hlast
    refine ⟨a, hlast, (hl.storeLast v).1, fun w => ?_⟩
    refine ⟨init ++ [(a, w)], idle, (hl.storeLast w).2, ?_, ?_⟩
    · rw [lastAddress_concat]
      exact hlast
    · simp only [listed, values_append, values_cons, values_nil, List.dropLast_concat]
      rfl

lemma represents_last_none (h : Represents q l) (hc : l.active.getLast? = none) : q.last = none := by
  obtain ⟨active, idle, hl, hlast, rfl⟩ := h
  rw [List.getLast?_eq_none_iff, listed, values, List.map_eq_nil_iff] at hc
  rw [hlast, hc, lastAddress_nil]

theorem getMemory_refines (h : Represents q l) (need : Nat) :
    ∃ q', ChunkLinks.chunkGetMemory q need = .ok (q', (ChunkQueue.chunkGetMemory l need).2) ∧
      Represents q' (ChunkQueue.chunkGetMemory l need).1 := by
  by_cases hneed : need = 0
  · simp only [ChunkLinks.chunkGetMemory, ChunkQueue.chunkGetMemory, if_pos hneed]
    exact ⟨q, rfl, h⟩
  · cases hc : l.active.getLast? with
    | none =>
      simp only [ChunkLinks.chunkGetMemory, ChunkQueue.chunkGetMemory, if_neg hneed, hc,
        represents_last_none h hc]
      exact getNewMemory_refines h need
    | some c =>
      obtain ⟨a, hlast, hcell, hstore⟩ := represents_last h hc
      simp only [ChunkLinks.chunkGetMemory, ChunkQueue.chunkGetMemory, if_neg hneed, hc, hlast,
        load_eq hcell, ok_bind]
      by_cases hmem : c.chunkType = .mem
      · simp only [if_pos hmem]
        generalize (if bufferIsEmpty c.mem = true then bufferAllocSize c.mem need else c.mem) = b
        by_cases hroom : bufferRemainingBytes b ≥ need
        · simp only [if_pos hroom]
          exact ⟨_, rfl, hstore { c with mem := b }⟩
        · simp only [if_neg hroom]
          exact getNewMemory_refines (hstore { c with mem := b }) need
      · simp only [if_neg hmem]
        exact getNewMemory_refines h need

theorem commitMemory_refines (h : Represents q l) (bytes : Bytes)
    (fits : ∀ c, l.active.getLast? = some c →
      bufferStringLength c.mem + bytes.length < 4294967295) :
    Agree Represents (ChunkLinks.chunkCommitMemory q bytes)
      (ChunkQueue.chunkCommitMemory l bytes) := by
  by_cases hbytes : bytes.length = 0
  · simp only [ChunkLinks.chunkCommitMemory, ChunkQueue.chunkCommitMemory, if_pos hbytes]
    exact h
  · cases hc : l.active.getLast? with
    | none =>
      simp only [ChunkLinks.chunkCommitMemory, ChunkQueue.chunkCommitMemory, if_neg hbytes, hc,
        represents_last_none h hc]
      rfl
    | some c =>
      obtain ⟨a, hlast, hcell, hstore⟩ := represents_last h hc
      simp only [ChunkLinks.chunkCommitMemory, ChunkQueue.chunkCommitMemory, if_neg hbytes, hc,
        hlast, load_eq hcell, ok_bind]
      by_cases hmem : c.chunkType = .mem
      · simp only [if_pos hmem, if_neg (Nat.not_le.mpr (fits c hc))]
        exact hstore _
      · simp only [if_neg hmem]
        rfl

lemma gatherChunks_refines {head : Option Nat} {active idle : List (Nat × Chunk)} {fuel : Nat}
    (hl : Layout q head active idle) (hfuel : active.length < fuel) (room : Nat) :
    ChunkLinks.gatherChunks q fuel head room = HttpConnection.gatherChunks (values active) room := by
  induction active generalizing head fuel room with
  | nil =>
    obtain ⟨fuel, rfl⟩ := Nat.exists_eq_succ_of_ne_zero (Nat.ne_of_gt hfuel)
    obtain rfl : head = none := hl.activeChain
    rfl
  | cons x rest ih =>
    obtain ⟨a, c⟩ := x
    obtain ⟨fuel, rfl⟩ := Nat.exists_eq_succ_of_ne_zero (Nat.ne_of_gt (Nat.zero_lt_of_lt hfuel))
    have hrest : rest.length < fuel := Nat.lt_of_succ_lt_succ hfuel
    obtain ⟨rfl, next, hcell, _, hout⟩ := hl.storeHead
    have hlayout := (hout c).1
    rw [show q.store a ⟨c, next⟩ = q by
      rw [LinkedQueue.store, ← hcell, Function.update_eq_self]] at hlayout
    simp only [ChunkLinks.gatherChunks, load_eq hcell, ok_bind, values_cons,
      HttpConnection.gatherChunks, ih hlayout hrest]
    rfl

/-- Equal results and equal bytes, on the two models of one queue. -/
structure SameTurn (t : LinkedTurn) (u : HttpConnection.WriteTurn) : Prop where
  code : t.code = u.code
  sent : t.sent = u.sent
  queue : Represents t.queue u.queue

theorem writevMemChunk_refines (h : Represents q l) (answer : WriteAnswer) :
    Agree SameTurn (ChunkLinks.connectionWritevMemChunk q answer)
      (HttpConnection.connectionWritevMemChunk l answer) := by
  have hgather : ChunkLinks.gatherChunks q q.loopFuel q.first 16 =
      HttpConnection.gatherChunks l.active 16 := by
    obtain ⟨active, idle, hl, _, rfl⟩ := h
    exact gatherChunks_refines hl hl.active_length_lt 16
  simp only [ChunkLinks.connectionWritevMemChunk, HttpConnection.connectionWritevMemChunk, hgather]
  refine agree_bind (agree_refl _) ?_
  rintro chunks _ rfl
  by_cases hnil : chunks = []
  · obtain ⟨q', hfinished, hrep⟩ := removeFinished_refines h
    simp only [if_pos hnil, hfinished, ok_bind]
    exact ⟨rfl, rfl, hrep⟩
  · simp only [if_neg hnil]
    cases answer with
    | fail errno => exact ⟨rfl, rfl, h⟩
    | accept bytes =>
      by_cases hn : min bytes (min chunks.flatten.length maxTransfer) > 0
      · obtain ⟨q', hmark, hrep⟩ := markWritten_refines h
          (min bytes (min chunks.flatten.length maxTransfer))
        simp only [if_pos hn, hmark, ok_bind]
        split
        · exact rfl
        · exact ⟨rfl, rfl, hrep⟩
      · simp only [if_neg hn]
        exact ⟨rfl, rfl, h⟩

lemma sendMapped_refines (h : Represents q l) (file : Bytes → Nat → UInt8) (c : Chunk)
    (m : Mapping) (offset sendLen : Nat) (answer : WriteAnswer) :
    Agree SameTurn (ChunkLinks.sendMapped file q c m offset sendLen answer)
      (HttpConnection.sendMapped file l c m offset sendLen answer) := by
  by_cases hwindow : c.mmapOffset ≤ offset
  · simp only [ChunkLinks.sendMapped, HttpConnection.sendMapped, if_pos hwindow]
    cases answer with
    | fail errno => cases errno <;> exact ⟨rfl, rfl, h⟩
    | accept bytes =>
      generalize min sendLen (u32Sub c.mmapLen (offset - c.mmapOffset)) = len
      by_cases hn : min bytes len > 0
      · obtain ⟨q', hmark, hrep⟩ := markWritten_refines h (min bytes len)
        simp only [if_pos hn, hmark, ok_bind]
        exact ⟨rfl, rfl, hrep⟩
      · simp only [if_neg hn]
        exact ⟨rfl, rfl, h⟩
  · simp only [ChunkLinks.sendMapped, HttpConnection.sendMapped, if_neg hwindow]
    rfl

/-- The chunk in front of a queue that is not empty. -/
lemma represents_first_cons (h : Represents q l) {c : Chunk} {rest : List Chunk}
    (hc : l.active = c :: rest) :
    ∃ a next, q.first = some a ∧ q.heap a = some ⟨c, next⟩ ∧ ∀ w, ∀ calls,
      Represents { q.store a ⟨w, next⟩ with calls := calls }
        { l with active := w :: rest, calls := calls } := by
  obtain ⟨active, idle, hl, hlast, rfl⟩ := h
  cases active with
  | nil => cases hc
  | cons x others =>
    obtain ⟨a, v⟩ := x
    obtain ⟨rfl, rfl⟩ := List.cons_eq_cons.mp hc
    obtain ⟨hfirst, next, hcell, hkeep, _⟩ := hl.storeHead
    refine ⟨a, next, hfirst, hcell, fun w calls => ?_⟩
    have hw := hkeep w
    refine ⟨(a, w) :: others, idle, ⟨hw.activeChain, hw.idleChain, hw.apart, hw.fresh, hw.count⟩, ?_, rfl⟩
    change q.last = _
    rw [hlast]
    cases others with
    | nil => rfl
    | cons y others => rw [lastAddress_cons, lastAddress_cons]

theorem sendFileChunk_refines (h : Represents q l) (ans : SysAnswers) (turn : Nat) {c : Chunk}
    {rest : List Chunk} (hc : l.active = c :: rest)
    (pending : u32Sub c.fileLength c.chunkOffset ≠ 0) :
    ∃ a next, q.first = some a ∧ q.heap a = some ⟨c, next⟩ ∧
      Agree SameTurn (ChunkLinks.connectionSendFileChunk ans turn q a)
        (HttpConnection.connectionSendFileChunk ans turn l c rest) := by
  obtain ⟨a, next, hfirst, hcell, hstore⟩ := represents_first_cons h hc
  refine ⟨a, next, hfirst, hcell, ?_⟩
  have hcalls : q.calls = l.calls := by
    obtain ⟨active, idle, _, _, rfl⟩ := h
    rfl
  simp only [ChunkLinks.connectionSendFileChunk, HttpConnection.connectionSendFileChunk,
    load_eq hcell, ok_bind, hcalls]
  by_cases hoff : c.chunkOffset ≤ c.fileLength
  · simp only [if_pos hoff, if_neg pending]
    cases hopen : HttpConnection.openFileChunk c (ans.openFile turn) with
    | none => exact ⟨rfl, rfl, h⟩
    | some opened =>
      obtain ⟨d, calls⟩ := opened
      simp only
      generalize (if HttpConnection.needsRemap d (u32 (c.fileOffset + c.chunkOffset)) = true then
        HttpConnection.remapFileChunk d (u32 (c.fileOffset + c.chunkOffset))
          (u32 (c.fileOffset + c.fileLength)) (ans.mmap turn) else (d, [])) = window
      obtain ⟨e, moved⟩ := window
      have hrep := hstore e (l.calls ++ calls ++ moved)
      cases hmap : e.mmapStart with
      | none => exact ⟨rfl, rfl, hrep⟩
      | some m => exact sendMapped_refines hrep ans.file e m _ _ _
  · simp only [if_neg hoff]
    rfl

/-- No finished file chunk is in front: the branch for it is not taken. -/
def Pending (l : Chunkqueue) : Prop :=
  ∀ c rest, l.active = c :: rest → c.chunkType = .file → u32Sub c.fileLength c.chunkOffset ≠ 0

theorem writeTurn_refines (h : Represents q l) (pending : Pending l) (ans : SysAnswers)
    (turn : Nat) :
    Agree SameTurn (ChunkLinks.connectionHandleWriteTurn ans turn q)
      (HttpConnection.connectionHandleWriteTurn ans turn l) := by
  cases hc : l.active with
  | nil =>
    simp only [ChunkLinks.connectionHandleWriteTurn, HttpConnection.connectionHandleWriteTurn, hc,
      (represents_first h).mpr hc]
    exact ⟨rfl, rfl, h⟩
  | cons c rest =>
    obtain ⟨a, next, hfirst, hcell, _⟩ := represents_first_cons h hc
    simp only [ChunkLinks.connectionHandleWriteTurn, HttpConnection.connectionHandleWriteTurn, hc,
      hfirst, load_eq hcell, ok_bind]
    cases ht : c.chunkType with
    | mem => exact writevMemChunk_refines h (ans.write turn)
    | file =>
      obtain ⟨a', next', hfirst', _, hagree⟩ :=
        sendFileChunk_refines h ans turn hc (pending c rest hc ht)
      rw [hfirst] at hfirst'
      cases hfirst'
      exact hagree

end LinkRefinement
