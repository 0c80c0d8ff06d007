import CreditChain.Accumulator.Append
import CreditChain.Accumulator.InMemory
import CreditChain.Lib.Run

/-!
# The two accumulators agree

Leaves are appended batch after batch, to a persisted accumulator whose nodes are stored,
and to one in memory.

* `accumulators_agree`: both have the root hash of the plain definition after any batches.
-/

namespace CreditChain

open MerkleTree Position Word64 MerkleAccumulatorView List Nat

section Agreement

variable {H : Type} {hasher : MerkleHasher H} {leaves : List H}

/-! ## The accumulator in memory -/

namespace InMemoryAccumulator

/-- The hashes of peaks, from right to left. -/
def peakHashes (hasher : MerkleHasher H) (leaves : List H) (l count m : Nat) : List H :=
  (peaks l count m).map fun peak => nodeHash hasher leaves peak.1 peak.2

theorem mergeLast_reverse (left right : H) (rest : List H) :
    mergeLast hasher (right :: left :: rest).reverse =
      some (hasher.internal left right :: rest).reverse := by
  simp [mergeLast]

variable {l count n : Nat}

theorem mergeTimes_eq {t q : Nat} (full : 2 ^ l * (ones t q + 1) ≤ leaves.length)
    (levels : t < count) :
    mergeTimes hasher t (nodeHash hasher leaves l (ones t q) ::
        peakHashes hasher leaves l count (ones t q)).reverse =
      some (peakHashes hasher leaves l count (ones t q + 1)).reverse := by
  induction t generalizing l count with
  | zero =>
    obtain ⟨count, rfl⟩ : ∃ n, count = n + 1 := ⟨count - 1, by omega⟩
    have even : ones 0 q = 2 * q := by simp [ones]
    rw [even, mergeTimes, peakHashes, peakHashes, peaks_odd, peaks_even, map_cons]
  | succ t ih =>
    obtain ⟨count, rfl⟩ : ∃ n, count = n + 1 := ⟨count - 1, by omega⟩
    have up := two_pow_mul_ones l t q
    have split := Nat.mul_add_one (2 ^ (l + 1)) (ones t q)
    have positive := Nat.two_pow_pos (l + 1)
    have merged : nodeHash hasher leaves (l + 1) (ones t q) = _ := nodeHash_succ (by omega)
    have rest := ih (up ▸ full) (lt_of_succ_lt_succ levels)
    rw [ones_one_add, peakHashes, peaks_odd, map_cons, mergeTimes, mergeLast_reverse, ← merged,
      show 2 * ones t q + 1 + 1 = 2 * (ones t q + 1) by omega, peakHashes, peaks_even]
    exact rest

theorem appendOne_eq (small : leaves.length < 2 ^ 63) (inside : n < leaves.length) :
    appendOne hasher (peakHashes hasher leaves 0 64 n).reverse n leaves[n] =
      some (peakHashes hasher leaves 0 64 (n + 1)).reverse := by
  obtain ⟨t, q, rfl⟩ := exists_ones n
  have levels : t < 64 := lt_of_ones_lt (l := t) (q := q) (by omega)
  have merged : mergeTimes hasher t (nodeHash hasher leaves 0 (ones t q) :: _).reverse = _ :=
    mergeTimes_eq (by rw [Nat.pow_zero]; omega) levels
  rw [nodeHash_zero inside, reverse_cons] at merged
  rw [appendOne, trailingOnes64_ones levels]
  exact merged

theorem appendLoop_eq (small : leaves.length < 2 ^ 63) {newLeaves : List H}
    (given : leaves.drop n = newLeaves) (known : n ≤ leaves.length) :
    appendLoop hasher newLeaves (peakHashes hasher leaves 0 64 n).reverse n =
      some ((peakHashes hasher leaves 0 64 leaves.length).reverse, leaves.length) := by
  induction newLeaves generalizing n with
  | nil =>
    rw [drop_eq_nil_iff] at given
    rw [appendLoop, le_antisymm known given]
  | cons leaf newLeaves ih =>
    have inside : n < leaves.length := by
      have nonempty : leaves.drop n ≠ [] := by
        rw [given]
        exact cons_ne_nil _ _
      rwa [ne_eq, drop_eq_nil_iff, Nat.not_le] at nonempty
    rw [drop_eq_getElem_cons inside, cons.injEq] at given
    obtain ⟨rfl, given⟩ := given
    have bounded : n ≠ u64Max := by
      unfold u64Max
      omega
    rw [appendLoop, appendOne_eq small inside]
    simp only [if_neg bounded]
    exact ih given inside

/-- One level of the tree is one bit of the number of leaves. -/
theorem computeRootLoop_eq {steps rounds m : Nat} (enough : steps ≤ rounds) (levels : steps ≤ count)
    (low : 2 ^ l * m < leaves.length ∨ m % 2 = 1 ∧ 2 ^ l * m = leaves.length)
    (high : leaves.length < 2 ^ l * (m + 1)) (above : leaves.length < 2 ^ (l + steps))
    (below : 2 ^ (l + steps) ≤ 2 * leaves.length) :
    computeRootLoop hasher rounds m (peakHashes hasher leaves l count m)
        (nodeHash hasher leaves l m) = some (nodeHash hasher leaves (l + steps) 0) := by
  induction steps generalizing rounds count l m with
  | zero =>
    have zero : m = 0 := by
      by_contra nonzero
      have := Nat.le_mul_of_pos_right (2 ^ l) (Nat.pos_of_ne_zero nonzero)
      rw [Nat.add_zero] at above
      omega
    rw [zero]
    cases rounds with
    | zero | succ rounds => rfl
  | succ steps ih =>
    obtain ⟨rounds, rfl⟩ : ∃ n, rounds = n + 1 := ⟨rounds - 1, by omega⟩
    obtain ⟨count, rfl⟩ : ∃ n, count = n + 1 := ⟨count - 1, by omega⟩
    have nonzero : m ≠ 0 := by
      rintro rfl
      have := Nat.pow_le_pow_right (n := 2) (by decide) (show l + 1 ≤ l + (steps + 1) by omega)
      omega
    rw [← Nat.add_assoc, Nat.add_right_comm] at above below ⊢
    obtain ⟨half, rfl | rfl⟩ : ∃ half, m = 2 * half ∨ m = 2 * half + 1 := ⟨m / 2, by omega⟩
    · obtain ⟨left, right, next, next'⟩ := two_pow_children l half
      have inside : 2 ^ l * (2 * half) < leaves.length := by omega
      have merged : _ = hasher.internal _ _ :=
        nodeHash_even (mul_mod_right 2 half) inside high.le
      rw [Nat.mul_div_cancel_left _ (by decide)] at merged
      unfold computeRootLoop
      rw [if_neg nonzero, if_neg (by omega), peakHashes, peaks_even,
        Nat.mul_div_cancel_left _ (by decide), ← merged]
      exact ih (le_of_succ_le_succ enough) (le_of_succ_le_succ levels)
        (.inl (by omega)) (by omega) above below
    · obtain ⟨left, right, next, next'⟩ := two_pow_children l half
      have merged : _ = hasher.internal _ _ :=
        nodeHash_odd (show (2 * half + 1) % 2 = 1 by omega)
          (show 2 ^ l * (2 * half + 1) ≤ leaves.length by omega)
      rw [show (2 * half + 1) / 2 = half by omega, Nat.add_sub_cancel] at merged
      unfold computeRootLoop
      rw [if_neg nonzero, if_pos (by omega), peakHashes, peaks_odd,
        show (2 * half + 1) / 2 = half by omega, map_cons]
      simp only [← merged]
      exact ih (le_of_succ_le_succ enough) (le_of_succ_le_succ levels)
        (.inl (by omega)) (by omega) above below

theorem computeRootHash_of_two {roots : List H} (several : 2 ≤ roots.length) :
    computeRootHash hasher roots n =
      computeRootLoop hasher 64 (n / 2 ^ trailingZeros64 n) roots.reverse hasher.placeholder := by
  match roots with
  | [] => simp at several
  | [_] => simp at several
  | _ :: _ :: _ => rfl

theorem computeRootHash_eq (small : leaves.length < 2 ^ 63) :
    computeRootHash hasher (peakHashes hasher leaves 0 64 leaves.length).reverse leaves.length =
      some (MerkleTree.rootHash hasher leaves) := by
  rcases Nat.eq_zero_or_pos leaves.length with none | positive
  · rw [none, List.length_eq_zero_iff.mp none]
    rfl
  obtain ⟨t, k, level, factors, top⟩ := exists_last_peak positive small.le
  have last : 2 ^ t * (2 * k) + 2 ^ t = leaves.length := by
    rw [factors]
    ring
  have power := Nat.two_pow_pos t
  rcases Nat.eq_zero_or_pos k with rfl | several
  · have height : Nat.clog 2 leaves.length = t := by
      rw [factors, Nat.mul_one, clog_pow 2 t (by decide)]
    rw [peakHashes, top, peaks_zero, rootHash_eq, height]
    rfl
  have small' : k < 2 ^ (63 - t) := by
    apply Nat.lt_of_mul_lt_mul_left (a := 2 ^ t)
    rw [← Nat.pow_add, Nat.add_sub_cancel' level]
    have := Nat.mul_le_mul_left (2 ^ t) (Nat.le_mul_of_pos_left k (by decide : 0 < 2))
    omega
  have more : 2 ≤ (peakHashes hasher leaves 0 64 leaves.length).reverse.length := by
    have nonempty : peaks (t + 1) (63 - t) k ≠ [] :=
      fun none => several.ne' (eq_zero_of_peaks small' none)
    rw [length_reverse, peakHashes, top, length_map]
    exact succ_le_succ (length_pos_iff.mpr nonempty)
  have shifted : leaves.length / 2 ^ trailingZeros64 leaves.length = 2 * k + 1 := by
    rw [factors, trailingZeros64_eq (lt_succ_of_le level), Nat.mul_div_cancel_left _ power]
  have start : hasher.placeholder = nodeHash hasher leaves t (2 * k + 1) :=
    (nodeHash_empty (factors.le)).symm
  have atLeast : 2 ^ t < leaves.length := by
    have := Nat.le_mul_of_pos_right (2 ^ t) (by omega : 0 < 2 * k)
    omega
  have inTree := le_pow_clog (b := 2) (by decide) leaves.length
  have higher : t < Nat.clog 2 leaves.length :=
    (Nat.pow_lt_pow_iff_right (a := 2) (by decide)).mp (atLeast.trans_le inTree)
  have height : Nat.clog 2 leaves.length ≤ 63 := clog_le_of_le_pow small.le
  have root : leaves.length < 2 ^ Nat.clog 2 leaves.length ∧
      2 ^ Nat.clog 2 leaves.length ≤ 2 * leaves.length := by
    have least := pow_pred_clog_lt_self (b := 2) (by decide) (by omega : 1 < leaves.length)
    obtain ⟨d, split⟩ : ∃ d, Nat.clog 2 leaves.length = t + (d + 1) :=
      ⟨Nat.clog 2 leaves.length - t - 1, by omega⟩
    rw [split] at inTree least ⊢
    constructor
    · -- an odd multiple of `2 ^ t` is not a higher power of two
      refine lt_of_le_of_ne inTree fun equal => ?_
      rw [factors, Nat.pow_add] at equal
      have := Nat.eq_of_mul_eq_mul_left power equal
      omega
    · rw [← Nat.add_assoc, Nat.pred_succ] at least
      rw [← Nat.add_assoc]
      omega
  rw [computeRootHash_of_two more, shifted, reverse_reverse, start, peakHashes, top,
    ← peaks_odd, rootHash_eq, ← Nat.add_sub_cancel' higher.le]
  refine computeRootLoop_eq (by omega) (by omega) (.inr ⟨by omega, factors.symm⟩) ?_ ?_ ?_
  · rw [Nat.mul_add (2 ^ t) _ 1]
    omega
  · rw [Nat.add_sub_cancel' higher.le]
    exact root.1
  · rw [Nat.add_sub_cancel' higher.le]
    exact root.2

/-- The accumulator of a list of leaves. -/
def ofLeaves (hasher : MerkleHasher H) (leaves : List H) : InMemoryAccumulator H :=
  ⟨(peakHashes hasher leaves 0 64 leaves.length).reverse, leaves.length,
    MerkleTree.rootHash hasher leaves⟩

theorem peakHashes_append {more : List H} :
    peakHashes hasher (leaves ++ more) 0 64 leaves.length =
      peakHashes hasher leaves 0 64 leaves.length := by
  refine map_congr_left fun peak mem => nodeHash_append ?_
  have := peak_end mem
  rwa [Nat.pow_zero, one_mul] at this

/-- The accumulator in memory keeps the peaks. -/
theorem append_ofLeaves {batch : List H} (small : (leaves ++ batch).length < 2 ^ 63) :
    (ofLeaves hasher leaves).append hasher batch = some (ofLeaves hasher (leaves ++ batch)) := by
  have appended : appendLoop hasher batch (peakHashes hasher (leaves ++ batch) 0 64
      leaves.length).reverse leaves.length = _ :=
    appendLoop_eq small (drop_left' rfl) (by rw [length_append]; omega)
  have count : (peakHashes hasher (leaves ++ batch) 0 64 (leaves ++ batch).length).reverse.length =
      countOnes64 (leaves ++ batch).length := by
    rw [length_reverse, peakHashes, length_map, length_peaks]
    rfl
  rw [peakHashes_append] at appended
  rw [append, ofLeaves]
  simp only [appended]
  rw [new, if_neg (not_not_intro count), computeRootHash_eq small]
  rfl

end InMemoryAccumulator

/-! ## The stored nodes -/

/-- A persisted accumulator with its store, in the order of the writes. -/
structure StoredAccumulator (H : Type) where
  nodes : List (AccumulatorNode H)
  numLeaves : Nat
  rootHash : H

namespace StoredAccumulator

open MerkleAccumulatorView

def reader (acc : StoredAccumulator H) : HashReader H := fun position =>
  match acc.nodes.lookup position with
  | some hash => .ok hash
  | none => .error "not found"

def view (acc : StoredAccumulator H) : MerkleAccumulatorView H := ⟨acc.reader, acc.numLeaves⟩

/-- Append a batch, and store the nodes. -/
def append (hasher : MerkleHasher H) (acc : StoredAccumulator H) (batch : List H) :
    Fallible (StoredAccumulator H) := do
  let (rootHash, toFreeze) ← acc.view.append hasher batch
  .ok ⟨acc.nodes ++ toFreeze, acc.numLeaves + batch.length, rootHash⟩

/-- The nodes of all full subtrees of `n` leaves. -/
def completedNodes (n : Nat) : List (Nat × Nat) := (List.range n).flatMap completedBy

/-- The persisted accumulator of a list of leaves. -/
def ofLeaves (hasher : MerkleHasher H) (leaves : List H) : StoredAccumulator H :=
  ⟨hashed hasher leaves (completedNodes leaves.length), leaves.length,
    MerkleTree.rootHash hasher leaves⟩

variable {place : Nat × Nat} {t l q n : Nat}

theorem completed_end (mem : place ∈ completed t l (ones t q)) :
    2 ^ place.1 * (place.2 + 1) = 2 ^ l * (ones t q + 1) := by
  induction t generalizing l with
  | zero => cases mem
  | succ t ih =>
    have up := two_pow_mul_ones l t q
    rw [completed, ones_one_add, show (2 * ones t q + 1) / 2 = ones t q by omega] at mem
    rw [up]
    rcases mem_cons.mp mem with rfl | rest
    · rfl
    · exact ih rest

theorem mem_completed {d : Nat} (positive : 0 < d) (le : d ≤ t) :
    (l + d, ones t q / 2 ^ d) ∈ completed t l (ones t q) := by
  induction t generalizing l d with
  | zero => omega
  | succ t ih =>
    obtain ⟨d, rfl⟩ : ∃ n, d = n + 1 := ⟨d - 1, by omega⟩
    have up : ones (t + 1) q / 2 = ones t q := by
      rw [ones_one_add]
      omega
    rw [completed, Nat.pow_succ, Nat.mul_comm, ← Nat.div_div_eq_div_mul, up]
    rcases Nat.eq_zero_or_pos d with rfl | more
    · simp
    · rw [← Nat.add_assoc, Nat.add_right_comm]
      exact mem_cons_of_mem _ (ih more (le_of_succ_le_succ le))

/-- A leaf completes the nodes that end with it. -/
theorem mem_completedBy (small : n < 2 ^ 63) :
    place ∈ completedBy n ↔ 2 ^ place.1 * (place.2 + 1) = n + 1 := by
  obtain ⟨t, q, rfl⟩ := exists_ones n
  have levels : t < 64 := lt_of_ones_lt (l := t) (q := q) (by omega)
  obtain ⟨l, pos⟩ := place
  rw [completedBy, trailingOnes64_ones levels]
  constructor
  · intro mem
    rcases mem_cons.mp mem with same | rest
    · cases same
      rw [Nat.pow_zero, one_mul]
    · have := completed_end rest
      rwa [Nat.pow_zero, one_mul] at this
  intro ends
  simp only at ends
  have power := Nat.two_pow_pos l
  have split := Nat.mul_add_one (2 ^ l) pos
  have place : ones t q / 2 ^ l = pos :=
    Nat.div_eq_of_lt_le (by rw [Nat.mul_comm]; omega) (by rw [Nat.mul_comm]; omega)
  rcases Nat.eq_zero_or_pos l with rfl | above
  · rw [Nat.pow_zero, Nat.div_one] at place
    rw [place]
    exact mem_cons_self
  have within : l ≤ t := by
    by_contra high
    have divides : 2 ^ (t + 1) ∣ 2 ^ t * (2 * q + 1) := by
      rw [← ones_succ, ← ends]
      exact (Nat.pow_dvd_pow 2 (not_le.mp high)).trans (Nat.dvd_mul_right _ _)
    have := Nat.dvd_of_mul_dvd_mul_left (Nat.two_pow_pos t) divides
    omega
  have mem := mem_completed (l := 0) (q := q) above within
  rw [Nat.zero_add, place] at mem
  exact mem_cons_of_mem _ mem

theorem mem_completedNodes (small : n ≤ 2 ^ 63) :
    place ∈ completedNodes n ↔ 2 ^ place.1 * (place.2 + 1) ≤ n := by
  have positive : 0 < 2 ^ place.1 * (place.2 + 1) :=
    Nat.mul_pos (Nat.two_pow_pos _) (succ_pos _)
  rw [completedNodes, mem_flatMap]
  constructor
  · rintro ⟨leaf, mem, by_⟩
    have below := mem_range.mp mem
    rw [mem_completedBy (by omega)] at by_
    omega
  · intro ends
    refine ⟨2 ^ place.1 * (place.2 + 1) - 1, mem_range.mpr (by omega), ?_⟩
    rw [mem_completedBy (by omega)]
    omega

theorem hashed_append {more : List H} (small : leaves.length ≤ 2 ^ 63) :
    hashed hasher (leaves ++ more) (completedNodes leaves.length) =
      hashed hasher leaves (completedNodes leaves.length) := by
  refine map_congr_left fun place mem => ?_
  rw [nodeHash_append ((mem_completedNodes small).mp mem)]

theorem lookup_hashed {places : List (Nat × Nat)} (mem : (l, q) ∈ places) :
    (hashed hasher leaves places).lookup (node l q) = some (nodeHash hasher leaves l q) := by
  induction places with
  | nil => cases mem
  | cons place places ih =>
    rw [hashed, map_cons, lookup_cons]
    by_cases same : node l q = node place.1 place.2
    · obtain ⟨rfl, rfl⟩ := node_injective same
      simp
    have other : (l, q) ∈ places := by
      rcases mem_cons.mp mem with rfl | rest
      · exact absurd rfl same
      · exact rest
    rw [beq_eq_false_iff_ne.mpr same]
    exact ih other

theorem serves_ofLeaves {more : List H} (small : leaves.length ≤ 2 ^ 63) :
    Serves hasher (ofLeaves hasher leaves).reader (leaves ++ more) leaves.length := by
  intro l q inside
  have found : (hashed hasher leaves (completedNodes leaves.length)).lookup (node l q) = _ :=
    lookup_hashed ((mem_completedNodes small).mpr inside)
  rw [reader, ofLeaves, found, nodeHash_append inside]

/-- The stored nodes are those of all full subtrees, in post-order. -/
theorem append_ofLeaves {batch : List H} (small : (leaves ++ batch).length < 2 ^ 63)
    (fits : batch.length < 2 ^ 63 - 31) :
    (ofLeaves hasher leaves).append hasher batch = .ok (ofLeaves hasher (leaves ++ batch)) := by
  have total : (leaves ++ batch).length = leaves.length + batch.length := length_append
  have known : leaves.length ≤ 2 ^ 63 := by omega
  have appended : (ofLeaves hasher leaves).view.append hasher batch = _ :=
    append_eq (serves_ofLeaves known) small (by rw [total]; exact le_add_right _ _)
      (drop_left' rfl) fits
  have nodes : completedNodes (leaves ++ batch).length = completedNodes leaves.length ++
      (range' leaves.length batch.length).flatMap completedBy := by
    rw [completedNodes, completedNodes, total, range_add, flatMap_append, range'_eq_map_range]
  rw [append, appended, ofLeaves, ofLeaves, nodes, total]
  rw [← hashed_append known, hashed, hashed, hashed, map_append]
  rfl

/-- The post-order indices of the nodes that a leaf completes follow each other. -/
theorem postorder_completed (within : 2 ^ l * (ones t q + 1) ≤ 2 ^ 63) :
    (completed t l (ones t q)).map (fun place => postorder place.1 place.2) =
        List.range' (postorder l (ones t q) + 1) t ∧
      postorder 0 (2 ^ l * (ones t q + 1)) = postorder l (ones t q) + t + 1 := by
  induction t generalizing l with
  | zero =>
    have even : ones 0 q % 2 = 0 := by simp [ones]
    exact ⟨rfl, postorder_even even within⟩
  | succ t ih =>
    have up := two_pow_mul_ones l t q
    have atLeast := Nat.le_mul_of_pos_left (ones (t + 1) q + 1) (Nat.two_pow_pos l)
    have odd : ones (t + 1) q % 2 = 1 := by
      rw [ones_one_add]
      omega
    have half : ones (t + 1) q / 2 = ones t q := by
      rw [ones_one_add]
      omega
    obtain ⟨indices, last⟩ := ih (l := l + 1) (up ▸ within)
    have next := postorder_odd (l := l) odd (by omega)
    rw [half] at next
    rw [up, completed, half, map_cons, indices, next]
    exact ⟨rfl, by omega⟩

theorem postorder_completedNodes (small : n < 2 ^ 63) :
    (completedNodes n).map (fun place => postorder place.1 place.2) =
      List.range (postorder 0 n) := by
  induction n with
  | zero => rfl
  | succ n ih =>
    obtain ⟨t, q, index⟩ := exists_ones n
    have levels : t < 64 := lt_of_ones_lt (l := t) (q := q) (by omega)
    obtain ⟨indices, last⟩ := postorder_completed (l := 0) (t := t) (q := q)
      (by rw [← index]; omega)
    rw [← index, Nat.pow_zero, one_mul] at last
    rw [← index] at indices
    rw [completedNodes, range_succ, flatMap_append, map_append, ← completedNodes,
      ih (by omega), last, flatMap_singleton, completedBy, index,
      trailingOnes64_ones levels, ← index, map_cons, indices, ← range'_succ,
      Nat.add_assoc, range_add, range'_eq_map_range]

theorem toPostorderIndex_nodes (small : leaves.length < 2 ^ 63) :
    (ofLeaves hasher leaves).nodes.map (fun stored => stored.1.toPostorderIndex) =
      (List.range (ofLeaves hasher leaves).nodes.length).map some := by
  have indices := postorder_completedNodes small
  have count : (completedNodes leaves.length).length = postorder 0 leaves.length := by
    simpa using congrArg length indices
  rw [ofLeaves, hashed, length_map, count, ← indices, map_map, map_map]
  refine map_congr_left fun place mem => ?_
  obtain ⟨inside, below⟩ := inside_of_full small ((mem_completedNodes small.le).mp mem)
  exact toPostorderIndex_node inside.within below

/-- The batches, one after the other. -/
def run (hasher : MerkleHasher H) (batches : List (List H)) : Fallible (StoredAccumulator H) :=
  batches.foldlM (append hasher) ⟨[], 0, hasher.placeholder⟩

theorem run_eq {batches : List (List H)} (small : batches.flatten.length < 2 ^ 63)
    (fits : ∀ batch ∈ batches, batch.length < 2 ^ 63 - 31) :
    run hasher batches = .ok (ofLeaves hasher batches.flatten) := by
  have each : ∀ (leaves batch : List H), (leaves ++ batch).length < 2 ^ 63 →
      batch.length < 2 ^ 63 - 31 →
        append hasher (ofLeaves hasher leaves) batch = pure (ofLeaves hasher (leaves ++ batch)) :=
    fun _ _ first fit => append_ofLeaves first fit
  exact Run.foldlM_batches each small fits

end StoredAccumulator

/-- The batches, one after the other. -/
def InMemoryAccumulator.run (hasher : MerkleHasher H) (batches : List (List H)) :
    Option (InMemoryAccumulator H) :=
  batches.foldlM (InMemoryAccumulator.append hasher) (InMemoryAccumulator.default hasher)

theorem InMemoryAccumulator.run_eq {batches : List (List H)}
    (small : batches.flatten.length < 2 ^ 63) :
    InMemoryAccumulator.run hasher batches = some (ofLeaves hasher batches.flatten) := by
  have start : .default hasher = ofLeaves hasher [] := by
    rw [ofLeaves, length_nil]
    rfl
  rw [run, start]
  refine Run.foldlM_batches (m := Option) ?_ small (fun _ _ => trivial)
  intro leaves batch first _
  exact append_ofLeaves first

/-- The accumulators of the same leaves have the same roots, and the stored nodes are in
post-order without gaps. -/
structure Agree (hasher : MerkleHasher H) (leaves : List H) (stored : StoredAccumulator H)
    (acc : InMemoryAccumulator H) : Prop where
  rootHash : stored.rootHash = MerkleTree.rootHash hasher leaves
  inMemory : acc.rootHash = MerkleTree.rootHash hasher leaves
  getRootHash : leaves ≠ [] →
    stored.view.getRootHash hasher = .ok (MerkleTree.rootHash hasher leaves)
  frozen : stored.view.getFrozenSubtreeHashes = .ok acc.frozenSubtreeRoots
  postorder : stored.nodes.map (fun node => node.1.toPostorderIndex) =
    (List.range stored.nodes.length).map some
  nodup : (stored.nodes.map fun node => node.1).Nodup

theorem agree_ofLeaves (small : leaves.length < 2 ^ 63) :
    Agree hasher leaves (.ofLeaves hasher leaves) (.ofLeaves hasher leaves) := by
  have serves : MerkleAccumulatorView.Serves hasher
      (StoredAccumulator.ofLeaves hasher leaves).reader (leaves ++ []) leaves.length :=
    StoredAccumulator.serves_ofLeaves small.le
  rw [append_nil] at serves
  have indices : (StoredAccumulator.ofLeaves hasher leaves).nodes.map _ = _ :=
    StoredAccumulator.toPostorderIndex_nodes small
  refine ⟨rfl, rfl, ?_, ?_, indices, ?_⟩
  · intro nonempty
    exact getRootHash_eq serves rfl (length_pos_iff.mpr nonempty) small.le
  · rw [getFrozenSubtreeHashes_eq serves rfl small.le, map_reverse]
    rfl
  -- positions with different indices are different
  apply Nodup.of_map toPostorderIndex
  rw [map_map]
  refine Eq.mpr (congrArg List.Nodup indices) ?_
  exact nodup_range.map (Option.some_injective _)

/-- **The accumulators agree** after each batch, as long as there are fewer than `2 ^ 63`
leaves. -/
theorem accumulators_agree (batches : List (List H)) (small : batches.flatten.length < 2 ^ 63)
    (fits : ∀ batch ∈ batches, batch.length < 2 ^ 63 - 31) (k : Nat) :
    ∃ stored acc, StoredAccumulator.run hasher (batches.take k) = .ok stored ∧
      InMemoryAccumulator.run hasher (batches.take k) = some acc ∧
      Agree hasher (batches.take k).flatten stored acc := by
  have fits' : ∀ batch ∈ batches.take k, batch.length < 2 ^ 63 - 31 :=
    fun batch mem => fits batch (mem_of_mem_take mem)
  have small' : (batches.take k).flatten.length < 2 ^ 63 :=
    lt_of_le_of_lt (List.Sublist.flatten (take_sublist k batches)).length_le small
  refine ⟨_, _, StoredAccumulator.run_eq small' fits', InMemoryAccumulator.run_eq small', ?_⟩
  exact agree_ofLeaves small'

/-- **Extension proofs verify.**  From the subtrees of a persisted accumulator and new leaves, its
root is checked and the accumulator of all leaves made. -/
theorem extension_verifies [DecidableEq H] (batches : List (List H)) (more : List H)
    (small : (batches ++ [more]).flatten.length < 2 ^ 63)
    (fits : ∀ batch ∈ batches, batch.length < 2 ^ 63 - 31) :
    ∃ stored roots tree, StoredAccumulator.run hasher batches = .ok stored ∧
      stored.view.getFrozenSubtreeHashes = .ok roots ∧
      InMemoryAccumulator.run hasher (batches ++ [more]) = some tree ∧
      AccumulatorExtensionProof.verify hasher ⟨roots, stored.numLeaves, more⟩ stored.rootHash =
        .ok tree := by
  have made := @InMemoryAccumulator.run_eq _ hasher _ small
  rw [flatten_append, flatten_singleton] at small made
  have before : batches.flatten.length < 2 ^ 63 := by
    rw [length_append] at small
    omega
  refine ⟨_, _, _, StoredAccumulator.run_eq before fits, (agree_ofLeaves before).frozen, made, ?_⟩
  have restored := @InMemoryAccumulator.append_ofLeaves _ hasher batches.flatten []
    (by rwa [append_nil])
  rw [append_nil] at restored
  -- appending nothing makes the accumulator again from its subtrees
  change (InMemoryAccumulator.new hasher _ batches.flatten.length).toOption = _ at restored
  unfold AccumulatorExtensionProof.verify
  dsimp only [StoredAccumulator.ofLeaves]
  generalize InMemoryAccumulator.new hasher _ _ = original at restored ⊢
  cases original with
  | error reason => cases restored
  | ok original =>
    cases restored
    refine (if_neg (not_not_intro rfl)).trans ?_
    rw [InMemoryAccumulator.append_ofLeaves small]

end Agreement

/-! ## The last leaf of the largest tree -/

namespace LastLeaf

def hasher : MerkleHasher Nat := ⟨fun left right => 10 * left + right, 0⟩

theorem three_batches_agree :
    ∃ stored acc, StoredAccumulator.run hasher ([[1, 2], [3], [4, 5]].take 3) = .ok stored ∧
      InMemoryAccumulator.run hasher ([[1, 2], [3], [4, 5]].take 3) = some acc ∧
      Agree hasher ([[1, 2], [3], [4, 5]].take 3).flatten stored acc :=
  accumulators_agree [[1, 2], [3], [4, 5]] (by decide) (by decide) 3

theorem two_batches_extended : ∃ stored roots tree,
    StoredAccumulator.run hasher [[1, 2], [3]] = .ok stored ∧
      stored.view.getFrozenSubtreeHashes = .ok roots ∧
      InMemoryAccumulator.run hasher [[1, 2], [3], [4, 5]] = some tree ∧
      AccumulatorExtensionProof.verify hasher ⟨roots, stored.numLeaves, [4, 5]⟩ stored.rootHash =
        .ok tree :=
  extension_verifies [[1, 2], [3]] [4, 5] (by decide) (by decide)

variable {acc acc' : StoredAccumulator Nat}

theorem numLeaves_append {batch : List Nat} (appended : acc.append hasher batch = .ok acc') :
    acc'.numLeaves = acc.numLeaves + batch.length := by
  obtain ⟨⟨rootHash, toFreeze⟩, -, rfl⟩ := of_return appended
  rfl

variable {batches : List (List Nat)}

theorem numLeaves_foldlM (done : batches.foldlM (StoredAccumulator.append hasher) acc = .ok acc') :
    acc'.numLeaves = acc.numLeaves + batches.flatten.length := by
  induction batches generalizing acc with
  | nil =>
    cases done
    rfl
  | cons batch batches ih =>
    obtain ⟨next, first, rest⟩ := of_bind done
    rw [ih rest, numLeaves_append first, flatten_cons, length_append, Nat.add_assoc]

/-- The position of leaf `2 ^ 63 - 1` fails an assertion. -/
theorem append_last_panics {view : MerkleAccumulatorView Nat} {leaf : Nat}
    (count : view.numLeaves = 2 ^ 63 - 1) :
    view.append hasher [leaf] = .error .panicked := by
  have frozen : view.freezeLeaves hasher 0 [leaf] [] = .error .panicked := by
    rw [freezeLeaves, count]
    rfl
  rw [append, count, length_singleton, frozen]
  rfl

theorem run_panics (count : batches.flatten.length = 2 ^ 63 - 1) (leaf : Nat)
    (stored : StoredAccumulator Nat) :
    StoredAccumulator.run hasher (batches ++ [[leaf]]) ≠ .ok stored := by
  intro done
  rw [StoredAccumulator.run, foldlM_append] at done
  obtain ⟨before, beforeDone, done⟩ := of_bind done
  obtain ⟨last, lastDone, -⟩ := of_bind done
  have numLeaves : before.view.numLeaves = 2 ^ 63 - 1 := by
    have total := numLeaves_foldlM beforeDone
    rw [count] at total
    exact total.trans (Nat.zero_add _)
  rw [StoredAccumulator.append, append_last_panics numLeaves] at lastDone
  cases lastDone

/-- An accumulator does not reach `2 ^ 63` leaves, and one without leaves has no root hash
to read. -/
theorem last_batch_panics :
    (∃ batches : List (List Nat), batches.flatten.length = 2 ^ 63 ∧
      ∀ stored, StoredAccumulator.run hasher batches ≠ .ok stored) ∧
    ∃ stored, StoredAccumulator.run hasher [] = .ok stored ∧
      stored.view.getRootHash hasher = .error .panicked := by
  obtain ⟨batches, count⟩ : ∃ batches : List (List Nat), batches.flatten.length = 2 ^ 63 - 1 :=
    ⟨[replicate (2 ^ 62) 0, replicate (2 ^ 62 - 1) 0], by
      rw [flatten_cons, flatten_singleton, length_append, length_replicate, length_replicate]
      decide⟩
  refine ⟨⟨batches ++ [[0]], ?_, run_panics count 0⟩, ⟨[], 0, 0⟩, rfl, rfl⟩
  rw [flatten_append, length_append, count]
  decide

end LastLeaf

end CreditChain
