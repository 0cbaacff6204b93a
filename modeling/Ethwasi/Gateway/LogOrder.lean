import Ethwasi.Gateway.LogViews

/-!
# The order of a log search

The node answers a query for transactions in any order, and the entries of a log search are sorted
by their block numbers only. Entries of different blocks come out in the order of the chain. Those
of one block keep the order in which the node returned their transactions, which is the order of
the block only if the node happens to use it.
-/

namespace Ethwasi.Gateway

open Ethwasi.Rust Ethwasi.Runtime

variable {σ V : Type} {host : Host σ V} {filter : Filter}

/-- The order of the chain: by block, transaction and position in the transaction. -/
def LocalizedLogEntry.Precedes (first second : LocalizedLogEntry) : Prop :=
  first.blockNumber < second.blockNumber ∨
    first.blockNumber = second.blockNumber ∧
      (first.transactionIndex < second.transactionIndex ∨
        first.transactionIndex = second.transactionIndex ∧
          first.transactionLogIndex < second.transactionLogIndex)

theorem LocalizedLogEntry.Precedes.asymm {first second : LocalizedLogEntry}
    (precedes : first.Precedes second) : ¬second.Precedes first := by
  unfold LocalizedLogEntry.Precedes at precedes ⊢
  omega

/-- The entries of one transaction are in order. -/
theorem pairwise_transactionLogs (host : Host σ V) (filter : Filter)
    (txn : TransactionSnapshot V) :
    (transactionLogs host filter txn).Pairwise LocalizedLogEntry.Precedes := by
  have increasing : (shownLogs host txn).Pairwise fun a b =>
      a.transactionLogIndex < b.transactionLogIndex := by
    rw [← List.pairwise_map (f := fun entry : LocalizedLogEntry => entry.transactionLogIndex)
      (R := (· < ·)), (indices_of_shownLogs host txn).2]
    exact List.pairwise_lt_range
  have ordered : (transactionLogs host filter txn).Pairwise fun a b =>
      a.transactionLogIndex < b.transactionLogIndex := by
    rw [transactionLogs_eq]
    exact increasing.filter _
  refine ordered.imp_of_mem fun {a b} inA inB less => ?_
  obtain ⟨blockA, indexA⟩ := place_of_mem_transactionLogs inA
  obtain ⟨blockB, indexB⟩ := place_of_mem_transactionLogs inB
  exact .inr ⟨blockA.trans blockB.symm, .inr ⟨indexA.trans indexB.symm, less⟩⟩

section Answer

variable {txns : List (TransactionSnapshot V)}

/-- The transactions of each block that have entries come in the order of the block. -/
def InBlockOrder (host : Host σ V) (filter : Filter) (txns : List (TransactionSnapshot V)) : Prop :=
  txns.Pairwise fun a b => a.block.round = b.block.round →
    transactionLogs host filter a ≠ [] → transactionLogs host filter b ≠ [] → a.index < b.index

/-- At most one transaction of each block has entries. -/
def OneForEachBlock (host : Host σ V) (filter : Filter) (txns : List (TransactionSnapshot V)) :
    Prop :=
  txns.Pairwise fun a b => a.block.round = b.block.round →
    transactionLogs host filter a = [] ∨ transactionLogs host filter b = []

theorem OneForEachBlock.inBlockOrder (single : OneForEachBlock host filter txns) :
    InBlockOrder host filter txns :=
  single.imp fun one sameBlock someA someB => by
    rcases one sameBlock with noneA | noneB
    · exact absurd noneA someA
    · exact absurd noneB someB

theorem OneForEachBlock.perm {other : List (TransactionSnapshot V)} (perm : other.Perm txns)
    (single : OneForEachBlock host filter txns) : OneForEachBlock host filter other :=
  (perm.pairwise_iff fun one sameBlock => (one sameBlock.symm).symm).mpr single

/-- The entries of two transactions with different places are in order when those of one block are
in the order of the block. -/
theorem precedes_iff_index_lt {a b : TransactionSnapshot V} (different : a.place ≠ b.place) :
    (∀ x ∈ transactionLogs host filter a, ∀ y ∈ transactionLogs host filter b,
        x.blockNumber = y.blockNumber → x.Precedes y) ↔
      (a.block.round = b.block.round → transactionLogs host filter a ≠ [] →
        transactionLogs host filter b ≠ [] → a.index < b.index) := by
  constructor
  · intro ordered sameBlock someA someB
    obtain ⟨x, inA⟩ := List.exists_mem_of_ne_nil _ someA
    obtain ⟨y, inB⟩ := List.exists_mem_of_ne_nil _ someB
    obtain ⟨blockX, indexX⟩ := place_of_mem_transactionLogs inA
    obtain ⟨blockY, indexY⟩ := place_of_mem_transactionLogs inB
    have otherIndex : a.index ≠ b.index := fun sameIndex => different (Prod.ext sameBlock sameIndex)
    have precedes := ordered x inA y inB (by rw [blockX, blockY, sameBlock])
    unfold LocalizedLogEntry.Precedes at precedes
    omega
  · intro ordered x inA y inB sameNumber
    obtain ⟨blockX, indexX⟩ := place_of_mem_transactionLogs inA
    obtain ⟨blockY, indexY⟩ := place_of_mem_transactionLogs inB
    have less := ordered (by rw [← blockX, ← blockY, sameNumber]) (List.ne_nil_of_mem inA)
      (List.ne_nil_of_mem inB)
    exact .inr ⟨sameNumber, .inl (by rw [indexX, indexY]; exact less)⟩

/-- The result is in the order of the chain exactly when the answer was in that of the blocks. -/
theorem pairwise_precedes_iff (once : (txns.map (·.place)).Nodup) :
    (sortByKey (·.blockNumber) (txns.flatMap (transactionLogs host filter))).Pairwise
        LocalizedLogEntry.Precedes ↔ InBlockOrder host filter txns := by
  have different : txns.Pairwise fun a b => a.place ≠ b.place := List.pairwise_map.mp once
  rw [pairwise_sortByKey_iff fun a b less => .inl less, List.pairwise_flatMap]
  constructor
  · intro ordered
    exact (different.and ordered.2).imp fun both => (precedes_iff_index_lt both.1).mp both.2
  · intro ordered
    refine ⟨?_, (different.and ordered).imp fun both => (precedes_iff_index_lt both.1).mpr both.2⟩
    intro txn _
    apply (pairwise_transactionLogs host filter txn).imp
    exact fun precedes _ => precedes

/-- The first entry of its block in the result is that of the first transaction of the answer. -/
theorem head_of_block {first : TransactionSnapshot V} {entry : LocalizedLogEntry}
    {rest : List LocalizedLogEntry} (entries : transactionLogs host filter first = entry :: rest) :
    ((sortByKey (·.blockNumber) ((first :: txns).flatMap (transactionLogs host filter))).filter
      fun other => decide (other.blockNumber = first.block.round)).head? = some entry := by
  have inBlock : entry.blockNumber = first.block.round :=
    (place_of_mem_transactionLogs (by rw [entries]; exact List.mem_cons_self)).1
  rw [filter_sortByKey fun a _ b _ ofA ofB =>
      (of_decide_eq_true ofA).trans (of_decide_eq_true ofB).symm,
    List.flatMap_cons, entries, List.cons_append, List.filter_cons_of_pos, List.head?_cons]
  exact decide_eq_true inBlock

/-- Two transactions of a block with entries, returned in the two orders, give different
results. -/
theorem sortByKey_swap_ne {a b : TransactionSnapshot V} (different : a.place ≠ b.place)
    (sameBlock : a.block.round = b.block.round) (someA : transactionLogs host filter a ≠ [])
    (someB : transactionLogs host filter b ≠ []) :
    sortByKey (·.blockNumber) ((a :: b :: txns).flatMap (transactionLogs host filter)) ≠
      sortByKey (·.blockNumber) ((b :: a :: txns).flatMap (transactionLogs host filter)) := by
  intro same
  obtain ⟨x, restA, entriesA⟩ := List.exists_cons_of_ne_nil someA
  obtain ⟨y, restB, entriesB⟩ := List.exists_cons_of_ne_nil someB
  have firstA := @head_of_block _ _ _ _ (b :: txns) _ _ _ entriesA
  have firstB := @head_of_block _ _ _ _ (a :: txns) _ _ _ entriesB
  rw [same, sameBlock, firstB] at firstA
  cases firstA
  have ofA := place_of_mem_transactionLogs (by rw [entriesA]; exact List.mem_cons_self)
  have ofB := place_of_mem_transactionLogs (by rw [entriesB]; exact List.mem_cons_self)
  exact different (Prod.ext sameBlock (ofA.2.symm.trans ofB.2))

end Answer

/-- A log search returns the matching entries in the order of the chain exactly when, of the
transactions with entries, those of each block were returned in the order of the block; and it
returns the same list for every order of the answer exactly when at most one transaction of each
block has entries. -/
theorem log_order_iff (client : NodeClient V) (filter : Filter) (resolves : client.Resolves filter)
    (txns : List (TransactionSnapshot V)) (once : (txns.map (·.place)).Nodup) :
    ∃ found, logs host (client.answering txns) filter = .ok found ∧
      found.Perm (txns.flatMap (transactionLogs host filter)) ∧
      (found.Pairwise LocalizedLogEntry.Precedes ↔ InBlockOrder host filter txns) ∧
      ((∀ other : List (TransactionSnapshot V), other.Perm txns →
          logs host (client.answering other) filter = .ok found) ↔
        OneForEachBlock host filter txns) := by
  refine ⟨_, logs_answering resolves txns, sortByKey_perm, pairwise_precedes_iff once, ?_⟩
  simp only [logs_answering resolves, Except.ok.injEq]
  constructor
  · intro stable
    refine List.pairwise_iff_forall_sublist.mpr fun {a b} sub sameBlock => ?_
    by_contra both
    obtain ⟨someA, someB⟩ := not_or.mp both
    have different : a.place ≠ b.place :=
      List.pairwise_iff_forall_sublist.mp (List.pairwise_map.mp once) sub
    obtain ⟨rest, perm⟩ := sub.exists_perm_append
    have one := stable (a :: b :: rest) perm.symm
    have other := stable (b :: a :: rest) ((List.Perm.swap a b rest).trans perm.symm)
    exact sortByKey_swap_ne different sameBlock someA someB (one.trans other.symm)
  · intro single other perm
    have onceOther : (other.map (·.place)).Nodup := (perm.map _).nodup_iff.mpr once
    have orderedOther := (pairwise_precedes_iff onceOther).mpr (single.perm perm).inBlockOrder
    have ordered := (pairwise_precedes_iff once).mpr single.inBlockOrder
    refine List.Perm.eq_of_pairwise ?_ orderedOther ordered ?_
    · intro a b _ _ precedes follows
      exact absurd follows precedes.asymm
    · exact sortByKey_perm.trans ((perm.flatMap_right _).trans sortByKey_perm.symm)

/-- The two transactions of the sample block, returned in the order of the block, give a result in
the order of the chain. -/
theorem block_order_kept :
    ∃ found, logs sampleHost (sampleClient.answering pairSnapshots) (sampleFilter none) =
        .ok found ∧ found.Pairwise LocalizedLogEntry.Precedes := by
  obtain ⟨found, returned, _, ordered, _⟩ := log_order_iff sampleClient (sampleFilter none)
    (sampleClient_resolves none) pairSnapshots (by decide)
  refine ⟨found, returned, ordered.mpr ?_⟩
  unfold InBlockOrder
  decide

/-- Returned in the other order, they give a result in the other order. -/
theorem block_order_lost :
    logs sampleHost (sampleClient.answering pairSnapshots) (sampleFilter none) =
        .ok [pairEntry 7 0, pairEntry 8 1] ∧
      logs sampleHost (sampleClient.answering pairSnapshots.reverse) (sampleFilter none) =
        .ok [pairEntry 8 1, pairEntry 7 0] ∧
      pairSnapshots.reverse.Perm pairSnapshots := by
  have kept : sortByKey (·.blockNumber) [pairEntry 7 0, pairEntry 8 1] =
      [pairEntry 7 0, pairEntry 8 1] := sortByKey_of_pairwise (by decide)
  have swapped : sortByKey (·.blockNumber) [pairEntry 8 1, pairEntry 7 0] =
      [pairEntry 8 1, pairEntry 7 0] := sortByKey_of_pairwise (by decide)
  exact ⟨congrArg Except.ok kept, congrArg Except.ok swapped, List.reverse_perm _⟩

end Ethwasi.Gateway
