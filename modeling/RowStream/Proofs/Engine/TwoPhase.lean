import Mathlib.Data.List.Forall2
import RowStream.Proofs.Aggregate.Split
import RowStream.Proofs.Collector.Regroup
import RowStream.Proofs.Engine.Grouping

/-!
# Aggregating in two phases

Rows can be aggregated shard by shard: a first phase writes the states of each shard, and a second
one merges what the first wrote. It comes to what one pass over all rows comes to, but for the sums of
averages, which are added up shard by shard.

* `Projection.aggregation_twoPhase` — all rows as one group.
* `Projection.group_twoPhase` — groups by keys, which come first in the same order.
-/

namespace RowStream

namespace Projection

open Aggregates GroupTable

variable {as : List Aggregation} {rows : List Row} {shards : List (List Row)}

theorem isInfix_flatten {shard : List Row} (h : shard ∈ shards) : shard <:+: shards.flatten := by
  obtain ⟨before, after, hcut⟩ := List.append_of_mem h
  exact ⟨before.flatten, after.flatten, by simp [hcut]⟩

/-- What aggregation writes for a shard. -/
theorem makes_written (footprint : Footprint) (g : Granularity) (h : ∀ a ∈ as, a.Fits rows) :
    Makes footprint (.aggregation ⟨as, .iterPartial, g⟩) rows [as.map (·.written rows)] := by
  have hmakes := makes_aggregation footprint ⟨as, .iterPartial, g⟩ (fold_rows as rfl h)
  rw [emit_map] at hmakes
  exact hmakes

/-- **Aggregation in two phases.** Each shard is aggregated to a row of written states. Aggregates
that read these rows column by column come to the values of one pass over all rows, but for averages:
these have the same count, and the sum of the written sums from the first on. -/
theorem aggregation_twoPhase (footprint : Footprint) (as : List Aggregation)
    (first second once : Granularity)
    (hshards : shards.flatten = rows) (hfits : ∀ a ∈ as, a.Fits rows) :
    let merging : Aggregates := ⟨mergers 0 as, .partialFinal⟩
    let direct : Aggregates := ⟨as, .iterFinal⟩
    ∃ (written : List Row) (states whole : List AggState),
      List.Forall₂ (fun shard row => Makes footprint (.aggregation ⟨as, .iterPartial, first⟩) shard
        [row]) shards written ∧
      (Collector.totals (.new merging)).takeAll written = .ok (.totals ⟨merging, states⟩) ∧
      (Collector.totals (.new direct)).takeAll rows = .ok (.totals ⟨direct, whole⟩) ∧
      Makes footprint (.aggregation ⟨mergers 0 as, .partialFinal, second⟩) written
        [merging.emit states] ∧
      Makes footprint (.aggregation ⟨as, .iterFinal, once⟩) rows [direct.emit whole] ∧
      Agree 0 as written states whole := by
  intro merging direct
  -- the shards as cells of a table without keys
  let cells : List (Row × List Row) := shards.map fun shard => ([], shard)
  have hpieces : cells.map (·.2) = shards := by simp [cells, Function.comp_def]
  have hflatten : (cells.map (·.2)).flatten = rows := by rw [hpieces, hshards]
  have hfirst : ∀ c ∈ cells, c.1.length = 0 := fun c hc => by
    obtain ⟨shard, -, rfl⟩ := List.mem_map.1 hc
    rfl
  have hwhole : direct.fold direct.init rows = .ok _ := fold_rows as rfl hfits
  have hstates : merging.fold merging.init _ = .ok _ := fold_pieces as hfirst (by
    rw [hflatten]
    exact fun a ha => (hfits a ha).accepts)
  refine ⟨_, _, _, ?_, ?_, ?_, makes_aggregation footprint ⟨_, _, second⟩ hstates,
    makes_aggregation footprint ⟨_, _, once⟩ hwhole, agree_of_cells as hfirst hflatten⟩
  · rw [List.map_map, List.forall₂_map_right_iff, List.forall₂_same]
    intro shard hshard
    have hpiece : shard <:+: rows := hshards ▸ isInfix_flatten hshard
    exact makes_written footprint first fun a ha => (hfits a ha).mono hpiece
  · rw [Collector.takeAll_totals]
    exact congrArg (Except.map _) hstates
  · rw [Collector.takeAll_totals]
    exact congrArg (Except.map _) hwhole

/-- Three shards, one of them empty, with a null and with a tie for the least value. -/
def cut : List (List Row) := [[[.int64 2], [.null]], [], [[.int32 2], [.int64 3]]]

def sumMinAvg : List Aggregation := [⟨.sum, [0]⟩, ⟨.min, [0]⟩, ⟨.avg, [0]⟩]

/-- The sum of all shards, and of the least values the one that came first. -/
theorem aggregation_twoPhase_cut : ∃ written final,
    List.Forall₂ (fun shard row => Makes .standard (.aggregation ⟨sumMinAvg, .iterPartial, .shard⟩)
      shard [row]) cut written ∧
    Makes .standard (.aggregation ⟨mergers 0 sumMinAvg, .partialFinal, .node⟩) written [final] ∧
    final[0]? = some (.int64 7) ∧ final[1]? = some (.int64 2) := by
  obtain ⟨written, states, whole, hfirst, -, hwhole, hsecond, -, hagree⟩ :=
    aggregation_twoPhase .standard sumMinAvg .shard .node .node (rfl : cut.flatten = cut.flatten)
      (by decide)
  rw [Collector.takeAll_totals] at hwhole
  cases hwhole
  exact ⟨written, _, hfirst, hsecond, hagree.values 0 _ rfl (by decide),
    hagree.values 1 _ rfl (by decide)⟩

/-! ## Groups

The same by classes. Of each class the first phase writes a row for each shard that has it, and the
second phase finds these rows in one class again, in the order of the shards. -/

variable {keys : List Nat}

/-- The states of a class, as they are written behind its key. -/
def writtenOf (as : List Aggregation) (keys : List Nat) (piece : List Row) (key : Row) : Row :=
  as.map (·.written (part keys key piece))

/-- What grouping writes for a shard. -/
theorem makes_groupRows (footprint : Footprint) (g : Granularity)
    (hkeys : ∀ row ∈ rows, ∀ i ∈ keys, i < row.length)
    (hfits : ∀ key ∈ firstKeys keys rows, ∀ a ∈ as, a.Fits (part keys key rows)) :
    Makes footprint (.group ⟨keys, as, .iterPartial, g⟩) rows
      (groupRows keys (writtenOf as keys) rows) := by
  obtain ⟨t, htake, haggregates, hgroups⟩ := exists_takeAll_of_fold footprint
    (fun row hrow => ⟨_, keyOf_of_lt (hkeys row hrow)⟩)
    fun key hkey => fold_rows as (rfl : AggregateMode.iterPartial.consumesPartial = false)
      (hfits key hkey)
  refine (congrArg (Makes footprint _ rows) ?_).mp
    (makes_group footprint ⟨keys, as, .iterPartial, g⟩ htake haggregates)
  rw [hgroups, groupsOf, List.map_map]
  exact List.map_congr_left fun key _ => congrArg (key ++ ·) (emit_map as .iterPartial _)

/-- **Grouping in two phases.** The groups of each shard are written into rows, one behind the other,
and these are grouped again by the keys in front. The groups are those of one pass over all rows, in
the same order and with the same keys; and so are their values, but for averages: these have the same
count, and the sum of the written sums of the group, from the first on. -/
theorem group_twoPhase (footprint : Footprint) (keys : List Nat) (as : List Aggregation)
    (first second once : Granularity)
    (hshards : shards.flatten = rows) (hkeys : ∀ row ∈ rows, ∀ i ∈ keys, i < row.length)
    (hfits : ∀ key ∈ firstKeys keys rows, ∀ a ∈ as, a.Fits (part keys key rows)) :
    let front := List.range keys.length
    let merging : Aggregates := ⟨mergers keys.length as, .partialFinal⟩
    let direct : Aggregates := ⟨as, .iterFinal⟩
    ∃ (written : List (List Row)) (groups whole : GroupTable),
      List.Forall₂ (fun shard out => Makes footprint (.group ⟨keys, as, .iterPartial, first⟩) shard
        out) shards written ∧
      (Collector.group (.new front merging footprint)).takeAll written.flatten =
        .ok (.group groups) ∧
      (Collector.group (.new keys direct footprint)).takeAll rows = .ok (.group whole) ∧
      Makes footprint (.group ⟨front, mergers keys.length as, .partialFinal, second⟩)
        written.flatten (groups.groups.map (GroupTable.emit merging)) ∧
      Makes footprint (.group ⟨keys, as, .iterFinal, once⟩) rows
        (whole.groups.map (GroupTable.emit direct)) ∧
      List.Forall₂ (fun g h => g.key = h.key ∧
        Agree keys.length as (part front g.key written.flatten) g.states h.states)
        groups.groups whole.groups := by
  intro front merging direct
  -- one pass
  obtain ⟨whole, hwhole, hdirect, hwholes⟩ := exists_takeAll_of_fold footprint
    (fun row hrow => ⟨_, keyOf_of_lt (hkeys row hrow)⟩)
    fun key hkey => fold_rows as (rfl : AggregateMode.iterFinal.consumesPartial = false)
      (hfits key hkey)
  -- the rows that were written for a class
  have hparts (key : Row) : part front key (grouped keys (writtenOf as keys) shards) =
      (shares keys key shards).map fun c => c.1 ++ as.map (·.written c.2) :=
    part_grouped key shards fun piece => as.map (·.written piece)
  have hlength (key : Row) : ∀ c ∈ shares keys key shards, c.1.length = keys.length :=
    fun _ => length_of_mem_shares
  have hflatten (key : Row) : ((shares keys key shards).map (·.2)).flatten = part keys key rows := by
    rw [flatten_shares, hshards]
  -- the second pass
  obtain ⟨groups, hmerged, hmerging, hgroups⟩ := exists_takeAll_of_fold (s := merging) footprint
    (fun row hrow => exists_keyOf_grouped hrow)
    fun key hkey => by
      rw [firstKeys_grouped, hshards] at hkey
      have hfold := fold_pieces as (hlength key) fun a ha => by
        rw [hflatten]
        exact (hfits key hkey a ha).accepts
      rw [hparts]
      exact hfold
  rw [firstKeys_grouped, hshards] at hgroups
  refine ⟨shards.map (groupRows keys (writtenOf as keys)), groups, whole, ?_, hmerged, hwhole,
    makes_group footprint ⟨_, _, _, second⟩ hmerged hmerging,
    makes_group footprint ⟨_, _, _, once⟩ hwhole hdirect, ?_⟩
  · rw [List.forall₂_map_right_iff, List.forall₂_same]
    intro shard hshard
    have hpiece : shard <:+: rows := hshards ▸ isInfix_flatten hshard
    exact makes_groupRows footprint first (fun row hrow => hkeys row (hpiece.subset hrow))
      fun key hkey a ha => by
        obtain ⟨k, hk, hsame⟩ := exists_firstKeys hpiece.subset hkey
        rw [← part_congr hsame]
        exact (hfits k hk a ha).mono (hpiece.filter _)
  · rw [hgroups, hwholes, groupsOf, groupsOf, List.forall₂_map_left_iff, List.forall₂_map_right_iff, List.forall₂_same]
    refine fun key _ => ⟨rfl, ?_⟩
    have hagree := agree_of_cells as (hlength key) (hflatten key)
    rw [← hparts] at hagree
    exact hagree

/-- The same with keys: nulls, and zeros of both signs. -/
def cutByKey : List (List Row) :=
  [[[.null, .int64 2], [.float64 ⟨0⟩, .null]], [],
    [[.float64 ⟨0x8000000000000000⟩, .int32 2], [.null, .int64 3], [.float64 ⟨0⟩, .int32 5]]]

def sumAvgByKey : List Aggregation := [⟨.sum, [1]⟩, ⟨.avg, [1]⟩]

/-- Two groups, in the order in which their keys came first in any shard. -/
theorem group_twoPhase_cutByKey : ∃ written final,
    List.Forall₂ (fun shard out => Makes .standard
      (.group ⟨[0], sumAvgByKey, .iterPartial, .shard⟩) shard out) cutByKey written ∧
    Makes .standard (.group ⟨[0], mergers 1 sumAvgByKey, .partialFinal, .node⟩) written.flatten
      final ∧
    final.map (·[0]?) = [some .null, some (.float64 ⟨0⟩)] ∧
    final.map (·[1]?) = [some (.int64 5), some (.int64 7)] := by
  obtain ⟨written, groups, whole, hfirst, -, hwhole, hsecond, -, hgroups⟩ :=
    group_twoPhase .standard [0] sumAvgByKey .shard .node .node
      (rfl : cutByKey.flatten = cutByKey.flatten) (by decide) (by decide)
  have hwhole : whole.groups =
      [⟨[.null], [.sum (some (.integer 5)), .avg (.zero + .ofInt 2 + .ofInt 3) 2]⟩,
        ⟨[.float64 ⟨0⟩], [.sum (some (.integer 7)), .avg (.zero + .ofInt 2 + .ofInt 5) 2]⟩] := by
    cases hwhole
    rfl
  rw [hwhole] at hgroups
  generalize groups.groups = gs at hgroups hsecond
  rcases hgroups with _ | ⟨⟨hnull, hfive⟩, _ | ⟨⟨hzero, hseven⟩, _ | _⟩⟩
  have hfive := hfive.values 0 _ rfl (by decide)
  have hseven := hseven.values 0 _ rfl (by decide)
  refine ⟨written, _, hfirst, hsecond, ?_, ?_⟩
  · simp [GroupTable.emit, hnull, hzero]
  · simpa [GroupTable.emit, hnull, hzero] using ⟨hfive, hseven⟩

end Projection

end RowStream
