import GpuWorkerPool.PostgresJobRows

/-!
The queue depth of both stores. The memory store counts its records one by one, the statement
returns the size of each group in no particular order; both arrive at the number of jobs that are
not settled, of each status and of each capability.
-/

namespace GpuWorkerPool

open Base

/-- A depth counts the jobs, each given by its capability and the text of its status. -/
structure QueueDepth.Counts (depth : QueueDepth) (jobs : List (String × String)) : Prop where
  queued : depth.queued = jobs.countP fun job => job.2 = "queued"
  processing : depth.processing = jobs.countP fun job => job.2 = "processing"
  byCapability : ∀ c, depth.byCapability.lookup c =
    if c ∈ jobs.map Prod.fst then
      some ⟨jobs.count (c, "queued"), jobs.count (c, "processing")⟩
    else none
  online : depth.onlineWorkersByCapability = Table.empty

/-- The jobs of the store that are not settled. -/
def MemoryJobStore.unsettled (s : MemoryJobStore) : List (String × String) :=
  (s.rows.filter fun r => r.status = .queued ∨ r.status = .processing).map fun r =>
    (r.capabilityId, r.status.text)

/-! ### One by one -/

theorem QueueDepth.Counts.getD {depth : QueueDepth} {jobs : List (String × String)}
    (h : depth.Counts jobs) (c : String) : (depth.byCapability.lookup c).getD {} =
      ⟨jobs.count (c, "queued"), jobs.count (c, "processing")⟩ := by
  rw [h.byCapability]
  split
  · rfl
  · rename_i hnew
    have hzero (status : String) : jobs.count (c, status) = 0 :=
      List.count_eq_zero.mpr fun hmem => hnew (List.mem_map_of_mem hmem)
    rw [hzero, hzero, Option.getD_none]

/-- What a new job of one capability does to the counts of another. -/
theorem count_concat (jobs : List (String × String)) (job other : String × String) :
    (jobs ++ [job]).count other = jobs.count other + if job = other then 1 else 0 := by
  rw [List.count_append, List.count_singleton]
  congr 1
  simp only [beq_iff_eq]

/-- The counts by capability after one more job. -/
theorem lookup_put_counts {counts : Dict String CapabilityQueueDepth}
    {jobs : List (String × String)}
    (h : ∀ c, counts.lookup c =
      if c ∈ jobs.map Prod.fst then
        some ⟨jobs.count (c, "queued"), jobs.count (c, "processing")⟩
      else none) (job : String × String) (c : String) :
    Dict.lookup (counts.put (job.1, ⟨(jobs ++ [job]).count (job.1, "queued"),
        (jobs ++ [job]).count (job.1, "processing")⟩)) c =
      if c ∈ (jobs ++ [job]).map Prod.fst then
        some ⟨(jobs ++ [job]).count (c, "queued"), (jobs ++ [job]).count (c, "processing")⟩
      else none := by
  rw [Dict.lookup_put, h, List.map_append, List.map_singleton]
  by_cases hc : job.1 = c
  · subst hc
    rw [if_pos rfl, if_pos (by simp)]
  · have hrest (status : String) : (jobs ++ [job]).count (c, status) = jobs.count (c, status) := by
      rw [count_concat, if_neg fun heq => hc (congrArg Prod.fst heq), Nat.add_zero]
    rw [if_neg hc, hrest, hrest]
    simp only [List.mem_append, List.mem_singleton, Ne.symm hc, or_false]

theorem QueueDepth.Counts.countJob {depth : QueueDepth} {jobs : List (String × String)}
    (h : depth.Counts jobs) {r : JobRecord}
    (hactive : r.status = .queued ∨ r.status = .processing) :
    (MemoryJobStore.countJob depth r).Counts (jobs ++ [(r.capabilityId, r.status.text)]) := by
  rw [MemoryJobStore.countJob, h.getD]
  rcases hactive with hstatus | hstatus <;> rw [hstatus]
  · refine ⟨?_, ?_, fun c => ?_, h.online⟩
    · simp [h.queued, List.countP_append, JobStatus.text]
    · simp [h.processing, List.countP_append, JobStatus.text]
    · have hput := lookup_put_counts h.byCapability (r.capabilityId, "queued") c
      rw [count_concat, count_concat, if_pos rfl, if_neg (by simp)] at hput
      exact hput
  · refine ⟨?_, ?_, fun c => ?_, h.online⟩
    · simp [h.queued, List.countP_append, JobStatus.text]
    · simp [h.processing, List.countP_append, JobStatus.text]
    · have hput := lookup_put_counts h.byCapability (r.capabilityId, "processing") c
      rw [count_concat, count_concat, if_neg (by simp), if_pos rfl] at hput
      exact hput

theorem MemoryJobStore.counts_queueDepth (s : MemoryJobStore) :
    s.queueDepth.Counts s.unsettled := by
  rw [queueDepth, unsettled]
  induction s.rows using List.reverseRecOn with
  | nil => exact ⟨rfl, rfl, fun c => rfl, rfl⟩
  | append_singleton rows r ih =>
      rw [List.foldl_append, List.foldl_cons, List.foldl_nil, List.filter_append, List.map_append]
      by_cases hactive : r.status = .queued ∨ r.status = .processing
      · simp only [List.filter_cons, List.filter_nil, hactive, decide_true, if_true]
        exact ih.countJob hactive
      · simp only [List.filter_cons, List.filter_nil, hactive, decide_false, Bool.false_eq_true,
          if_false, List.map_nil, List.append_nil]
        rw [not_or] at hactive
        rw [countJob]
        cases hstatus : r.status <;> first | exact ih | exact absurd hstatus hactive.1 |
          exact absurd hstatus hactive.2

/-! ### By groups -/

/-- The depth counts the jobs of the groups that were read. -/
structure QueueDepth.CountsGroups (depth : QueueDepth) (jobs groups : List (String × String)) :
    Prop where
  queued : depth.queued = ((groups.filter fun group => group.2 = "queued").map jobs.count).sum
  processing :
    depth.processing = ((groups.filter fun group => group.2 = "processing").map jobs.count).sum
  byCapability : ∀ c, depth.byCapability.lookup c =
    if c ∈ groups.map Prod.fst then
      some ⟨if (c, "queued") ∈ groups then jobs.count (c, "queued") else 0,
        if (c, "processing") ∈ groups then jobs.count (c, "processing") else 0⟩
    else none
  online : depth.onlineWorkersByCapability = Table.empty

theorem QueueDepth.CountsGroups.getD {depth : QueueDepth} {jobs groups : List (String × String)}
    (h : depth.CountsGroups jobs groups) (c : String) : (depth.byCapability.lookup c).getD {} =
      ⟨if (c, "queued") ∈ groups then jobs.count (c, "queued") else 0,
        if (c, "processing") ∈ groups then jobs.count (c, "processing") else 0⟩ := by
  rw [h.byCapability]
  split
  · rfl
  · rename_i hnew
    have hnot (status : String) : (c, status) ∉ groups := fun hmem =>
      hnew (List.mem_map_of_mem hmem)
    rw [if_neg (hnot _), if_neg (hnot _), Option.getD_none]

theorem QueueDepth.CountsGroups.countGroup {depth : QueueDepth}
    {jobs groups : List (String × String)} (h : depth.CountsGroups jobs groups)
    {group : String × String} (hnew : group ∉ groups)
    (hstatus : group.2 = "queued" ∨ group.2 = "processing") :
    (PostgresJobStore.countGroup depth (group, jobs.count group)).CountsGroups jobs
      (groups ++ [group]) := by
  obtain ⟨capability, status⟩ := group
  have hmem (c : String) : c ∈ (groups ++ [(capability, status)]).map Prod.fst ↔
      c ∈ groups.map Prod.fst ∨ capability = c := by
    simp [eq_comm]
  have hrest {c : String} (hc : capability ≠ c) (status' : String) :
      (c, status') ∈ groups ++ [(capability, status)] ↔ (c, status') ∈ groups := by
    rw [List.mem_append, List.mem_singleton, or_iff_left]
    exact fun heq => hc (Prod.mk.inj heq).1.symm
  rw [PostgresJobStore.countGroup, h.getD]
  dsimp only at hstatus ⊢
  rcases hstatus with rfl | rfl
  · rw [if_pos rfl]
    refine ⟨?_, ?_, fun c => ?_, h.online⟩
    · simp [h.queued, List.filter_append]
    · simp [h.processing, List.filter_append]
    · rw [Dict.lookup_put, h.byCapability]
      by_cases hc : capability = c
      · subst hc
        rw [if_pos rfl, if_pos ((hmem _).mpr (Or.inr rfl))]
        simp
      · simp only [hc, if_false, hmem, or_false, hrest hc]
  · rw [if_neg (by decide)]
    refine ⟨?_, ?_, fun c => ?_, h.online⟩
    · simp [h.queued, List.filter_append]
    · simp [h.processing, List.filter_append]
    · rw [Dict.lookup_put, h.byCapability]
      by_cases hc : capability = c
      · subst hc
        rw [if_pos rfl, if_pos ((hmem _).mpr (Or.inr rfl))]
        simp
      · simp only [hc, if_false, hmem, or_false, hrest hc]

theorem QueueDepth.countsGroups_foldl {jobs groups : List (String × String)}
    (hnodup : groups.Nodup)
    (hstatus : ∀ group ∈ groups, group.2 = "queued" ∨ group.2 = "processing") :
    QueueDepth.CountsGroups ((groups.map fun group => (group, jobs.count group)).foldl
      PostgresJobStore.countGroup {}) jobs groups := by
  induction groups using List.reverseRecOn with
  | nil => exact ⟨rfl, rfl, fun c => rfl, rfl⟩
  | append_singleton groups group ih =>
      rw [List.nodup_append] at hnodup
      have hnew : group ∉ groups := fun hmem =>
        hnodup.2.2 group hmem group (List.mem_singleton_self group) rfl
      rw [List.map_append, List.foldl_append, List.map_singleton, List.foldl_cons, List.foldl_nil]
      apply QueueDepth.CountsGroups.countGroup
      · exact ih hnodup.1 fun group hgroup => hstatus group (List.mem_append_left _ hgroup)
      · exact hnew
      · exact hstatus group (List.mem_append_right _ (List.mem_singleton_self group))

/-- Once every group is read each job is counted. -/
theorem QueueDepth.CountsGroups.counts {depth : QueueDepth} {jobs groups : List (String × String)}
    (h : depth.CountsGroups jobs groups) (hgroups : groups.Perm jobs.dedup) :
    depth.Counts jobs := by
  have hmem (group : String × String) : group ∈ groups ↔ group ∈ jobs :=
    hgroups.mem_iff.trans List.mem_dedup
  have hsum (p : String × String → Bool) :
      ((groups.filter p).map jobs.count).sum = jobs.countP p := by
    have hlawful : (instBEqProd : BEq (String × String)) = instBEqOfDecidableEq :=
      lawful_beq_subsingleton _ _
    rw [((hgroups.filter p).map jobs.count).sum_eq, hlawful]
    exact List.sum_map_count_dedup_filter_eq_countP p jobs
  have hcount (group : String × String) :
      (if group ∈ groups then jobs.count group else 0) = jobs.count group := by
    split
    · rfl
    · rename_i hnot
      exact (List.count_eq_zero.mpr (mt (hmem group).mpr hnot)).symm
  refine ⟨h.queued.trans (hsum _), h.processing.trans (hsum _), fun c => ?_, h.online⟩
  have hcapability : c ∈ groups.map Prod.fst ↔ c ∈ jobs.map Prod.fst := by
    simp only [List.mem_map, hmem]
  rw [h.byCapability, hcount, hcount]
  simp only [hcapability]

theorem counts_groups [GroupOrder] (s : MemoryJobStore) :
    (PostgresJobStore.queueDepth s.keptJobs).Counts s.unsettled := by
  have hunsettled : ((s.keptJobs.rows.filter fun row => Sql.isTrue row.active).map fun row =>
      (row.capabilityId, row.status)) = s.unsettled := by
    show ((s.rows.map PoolJobRow.kept).filter _).map _ = _
    rw [List.filter_map, List.map_map, MemoryJobStore.unsettled]
    congr 1
    apply List.filter_congr
    intro r _
    exact PoolJobRow.isTrue_active_kept r
  rw [PostgresJobStore.queueDepth, PoolJobs.groups, hunsettled]
  -- the order of the groups is that of their names
  have hperm := GroupOrder.perm (s.unsettled.dedup.map fun group =>
    (group, s.unsettled.count group))
  obtain ⟨groups, hgroups, harranged⟩ : ∃ groups : List (String × String),
      groups.Perm s.unsettled.dedup ∧ GroupOrder.arrange (s.unsettled.dedup.map fun group =>
        (group, s.unsettled.count group)) = groups.map fun group =>
          (group, s.unsettled.count group) := by
    refine ⟨(GroupOrder.arrange (s.unsettled.dedup.map fun group =>
      (group, s.unsettled.count group))).map Prod.fst, ?_, ?_⟩
    · have hnames := hperm.map Prod.fst
      rwa [List.map_map, List.map_id''] at hnames
      exact fun group => rfl
    · rw [List.map_map]
      refine (List.map_id _).symm.trans (List.map_congr_left fun group hgroup => ?_)
      obtain ⟨name, -, rfl⟩ := List.mem_map.mp (hperm.mem_iff.mp hgroup)
      rfl
  rw [harranged]
  refine (QueueDepth.countsGroups_foldl ?_ fun group hgroup => ?_).counts hgroups
  · exact hgroups.nodup_iff.mpr (List.nodup_dedup _)
  · have hmem := List.mem_dedup.mp (hgroups.mem_iff.mp hgroup)
    obtain ⟨r, hr, rfl⟩ := List.mem_map.mp hmem
    have hactive := of_decide_eq_true (List.mem_filter.mp hr).2
    rcases hactive with hstatus | hstatus <;> simp [hstatus, JobStatus.text]

end GpuWorkerPool
