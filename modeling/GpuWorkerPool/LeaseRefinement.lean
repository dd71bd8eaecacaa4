import GpuWorkerPool.PostgresLease

/-!
The memory lease against the SQL lease, run alone on the same jobs. Both keep the same candidates
and write the same fields. The statement orders by priority, age and job id, and `min` by priority
and age only, so of equal jobs the memory store offers the one stored first. The two leases
therefore agree exactly when the first stored of the best candidates has the least job id.
-/

namespace GpuWorkerPool

open Base

namespace JobRecord

variable {r q p : JobRecord}

theorem before_iff :
    r.before q ↔ r.priority < q.priority ∨ r.priority = q.priority ∧ r.createdAt < q.createdAt := by
  simp [before]

theorem not_before_iff : r.before q = false ↔
    q.priority < r.priority ∨ q.priority = r.priority ∧ q.createdAt ≤ r.createdAt := by
  rw [← Bool.not_eq_true, before_iff]
  unfold DateTime
  omega

theorem before_trans (hrq : r.before q) (hqp : q.before p) : r.before p := by
  rw [before_iff] at hrq hqp ⊢
  unfold DateTime at *
  omega

theorem before_of_not_before (hrq : r.before q) (hpq : p.before q = false) : r.before p := by
  rw [not_before_iff] at hpq
  rw [before_iff] at hrq ⊢
  unfold DateTime at *
  omega

theorem not_before_of_before (h : r.before q) : q.before r = false := by
  rw [not_before_iff]
  rw [before_iff] at h
  unfold DateTime at *
  omega

theorem not_before_self (r : JobRecord) : r.before r = false :=
  not_before_iff.mpr (Or.inr ⟨rfl, le_refl _⟩)

end JobRecord

section Order

/-- The fold of `min` ends at a job that is before all the earlier ones and after none of the
later ones. -/
theorem foldl_before_split {rest : List JobRecord} {best least : JobRecord}
    (h : rest.foldl (fun best q => if q.before best then q else best) best = least) :
    ∃ earlier later, best :: rest = earlier ++ least :: later ∧
      (∀ q ∈ earlier, least.before q) ∧ ∀ q ∈ later, q.before least = false := by
  induction rest generalizing best with
  | nil => exact ⟨[], [], by rw [← h]; rfl, by simp, by simp⟩
  | cons q rest ih =>
      rw [List.foldl_cons] at h
      by_cases hbefore : q.before best
      · rw [if_pos hbefore] at h
        obtain ⟨earlier, later, hsplit, hearlier, hlater⟩ := ih h
        refine ⟨best :: earlier, later, by rw [hsplit, List.cons_append], ?_, hlater⟩
        intro p hp
        rcases List.mem_cons.mp hp with rfl | hp
        · cases earlier with
          | nil => exact (List.cons.inj hsplit).1 ▸ hbefore
          | cons first earlier =>
              obtain ⟨rfl, -⟩ := List.cons.inj hsplit
              exact JobRecord.before_trans (hearlier q List.mem_cons_self) hbefore
        · exact hearlier p hp
      · rw [if_neg hbefore] at h
        rw [Bool.not_eq_true] at hbefore
        obtain ⟨earlier, later, hsplit, hearlier, hlater⟩ := ih h
        cases earlier with
        | nil =>
            obtain ⟨rfl, rfl⟩ := List.cons.inj hsplit
            refine ⟨[], q :: rest, rfl, by simp, ?_⟩
            intro p hp
            rcases List.mem_cons.mp hp with rfl | hp
            · exact hbefore
            · exact hlater p hp
        | cons first earlier =>
            obtain ⟨rfl, hrest⟩ := List.cons.inj hsplit
            have hbest := hearlier best List.mem_cons_self
            refine ⟨best :: q :: earlier, later, congrArg (fun rest => best :: q :: rest) hrest, ?_,
              hlater⟩
            intro p hp
            rcases List.mem_cons.mp hp with rfl | hp
            · exact hbest
            · rcases List.mem_cons.mp hp with rfl | hp
              · exact JobRecord.before_of_not_before hbest hbefore
              · exact hearlier p (List.mem_cons_of_mem _ hp)

/-- The jobs that no job comes before by priority and age, in stored order. -/
def leastOf (candidates : List JobRecord) : List JobRecord :=
  candidates.filter fun r => candidates.all fun q => !q.before r

theorem mem_leastOf {candidates : List JobRecord} {r : JobRecord} :
    r ∈ leastOf candidates ↔ r ∈ candidates ∧ ∀ q ∈ candidates, q.before r = false := by
  simp [leastOf]

theorem firstOf_eq_head (candidates : List JobRecord) :
    firstOf candidates = (leastOf candidates).head? := by
  cases candidates with
  | nil => rfl
  | cons first rest =>
      rw [firstOf]
      generalize hleast : rest.foldl (fun best q => if q.before best then q else best) first = least
      obtain ⟨earlier, later, hsplit, hearlier, hlater⟩ := foldl_before_split hleast
      rw [leastOf, List.head?_filter, hsplit]
      refine (List.find?_eq_some_iff_append.mpr ⟨?_, earlier, later, rfl, ?_⟩).symm
      · rw [List.all_eq_true]
        intro q hq
        rw [Bool.not_eq_true']
        rcases List.mem_append.mp hq with hq | hq
        · exact JobRecord.not_before_of_before (hearlier q hq)
        · rcases List.mem_cons.mp hq with rfl | hq
          · exact q.not_before_self
          · exact hlater q hq
      · intro q hq
        rw [Bool.not_eq_true', List.all_eq_false]
        refine ⟨least, List.mem_append_right _ List.mem_cons_self, ?_⟩
        rw [hearlier q hq]
        decide

/-- The order of the statement is priority and age first, and the job id among equals. -/
theorem leaseOrder_ofRecord {r q : JobRecord} :
    (PoolJobRow.ofRecord r).leaseOrder (PoolJobRow.ofRecord q) = false ↔
      r.before q = false ∧ (q.before r = false → q.jobId ≤ r.jobId) := by
  have hle : q.jobId ≤ r.jobId ↔ ¬ r.jobId < q.jobId := not_lt.symm
  rw [JobRecord.not_before_iff, JobRecord.not_before_iff, hle, ← Bool.not_eq_true,
    PoolJobRow.leaseOrder_iff]
  simp only [PoolJobRow.ofRecord]
  unfold DateTime
  by_cases hid : r.jobId < q.jobId
  · simp only [hid, not_true_eq_false, imp_false, and_true]
    omega
  · simp only [hid, not_false_eq_true, imp_true_iff, and_true, and_false, or_false]
    omega

end Order

/-- The same jobs in Postgres. -/
def MemoryJobStore.poolJobs (s : MemoryJobStore) : PoolJobs where
  rows := s.rows.map PoolJobRow.ofRecord
  keys_nodup := by
    rw [List.map_map]
    exact s.keys_nodup

theorem MemoryJobStore.get?_poolJobs (s : MemoryJobStore) (j : String) :
    s.poolJobs.get? j = (s.get? j).map PoolJobRow.ofRecord := by
  rw [Table.get?, Table.get?, poolJobs, List.find?_map]
  rfl

section Refinement

variable [PyText]

/-- The jobs the worker may claim. -/
def MemoryJobStore.candidates (s : MemoryJobStore) (now : DateTime) (query : LeaseQuery) :
    List JobRecord :=
  s.rows.filter (isCandidate query now)

/-- The two leases claim the same job or none, and leave the same jobs behind. -/
structure LeasesAgree [Sql.JsonbText] [PyStr] (s : MemoryJobStore) (now : DateTime) (token : String)
    (query : LeaseQuery) : Prop where
  answer : (s.poolJobs.lease now token query).2.map PoolJobRow.record =
    (s.lease now token query).2.map Except.ok
  jobs : ∀ j, (s.poolJobs.lease now token query).1.get? j =
    ((s.lease now token query).1.get? j).map PoolJobRow.ofRecord

/-- Of the best candidates by priority and age, the first stored has the least job id. -/
def FirstHasLeastId (s : MemoryJobStore) (now : DateTime) (query : LeaseQuery) : Prop :=
  ∀ r ∈ (leastOf (s.candidates now query)).head?, ∀ q ∈ leastOf (s.candidates now query),
    r.jobId ≤ q.jobId

theorem MemoryJobStore.selected_eq_head (s : MemoryJobStore) (now : DateTime)
    (query : LeaseQuery) :
    s.selected now query = (leastOf (s.candidates now query)).head? :=
  firstOf_eq_head _

theorem filter_leaseClause [Sql.JsonbText] (s : MemoryJobStore) (now : DateTime) (query : LeaseQuery) :
    (s.poolJobs.rows.filter fun row => Sql.isTrue (row.leaseClause query now)) =
      (s.candidates now query).map PoolJobRow.ofRecord := by
  rw [MemoryJobStore.poolJobs, List.filter_map, MemoryJobStore.candidates]
  congr 1
  apply List.filter_congr
  intro r _
  exact PoolJobRow.leaseClause_ofRecord query now r

/-- The statement's choice: of the best candidates, the one with the least job id. -/
def LeastId (s : MemoryJobStore) (now : DateTime) (query : LeaseQuery) (r : JobRecord) : Prop :=
  r ∈ leastOf (s.candidates now query) ∧
    ∀ q ∈ leastOf (s.candidates now query), r.jobId ≤ q.jobId

theorem mem_of_mem_leastOf {s : MemoryJobStore} {now : DateTime} {query : LeaseQuery}
    {r : JobRecord} (h : r ∈ leastOf (s.candidates now query)) : r ∈ s.rows :=
  (List.mem_filter.mp (mem_leastOf.mp h).1).1

theorem LeastId.unique {s : MemoryJobStore} {now : DateTime} {query : LeaseQuery}
    {r q : JobRecord} (hr : LeastId s now query r) (hq : LeastId s now query q) : r = q := by
  have hid : r.jobId = q.jobId := le_antisymm (hr.2 q hq.1) (hq.2 r hr.1)
  have hrow := Table.get?_key_of_mem (mem_of_mem_leastOf hr.1)
  rw [hid, Table.get?_key_of_mem (mem_of_mem_leastOf hq.1)] at hrow
  exact (Option.some.inj hrow).symm

theorem leastId_iff {s : MemoryJobStore} {now : DateTime} {query : LeaseQuery} {r : JobRecord}
    (hr : r ∈ s.candidates now query) :
    LeastId s now query r ↔ ∀ q ∈ s.candidates now query,
      (PoolJobRow.ofRecord q).leaseOrder (PoolJobRow.ofRecord r) = false := by
  constructor
  · rintro ⟨hleast, hid⟩ q hq
    refine leaseOrder_ofRecord.mpr ⟨(mem_leastOf.mp hleast).2 q hq, fun hrq => hid q ?_⟩
    -- a candidate that ties with one of the best is one of the best
    refine mem_leastOf.mpr ⟨hq, fun p hp => ?_⟩
    have hpr := (mem_leastOf.mp hleast).2 p hp
    rw [JobRecord.not_before_iff] at hrq hpr ⊢
    unfold DateTime at *
    omega
  · intro horder
    have hleast : r ∈ leastOf (s.candidates now query) :=
      mem_leastOf.mpr ⟨hr, fun q hq => (leaseOrder_ofRecord.mp (horder q hq)).1⟩
    refine ⟨hleast, fun q hq => ?_⟩
    have hqc := (mem_leastOf.mp hq).1
    exact (leaseOrder_ofRecord.mp (horder q hqc)).2 ((mem_leastOf.mp hq).2 r hr)

variable [Sql.JsonbText]

theorem first_eq_some_iff {s : MemoryJobStore} {now : DateTime} {query : LeaseQuery}
    {row : PoolJobRow} :
    Sql.first PoolJobRow.leaseOrder
        (s.poolJobs.rows.filter fun row => Sql.isTrue (row.leaseClause query now)) = some row ↔
      ∃ r, LeastId s now query r ∧ row = PoolJobRow.ofRecord r := by
  rw [filter_leaseClause]
  have hchosen {row : PoolJobRow} (h : Sql.first PoolJobRow.leaseOrder
      ((s.candidates now query).map PoolJobRow.ofRecord) = some row) :
      ∃ r, LeastId s now query r ∧ row = PoolJobRow.ofRecord r := by
    obtain ⟨hmem, hfirst⟩ := Sql.first_eq_some h
    obtain ⟨r, hr, rfl⟩ := List.mem_map.mp hmem
    exact ⟨r, (leastId_iff hr).mpr fun q hq => hfirst _ (List.mem_map_of_mem hq), rfl⟩
  constructor
  · exact hchosen
  · rintro ⟨r, hleast, rfl⟩
    have hr := (mem_leastOf.mp hleast.1).1
    have hsome := Sql.first_ne_none (List.mem_map_of_mem hr)
      (List.forall_mem_map.mpr ((leastId_iff hr).mp hleast))
    obtain ⟨row, hrow⟩ := Option.ne_none_iff_exists'.mp hsome
    obtain ⟨q, hq, rfl⟩ := hchosen hrow
    rw [hrow, hleast.unique hq]

theorem poolJobs_lease {s : MemoryJobStore} {now : DateTime} {query : LeaseQuery} {r : JobRecord}
    (token : String) (h : LeastId s now query r) :
    (s.poolJobs.lease now token query).2 = some (PoolJobRow.ofRecord (r.leased now token query)) ∧
      ∀ j, (s.poolJobs.lease now token query).1.get? j =
        ((s.put (r.leased now token query)).get? j).map PoolJobRow.ofRecord := by
  have hget : s.get? r.jobId = some r := Table.get?_key_of_mem (mem_of_mem_leastOf h.1)
  rw [PoolJobs.lease, first_eq_some_iff.mpr ⟨r, h, rfl⟩]
  refine ⟨?_, fun j => ?_⟩
  · have hrow : s.poolJobs.get? (PoolJobRow.ofRecord r).jobId = some (PoolJobRow.ofRecord r) := by
      rw [MemoryJobStore.get?_poolJobs]
      exact congrArg (Option.map PoolJobRow.ofRecord) hget
    exact (congrArg (Option.map fun row => row.claimed now token query) hrow).trans rfl
  · rw [Table.get?_mapRows, MemoryJobStore.get?_poolJobs, Table.get?_put]
    by_cases hj : r.jobId = j
    · subst hj
      have hkey : (r.leased now token query).jobId = r.jobId := rfl
      rw [if_pos hkey, hget, Option.map_some, Option.map_some, Option.map_some,
        PoolJobRow.ofRecord_leased]
      exact congrArg some (if_pos rfl)
    · have hkey : ¬ (r.leased now token query).jobId = j := hj
      rw [if_neg hkey]
      cases hjob : s.get? j with
      | none => rfl
      | some q =>
          have hq : q.jobId = j := Table.key_eq_of_get? hjob
          rw [Option.map_some, Option.map_some]
          exact congrArg some (if_neg fun h => hj (h.symm.trans hq))

variable [PyStr] (s : MemoryJobStore) (now : DateTime) (token : String) (query : LeaseQuery)

theorem leastId_of_leasesAgree (h : LeasesAgree s now token query) {r : JobRecord}
    (hr : s.selected now query = some r) : LeastId s now query r := by
  have hanswer := h.answer
  rw [MemoryJobStore.lease, hr, PoolJobs.lease] at hanswer
  cases hfirst : Sql.first PoolJobRow.leaseOrder
      (s.poolJobs.rows.filter fun row => Sql.isTrue (row.leaseClause query now)) with
  | none =>
      rw [hfirst] at hanswer
      cases hanswer
  | some row =>
      obtain ⟨q, hq, rfl⟩ := first_eq_some_iff.mp hfirst
      have hclaimed := (poolJobs_lease token hq).1
      rw [PoolJobs.lease] at hclaimed
      rw [hclaimed, Option.map_some, PoolJobRow.record_ofRecord] at hanswer
      have hrecord : q.leased now token query = r.leased now token query :=
        Except.ok.inj (Option.some.inj hanswer)
      have hid : (q.leased now token query).jobId = (r.leased now token query).jobId :=
        congrArg JobRecord.jobId hrecord
      change q.jobId = r.jobId at hid
      have hrow := (MemoryJobStore.selected_spec hr).1
      rw [← hid, Table.get?_key_of_mem (mem_of_mem_leastOf hq.1)] at hrow
      exact Option.some.inj hrow ▸ hq

theorem leasesAgree_of_leastId {r : JobRecord} (hr : s.selected now query = some r)
    (hleast : LeastId s now query r) : LeasesAgree s now token query := by
  obtain ⟨hrow, hrows⟩ := poolJobs_lease token hleast
  have hlease : s.lease now token query =
      (s.put (r.leased now token query), some (r.leased now token query)) := by
    rw [MemoryJobStore.lease, hr]
  refine ⟨?_, fun j => ?_⟩
  · rw [hlease, hrow, Option.map_some, PoolJobRow.record_ofRecord, Option.map_some]
  · rw [hlease, hrows]

theorem leasesAgree_of_none (hnone : s.selected now query = none) :
    LeasesAgree s now token query := by
  have hfirst : Sql.first PoolJobRow.leaseOrder
      (s.poolJobs.rows.filter fun row => Sql.isTrue (row.leaseClause query now)) = none := by
    rw [Option.eq_none_iff_forall_ne_some]
    intro row hrow
    obtain ⟨q, hq, -⟩ := first_eq_some_iff.mp hrow
    rw [s.selected_eq_head, List.head?_eq_none_iff] at hnone
    exact absurd (hnone ▸ hq.1) List.not_mem_nil
  have hlease : s.lease now token query = (s, none) := by
    rw [MemoryJobStore.lease, hnone]
  have hstatement : s.poolJobs.lease now token query = (s.poolJobs, none) := by
    rw [PoolJobs.lease, hfirst]
  refine ⟨?_, fun j => ?_⟩
  · rw [hlease, hstatement]
    rfl
  · rw [hlease, hstatement, s.get?_poolJobs]

theorem leasesAgree_iff : LeasesAgree s now token query ↔ FirstHasLeastId s now query := by
  constructor
  · intro hsame r hr
    have hselected : s.selected now query = some r := by rwa [s.selected_eq_head]
    exact (leastId_of_leasesAgree s now token query hsame hselected).2
  · intro hfirst
    cases hselected : s.selected now query with
    | none => exact leasesAgree_of_none s now token query hselected
    | some r =>
        have hhead : (leastOf (s.candidates now query)).head? = some r := by
          rwa [← s.selected_eq_head]
        have hleast : LeastId s now query r :=
          ⟨List.mem_of_head? hhead, hfirst r hhead⟩
        exact leasesAgree_of_leastId s now token query hselected hleast

/-- The memory lease does what the lease statement does exactly when the first stored of the best
candidates has the least job id; the requirements that the statement compares read back as they
were. -/
theorem lease_refines_statement :
    (LeasesAgree s now token query ↔ FirstHasLeastId s now query) ∧
      ∀ requirements : JobRequirements,
        JobRequirements.fromPayload requirements.asPayload = .ok requirements :=
  ⟨leasesAgree_iff s now token query, fun requirements => requirements.fromPayload_asPayload⟩

end Refinement

/-! ### Two jobs of one instant -/

/-- A job for any worker, its idempotency key the job id. -/
def plainJob (jobId : String) : JobSubmission where
  jobId := jobId
  idempotencyKey := jobId
  capabilityId := "media.thumbnail.v1"
  inputKeys := []
  outputKey := "outputs/thumbnail"

/-- Two jobs submitted at one instant, the one with the larger id first. -/
def tiedJobs : MemoryJobStore :=
  letI := PyText.ascii
  let first := MemoryJobStore.submit Table.empty 0 (plainJob "00000000-0000-0000-0000-000000000002")
  (first.1.submit 0 (plainJob "00000000-0000-0000-0000-000000000001")).1

def plainWorker : LeaseQuery where
  workerId := "worker-1"
  capabilityIds := ["media.thumbnail.v1"]
  leaseSeconds := 60
  tenantId := none
  vramMb := none
  gpuModel := none
  labels := []
  runtimeVersions := Table.empty

/-- Instances that are right on strings, the only values that the two jobs hold. -/
@[reducible] def PyStr.ofStrings : PyStr where
  str value := match value with | .str s => s | _ => ""
  str_str _ := rfl

@[reducible] def Sql.JsonbText.ofStrings : Sql.JsonbText where
  text _ := ""

theorem tied_jobs_leased_apart :
    letI := PyText.ascii
    letI := PyStr.ofStrings
    letI := Sql.JsonbText.ofStrings
    ¬ LeasesAgree tiedJobs 1 "token" plainWorker := by
  have hids : letI := PyText.ascii
      (leastOf (tiedJobs.candidates 1 plainWorker)).map JobRecord.jobId =
        ["00000000-0000-0000-0000-000000000002", "00000000-0000-0000-0000-000000000001"] := by
    decide +kernel
  let _ := PyText.ascii
  let _ := PyStr.ofStrings
  let _ := Sql.JsonbText.ofStrings
  intro hsame
  have hfirst := (leasesAgree_iff tiedJobs 1 "token" plainWorker).mp hsame
  rw [FirstHasLeastId] at hfirst
  obtain ⟨r, rest, hleast, hr, hrest⟩ := List.map_eq_cons_iff.mp hids
  obtain ⟨q, tail, rfl, hq, -⟩ := List.map_eq_cons_iff.mp hrest
  rw [hleast] at hfirst
  have hle := hfirst r rfl q (by simp)
  rw [hr, hq] at hle
  exact absurd hle (by decide)

end GpuWorkerPool
