import GpuWorkerPool.Base.Fencing
import GpuWorkerPool.MemoryJobStore

/-!
Fencing of the job store. A claim token is a key of `Base.Fenced` that opens the record whose
current lease it secures. Every operation is fenced for the tokens other than the one it issues,
so over whole runs a token that lost its job never opens it again.
-/

namespace GpuWorkerPool

open Base

/-- Two states of one record under one lease: only a heartbeat lies between them. -/
def SameLease (r r' : JobRecord) : Prop :=
  ∃ leaseUntil progressPercent updatedAt, r' =
    { r with leaseUntil := leaseUntil, progressPercent := progressPercent, updatedAt := updatedAt }

theorem SameLease.refl (r : JobRecord) : SameLease r r := ⟨_, _, _, rfl⟩

theorem SameLease.trans {r q p : JobRecord} (h : SameLease r q) (h' : SameLease q p) :
    SameLease r p := by
  obtain ⟨u, v, w, rfl⟩ := h
  obtain ⟨u', v', w', rfl⟩ := h'
  exact ⟨u', v', w', rfl⟩

namespace MemoryJobStore

/-- What a job id and a claim token open together. -/
def held (s : MemoryJobStore) (key : String × String) : Option JobRecord := s.leased? key.1 key.2

theorem held_eq_some_iff {s : MemoryJobStore} {j t : String} {r : JobRecord} :
    s.held (j, t) = some r ↔ s.get? j = some r ∧ r.Live t :=
  leased?_eq_some_iff

theorem held_eq_none_iff {s : MemoryJobStore} {j t : String} :
    s.held (j, t) = none ↔ ∀ r, s.get? j = some r → ¬ r.Live t := by
  rw [Option.eq_none_iff_forall_ne_some]
  exact forall_congr' fun r => by rw [Ne, held_eq_some_iff, not_and]

/-- The token is live: the job is being processed under it. -/
def LiveFor (s : MemoryJobStore) (j t : String) : Prop := (s.held (j, t)).isSome

theorem liveFor_iff {s : MemoryJobStore} {j t : String} :
    s.LiveFor j t ↔ ∃ r, s.get? j = some r ∧ r.Live t := by
  rw [LiveFor, Option.isSome_iff_exists]
  exact exists_congr fun r => held_eq_some_iff

theorem not_liveFor_iff {s : MemoryJobStore} {j t : String} :
    ¬ s.LiveFor j t ↔ s.held (j, t) = none := by
  rw [LiveFor, Option.not_isSome_iff_eq_none]

instance (s : MemoryJobStore) (j t : String) : Decidable (s.LiveFor j t) :=
  inferInstanceAs (Decidable (_ = true))

/-- Every operation that presents the token answers `False` and changes nothing. -/
structure Refuses (s : MemoryJobStore) (j t : String) : Prop where
  heartbeat : ∀ now leaseSeconds progressPercent,
    s.heartbeat now j t leaseSeconds progressPercent = (s, false)
  complete : ∀ now contentType sha256 byteLength executionMetadata,
    s.complete now j t contentType sha256 byteLength executionMetadata = (s, false)
  fail : ∀ now reason failureCode failureMessage retryable,
    s.fail now j t reason failureCode failureMessage retryable = (s, false)
  release : ∀ now reason, s.release now j t reason = (s, false)

theorem refuses_of_not_liveFor {s : MemoryJobStore} {j t : String} (h : ¬ s.LiveFor j t) :
    s.Refuses j t := by
  have hdead := held_eq_none_iff.mp (not_liveFor_iff.mp h)
  have hclosed : ∀ write, s.underLease j t write = (s, false) :=
    fun write => underLease_of_not_live write hdead
  exact ⟨fun _ _ _ => hclosed _, fun _ _ _ _ _ => hclosed _, fun _ _ _ _ _ => hclosed _,
    fun _ _ => hclosed _⟩

/-- A job whose record left `PROCESSING` has no live token. -/
theorem not_liveFor_of_status {s : MemoryJobStore} {j t : String} {r : JobRecord}
    (hget : s.get? j = some r) (hstatus : r.status ≠ .processing) : ¬ s.LiveFor j t := by
  rw [liveFor_iff]
  rintro ⟨q, hq, hlive⟩
  rw [hget, Option.some_inj] at hq
  exact hstatus (hq ▸ hlive.1)

/-- An accepted operation under a lease whose write leaves `PROCESSING` ends the lease. -/
theorem not_liveFor_of_underLease {s : MemoryJobStore} {j claimToken t : String}
    {write : JobRecord → JobRecord} (hjob : ∀ r, (write r).jobId = r.jobId)
    (hstatus : ∀ r, (write r).status ≠ .processing)
    (haccepted : (s.underLease j claimToken write).2 = true) :
    ¬ (s.underLease j claimToken write).1.LiveFor j t := by
  unfold underLease at haccepted ⊢
  cases hleased : s.leased? j claimToken with
  | none => exact absurd haccepted (by simp [hleased])
  | some r =>
      have hj := Table.key_eq_of_get? (leased?_eq_some_iff.mp hleased).1
      refine not_liveFor_of_status (r := write r) ?_ (hstatus r)
      exact (hjob r).trans hj ▸ Table.get?_put_self s (write r)

end MemoryJobStore

section Runs

variable [PyText]

/-- A record that is live under a token other than the one drawn was live under it before, in the
same lease. -/
theorem JobStoreCall.RowStep.live_before {now : DateTime} {uuid4 : String} {s : MemoryJobStore}
    {j t : String} {call : JobStoreCall} {row : Option JobRecord} {r' : JobRecord}
    (h : RowStep now uuid4 s j call row (some r')) (hlive : r'.Live t)
    (hother : ∀ query r, call = .lease query → s.selected now query = some r → r.jobId = j →
      t ≠ uuid4) :
    ∃ r, row = some r ∧ r.Live t ∧ SameLease r r' := by
  cases h with
  | kept => exact ⟨r', rfl, hlive, .refl r'⟩
  | heartbeaten hbefore => exact ⟨_, rfl, hlive, _, _, _, rfl⟩
  | leased chosen here =>
      exact absurd (Option.some.inj hlive.2).symm (hother _ _ rfl chosen here)
  | submitted _ _ _ _ => exact absurd hlive.2 (by simp [JobRecord.ofSubmission])
  | cancelled _ => exact absurd hlive.2 (by simp [JobRecord.cancelled])
  | completed _ => exact absurd hlive.1 (by simp [JobRecord.completed])
  | failed _ => exact absurd hlive.1 (by simp [JobRecord.failed])
  | released _ => exact absurd hlive.1 (by simp [JobRecord.released])
  | exhausted _ => exact absurd hlive.1 (by simp [JobRecord.exhausted])

/-- One operation of a run, with the instant and the token it would draw. -/
structure StoreOp where
  now : DateTime
  uuid4 : String
  call : JobStoreCall

namespace StoreOp

def exec (op : StoreOp) (s : MemoryJobStore) : MemoryJobStore × op.call.Reply :=
  op.call.exec op.now op.uuid4 s

/-- The job and the token of the lease an operation grants. -/
def grant (op : StoreOp) (s : MemoryJobStore) : Option (String × String) :=
  match op.call with
  | .lease query => (s.selected op.now query).map fun r => (r.jobId, op.uuid4)
  | _ => none

/-- The operation re-leased, cancelled, settled, released or expired the job. -/
def Displaces (op : StoreOp) (s : MemoryJobStore) (j : String) : Prop :=
  match op.call with
  | .lease query => (s.lease op.now op.uuid4 query).2.map JobRecord.jobId = some j
  | .cancel jobId => jobId = j ∧ (s.cancel op.now jobId).2 = true
  | .complete jobId claimToken contentType sha256 byteLength executionMetadata =>
      jobId = j ∧ (s.complete op.now jobId claimToken contentType sha256 byteLength
        executionMetadata).2 = true
  | .fail jobId claimToken reason failureCode failureMessage retryable =>
      jobId = j ∧ (s.fail op.now jobId claimToken reason failureCode failureMessage
        retryable).2 = true
  | .release jobId claimToken reason =>
      jobId = j ∧ (s.release op.now jobId claimToken reason).2 = true
  | .expireExhausted => ∃ r, s.get? j = some r ∧ r.isExhausted op.now
  | _ => False

theorem exec_row (op : StoreOp) (s : MemoryJobStore) (j : String) :
    JobStoreCall.RowStep op.now op.uuid4 s j op.call (s.get? j) ((op.exec s).1.get? j) :=
  JobStoreCall.exec_row op.now op.uuid4 s op.call j

/-- Every operation is fenced for all keys but the one it grants. -/
theorem exec_fenced (op : StoreOp) (s : MemoryJobStore) :
    Fenced SameLease (fun key => op.grant s ≠ some key) s.held (op.exec s).1.held := by
  rintro ⟨j, t⟩ hkey r' hheld
  obtain ⟨hget, hlive⟩ := MemoryJobStore.held_eq_some_iff.mp hheld
  have hrow := op.exec_row s j
  rw [hget] at hrow
  obtain ⟨r, hr, hbefore, hsame⟩ := hrow.live_before hlive (by
    rintro query r hcall hchosen rfl rfl
    have hgrant : op.grant s = some (r.jobId, op.uuid4) := by
      rw [grant, hcall]
      exact congrArg (Option.map _) hchosen
    exact hkey hgrant)
  exact ⟨r, MemoryJobStore.held_eq_some_iff.mpr ⟨hr, hbefore⟩, hsame⟩

end StoreOp

namespace MemoryJobStore

/-- The store after a run. -/
def after (s : MemoryJobStore) : List StoreOp → MemoryJobStore
  | [] => s
  | op :: rest => (op.exec s).1.after rest

/-- Every lease granted in a run, in order. -/
def grants (s : MemoryJobStore) : List StoreOp → List (String × String)
  | [] => []
  | op :: rest => (op.grant s).toList ++ (op.exec s).1.grants rest

theorem after_append (s : MemoryJobStore) (run run' : List StoreOp) :
    s.after (run ++ run') = (s.after run).after run' := by
  induction run generalizing s with
  | nil => rfl
  | cons op rest ih => exact ih _

theorem after_concat (s : MemoryJobStore) (run : List StoreOp) (op : StoreOp) :
    s.after (run ++ [op]) = (op.exec (s.after run)).1 :=
  s.after_append run [op]

theorem grants_append (s : MemoryJobStore) (run run' : List StoreOp) :
    s.grants (run ++ run') = s.grants run ++ (s.after run).grants run' := by
  induction run generalizing s with
  | nil => rfl
  | cons op rest ih =>
      rw [List.cons_append, grants, grants, ih, List.append_assoc]
      rfl

/-- A run is fenced for every key it does not grant. -/
theorem after_fenced (s : MemoryJobStore) (run : List StoreOp) :
    Fenced SameLease (fun key => key ∉ s.grants run) s.held (s.after run).held := by
  induction run generalizing s with
  | nil => exact .refl SameLease.refl _ _
  | cons op rest ih =>
      have hfirst : Fenced SameLease (fun key => key ∉ s.grants (op :: rest)) s.held
          (op.exec s).1.held :=
        (op.exec_fenced s).mono fun key hkey hgrant =>
          hkey (List.mem_append_left _ (Option.mem_toList.mpr hgrant))
      exact hfirst.trans SameLease.trans (fun key hkey hrest => hkey (List.mem_append_right _ hrest))
        (ih _)

end MemoryJobStore

/-- Displacing a job leaves no token live for it but the one just granted. -/
theorem StoreOp.grant_of_displaces {op : StoreOp} {s : MemoryJobStore} {j t : String}
    (h : op.Displaces s j) (hlive : (op.exec s).1.LiveFor j t) : op.grant s = some (j, t) := by
  obtain ⟨now, uuid4, call⟩ := op
  cases call with
  | lease query =>
      simp only [Displaces, MemoryJobStore.lease, exec, JobStoreCall.exec, grant] at h hlive ⊢
      cases hselected : s.selected now query with
      | none => simp [hselected] at h
      | some r =>
          rw [hselected] at h hlive
          obtain rfl : r.jobId = j := by simpa [JobRecord.leased] using h
          obtain ⟨q, hget, hq⟩ := MemoryJobStore.liveFor_iff.mp hlive
          have hput := Table.get?_put_self s (r.leased now uuid4 query)
          obtain rfl : r.leased now uuid4 query = q := Option.some.inj (hput.symm.trans hget)
          rw [Option.map_some, Option.some.inj hq.2]
  | cancel jobId =>
      obtain ⟨rfl, hdone⟩ := h
      rcases s.cancel_cases now jobId with hsame | ⟨r, hget, -, hput⟩
      · exact absurd hdone (by simp [hsame])
      · have hrow := (Table.get?_put s (r.cancelled now) jobId).trans
          (if_pos (Table.key_eq_of_get? hget))
        rw [exec, JobStoreCall.exec, hput] at hlive
        exact absurd hlive (MemoryJobStore.not_liveFor_of_status hrow (by simp [JobRecord.cancelled]))
  | complete jobId claimToken contentType sha256 byteLength executionMetadata =>
      obtain ⟨rfl, hdone⟩ := h
      exact absurd hlive (MemoryJobStore.not_liveFor_of_underLease (fun _ => rfl)
        (fun _ => by simp [JobRecord.completed]) hdone)
  | fail jobId claimToken reason failureCode failureMessage retryable =>
      obtain ⟨rfl, hdone⟩ := h
      exact absurd hlive (MemoryJobStore.not_liveFor_of_underLease (fun _ => rfl)
        (fun _ => by simp [JobRecord.failed]) hdone)
  | release jobId claimToken reason =>
      obtain ⟨rfl, hdone⟩ := h
      exact absurd hlive (MemoryJobStore.not_liveFor_of_underLease (fun _ => rfl)
        (fun _ => by simp [JobRecord.released]) hdone)
  | expireExhausted =>
      obtain ⟨r, hget, hdue⟩ := h
      have hrow := s.get?_expireExhausted now j
      rw [hget, Option.map_some, JobRecord.expire, if_pos hdue] at hrow
      exact absurd hlive (MemoryJobStore.not_liveFor_of_status hrow (by simp [JobRecord.exhausted]))
  | submit submission => exact h.elim
  | get jobId => exact h.elim
  | listForTenant tenantId => exact h.elim
  | queueDepth => exact h.elim
  | heartbeat jobId claimToken leaseSeconds progressPercent => exact h.elim

/-- No two leases of a run drew one token. -/
def TokensDistinct (run : List StoreOp) : Prop :=
  ((MemoryJobStore.grants Table.empty run).map Prod.snd).Nodup

/-- Claim tokens fence. After any run a job has at most one live token, a token that is not live
is refused and changes nothing, and once a job has been re-leased, released, settled, cancelled or
expired, the tokens issued for it before are never live and never accepted again. -/
theorem claim_tokens_fence (run later : List StoreOp) (hdistinct : TokensDistinct (run ++ later)) :
    let s := MemoryJobStore.after Table.empty run
    let s' := s.after later
    (∀ j t t', s.LiveFor j t → s.LiveFor j t' → t = t') ∧
    (∀ j t, ¬ s.LiveFor j t → s.Refuses j t) ∧
    ∀ j t op rest, later = op :: rest → op.Displaces s j →
      (j, t) ∈ MemoryJobStore.grants Table.empty run → ¬ s'.LiveFor j t ∧ s'.Refuses j t := by
  intro s s'
  refine ⟨fun j t t' h h' => ?_, fun j t => MemoryJobStore.refuses_of_not_liveFor, ?_⟩
  · obtain ⟨r, hget, hlive⟩ := MemoryJobStore.liveFor_iff.mp h
    obtain ⟨r', hget', hlive'⟩ := MemoryJobStore.liveFor_iff.mp h'
    rw [hget, Option.some_inj] at hget'
    exact hlive.token_eq (hget' ▸ hlive')
  · rintro j t op rest rfl hdisplaces hissued
    have hnew : (j, t) ∉ s.grants (op :: rest) := by
      rw [TokensDistinct, MemoryJobStore.grants_append, List.map_append,
        List.nodup_append] at hdistinct
      exact fun hmem => hdistinct.2.2 t (List.mem_map_of_mem hissued) t
        (List.mem_map_of_mem hmem) rfl
    have hdead : ¬ (op.exec s).1.LiveFor j t := fun hlive =>
      hnew (List.mem_append_left _ (Option.mem_toList.mpr (op.grant_of_displaces hdisplaces hlive)))
    have hdead' : ¬ s'.LiveFor j t := by
      rw [MemoryJobStore.not_liveFor_iff] at hdead ⊢
      exact (MemoryJobStore.after_fenced _ rest).dead
        (fun hmem => hnew (List.mem_append_right _ hmem)) hdead
    exact ⟨hdead', MemoryJobStore.refuses_of_not_liveFor hdead'⟩

end Runs

/-- A job of the reference plugin. -/
def echoJob : JobSubmission where
  jobId := "job-1"
  idempotencyKey := "key-1"
  capabilityId := "test.deterministic.echo.v1"
  inputKeys := []
  outputKey := "outputs/job-1"

/-- The lease call of a house worker that serves the reference plugin. -/
def echoQuery : LeaseQuery where
  workerId := "worker-1"
  capabilityIds := ["test.deterministic.echo.v1"]
  leaseSeconds := 1200
  tenantId := none
  vramMb := none
  gpuModel := none
  labels := []
  runtimeVersions := Table.empty

theorem claim_tokens_fence_after_release :
    letI := PyText.ascii
    ¬ MemoryJobStore.LiveFor
      (MemoryJobStore.after Table.empty [⟨0, "t0", .submit echoJob⟩, ⟨1, "t1", .lease echoQuery⟩,
        ⟨2, "t2", .release "job-1" "t1" "draining"⟩, ⟨3, "t3", .lease echoQuery⟩]) "job-1" "t1" :=
  letI := PyText.ascii
  ((claim_tokens_fence [⟨0, "t0", .submit echoJob⟩, ⟨1, "t1", .lease echoQuery⟩]
    [⟨2, "t2", .release "job-1" "t1" "draining"⟩, ⟨3, "t3", .lease echoQuery⟩]
    (by unfold TokensDistinct; decide)).2.2 "job-1" "t1" _ _ rfl ⟨rfl, by decide⟩ (by decide)).1

end GpuWorkerPool
