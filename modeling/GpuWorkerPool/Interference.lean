import GpuWorkerPool.Base.History
import GpuWorkerPool.Base.Fencing
import GpuWorkerPool.Coordinator
import GpuWorkerPool.StoreHistory

/-!
What calls in flight may assume of each other. Whatever any of them does, tokens that were issued
stay issued, a token that lost its job stays without it and one that holds it holds the same lease,
and stored assets stay as they are. A call that read a record under an issued token can therefore
still rely on it when the store accepts that token.
-/

namespace GpuWorkerPool

open Base

/-- Nothing has happened yet. Workers, assets and outages are arbitrary, and no token is drawn
twice. -/
structure World.Initial (w : World) : Prop where
  jobs : w.jobs = Table.empty
  drawn : w.drawn = 0
  accepted : w.accepted = []
  fresh : Function.Injective w.tokens

/-- What may change outside the calls: the clocks, and which backing services are out of order. -/
def World.Outside (v w : World) : Prop :=
  ∃ now clock assetOutage auditOutage, w =
    { v with now := now, clock := clock, assetOutage := assetOutage, auditOutage := auditOutage }

/-- The request presents no token that is yet to be issued. -/
def World.Presents (w : World) (request : Request) : Prop :=
  ∀ claimToken, request.claimToken? = some claimToken → w.Issued claimToken

/-- What every step of the system does to the world. -/
structure World.Evolves (v w : World) : Prop where
  tokens : w.tokens = v.tokens
  drawn : v.drawn ≤ w.drawn
  fenced : Fenced SameLease (fun key => v.Issued key.2) v.jobs.held w.jobs.held
  assets : ∀ key content, v.assets.assets.lookup key = some content →
    w.assets.assets.lookup key = some content
  accepted : ∀ call ∈ v.accepted, call ∈ w.accepted

namespace World

theorem Evolves.issued {v w : World} (h : Evolves v w) {t : String} (ht : v.Issued t) :
    w.Issued t := by
  obtain ⟨n, hn, rfl⟩ := ht
  exact ⟨n, Nat.lt_of_lt_of_le hn h.drawn, by rw [h.tokens]⟩

theorem Evolves.refl (w : World) : Evolves w w where
  tokens := rfl
  drawn := Nat.le_refl _
  fenced := .refl SameLease.refl _ _
  assets := fun _ _ h => h
  accepted := fun _ h => h

theorem Evolves.trans {u v w : World} (h : Evolves u v) (h' : Evolves v w) : Evolves u w where
  tokens := h'.tokens.trans h.tokens
  drawn := Nat.le_trans h.drawn h'.drawn
  fenced := h.fenced.trans SameLease.trans (fun _ => h.issued) h'.fenced
  assets := fun key content hkey => h'.assets key content (h.assets key content hkey)
  accepted := fun call hcall => h'.accepted call (h.accepted call hcall)

theorem Outside.evolves {v w : World} (h : Outside v w) : Evolves v w := by
  obtain ⟨now, clock, assetOutage, auditOutage, rfl⟩ := h
  exact ⟨rfl, Nat.le_refl _, .refl SameLease.refl _ _, fun _ _ h => h, fun _ h => h⟩

theorem not_issued_nextToken {w : World} (h : Function.Injective w.tokens) :
    ¬ w.Issued w.nextToken := by
  rintro ⟨n, hn, heq⟩
  exact absurd (h heq) (Nat.ne_of_lt hn)

/-- A record read under a job id, as the store finds it when it accepts an issued token later. -/
theorem Evolves.sameLease {v w : World} (h : Evolves v w) {j t : String} {record r : JobRecord}
    (hissued : v.Issued t) (hread : v.jobs.get? j = some record)
    (hheld : w.jobs.held (j, t) = some r) : record.Live t ∧ SameLease record r := by
  obtain ⟨q, hq, hsame⟩ := h.fenced (j, t) hissued r hheld
  obtain ⟨hget, hlive⟩ := MemoryJobStore.held_eq_some_iff.mp hq
  obtain rfl : record = q := Option.some.inj (hread.symm.trans hget)
  exact ⟨hlive, hsame⟩

end World

section Actions

variable [PyText]

theorem Action.exec_now (action : Action) (w : World) :
    (action.exec w).1.now = w.now ∧ (action.exec w).1.clock = w.clock := by
  cases action with
  | assets call =>
      rw [Action.exec]
      split <;> exact ⟨rfl, rfl⟩
  | audit eventType workerId jobId detail =>
      rw [Action.exec]
      split <;> exact ⟨rfl, rfl⟩
  | _ => exact ⟨rfl, rfl⟩

theorem Action.exec_auditLog {action : Action}
    (h : ∀ eventType workerId jobId detail, action ≠ .audit eventType workerId jobId detail)
    (w : World) : (action.exec w).1.auditLog = w.auditLog := by
  cases action with
  | audit eventType workerId jobId detail => exact absurd rfl (h _ _ _ _)
  | assets call =>
      rw [Action.exec]
      split <;> rfl
  | _ => rfl

theorem Action.exec_tokens (action : Action) (w : World) :
    (action.exec w).1.tokens = w.tokens := by
  cases action with
  | assets call =>
      rw [Action.exec]
      split <;> rfl
  | audit eventType workerId jobId detail =>
      rw [Action.exec]
      split <;> rfl
  | _ => rfl

/-- Only the operations of the job store touch jobs and the history of tokens. -/
theorem Action.exec_jobs_of_ne {action : Action} (h : ∀ call, action ≠ .jobs call) (w : World) :
    (action.exec w).1.jobs = w.jobs ∧ (action.exec w).1.drawn = w.drawn ∧
      (action.exec w).1.accepted = w.accepted := by
  cases action with
  | jobs call => exact absurd rfl (h call)
  | assets call =>
      rw [Action.exec]
      split <;> exact ⟨rfl, rfl, rfl⟩
  | audit eventType workerId jobId detail =>
      rw [Action.exec]
      split <;> exact ⟨rfl, rfl, rfl⟩
  | _ => exact ⟨rfl, rfl, rfl⟩

theorem Action.exec_assets {action : Action} {w : World} {key : String} {content : ByteArray}
    (h : w.assets.assets.lookup key = some content) :
    (action.exec w).1.assets.assets.lookup key = some content := by
  cases action with
  | assets call =>
      rw [Action.exec]
      split
      · exact h
      · exact AssetStoreCall.lookup_exec call h
  | audit eventType workerId jobId detail =>
      rw [Action.exec]
      split <;> exact h
  | _ => exact h

/-- Reading an asset changes nothing, also when the store is out of order. -/
theorem Action.exec_readAssets {call : AssetStoreCall} (hread : ∀ a, (call.exec a).1 = a)
    (w : World) : ((Action.assets call).exec w).1 = w := by
  rw [Action.exec]
  split
  · rfl
  · rw [hread]

theorem World.drawn_le_exec (action : Action) (w : World) :
    w.drawn ≤ (action.exec w).1.drawn := by
  by_cases h : ∃ call, action = .jobs call
  · obtain ⟨call, rfl⟩ := h
    simp only [Action.exec]
    split <;> omega
  · exact Nat.le_of_eq (Action.exec_jobs_of_ne (fun call hcall => h ⟨call, hcall⟩) w).2.1.symm

theorem Action.exec_fenced {w : World} (hfresh : Function.Injective w.tokens) (action : Action) :
    Fenced SameLease (fun key => w.Issued key.2) w.jobs.held (action.exec w).1.jobs.held := by
  by_cases h : ∃ call, action = .jobs call
  · obtain ⟨call, rfl⟩ := h
    refine (StoreOp.exec_fenced ⟨w.now, w.nextToken, call⟩ w.jobs).mono fun key hissued hgrant => ?_
    refine World.not_issued_nextToken hfresh ?_
    cases call with
    | lease query =>
        obtain ⟨r, -, rfl⟩ := Option.map_eq_some_iff.mp hgrant
        exact hissued
    | _ => exact absurd hgrant (by simp [StoreOp.grant])
  · rw [(Action.exec_jobs_of_ne (fun call hcall => h ⟨call, hcall⟩) w).1]
    exact .refl SameLease.refl _ _

theorem Action.accepted_subset_exec (action : Action) (w : World) :
    w.accepted ⊆ (action.exec w).1.accepted := by
  by_cases h : ∃ call, action = .jobs call
  · obtain ⟨call, rfl⟩ := h
    simp only [Action.exec]
    split
    · exact List.subset_append_left _ _
    · exact List.Subset.refl _
  · rw [(Action.exec_jobs_of_ne (fun call hcall => h ⟨call, hcall⟩) w).2.2]
    exact List.Subset.refl _

theorem Action.exec_evolves {w : World} (hfresh : Function.Injective w.tokens) (action : Action) :
    World.Evolves w (action.exec w).1 where
  tokens := action.exec_tokens w
  drawn := w.drawn_le_exec action
  fenced := action.exec_fenced hfresh
  assets := fun _ _ h => Action.exec_assets h
  accepted := fun _ h => action.accepted_subset_exec w h

/-- No submission gives the id of a stored job to a new job. -/
def NewJobs (w : World) : Action → Prop
  | .jobs (.submit submission) => ¬ ReusesJobId w.jobs submission
  | _ => True

instance (w : World) : (action : Action) → Decidable (NewJobs w action)
  | .jobs (.submit _) => inferInstanceAs (Decidable (¬ _))
  | .jobs (.get _) | .jobs (.listForTenant _) | .jobs (.cancel _) | .jobs (.lease _)
  | .jobs (.heartbeat ..) | .jobs (.complete ..) | .jobs (.fail ..) | .jobs (.release ..)
  | .jobs .expireExhausted | .jobs .queueDepth | .assets _ | .registry _ | .audit ..
  | .auditForJob _ | .clock => .isTrue trivial

theorem Action.exec_preserves {w : World} {action : Action} (h : NewJobs w action) :
    Preserves w.jobs (action.exec w).1.jobs := by
  by_cases hjobs : ∃ call, action = .jobs call
  · obtain ⟨call, rfl⟩ := hjobs
    have hpreserves : Preserves w.jobs (StoreOp.exec ⟨w.now, w.nextToken, call⟩ w.jobs).1 := by
      refine StoreOp.exec_preserves ?_
      rintro submission rfl
      exact h
    exact hpreserves
  · rw [(Action.exec_jobs_of_ne (fun call hcall => hjobs ⟨call, hcall⟩) w).1]
    exact .refl _

/-- The coordinator and the workers that upload to its asset store. -/
def coordinator (cfg : ServiceConfig) : Server World Action Action.Reply Exc Request Response where
  exec := Action.exec
  program := Request.program cfg

/-- Any requests in any order, with tokens that were issued before, while the clocks run freely and
backing services fail and recover. -/
def anySchedule : Regime World Action Action.Reply Exc Request Response where
  accepts request w := w.Presents request
  allow _ _ _ := True
  env s w := s.world.Outside w

omit [PyText] in
theorem ends_getWorker {α : Type} {workerId : String} {f : Option WorkerRecord → Coroutine α}
    {R : Except Exc α → Prop} (h : ∀ row, (f row).Ends R) :
    (WorkerPoolService.workerRegistry (.get workerId) >>= f).Ends R := h

theorem along_getWorker {α : Type} {workerId : String} {f : Option WorkerRecord → Coroutine α}
    {Q : List (Action × World) → Except Exc α → Prop}
    (h : ∀ w : World, (f (w.registry.get? workerId)).Along Action.exec fun path =>
      Q ((.registry (.get workerId), w) :: path)) :
    (WorkerPoolService.workerRegistry (.get workerId) >>= f).Along Action.exec Q := h

theorem along_getJob {α : Type} {jobId : String} {f : Option JobRecord → Coroutine α}
    {Q : List (Action × World) → Except Exc α → Prop}
    (h : ∀ w : World, (f (w.jobs.get? jobId)).Along Action.exec fun path =>
      Q ((.jobs (.get jobId), w) :: path)) :
    (WorkerPoolService.jobStore (.get jobId) >>= f).Along Action.exec Q := h

theorem run_getWorker {α : Type} (workerId : String) (f : Option WorkerRecord → Coroutine α)
    (w : World) :
    (WorkerPoolService.workerRegistry (.get workerId) >>= f).run Action.exec w =
      (f (w.registry.get? workerId)).run Action.exec w := rfl

section Judgements

variable {K : Prog.Contract Action World} (hguar : ∀ w, K.inv w → K.guar w w)
  (htrans : ∀ {u v w}, K.rely u v → K.rely v w → K.rely u w)

open WorkerPoolService

include hguar in
theorem sat_getWorker {α : Type} {workerId : String} {f : Option WorkerRecord → Coroutine α}
    {s : World} {Q : Except Exc α → World → Prop}
    (h : ∀ t, K.rely s t → K.inv t →
      Prog.Sat Action.exec K (f (t.registry.get? workerId)) t Q) :
    Prog.Sat Action.exec K (workerRegistry (.get workerId) >>= f) s Q :=
  Prog.sat_read (fun _ => rfl) hguar h

include hguar in
theorem sat_getJob {α : Type} {jobId : String} {f : Option JobRecord → Coroutine α} {s : World}
    {Q : Except Exc α → World → Prop}
    (h : ∀ t, K.rely s t → K.inv t → Prog.Sat Action.exec K (f (t.jobs.get? jobId)) t Q) :
    Prog.Sat Action.exec K (jobStore (.get jobId) >>= f) s Q :=
  Prog.sat_read (fun _ => rfl) hguar h

include hguar in
theorem sat_approvedEnrollment (cfg : ServiceConfig) (identity : WorkerIdentity) (s : World) :
    Prog.Sat Action.exec K (approvedEnrollment cfg identity) s fun res t =>
      K.rely s t ∧ K.inv t ∧ ∀ reason, res ≠ .error (.completionRejected reason) := by
  refine sat_getWorker hguar fun t hrely hinv => ?_
  cases t.registry.get? identity.workerId with
  | none =>
      dsimp only
      split
      · split <;> exact ⟨hrely, hinv, by simp⟩
      · exact ⟨hrely, hinv, by simp⟩
  | some record =>
      dsimp only [WorkerEnrollment.new]
      split_ifs <;> exact ⟨hrely, hinv, by simp⟩

/-- The record that a call under a lease goes on with, at the instant at which it is read. -/
structure Owned (identity : WorkerIdentity) (jobId : String) (record : JobRecord) (w : World) :
    Prop where
  stored : w.jobs.get? jobId = some record
  leasedBy : record.leasedBy = some identity.workerId
  status : record.status = .processing

include hguar htrans in
theorem sat_ownedJob (cfg : ServiceConfig) (identity : WorkerIdentity) (jobId : String)
    (s : World) :
    Prog.Sat Action.exec K (ownedJob cfg identity jobId) s fun res t =>
      K.rely s t ∧ K.inv t ∧ match res with
        | .ok record => Owned identity jobId record t
        | .error error => ∀ reason, error ≠ .completionRejected reason := by
  refine Prog.sat_bind.mpr ((sat_approvedEnrollment hguar cfg identity s).mono ?_)
  rintro (error | enrollment) t ⟨hrely, hinv, herror⟩
  · exact ⟨hrely, hinv, fun reason h => herror reason (congrArg _ h)⟩
  · refine sat_getJob hguar fun u hrely' hinv' => ?_
    have hboth := htrans hrely hrely'
    cases hread : u.jobs.get? jobId with
    | none => exact ⟨hboth, hinv', by simp⟩
    | some record =>
        dsimp only
        split
        · exact ⟨hboth, hinv', by simp⟩
        · rename_i howned
          rw [not_or, not_not, not_not] at howned
          exact ⟨hboth, hinv', hread, howned.1, howned.2⟩

include hguar in
/-- An asset is read, or the store is out of order, or it raises. -/
theorem sat_readAssets {α : Type} {call : AssetStoreCall} (hread : ∀ a, (call.exec a).1 = a)
    {f : call.Value → Coroutine α} {s : World} {Q : Except Exc α → World → Prop}
    (hvalue : ∀ t value, K.rely s t → K.inv t → (call.exec t.assets).2 = .ok value →
      Prog.Sat Action.exec K (f value) t Q)
    (herror : ∀ t error, K.rely s t → K.inv t →
      (∃ text, error = .unavailable text) ∨ (call.exec t.assets).2 = .error error →
      Q (.error error) t) :
    Prog.Sat Action.exec K (assetStore call >>= f) s Q := by
  refine Prog.sat_read (Action.exec_readAssets hread) hguar fun t hrely hinv => ?_
  simp only [Action.exec]
  split
  · exact herror t _ hrely hinv (Or.inl ⟨_, rfl⟩)
  · cases hreply : (call.exec t.assets).2 with
    | ok value => exact hvalue t value hrely hinv hreply
    | error error => exact herror t error hrely hinv (Or.inr hreply)

/-- What an output that passes verification has shown. -/
structure VerifiedOutput (cfg : ServiceConfig) (record : JobRecord) (manifest : OutputManifest)
    (w : World) : Prop where
  attested : manifestProblem cfg record manifest = none
  stored : ∃ content, w.assets.assets.lookup record.outputKey = some content ∧
    manifest.byteLength = content.size ∧ manifest.byteLength ≤ cfg.maxVerifyBytes ∧
    manifest.sha256 = sha256Hex content

include hguar htrans in
theorem sat_verifyOutput (hassets : ∀ {v w}, K.rely v w → World.Evolves v w)
    (cfg : ServiceConfig) (record : JobRecord) (manifest : OutputManifest) {s : World}
    (hrefl : K.rely s s) (hinv : K.inv s) :
    Prog.Sat Action.exec K (verifyOutput cfg record manifest) s fun res t =>
      K.rely s t ∧ K.inv t ∧ (res = .ok () → VerifiedOutput cfg record manifest t) := by
  rw [verifyOutput]
  cases hproblem : manifestProblem cfg record manifest with
  | some reason => exact ⟨hrefl, hinv, by simp⟩
  | none =>
      refine sat_readAssets hguar (fun _ => rfl) (fun t descriptor hrely hinv' hdescribe => ?_)
        fun t error hrely hinv' _ => ⟨hrely, hinv', by simp⟩
      cases descriptor with
      | none => exact ⟨hrely, hinv', by simp⟩
      | some descriptor =>
          dsimp only
          split_ifs with hsize hlarge
          · exact ⟨hrely, hinv', by simp⟩
          · exact ⟨hrely, hinv', by simp⟩
          · refine sat_readAssets hguar (fun _ => rfl) (fun u content hrely' hinv'' hread => ?_)
              fun u error hrely' hinv'' _ => ⟨htrans hrely hrely', hinv'', by simp⟩
            split_ifs with hdigest
            · exact ⟨htrans hrely hrely', hinv'', by simp⟩
            · obtain ⟨described, hdescribed, hbytes⟩ :=
                MemoryAssetStore.describe_spec (Except.ok.inj hdescribe)
              obtain ⟨hstored, -⟩ := MemoryAssetStore.readLimited_spec hread
              obtain rfl : content = described := Option.some.inj
                (hstored.symm.trans ((hassets hrely').assets _ _ hdescribed))
              exact ⟨htrans hrely hrely', hinv'', fun _ => ⟨hproblem, content, hstored,
                (not_not.mp hsize).symm.trans hbytes, not_lt.mp hlarge, (not_not.mp hdigest).symm⟩⟩

include hguar in
/-- An output that is stored as the manifest says passes, unless an asset cannot be read. -/
theorem sat_verifyOutput_stored (hassets : ∀ {v w}, K.rely v w → World.Evolves v w)
    {cfg : ServiceConfig} {record : JobRecord} {manifest : OutputManifest} {s : World}
    (h : VerifiedOutput cfg record manifest s) :
    Prog.Sat Action.exec K (verifyOutput cfg record manifest) s fun res _ =>
      ∀ reason, res ≠ .error (.completionRejected reason) := by
  obtain ⟨hattested, content, hstored, hbytes, hbound, hdigest⟩ := h
  rw [verifyOutput, hattested]
  have hloses : ∀ {call : AssetStoreCall} {t : World} {error : Exc},
      (∀ reason, (call.exec t.assets).2 ≠ .error (.completionRejected reason)) →
      (∃ text, error = .unavailable text) ∨ (call.exec t.assets).2 = .error error →
      ∀ {α : Type} (reason), (.error error : Except Exc α) ≠ .error (.completionRejected reason) := by
    rintro call t error hraises (⟨text, rfl⟩ | hreply) α reason heq
    · cases heq
    · cases heq
      exact hraises reason hreply
  refine sat_readAssets hguar (fun _ => rfl) (fun t descriptor hrely _ hdescribe => ?_)
    fun t error _ _ herror => hloses (by simp [AssetStoreCall.exec]) herror
  have hlookup := (hassets hrely).assets _ _ hstored
  obtain rfl : t.assets.describe record.outputKey = descriptor := Except.ok.inj hdescribe
  rw [MemoryAssetStore.describe, hlookup, Option.map_some]
  dsimp only
  rw [if_neg (not_not.mpr hbytes.symm), if_neg (not_lt.mpr hbound)]
  refine sat_readAssets hguar (fun _ => rfl) (fun u read hrely' _ hread => ?_)
    fun u error _ _ herror => hloses (fun reason hreply => ?_) herror
  · obtain ⟨hlookup', -⟩ := MemoryAssetStore.readLimited_spec hread
    obtain rfl : content = read :=
      Option.some.inj (((hassets hrely').assets _ _ hlookup).symm.trans hlookup')
    rw [if_neg (not_not.mpr hdigest.symm)]
    simp
  · exact MemoryAssetStore.readLimited_ne_rejected _ _ _ reason hreply

include hguar in
/-- What holds of a `lease` call without a grant, and of every grant for a job that was claimed,
holds of every `lease` call. -/
theorem sat_lease_of_grant
    (hkeeps : ∀ action s, OnJobs (fun call => call = .expireExhausted ∨ ∃ query, call = .lease query)
      action → K.inv s → K.allow action s → K.inv (action.exec s).1 ∧ K.guar s (action.exec s).1)
    (cfg : ServiceConfig) (identity : WorkerIdentity) (capabilityIds : List String)
    (leaseSeconds : Option Int) (w : World) {Q : Except Exc (Option LeaseGrant) → World → Prop}
    (hnone : ∀ res v, (∀ grant, res ≠ .ok (some grant)) → Q res v)
    (hgrant : ∀ query job v, query.workerId = identity.workerId →
      ((Action.jobs (.lease query)).exec v).2 = some job →
      Prog.Sat Action.exec K (grantLease cfg identity query.leaseSeconds job)
        ((Action.jobs (.lease query)).exec v).1 Q) :
    Prog.Sat Action.exec K (lease cfg identity capabilityIds leaseSeconds) w Q := by
  refine Prog.sat_bind.mpr ((sat_approvedEnrollment hguar cfg identity w).mono ?_)
  rintro (error | enrollment) t -
  · exact hnone _ _ (by simp)
  · refine sat_getWorker hguar fun u _ _ => ?_
    cases u.registry.get? identity.workerId with
    | none => exact hnone _ _ (by simp)
    | some worker =>
        dsimp only
        split_ifs
        · exact hnone _ _ (by simp)
        · exact hnone _ _ (by simp)
        · exact hnone _ _ (by simp)
        · intro v _ hinv hallow
          refine and_assoc.mp ⟨hkeeps _ v (Or.inl rfl) hinv hallow, ?_⟩
          intro v' _ hinv' hallow'
          refine and_assoc.mp ⟨hkeeps _ v' (Or.inr ⟨_, rfl⟩) hinv' hallow', ?_⟩
          generalize hreply : (Action.exec (.jobs (.lease _)) v').2 = reply
          cases reply with
          | none =>
              show Prog.Sat _ K (recordAudit _ _ _ _ >>= fun _ => pure none) _ Q
              refine Prog.sat_bind.mpr ((Prog.sat_of_awaits hkeeps
                (awaits_recordAudit trivial) _).mono ?_)
              rintro (error | value) x - <;> exact hnone _ _ (by simp)
          | some job =>
              exact hgrant (leaseQuery worker identity (effectiveCapabilities cfg worker
                capabilityIds) (leaseSeconds.getD cfg.defaultLeaseSeconds)) job v' rfl hreply

end Judgements

end Actions

/-! ### A small pool -/

/-- A coordinator without the profile module that serves one house worker. -/
def smallConfig : ServiceConfig where
  enrollments := ⟨[("worker-1", ⟨"subject-1", none, by decide, by decide⟩)], by decide⟩

def smallIdentity : WorkerIdentity := ⟨"worker-1", "subject-1", "static"⟩

def smallCapability : WorkerCapability := ⟨"test.deterministic.echo.v1", "echo", "1", 1⟩

def smallRegistration : WorkerRegistration where
  workerId := "worker-1"
  capabilities := [smallCapability]

/-- The empty pool whose tokens are `t`, `tt`, `ttt` and so on. -/
def smallWorld : World where
  tokens n := String.ofList (List.replicate (n + 1) 't')

theorem smallWorld_initial : smallWorld.Initial where
  jobs := rfl
  drawn := rfl
  accepted := rfl
  fresh := by
    intro n m h
    have hlength := congrArg String.length h
    simpa [smallWorld] using hlength

/-- A worker registers, a job is submitted, and the worker leases it. -/
def leasedRequests : List Request :=
  [.registerHeartbeat smallIdentity smallRegistration, .submit echoJob,
    .lease smallIdentity ["test.deterministic.echo.v1"] none]

/-- The worker of the small pool holds the lease of a house job. -/
def leasedRun : Sys World Action Action.Reply Exc Request Response :=
  letI := PyText.ascii
  Sys.serveAll (coordinator smallConfig) ⟨smallWorld, []⟩ leasedRequests

/-- The first lease of the small pool. -/
def smallGrant : LeaseGrant where
  jobId := "job-1"
  claimToken := "t"
  leaseUntil := seconds 1200
  executionDeadlineSeconds := 1200
  capabilityId := "test.deterministic.echo.v1"
  contractVersion := 1
  requestDigest := letI := PyText.ascii; jobRequestDigest echoJob
  idempotencyKey := "key-1"
  inputKeys := []
  outputKey := "outputs/job-1"
  payload := JsonObject.empty
  inputGrants := []
  outputGrant := ⟨"outputs/job-1", "memory://upload/outputs/job-1", "PUT", seconds 900,
    some outputUploadContentType⟩

def textOutput (text : String) : PluginOutput where
  content := text.toUTF8
  contentType := "text/plain"
  modelId := "echo"
  modelVersion := "1"

/-- A request without a token presents none that is yet to be issued. -/
theorem World.presents_of_no_token {w : World} {request : Request}
    (h : request.claimToken? = none) : w.Presents request :=
  fun _ htoken => absurd (h.symm.trans htoken) (by simp)

end GpuWorkerPool
