import GpuWorkerPool.Interference
import GpuWorkerPool.WorkerAgent

/-!
What the agent does with the files of a job. Inputs are stored under the last component of their
key, so they stay apart exactly when these components do. The workspace of a job is named by the
job id, so it is confined to the workspace root exactly when the id does not lead out of it.
-/

namespace GpuWorkerPool

open Base WorkerAgent

/-! ### Inputs as files -/

/-- The component of a key that `_download_inputs` keeps. -/
def fileName (key : String) : String := (PosixPath.ofText key).name

theorem resolve_child_name (cwd : Location) (inputs : PosixPath) (key : String) :
    (inputs.child (fileName key)).resolve cwd =
      (if fileName key = "" then [] else [fileName key]).foldl PosixPath.enter
        (inputs.resolve cwd) := by
  obtain ⟨habsolute, hparts⟩ := PosixPath.parts_child_name inputs (PosixPath.ofText key)
  rw [fileName, PosixPath.resolve, habsolute, hparts, List.foldl_append, PosixPath.resolve]

/-- The place of a file name: the directory for the empty one, and above it for `..`. -/
theorem enter_name_cases (place : Location) (name : String) :
    let target := (if name = "" then [] else [name]).foldl PosixPath.enter place
    (name = "" ∧ target = place) ∨ (name = ".." ∧ target = place.dropLast) ∨
      target = place ++ [name] := by
  dsimp only
  by_cases hempty : name = ""
  · exact Or.inl ⟨hempty, by rw [if_pos hempty, List.foldl_nil]⟩
  · rw [if_neg hempty, List.foldl_cons, List.foldl_nil, PosixPath.enter]
    by_cases hup : name = ".."
    · exact Or.inr (Or.inl ⟨hup, if_pos hup⟩)
    · exact Or.inr (Or.inr (if_neg hup))

/-- Different file names lead to different places. -/
theorem enter_name_injective {place : Location} (hplace : place ≠ []) {name name' : String}
    (h : (if name = "" then [] else [name]).foldl PosixPath.enter place =
      (if name' = "" then [] else [name']).foldl PosixPath.enter place) : name = name' := by
  have hpositive : 0 < place.length := List.length_pos_of_ne_nil hplace
  have hlength := congrArg List.length h
  rcases enter_name_cases place name with ⟨hname, hto⟩ | ⟨hname, hto⟩ | hto <;>
    rcases enter_name_cases place name' with ⟨hname', hto'⟩ | ⟨hname', hto'⟩ | hto' <;>
    simp only [hto, hto', List.length_append, List.length_dropLast, List.length_singleton]
      at hlength
  · rw [hname, hname']
  · omega
  · omega
  · omega
  · rw [hname, hname']
  · omega
  · omega
  · omega
  · rw [hto, hto'] at h
    simpa using h

section Downloads

variable (m : Machine) (agent : WorkerAgent)

/-- Every download of the loop returns, within the bound. -/
def DownloadsSucceed (inputs : PosixPath) : List AssetGrant → FileSystem → Prop
  | [], _ => True
  | grant :: rest, fs =>
      let out := m.transfer.download m.cwd grant.url (destination inputs grant)
        (some agent.maxInputBytes) fs
      (∃ written, out.2 = .ok written ∧ (written : Int) ≤ agent.maxInputBytes) ∧
        DownloadsSucceed inputs rest out.1

/-- The files after the loop. -/
def filesAfter (inputs : PosixPath) : List AssetGrant → FileSystem → FileSystem
  | [], fs => fs
  | grant :: rest, fs =>
      filesAfter inputs rest (m.transfer.download m.cwd grant.url (destination inputs grant)
        (some agent.maxInputBytes) fs).1

/-- The paths after the loop. -/
def pathsAfter (inputs : PosixPath) (grants : List AssetGrant) (paths : Dict String PosixPath) :
    Dict String PosixPath :=
  grants.foldl (fun paths grant => paths.put (grant.key, destination inputs grant)) paths

variable {m agent}

theorem run_downloadGrants {inputs : PosixPath} {grants : List AssetGrant}
    {paths : Dict String PosixPath} {fs : FileSystem}
    (h : DownloadsSucceed m agent inputs grants fs) :
    Prog.run m.exec (downloadGrants agent inputs grants paths) fs =
      (filesAfter m agent inputs grants fs, .ok (pathsAfter inputs grants paths)) := by
  induction grants generalizing paths fs with
  | nil => rfl
  | cons grant rest ih =>
      obtain ⟨⟨written, hwritten, hbound⟩, hrest⟩ := h
      rw [downloadGrants, Prog.run]
      have hreply : (m.exec (.download grant.url (destination inputs grant)
          (some agent.maxInputBytes)) fs).2 = .ok written := hwritten
      rw [hreply, Prog.ofExcept, Prog.ret_bind, if_neg (not_lt.mpr hbound)]
      exact ih hrest

/-- A file of the loop stays as it is when no later grant has its name. -/
theorem filesAfter_frame {inputs : PosixPath} {grants : List AssetGrant} {place : Location}
    (hapart : ∀ grant ∈ grants, place ≠ (destination inputs grant).resolve m.cwd)
    {fs : FileSystem} {entry : Entry} (h : fs place = some entry) :
    filesAfter m agent inputs grants fs place = some entry := by
  induction grants generalizing fs with
  | nil => exact h
  | cons grant rest ih =>
      refine ih (fun other hother => hapart other (List.mem_cons_of_mem _ hother)) ?_
      exact m.transfer.download_frame _ _ _ _ _ (hapart grant List.mem_cons_self) h

/-- With different names, every file holds the object of its own grant. -/
theorem filesAfter_content {inputs : PosixPath} (hinputs : inputs.resolve m.cwd ≠ [])
    {grants : List AssetGrant} {fs : FileSystem}
    (hnames : (grants.map fun grant => fileName grant.key).Nodup)
    (h : DownloadsSucceed m agent inputs grants fs) {grant : AssetGrant} (hgrant : grant ∈ grants) :
    ∃ content, m.transfer.object grant.url = some content ∧
      filesAfter m agent inputs grants fs ((destination inputs grant).resolve m.cwd) =
        some (.file content) := by
  induction grants generalizing fs with
  | nil => exact absurd hgrant List.not_mem_nil
  | cons first rest ih =>
      obtain ⟨⟨written, hwritten, -⟩, hrest⟩ := h
      rw [List.map_cons, List.nodup_cons] at hnames
      rw [filesAfter]
      rcases List.mem_cons.mp hgrant with rfl | hgrant
      · obtain ⟨content, hobject, -, hfile⟩ := m.transfer.download_ok (Prod.ext rfl hwritten)
        refine ⟨content, hobject, filesAfter_frame (fun other hother hsame => ?_) ?_⟩
        swap
        · exact hfile
        rw [destination, destination, ← fileName, ← fileName, resolve_child_name,
          resolve_child_name] at hsame
        have hname := enter_name_injective hinputs hsame
        exact hnames.1 (List.mem_map.mpr ⟨other, hother, hname.symm⟩)
      · exact ih hnames.2 hrest hgrant

/-- With different keys, a key has the path of its own grant. -/
theorem lookup_pathsAfter {inputs : PosixPath} {grants : List AssetGrant}
    (hkeys : (grants.map AssetGrant.key).Nodup) (paths : Dict String PosixPath) (key : String) :
    (pathsAfter inputs grants paths).lookup key =
      ((grants.find? fun grant => grant.key = key).map (destination inputs)).or
        (paths.lookup key) := by
  induction grants generalizing paths with
  | nil => rfl
  | cons grant rest ih =>
      rw [List.map_cons, List.nodup_cons] at hkeys
      rw [pathsAfter, List.foldl_cons, ← pathsAfter, ih hkeys.2, Dict.lookup_put, List.find?_cons]
      by_cases hkey : grant.key = key
      · have hrest : rest.find? (fun grant => grant.key = key) = none := by
          refine List.find?_eq_none.mpr fun other hother hsame => hkeys.1 ?_
          rw [hkey, ← of_decide_eq_true hsame]
          exact List.mem_map_of_mem hother
        simp [hkey, hrest]
      · simp [hkey]

theorem lookup_paths_of_mem (inputs : PosixPath) {grants : List AssetGrant}
    (hkeys : (grants.map AssetGrant.key).Nodup) {grant : AssetGrant} (h : grant ∈ grants) :
    (pathsAfter inputs grants Table.empty).lookup grant.key = some (destination inputs grant) := by
  have hfind := Table.find?_eq_some_of_mem hkeys h
  rw [lookup_pathsAfter hkeys, hfind]
  rfl

theorem mem_of_lookup_paths {inputs : PosixPath} {grants : List AssetGrant}
    (hkeys : (grants.map AssetGrant.key).Nodup) {key : String} {path : PosixPath}
    (h : (pathsAfter inputs grants Table.empty).lookup key = some path) :
    ∃ grant ∈ grants, grant.key = key ∧ destination inputs grant = path := by
  have hempty : Dict.lookup (Table.empty : Dict String PosixPath) key = none := rfl
  rw [lookup_pathsAfter hkeys, hempty, Option.or_none, Option.map_eq_some_iff] at h
  obtain ⟨grant, hfind, hpath⟩ := h
  exact ⟨grant, List.mem_of_find?_eq_some hfind, by simpa using List.find?_some hfind, hpath⟩

variable (m agent)

/-- The workspace can be made, and every granted input downloads within the bound. -/
def InputsDelivered (lease : LeaseGrant) (workspace : PosixPath) (fs : FileSystem) : Prop :=
  let inputs := workspace.child inputsDirectory
  let made := (fs.rmtree m.cwd workspace).mkdir m.cwd inputs
  made.2 = .ok () ∧ DownloadsSucceed m agent inputs lease.inputGrants made.1

/-- Every granted input arrives as its own file. -/
structure EachItsOwnFile (lease : LeaseGrant) (paths : Dict String PosixPath) (fs : FileSystem) :
    Prop where
  keys : ∀ key, (paths.lookup key).isSome ↔ key ∈ lease.inputKeys
  injective : ∀ key key' path, paths.lookup key = some path → paths.lookup key' = some path →
    key = key'
  content : ∀ grant ∈ lease.inputGrants, ∃ path content,
    paths.lookup grant.key = some path ∧ m.transfer.object grant.url = some content ∧
      fs (path.resolve m.cwd) = some (.file content)

variable {m agent}

theorem run_downloadInputs {lease : LeaseGrant} {workspace : PosixPath} {fs : FileSystem}
    (h : InputsDelivered m agent lease workspace fs) :
    let inputs := workspace.child inputsDirectory
    let made := (fs.rmtree m.cwd workspace).mkdir m.cwd inputs
    Prog.run m.exec (downloadInputs agent lease workspace) fs =
      (filesAfter m agent inputs lease.inputGrants made.1,
        .ok (pathsAfter inputs lease.inputGrants Table.empty)) := by
  obtain ⟨hmade, hdownloads⟩ := h
  have hreply : (m.exec (.mkdir (workspace.child inputsDirectory))
      (fs.rmtree m.cwd workspace)).2 = .ok () := congrArg (Except.mapError AgentExc.osError) hmade
  rw [downloadInputs, Prog.run, Prog.run]
  exact (congrArg (fun reply => Prog.run m.exec (Prog.ofExcept reply >>= fun _ =>
    downloadGrants agent _ lease.inputGrants Table.empty) _) hreply).trans
      (run_downloadGrants hdownloads)

/-- The directory of the inputs is not the root of the file system. -/
theorem resolve_inputs_ne_nil (cwd : Location) (workspace : PosixPath) :
    (workspace.child inputsDirectory).resolve cwd ≠ [] := by
  have hpart : isPathPart inputsDirectory := by decide
  rw [PosixPath.child, PosixPath.resolve_join, PosixPath.ofText_part hpart,
    if_neg Bool.false_ne_true, List.foldl_cons, List.foldl_nil, PosixPath.enter, if_neg (by decide)]
  simp

/-- Inputs that are files of their own have names of their own. -/
theorem EachItsOwnFile.names_nodup {lease : LeaseGrant} {inputs : PosixPath} {fs : FileSystem}
    (hnodup : (lease.inputGrants.map AssetGrant.key).Nodup)
    (h : EachItsOwnFile m lease (pathsAfter inputs lease.inputGrants Table.empty) fs) :
    ((lease.inputGrants.map AssetGrant.key).map fileName).Nodup := by
  rw [List.map_map]
  refine List.Nodup.map_on (fun grant hgrant other hother hname => ?_) hnodup.of_map
  have hpath := lookup_paths_of_mem inputs hnodup hgrant
  have hpath' := lookup_paths_of_mem inputs hnodup hother
  have hsame : destination inputs grant = destination inputs other :=
    congrArg inputs.child hname
  have hkey := h.injective _ _ _ hpath (hsame ▸ hpath')
  exact List.inj_on_of_nodup_map hnodup hgrant hother hkey

/-- Inputs with names of their own are files of their own. -/
theorem eachItsOwnFile_of_names {lease : LeaseGrant} {inputs : PosixPath} {fs : FileSystem}
    (hinputs : inputs.resolve m.cwd ≠ [])
    (hgrants : lease.inputGrants.map AssetGrant.key = lease.inputKeys)
    (hnodup : (lease.inputGrants.map AssetGrant.key).Nodup)
    (hnames : ((lease.inputGrants.map AssetGrant.key).map fileName).Nodup)
    (h : DownloadsSucceed m agent inputs lease.inputGrants fs) :
    EachItsOwnFile m lease (pathsAfter inputs lease.inputGrants Table.empty)
      (filesAfter m agent inputs lease.inputGrants fs) := by
  rw [List.map_map] at hnames
  refine ⟨fun key => ?_, fun key key' path hpath hpath' => ?_, fun grant hgrant => ?_⟩
  · rw [← hgrants, List.mem_map, Option.isSome_iff_exists]
    constructor
    · rintro ⟨path, hpath⟩
      obtain ⟨grant, hgrant, hkey, -⟩ := mem_of_lookup_paths hnodup hpath
      exact ⟨grant, hgrant, hkey⟩
    · rintro ⟨grant, hgrant, rfl⟩
      exact ⟨_, lookup_paths_of_mem inputs hnodup hgrant⟩
  · obtain ⟨grant, hgrant, rfl, rfl⟩ := mem_of_lookup_paths hnodup hpath
    obtain ⟨other, hother, rfl, hsame⟩ := mem_of_lookup_paths hnodup hpath'
    have hplace := congrArg (PosixPath.resolve m.cwd) hsame
    rw [destination, destination, ← fileName, ← fileName, resolve_child_name,
      resolve_child_name] at hplace
    have hname := enter_name_injective hinputs hplace
    rw [List.inj_on_of_nodup_map hnames hother hgrant hname]
  · obtain ⟨content, hobject, hfile⟩ := filesAfter_content hinputs hnames h hgrant
    exact ⟨_, content, lookup_paths_of_mem inputs hnodup hgrant, hobject, hfile⟩

/-- An accepted job's inputs each arrive as their own file, whatever the transport, exactly when no
two of its keys end in the same component. -/
theorem inputs_own_files_iff [FloatRepr] (m : Machine) (agent : WorkerAgent)
    (submission : JobSubmission) (lease : LeaseGrant) (workspace : PosixPath) (fs : FileSystem)
    (haccepted : validateJobSubmission submission = .ok ())
    (hkeys : lease.inputKeys = submission.inputKeys)
    (hgrants : lease.inputGrants.map AssetGrant.key = lease.inputKeys)
    (hdelivered : InputsDelivered m agent lease workspace fs) :
    ∃ fs' paths, Prog.run m.exec (downloadInputs agent lease workspace) fs = (fs', .ok paths) ∧
      (EachItsOwnFile m lease paths fs' ↔ (lease.inputKeys.map fileName).Nodup) := by
  have hnodup : (lease.inputGrants.map AssetGrant.key).Nodup := by
    rw [hgrants, hkeys]
    exact inputKeys_nodup_of_validate haccepted
  rw [← hgrants]
  exact ⟨_, _, run_downloadInputs hdelivered, fun hown => hown.names_nodup hnodup, fun hnames =>
    eachItsOwnFile_of_names (resolve_inputs_ne_nil m.cwd workspace) hgrants hnodup hnames
      hdelivered.2⟩

end Downloads

/-! ### Two inputs -/

/-- The echo job with two inputs. -/
def twoInputs (key key' : String) : JobSubmission := { echoJob with inputKeys := [key, key'] }

def twoInputsLease (key key' : String) : LeaseGrant :=
  { smallGrant with
    inputKeys := [key, key'],
    inputGrants := [⟨key, memoryReadPrefix ++ key, "GET", 0, none⟩,
      ⟨key', memoryReadPrefix ++ key', "GET", 0, none⟩] }

/-- A machine without plugins whose transport reads two stored objects. -/
def twoInputsMachine (key key' : String) : Machine where
  cwd := []
  transfer := memoryAssetTransfer
    { assets := (Table.empty.put (key, "first".toUTF8)).put (key', "second".toUTF8) }
  execute _ _ fs := (fs, .error (.raised "NotImplementedError"))

def smallAgent : WorkerAgent where
  workspaceRoot := .ofText "/work"

/-- The two faces of this job are one file. -/
theorem inputs_overwritten :
    letI := FloatRepr.byParts
    let key := "inputs/a/face.png"
    let key' := "inputs/b/face.png"
    let m := twoInputsMachine key key'
    let lease := twoInputsLease key key'
    let workspace := smallAgent.workspace lease.jobId
    validateJobSubmission (twoInputs key key') = .ok () ∧
      lease.inputKeys = (twoInputs key key').inputKeys ∧
      lease.inputGrants.map AssetGrant.key = lease.inputKeys ∧
      InputsDelivered m smallAgent lease workspace (fun _ => none) ∧
      ∀ fs' paths, Prog.run m.exec (downloadInputs smallAgent lease workspace) (fun _ => none) =
        (fs', .ok paths) → ¬ EachItsOwnFile m lease paths fs' := by
  intro key key' m lease workspace
  have hdelivered : InputsDelivered m smallAgent lease workspace (fun _ => none) :=
    ⟨by decide +kernel, ⟨5, by decide +kernel, by decide⟩, ⟨6, by decide +kernel, by decide⟩, trivial⟩
  refine ⟨by decide +kernel, rfl, rfl, hdelivered, fun fs' paths hrun hown => ?_⟩
  rw [run_downloadInputs hdelivered] at hrun
  cases hrun
  exact absurd (hown.names_nodup (by decide)) (by decide +kernel)

theorem inputs_own_files_iff_small :
    let key := "inputs/front.png"
    let key' := "inputs/back.png"
    let m := twoInputsMachine key key'
    let lease := twoInputsLease key key'
    let workspace := smallAgent.workspace lease.jobId
    ∃ fs' paths, Prog.run m.exec (downloadInputs smallAgent lease workspace) (fun _ => none) =
      (fs', .ok paths) ∧ EachItsOwnFile m lease paths fs' := by
  intro key key' m lease workspace
  let := FloatRepr.byParts
  obtain ⟨fs', paths, hrun, hiff⟩ := inputs_own_files_iff m smallAgent (twoInputs key key') lease
    workspace (fun _ => none) (by decide +kernel) rfl rfl
    ⟨by decide +kernel, ⟨5, by decide +kernel, by decide⟩, ⟨6, by decide +kernel, by decide⟩, trivial⟩
  exact ⟨fs', paths, hrun, hiff.mpr (by decide +kernel)⟩

/-! ### Workspaces -/

/-- Strictly inside a directory. -/
def Inside (root place : Location) : Prop := root <+: place ∧ place ≠ root

/-- What a job id adds to a workspace root: nothing when it leads out of it. An absolute id climbs
all levels, and an id that climbs must name again what it has climbed over. -/
def below? (root : Location) (jobId : String) : Option (List String) :=
  let path := PosixPath.ofText jobId
  let descent := PosixPath.descent path.parts
  let climbed := root.rtake (if path.absolute then root.length else descent.climbed)
  if climbed <+: descent.names then some (descent.names.drop climbed.length) else none

theorem resolve_workspace (cwd : Location) (root : PosixPath) (jobId : String) :
    let path := PosixPath.ofText jobId
    let descent := PosixPath.descent path.parts
    (root.child jobId).resolve cwd =
      (root.resolve cwd).rdrop
        (if path.absolute then (root.resolve cwd).length else descent.climbed) ++
          descent.names := by
  intro path descent
  rw [PosixPath.child, PosixPath.resolve_join]
  by_cases habsolute : path.absolute
  · rw [if_pos habsolute, if_pos habsolute, PosixPath.resolve, if_pos habsolute,
      PosixPath.foldl_enter, PosixPath.Descent.reach]
    simp [List.rdrop, descent, path]
  · rw [if_neg habsolute, if_neg habsolute, PosixPath.foldl_enter, PosixPath.Descent.reach]

theorem below?_eq_some_iff {cwd : Location} {root : PosixPath} {jobId : String}
    {rest : List String} :
    below? (root.resolve cwd) jobId = some rest ↔
      (root.child jobId).resolve cwd = root.resolve cwd ++ rest := by
  rw [resolve_workspace, below?]
  generalize root.resolve cwd = top
  generalize (if (PosixPath.ofText jobId).absolute then top.length
    else (PosixPath.descent (PosixPath.ofText jobId).parts).climbed) = k
  generalize (PosixPath.descent (PosixPath.ofText jobId).parts).names = names
  have hsplit : top.rdrop k ++ top.rtake k = top := List.take_append_drop _ top
  constructor
  · intro h
    split_ifs at h with hclimbed
    cases h
    obtain ⟨tail, rfl⟩ := hclimbed
    rw [List.drop_left, ← List.append_assoc, hsplit]
  · intro h
    rw [← hsplit, List.append_assoc, hsplit, List.append_cancel_left_eq] at h
    rw [h, if_pos (List.prefix_append _ _), List.drop_left]

theorem inside_workspace_iff {cwd : Location} {root : PosixPath} {jobId : String} :
    Inside (root.resolve cwd) ((root.child jobId).resolve cwd) ↔
      ∃ rest, below? (root.resolve cwd) jobId = some rest ∧ rest ≠ [] := by
  simp only [below?_eq_some_iff]
  constructor
  · rintro ⟨⟨rest, hrest⟩, hne⟩
    refine ⟨rest, hrest.symm, ?_⟩
    rintro rfl
    exact hne (by rw [← hrest, List.append_nil])
  · rintro ⟨rest, hrest, hne⟩
    rw [hrest]
    exact ⟨List.prefix_append _ _, by simpa using hne⟩

section Footprint

variable {agent : WorkerAgent} {lease : LeaseGrant} {P : AgentAction → Prop}

theorem awaits_attempt (hrmtree : P (.rmtree (agent.workspace lease.jobId)))
    (hother : ∀ action, (∀ path, action ≠ .rmtree path) → P action) (served : ServedCapability)
    (request : ValidatedRequest) : (attempt agent served lease request).Awaits P := by
  have hdownload : (downloadInputs agent lease (agent.workspace lease.jobId)).Awaits P :=
    awaits_downloadInputs hrmtree (fun _ => hother _ nofun) fun _ _ _ => hother _ nofun
  refine .bind hdownload fun inputPaths => .bind ⟨hother _ nofun, fun _ => trivial⟩ fun now => ?_
  refine .bind ⟨hother _ nofun, fun reply => Prog.awaits_ofExcept reply⟩ fun output => ?_
  exact awaits_publish (fun _ => hother _ nofun) (fun _ _ _ => hother _ nofun)
    fun _ => hother _ nofun

/-- Serving a job removes no tree but its workspace. -/
theorem awaits_serve (hrmtree : P (.rmtree (agent.workspace lease.jobId)))
    (hother : ∀ action, (∀ path, action ≠ .rmtree path) → P action) :
    (agent.serve lease).Awaits P := by
  have hpost (call : JobPost) : P (.post call) := hother _ nofun
  rw [serve]
  cases agent.served.lookup lease.capabilityId with
  | none => exact awaits_reject hpost
  | some served =>
      simp only
      cases served.validate lease with
      | error error =>
          cases error with
          | pluginRequestRejected text => exact awaits_reject hpost
          | _ => trivial
      | ok request =>
          simp only
          split_ifs
          · exact awaits_release hpost
          · exact .ensure (.handle (awaits_attempt hrmtree hother served request)
              fun _ => awaits_afterFailure hpost) ⟨hrmtree, fun _ => trivial⟩

end Footprint

/-! ### Confinement -/

/-- What serving a job must leave: the workspace root, all that is not inside it, and the workspaces
of the other jobs that are served. -/
def Spared (cwd : Location) (root : PosixPath) (jobs : List String) (jobId : String)
    (place : Location) : Prop :=
  ¬ Inside (root.resolve cwd) place ∨
    ∃ other ∈ jobs, other ≠ jobId ∧ (root.child other).resolve cwd <+: place

/-- The workspaces of the served jobs are strictly inside the workspace root, and no step of serving
one of them, whatever the others do in between, removes what must be left. The plugin of the job
leaves it too. -/
def ServedApart (cwd : Location) (root : PosixPath) (jobs : List String) : Prop :=
  ∀ jobId ∈ jobs, Inside (root.resolve cwd) ((root.child jobId).resolve cwd) ∧
    ∀ (m : Machine) (agent : WorkerAgent) (lease : LeaseGrant),
      m.cwd = cwd → agent.workspaceRoot = root → lease.jobId = jobId →
        (∀ context request fs,
          FileSystem.Keeps (Spared cwd root jobs jobId) fs (m.execute context request fs).1) →
          (agent.serve lease).Awaits fun action => ∀ fs,
            FileSystem.Keeps (Spared cwd root jobs jobId) fs (m.exec action fs).1

/-- Each id adds names of its own to the workspace root, and none of them is the beginning of what
another id adds. -/
def IdsApart (root : Location) (jobs : List String) : Prop :=
  (∀ jobId ∈ jobs, ∃ rest, below? root jobId = some rest ∧ rest ≠ []) ∧
    ∀ jobId ∈ jobs, ∀ other ∈ jobs, jobId ≠ other → ∀ rest rest',
      below? root jobId = some rest → below? root other = some rest' → ¬ rest <+: rest'

/-- Only a removal can take something away that must be left. -/
theorem exec_keeps_of_ne_rmtree {m : Machine} {places : Location → Prop}
    (hexecute : ∀ context request fs,
      FileSystem.Keeps places fs (m.execute context request fs).1)
    {action : AgentAction} (h : ∀ path, action ≠ .rmtree path) (fs : FileSystem) :
    FileSystem.Keeps places fs (m.exec action fs).1 := by
  cases action with
  | rmtree path => exact absurd rfl (h path)
  | mkdir path => exact FileSystem.mkdir_keeps places _ path fs
  | download url destination maxBytes => exact m.transfer.download_keeps places _ _ _ _ fs
  | execute context request => exact hexecute context request fs
  | clock | readFile _ | upload _ _ _ | post _ => exact .refl places fs

/-- With ids apart, nothing that must be left is in the workspace of the job. -/
theorem not_spared_of_workspace {cwd : Location} {root : PosixPath} {jobs : List String}
    (h : IdsApart (root.resolve cwd) jobs) {jobId : String} (hjob : jobId ∈ jobs) {place : Location}
    (hspared : Spared cwd root jobs jobId place) :
    ¬ (root.child jobId).resolve cwd <+: place := by
  intro hbelow
  obtain ⟨rest, hrest, hne⟩ := h.1 jobId hjob
  have hplace := below?_eq_some_iff.mp hrest
  rcases hspared with houtside | ⟨other, hother, hdiffers, hwithin⟩
  · refine houtside ⟨(hplace ▸ List.prefix_append _ _ : _ <+: _).trans hbelow, ?_⟩
    rintro rfl
    have hlength := hbelow.length_le
    rw [hplace, List.length_append] at hlength
    have hpositive := List.length_pos_of_ne_nil hne
    omega
  · obtain ⟨rest', hrest', -⟩ := h.1 other hother
    have hplace' := below?_eq_some_iff.mp hrest'
    rw [hplace] at hbelow
    rw [hplace'] at hwithin
    rcases List.prefix_or_prefix_of_prefix hbelow hwithin with hfirst | hsecond
    · exact h.2 jobId hjob other hother (Ne.symm hdiffers) rest rest' hrest hrest'
        ((List.prefix_append_right_inj _).mp hfirst)
    · exact h.2 other hother jobId hjob hdiffers rest' rest hrest' hrest
        ((List.prefix_append_right_inj _).mp hsecond)

/-- An agent under a workspace root that accepts every echo job. -/
def echoAgent (root : PosixPath) : WorkerAgent where
  workspaceRoot := root
  served := Table.empty.put ("test.deterministic.echo.v1", {
    capability := smallCapability,
    validate := fun lease => .ok ⟨lease.capabilityId, lease.contractVersion, Table.empty, none⟩ })

/-- A machine whose plugins fail at once and whose transport has nothing. -/
def idleMachine (cwd : Location) : Machine where
  cwd := cwd
  transfer := memoryAssetTransfer {}
  execute _ _ fs := (fs, .error (.raised "NotImplementedError"))

theorem removes_workspace {P : AgentAction → Prop} {root : PosixPath} {jobId : String}
    (h : ((echoAgent root).serve { smallGrant with jobId := jobId }).Awaits P) :
    P (.rmtree (root.child jobId)) := by
  exact h.1

/-- Jobs are served apart from each other and from all else exactly when their ids lead below the
workspace root and apart. -/
theorem workspaces_confined_iff (cwd : Location) (root : PosixPath) (jobs : List String) :
    ServedApart cwd root jobs ↔ IdsApart (root.resolve cwd) jobs := by
  constructor
  · intro h
    refine ⟨fun jobId hjob => inside_workspace_iff.mp (h jobId hjob).1, ?_⟩
    intro jobId hjob other hother hdiffers rest rest' hrest hrest' hbegins
    have hserved := (h jobId hjob).2 (idleMachine cwd) (echoAgent root)
      { smallGrant with jobId := jobId } rfl rfl rfl fun _ _ fs => .refl _ fs
    -- What stands in the workspace of the other job is below the removed directory.
    have hplace := below?_eq_some_iff.mp hrest
    have hplace' := below?_eq_some_iff.mp hrest'
    have hprefix : (root.child jobId).resolve cwd <+: (root.child other).resolve cwd := by
      rw [hplace, hplace']
      exact (List.prefix_append_right_inj _).mpr hbegins
    have hbelow := hprefix.trans (List.prefix_append _ ["inputs"])
    have hne : (root.child other).resolve cwd ++ ["inputs"] ≠ (root.child jobId).resolve cwd := by
      intro heq
      have hlength := hprefix.length_le
      rw [← heq, List.length_append, List.length_singleton] at hlength
      omega
    have hkept := removes_workspace hserved (fun _ => some .directory)
      ((root.child other).resolve cwd ++ ["inputs"])
      (Or.inr ⟨other, hother, Ne.symm hdiffers, List.prefix_append _ _⟩) rfl
    have hgone : ((idleMachine cwd).exec (.rmtree (root.child jobId)) fun _ => some .directory).1
        ((root.child other).resolve cwd ++ ["inputs"]) = none :=
      FileSystem.rmtree_below (fun _ => some .directory) rfl hbelow hne
    rw [hgone] at hkept
    exact absurd hkept (by simp)
  · intro h jobId hjob
    refine ⟨inside_workspace_iff.mpr (h.1 jobId hjob), ?_⟩
    rintro m agent lease rfl rfl rfl hexecute
    refine awaits_serve (fun fs => ?_) fun action hother fs =>
      exec_keeps_of_ne_rmtree hexecute hother fs
    exact FileSystem.rmtree_keeps (fun place => not_spared_of_workspace h hjob) fs

/-- The job `..` is accepted, its workspace is the parent of the workspace root, and serving it
removes the workspace root. -/
theorem workspace_root_removed :
    letI := FloatRepr.byParts
    let root := PosixPath.ofText "/work"
    let fs : FileSystem := fun place =>
      if place = [] ∨ place = ["work"] then some .directory else none
    validateJobSubmission { echoJob with jobId := ".." } = .ok () ∧
      ¬ ServedApart [] root [".."] ∧
      (Prog.run (idleMachine []).exec
        ((echoAgent root).serve { smallGrant with jobId := ".." }) fs).1 ["work"] = none := by
  refine ⟨by decide +kernel, fun h => ?_, by decide +kernel⟩
  have hinside := (h ".." (List.mem_singleton_self _)).1.1
  exact absurd hinside (by decide +kernel)

end GpuWorkerPool
