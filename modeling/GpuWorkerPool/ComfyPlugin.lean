import GpuWorkerPool.ComfyMemory

/-!
The jobs of a plugin one after the other. Each execution edits a copy of its template's graph, so what
it submits differs from the graph that was installed only where the template allows it, whatever the
jobs before it did and however they ended.
-/

namespace GpuWorkerPool

open Base ComfyWorkflowPlugin

/-- The templates of a plugin, and the reference of the graph of each by its capability. -/
structure ComfyPlugin where
  registry : TemplateRegistry
  graphRef : String → Nat

/-- A job that the plugin executes, with what it meets. -/
structure ComfyJob where
  lease : LeaseGrant
  request : ValidatedRequest
  context : ExecutionContext
  runtime : LocalRuntime

/-- No value that the lease sends for a declared input is a link. -/
def SendsNoLinks (template : ComfyTemplate) (lease : LeaseGrant) : Prop :=
  ∀ entry ∈ template.inputs, ∀ value, lease.payload.get? entry.name = some value →
    ∀ nodeId, ¬ IsLink value nodeId

namespace ComfyPlugin

variable (plugin : ComfyPlugin)

/-- `execute` up to the submission of a graph, which it may not come to: the runtime may be down, the
capability unsupported, or the edits may fail after some of them changed the copy. -/
inductive Executes (job : ComfyJob) (memory : GraphMemory) : GraphMemory → Option Graph → Prop where
  | unavailable : Executes job memory memory none
  | unsupported (htemplate : plugin.registry.get? job.request.capabilityId = none) :
      Executes job memory memory none
  | submitted {template : ComfyTemplate} {edited : GraphMemory}
      (htemplate : plugin.registry.get? job.request.capabilityId = some template)
      (hedited : editGraph (GraphMemory.ops memory.graphs.length) job.runtime template job.context
        job.request (memory.deepcopy (plugin.graphRef template.capabilityId)) = .ok edited) :
      Executes job memory edited (some (edited.read memory.graphs.length))
  | failed {template : ComfyTemplate} {error : ComfyExc} {edited : GraphMemory}
      (htemplate : plugin.registry.get? job.request.capabilityId = some template)
      (hfailed : editGraph (GraphMemory.ops memory.graphs.length) job.runtime template job.context
        job.request (memory.deepcopy (plugin.graphRef template.capabilityId)) = .error error)
      (hedits : Relation.ReflTransGen (CopyEdit memory.graphs.length)
        (memory.deepcopy (plugin.graphRef template.capabilityId)) edited) :
      Executes job memory edited none

/-- Jobs one after the other, each with what it submitted. -/
inductive Runs : GraphMemory → List (ComfyJob × Option Graph) → GraphMemory → Prop where
  | nil (memory : GraphMemory) : Runs memory [] memory
  | cons {job : ComfyJob} {submitted : Option Graph} {memory next last : GraphMemory}
      {rest : List (ComfyJob × Option Graph)} (hjob : plugin.Executes job memory next submitted)
      (hrest : Runs next rest last) : Runs memory ((job, submitted) :: rest) last

/-- The template was validated and its graph is in memory as it was installed. -/
structure Installed (memory : GraphMemory) (template : ComfyTemplate) : Prop where
  validated : validateTemplate template = .ok ()
  stored : plugin.graphRef template.capabilityId < memory.graphs.length
  bounded : ∀ cell ∈ cellsOf (memory.graphAt (plugin.graphRef template.capabilityId)).rows,
    cell < memory.inputs.length
  reads : memory.read (plugin.graphRef template.capabilityId) = templateGraph template

variable {plugin}

theorem Installed.spared {start memory : GraphMemory} {template : ComfyTemplate}
    (h : plugin.Installed start template) (hspares : Spares start memory) :
    plugin.Installed memory template := by
  have hgraph : memory.graphAt (plugin.graphRef template.capabilityId) =
      start.graphAt (plugin.graphRef template.capabilityId) := by
    rw [GraphMemory.graphAt, GraphMemory.graphAt, hspares.graphs _ h.stored]
  refine ⟨h.validated, ?_, ?_, ?_⟩
  · rw [hspares.length]
    exact Nat.lt_succ_of_lt h.stored
  · rw [hgraph]
    exact fun cell hcell => Nat.lt_of_lt_of_le (h.bounded cell hcell) hspares.grown
  · rw [← h.reads]
    apply Table.ext
    simp only [GraphMemory.read, hgraph]
    exact readRows_congr fun cell hcell => hspares.inputs cell (h.bounded cell hcell)

/-- The graph that the edits make of the template is submitted by an execution. -/
theorem executes_of_submitted {job : ComfyJob} {memory : GraphMemory} {template : ComfyTemplate}
    (hinstalled : plugin.Installed memory template)
    (htemplate : plugin.registry.get? job.request.capabilityId = some template) {graph : Graph}
    (h : submittedGraph job.runtime template job.context job.request = .ok graph) :
    ∃ memory', plugin.Executes job memory memory' (some graph) := by
  rw [submittedGraph, ← hinstalled.reads] at h
  obtain ⟨edited, hedited, hcopied⟩ := ((simulates_copied memory).editGraph
    (copied_store memory _)).of_ok_right h
  have hexecutes := Executes.submitted htemplate hedited
  rw [hcopied.reads] at hexecutes
  exact ⟨edited, hexecutes⟩

/-- One execution spares what was installed. -/
theorem Executes.spares {job : ComfyJob} {memory memory' : GraphMemory} {submitted : Option Graph}
    (h : plugin.Executes job memory memory' submitted) :
    memory' = memory ∨ Spares memory memory' := by
  cases h with
  | unavailable => exact Or.inl rfl
  | unsupported _ => exact Or.inl rfl
  | submitted _ hedited =>
      obtain ⟨graph, -, hcopied⟩ := ((simulates_copied memory).editGraph
        (copied_store memory _)).of_ok hedited
      exact Or.inr hcopied.spares
  | failed _ _ hedits => exact Or.inr ((copied_store memory _).spares.edits hedits)

/-- What one execution submits for an accepted lease. -/
theorem Executes.allowlisted {job : ComfyJob} {memory memory' : GraphMemory} {graph : Graph}
    (hinstalled : ∀ template ∈ plugin.registry.rows, plugin.Installed memory template)
    (haccepted : validate plugin.registry job.lease = .ok job.request)
    (h : plugin.Executes job memory memory' (some graph)) :
    ∃ template, plugin.registry.get? job.lease.capabilityId = some template ∧
      Allowlisted job.runtime job.context template job.lease graph ∧
      SendsNoLinks template job.lease := by
  cases h with
  | submitted htemplate hedited =>
      obtain ⟨graph, hgraph, hcopied⟩ := ((simulates_copied memory).editGraph
        (copied_store memory _)).of_ok hedited
      rw [validate] at haccepted
      cases hregistry : plugin.registry.get? job.lease.capabilityId with
      | none =>
          rw [hregistry] at haccepted
          cases haccepted
      | some template =>
          rw [hregistry] at haccepted
          have hhere := hinstalled template (Table.mem_of_get? hregistry)
          have hvalid := validateTemplate_ok_iff.mp hhere.validated
          obtain ⟨hadmitted, hrequest⟩ := (validateLease_ok_iff hvalid).mp haccepted
          rw [hrequest] at htemplate hgraph
          obtain rfl := Option.some.inj (hregistry.symm.trans htemplate)
          rw [hhere.reads] at hgraph
          rw [hcopied.reads]
          exact ⟨template, rfl, allowlisted_of_submitted hvalid hadmitted hgraph,
            fun entry hentry value hvalue => job_value_no_link hvalid hadmitted hentry hvalue⟩

/-- Every graph that is submitted is the installed one but for what its template allows its job, and
the installed graphs stay. -/
theorem jobs_change_allowlisted {memory last : GraphMemory} {jobs : List (ComfyJob × Option Graph)}
    (hinstalled : ∀ template ∈ plugin.registry.rows, plugin.Installed memory template)
    (haccepted : ∀ entry ∈ jobs, validate plugin.registry entry.1.lease = .ok entry.1.request)
    (hruns : plugin.Runs memory jobs last) :
    (∀ entry ∈ jobs, ∀ graph, entry.2 = some graph →
      ∃ template, plugin.registry.get? entry.1.lease.capabilityId = some template ∧
        Allowlisted entry.1.runtime entry.1.context template entry.1.lease graph ∧
        SendsNoLinks template entry.1.lease) ∧
    ∀ template ∈ plugin.registry.rows,
      last.read (plugin.graphRef template.capabilityId) = templateGraph template := by
  induction hruns with
  | nil memory =>
      exact ⟨List.forall_mem_nil _, fun template htemplate => (hinstalled template htemplate).reads⟩
  | @cons job submitted memory next last rest hjob _ ih =>
      rw [List.forall_mem_cons] at haccepted
      have hnext : ∀ template ∈ plugin.registry.rows, plugin.Installed next template := by
        intro template htemplate
        rcases hjob.spares with hsame | hspares
        · exact hsame ▸ hinstalled template htemplate
        · exact (hinstalled template htemplate).spared hspares
      obtain ⟨hlater, hlast⟩ := ih hnext haccepted.2
      rw [List.forall_mem_cons]
      refine ⟨⟨fun graph hgraph => ?_, hlater⟩, hlast⟩
      subst hgraph
      exact hjob.allowlisted hinstalled haccepted.1

/-- A plugin with the portrait as its only template. -/
def portraitPlugin : ComfyPlugin where
  registry := .ofTemplates [portraitTemplate]
  graphRef _ := 0

def portraitMemory : GraphMemory := GraphMemory.store ⟨[], []⟩ (templateGraph portraitTemplate)

theorem installed_portrait :
    ∀ template ∈ portraitPlugin.registry.rows, portraitPlugin.Installed portraitMemory template := by
  intro template htemplate
  obtain rfl : template = portraitTemplate := List.mem_singleton.mp htemplate
  have hstored : Copied ⟨[], []⟩ portraitMemory (templateGraph portraitTemplate) :=
    copied_store ⟨[], []⟩ (templateGraph portraitTemplate)
  refine ⟨by decide, ?_, hstored.bounded, hstored.reads⟩
  rw [show portraitMemory.graphs.length = 1 from hstored.spares.length]
  exact Nat.zero_lt_one

def portraitJob : ComfyJob where
  lease := boundPortrait
  request := acceptedRequest portraitTemplate boundPortrait
  context := storingContext boundPortrait
  runtime := storingRuntime

theorem jobs_change_allowlisted_portrait : ∃ last graph,
    portraitPlugin.Runs portraitMemory [(portraitJob, some graph)] last ∧
      Allowlisted storingRuntime (storingContext boundPortrait) portraitTemplate boundPortrait
        graph ∧
      last.read 0 = templateGraph portraitTemplate := by
  obtain ⟨graph, hgraph⟩ : ∃ graph, submittedGraph storingRuntime portraitTemplate
      (storingContext boundPortrait) portraitJob.request = .ok graph := ⟨_, rfl⟩
  obtain ⟨last, hexecutes⟩ : ∃ last,
      portraitPlugin.Executes portraitJob portraitMemory last (some graph) :=
    executes_of_submitted (installed_portrait portraitTemplate List.mem_cons_self) rfl hgraph
  have hruns := Runs.cons hexecutes (Runs.nil last)
  have haccepted : ∀ entry ∈ [(portraitJob, some graph)],
      validate portraitPlugin.registry entry.1.lease = .ok entry.1.request := by
    rw [List.forall_mem_singleton]
    exact validate_boundPortrait
  obtain ⟨hjobs, hlast⟩ := jobs_change_allowlisted installed_portrait haccepted hruns
  obtain ⟨template, htemplate, hallowlisted, -⟩ := hjobs _ List.mem_cons_self graph rfl
  obtain rfl : portraitTemplate = template := Option.some.inj htemplate
  exact ⟨last, graph, hruns, hallowlisted, hlast portraitTemplate List.mem_cons_self⟩

end ComfyPlugin

end GpuWorkerPool
