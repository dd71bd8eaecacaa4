import GpuWorkerPool.Admission

/-!
`OGWP_WORKER_ENROLLMENTS`: from the text of the operator's configuration to the mapping of approved
workers. The parser of the text is a parameter that reports the members of an object in order and
with repetitions, as `object_pairs_hook` receives them.
-/

namespace GpuWorkerPool

open Base

/-- What a configuration that is not admitted is reported as. -/
def invalidEnrollments : Exc := .valueError "invalid OGWP_WORKER_ENROLLMENTS configuration"

/-- `unique_object` -/
def uniqueObject (pairs : List (String × JsonValue)) :
    Except Exc (Dict String JsonValue) :=
  pairs.foldlM (fun result pair => do
    require (result.get? pair.1).isNone "duplicate enrollment configuration key"
    pure (result.put pair)) Table.empty

mutual

/-- `json.loads` on a parsed document: every object passes the hook after its members have. -/
def hooked : JsonValue → Except Exc JsonValue
  | .list items => do
      let items ← hookedItems items
      pure (.list items)
  | .dict members => do
      let members ← hookedMembers members
      let result ← uniqueObject members
      pure (.dict result.rows)
  | value => .ok value

def hookedItems : List JsonValue → Except Exc (List JsonValue)
  | [] => .ok []
  | item :: rest => do
      let item ← hooked item
      let rest ← hookedItems rest
      pure (item :: rest)

def hookedMembers : List (String × JsonValue) → Except Exc (List (String × JsonValue))
  | [] => .ok []
  | (name, value) :: rest => do
      let value ← hooked value
      let rest ← hookedMembers rest
      pure ((name, value) :: rest)

end

/-- `WorkerEnrollment(identity_subject=identity_subject, tenant_id=tenant_id)` on JSON values. -/
def enrollmentOf (identitySubject tenantId : JsonValue) : Except Exc WorkerEnrollment :=
  match identitySubject, tenantId with
  | .str subject, .null => WorkerEnrollment.new subject none
  | .str subject, .str tenant => WorkerEnrollment.new subject (some tenant)
  | .str subject, _ =>
      if validIdentitySubject subject then
        .error (.valueError "enrollment tenant must be a bounded string or null")
      else .error (.valueError "enrollment needs a nonempty, bounded identity subject")
  | _, _ => .error (.valueError "enrollment needs a nonempty, bounded identity subject")

/-- `set(entry) == {"identity_subject", "tenant_id"}` -/
def hasEnrollmentKeys (entry : List (String × JsonValue)) : Bool :=
  ["identity_subject", "tenant_id"].all (fun name => name ∈ entry.map Prod.fst) &&
    (entry.map Prod.fst).all fun name => name ∈ ["identity_subject", "tenant_id"]

def enrollmentEntry (entry : JsonValue) : Except Exc WorkerEnrollment :=
  match entry with
  | .dict members => do
      require (hasEnrollmentKeys members) "expected identity_subject and explicit tenant_id"
      enrollmentOf ((members.lookup "identity_subject").getD .null)
        ((members.lookup "tenant_id").getD .null)
  | _ => .error (.valueError "expected identity_subject and explicit tenant_id")

/-- The loop that builds the enrollments. -/
def enrollmentEntries (members : List (String × JsonValue)) :
    Except Exc (Dict String WorkerEnrollment) :=
  members.foldlM (fun enrollments member => do
    let enrollment ← enrollmentEntry member.2
    pure (enrollments.put (member.1, enrollment))) Table.empty

/-- The loop of `validate_enrollments`, with the subjects seen so far. -/
def validateSubjects : List String → List (String × WorkerEnrollment) → Except Exc Unit
  | _, [] => .ok ()
  | subjects, (workerId, enrollment) :: rest => do
      require (workerIdPattern workerId) "invalid enrolled worker id"
      require (enrollment.identitySubject ∉ subjects)
        "an identity subject cannot enroll two workers"
      validateSubjects (enrollment.identitySubject :: subjects) rest

def validateEnrollments (enrollments : Dict String WorkerEnrollment) :
    Except Exc (Dict String WorkerEnrollment) := do
  validateSubjects [] enrollments.rows
  pure enrollments

/-- `json.loads(text, object_pairs_hook=unique_object)` -/
def loadedUnique (parse : String → Option JsonValue) (text : String) : Except Exc JsonValue :=
  match parse text with
  | some document => hooked document
  | none => .error (.valueError "not a JSON document")

/-- The body that `enrollments_from_json` guards. -/
def parsedEnrollments (parse : String → Option JsonValue) (text : String) :
    Except Exc (Dict String WorkerEnrollment) := do
  let data ← loadedUnique parse text
  match data with
  | .dict members => do
      let enrollments ← enrollmentEntries members
      validateEnrollments enrollments
  | _ => .error (.valueError "expected an object")

def enrollmentsFromJson (parse : String → Option JsonValue) (value : Option String) :
    Except Exc (Dict String WorkerEnrollment) :=
  match value with
  | none | some "" => .ok Table.empty
  | some text =>
      match parsedEnrollments parse text with
      | .error (.valueError _) => .error invalidEnrollments
      | outcome => outcome

/-! ### The hook -/

theorem foldlM_uniqueObject {pairs : List (String × JsonValue)} {d r : Dict String JsonValue} :
    pairs.foldlM (fun result pair => do
        require (result.get? pair.1).isNone "duplicate enrollment configuration key"
        pure (result.put pair)) d = .ok r ↔
      (pairs.map Prod.fst).Nodup ∧ (∀ pair ∈ pairs, pair.1 ∉ d.rows.map Prod.fst) ∧
        r.rows = d.rows ++ pairs := by
  induction pairs generalizing d with
  | nil =>
      simp only [List.foldlM_nil, pure_ok_iff, List.map_nil, List.nodup_nil, List.append_nil]
      constructor
      · rintro rfl
        exact ⟨trivial, fun pair hpair => (by cases hpair), rfl⟩
      · exact fun h => Table.ext h.2.2.symm
  | cons pair rest ih =>
      have hnone : (d.get? pair.1).isNone ↔ pair.1 ∉ d.rows.map Prod.fst := by
        rw [Option.isNone_iff_eq_none, Table.get?_eq_none_iff, List.mem_map, not_exists]
        exact forall_congr' fun row => not_and.symm
      rw [List.foldlM_cons]
      simp only [bind_ok_iff, exists_unit_iff, require_eq_ok, hnone, pure_ok_iff]
      constructor
      · rintro ⟨put, ⟨hnew, rfl⟩, hrest⟩
        obtain ⟨hnodup, hfresh, hrows⟩ := ih.mp hrest
        have hput : (d.put pair).rows = d.rows ++ [pair] := Table.putRow_of_notMem hnew
        rw [hput, List.append_assoc] at hrows
        refine ⟨?_, ?_, hrows⟩
        · rw [List.map_cons, List.nodup_cons]
          refine ⟨?_, hnodup⟩
          intro hmem
          obtain ⟨other, hother, heq⟩ := List.mem_map.mp hmem
          refine hfresh other hother ?_
          rw [hput, heq, List.map_append]
          exact List.mem_append_right _ (List.mem_singleton_self _)
        · intro other hother
          rcases List.mem_cons.mp hother with rfl | hother
          · exact hnew
          · have hother' := hfresh other hother
            rw [hput, List.map_append, List.mem_append, not_or] at hother'
            exact hother'.1
      · rintro ⟨hnodup, hfresh, hrows⟩
        rw [List.map_cons, List.nodup_cons] at hnodup
        have hnew := hfresh pair List.mem_cons_self
        have hput : (d.put pair).rows = d.rows ++ [pair] := Table.putRow_of_notMem hnew
        refine ⟨_, ⟨hnew, rfl⟩, ih.mpr ⟨hnodup.2, fun other hother => ?_, ?_⟩⟩
        · rw [hput, List.map_append, List.mem_append, not_or]
          refine ⟨hfresh other (List.mem_cons_of_mem _ hother), fun hsame => hnodup.1 ?_⟩
          have heq : other.1 = pair.1 := by simpa using hsame
          exact heq ▸ List.mem_map_of_mem hother
        · rw [hrows, hput, List.append_assoc]
          rfl

/-- The hook passes objects without repetitions, as they are. -/
theorem uniqueObject_eq_ok {pairs : List (String × JsonValue)} {r : Dict String JsonValue} :
    uniqueObject pairs = .ok r ↔ (pairs.map Prod.fst).Nodup ∧ r.rows = pairs := by
  rw [uniqueObject, foldlM_uniqueObject]
  simp [Table.empty]

mutual

/-- A document passes the hook if no object of it repeats a name, and comes back as it was. -/
theorem hooked_eq_ok {value result : JsonValue} :
    hooked value = .ok result ↔ value.wellFormed ∧ result = value := by
  cases value with
  | list items =>
      simp only [hooked, bind_ok_iff, hookedItems_eq_ok, pure_ok_iff, JsonValue.wellFormed]
      constructor
      · rintro ⟨_, ⟨hitems, rfl⟩, rfl⟩
        exact ⟨hitems, rfl⟩
      · rintro ⟨hitems, rfl⟩
        exact ⟨items, ⟨hitems, rfl⟩, rfl⟩
  | dict members =>
      simp only [hooked, bind_ok_iff, hookedMembers_eq_ok, uniqueObject_eq_ok, pure_ok_iff,
        JsonValue.wellFormed, Bool.and_eq_true, decide_eq_true_eq]
      constructor
      · rintro ⟨_, ⟨hmembers, rfl⟩, r, ⟨hnodup, hrows⟩, rfl⟩
        exact ⟨⟨hnodup, hmembers⟩, by rw [hrows]⟩
      · rintro ⟨⟨hnodup, hmembers⟩, rfl⟩
        exact ⟨members, ⟨hmembers, rfl⟩, ⟨members, hnodup⟩, ⟨hnodup, rfl⟩, rfl⟩
  | null | bool b | int n | float f | str text =>
      simp [hooked, JsonValue.wellFormed, eq_comm]

theorem hookedItems_eq_ok {items result : List JsonValue} :
    hookedItems items = .ok result ↔ JsonValue.wellFormedItems items ∧ result = items := by
  cases items with
  | nil => simp [hookedItems, JsonValue.wellFormedItems, eq_comm]
  | cons item rest =>
      simp only [hookedItems, bind_ok_iff, hooked_eq_ok, hookedItems_eq_ok, pure_ok_iff,
        JsonValue.wellFormedItems, Bool.and_eq_true]
      constructor
      · rintro ⟨_, ⟨hitem, rfl⟩, _, ⟨hrest, rfl⟩, rfl⟩
        exact ⟨⟨hitem, hrest⟩, rfl⟩
      · rintro ⟨⟨hitem, hrest⟩, rfl⟩
        exact ⟨item, ⟨hitem, rfl⟩, rest, ⟨hrest, rfl⟩, rfl⟩

theorem hookedMembers_eq_ok {members result : List (String × JsonValue)} :
    hookedMembers members = .ok result ↔
      JsonValue.wellFormedMembers members ∧ result = members := by
  cases members with
  | nil => simp [hookedMembers, JsonValue.wellFormedMembers, eq_comm]
  | cons member rest =>
      obtain ⟨name, value⟩ := member
      simp only [hookedMembers, bind_ok_iff, hooked_eq_ok, hookedMembers_eq_ok, pure_ok_iff,
        JsonValue.wellFormedMembers, Bool.and_eq_true]
      constructor
      · rintro ⟨_, ⟨hvalue, rfl⟩, _, ⟨hrest, rfl⟩, rfl⟩
        exact ⟨⟨hvalue, hrest⟩, rfl⟩
      · rintro ⟨⟨hvalue, hrest⟩, rfl⟩
        exact ⟨value, ⟨hvalue, rfl⟩, rest, ⟨hrest, rfl⟩, rfl⟩

end

/-! ### The entries -/

/-- A tenant as the configuration writes it. -/
def tenantJson : Option String → JsonValue
  | none => .null
  | some tenant => .str tenant

/-- The value is an object of exactly the two members, and they are this enrollment's. -/
def WorkerEnrollment.DescribedBy (enrollment : WorkerEnrollment) (value : JsonValue) : Prop :=
  ∃ entry, value = .dict entry ∧
    (∀ name, name ∈ entry.map Prod.fst ↔ name = "identity_subject" ∨ name = "tenant_id") ∧
    entry.lookup "identity_subject" = some (.str enrollment.identitySubject) ∧
    entry.lookup "tenant_id" = some (tenantJson enrollment.tenantId)

theorem WorkerEnrollment.eq_of_fields {enrollment other : WorkerEnrollment}
    (hsubject : enrollment.identitySubject = other.identitySubject)
    (htenant : enrollment.tenantId = other.tenantId) : enrollment = other := by
  cases enrollment
  cases other
  cases hsubject
  cases htenant
  rfl

theorem tenantJson_injective {tenant other : Option String} (h : tenantJson tenant = tenantJson other) :
    tenant = other := by
  cases tenant <;> cases other <;> cases h <;> rfl

/-- A value describes one enrollment. -/
theorem WorkerEnrollment.DescribedBy.unique {enrollment other : WorkerEnrollment}
    {value : JsonValue} (h : enrollment.DescribedBy value) (h' : other.DescribedBy value) :
    enrollment = other := by
  obtain ⟨entry, rfl, -, hsubject, htenant⟩ := h
  obtain ⟨entry', heq, -, hsubject', htenant'⟩ := h'
  cases heq
  rw [hsubject, Option.some_inj, JsonValue.str.injEq] at hsubject'
  rw [htenant, Option.some_inj] at htenant'
  exact eq_of_fields hsubject' (tenantJson_injective htenant')

theorem WorkerEnrollment.new_eq_ok {subject : String} {tenant : Option String}
    {enrollment : WorkerEnrollment} :
    WorkerEnrollment.new subject tenant = .ok enrollment ↔
      subject = enrollment.identitySubject ∧ tenant = enrollment.tenantId := by
  rw [WorkerEnrollment.new]
  constructor
  · intro h
    split at h
    · split at h
      · cases h
        exact ⟨rfl, rfl⟩
      · cases h
    · cases h
  · rintro ⟨rfl, rfl⟩
    rw [dif_pos enrollment.subject_valid, dif_pos enrollment.tenant_valid]

theorem enrollmentOf_eq_ok {identitySubject tenantId : JsonValue} {enrollment : WorkerEnrollment} :
    enrollmentOf identitySubject tenantId = .ok enrollment ↔
      identitySubject = .str enrollment.identitySubject ∧
        tenantId = tenantJson enrollment.tenantId := by
  cases identitySubject with
  | str subject =>
      rw [JsonValue.str.injEq]
      cases tenantId with
      | null =>
          rw [enrollmentOf, WorkerEnrollment.new_eq_ok]
          cases enrollment.tenantId <;> simp [tenantJson]
      | str tenant =>
          rw [enrollmentOf, WorkerEnrollment.new_eq_ok]
          cases enrollment.tenantId <;> simp [tenantJson]
      | bool _ | int _ | float _ | list _ | dict _ =>
          rw [enrollmentOf]
          constructor
          · intro h
            split at h <;> cases h
          · rintro ⟨-, htenant⟩
            cases hid : enrollment.tenantId <;> rw [hid] at htenant <;> cases htenant
          all_goals simp
  | null | bool _ | int _ | float _ | list _ | dict _ => simp [enrollmentOf]

theorem hasEnrollmentKeys_iff {entry : List (String × JsonValue)} :
    hasEnrollmentKeys entry ↔
      ∀ name, name ∈ entry.map Prod.fst ↔ name = "identity_subject" ∨ name = "tenant_id" := by
  simp only [hasEnrollmentKeys, Bool.and_eq_true, List.all_eq_true, decide_eq_true_eq,
    List.mem_cons, List.not_mem_nil, or_false]
  constructor
  · exact fun h name => ⟨h.2 name, h.1 name⟩
  · exact fun h => ⟨fun name => (h name).mpr, fun name => (h name).mp⟩

theorem lookup_of_mem_keys {entry : List (String × JsonValue)} {name : String}
    (h : name ∈ entry.map Prod.fst) : entry.lookup name = some ((entry.lookup name).getD .null) := by
  cases hlookup : entry.lookup name with
  | some value => rfl
  | none =>
      obtain ⟨member, hmember, rfl⟩ := List.mem_map.mp h
      have hne := List.lookup_eq_none_iff.mp hlookup member hmember
      simp at hne

theorem enrollmentEntry_eq_ok {value : JsonValue} {enrollment : WorkerEnrollment} :
    enrollmentEntry value = .ok enrollment ↔ enrollment.DescribedBy value := by
  unfold enrollmentEntry
  split
  · rename_i members
    simp only [bind_ok_iff, exists_unit_iff, require_eq_ok, hasEnrollmentKeys_iff,
      enrollmentOf_eq_ok]
    constructor
    · rintro ⟨hkeys, hsubject, htenant⟩
      refine ⟨members, rfl, hkeys, ?_, ?_⟩
      · rw [lookup_of_mem_keys ((hkeys _).mpr (Or.inl rfl)), hsubject]
      · rw [lookup_of_mem_keys ((hkeys _).mpr (Or.inr rfl)), htenant]
    · rintro ⟨entry, heq, hkeys, hsubject, htenant⟩
      cases heq
      exact ⟨hkeys, by rw [hsubject]; rfl, by rw [htenant]; rfl⟩
  · rename_i hother
    constructor
    · intro h
      cases h
    · rintro ⟨entry, rfl, -⟩
      exact absurd rfl (hother entry)

/-- A row of the mapping is what a member of the document says. -/
def RowOf (member : String × JsonValue) (row : String × WorkerEnrollment) : Prop :=
  row.1 = member.1 ∧ row.2.DescribedBy member.2

theorem foldlM_enrollmentEntries {members : List (String × JsonValue)}
    {d r : Dict String WorkerEnrollment} (hnodup : (members.map Prod.fst).Nodup)
    (hfresh : ∀ member ∈ members, member.1 ∉ d.rows.map Prod.fst) :
    members.foldlM (fun enrollments member => do
        let enrollment ← enrollmentEntry member.2
        pure (enrollments.put (member.1, enrollment))) d = .ok r ↔
      ∃ rows, List.Forall₂ RowOf members rows ∧ r.rows = d.rows ++ rows := by
  induction members generalizing d with
  | nil =>
      simp only [List.foldlM_nil, pure_ok_iff, List.forall₂_nil_left_iff]
      constructor
      · rintro rfl
        exact ⟨[], rfl, (List.append_nil _).symm⟩
      · rintro ⟨rows, rfl, hrows⟩
        exact Table.ext (by rw [hrows, List.append_nil])
  | cons member rest ih =>
      rw [List.map_cons, List.nodup_cons] at hnodup
      have hput (enrollment : WorkerEnrollment) :
          (d.put (member.1, enrollment)).rows = d.rows ++ [(member.1, enrollment)] :=
        Table.putRow_of_notMem (hfresh member List.mem_cons_self)
      have hrest (enrollment : WorkerEnrollment) : ∀ other ∈ rest,
          other.1 ∉ (d.put (member.1, enrollment)).rows.map Prod.fst := by
        intro other hother
        rw [hput, List.map_append, List.mem_append, not_or]
        refine ⟨hfresh other (List.mem_cons_of_mem _ hother), fun hsame => hnodup.1 ?_⟩
        have heq : other.1 = member.1 := by simpa using hsame
        exact heq ▸ List.mem_map_of_mem hother
      rw [List.foldlM_cons]
      simp only [bind_ok_iff, enrollmentEntry_eq_ok, pure_ok_iff]
      constructor
      · rintro ⟨_, ⟨enrollment, hentry, rfl⟩, hfold⟩
        obtain ⟨rows, hrows, hr⟩ := (ih hnodup.2 (hrest enrollment)).mp hfold
        refine ⟨(member.1, enrollment) :: rows, List.Forall₂.cons ⟨rfl, hentry⟩ hrows, ?_⟩
        rw [hr, hput, List.append_assoc]
        rfl
      · rintro ⟨rows, hrows, hr⟩
        cases hrows with
        | @cons _ row _ rows hrow hrows =>
            obtain ⟨workerId, enrollment⟩ := row
            obtain ⟨rfl, hentry⟩ := hrow
            refine ⟨_, ⟨enrollment, hentry, rfl⟩, (ih hnodup.2 (hrest enrollment)).mpr
              ⟨rows, hrows, ?_⟩⟩
            rw [hr, hput, List.append_assoc]
            rfl

theorem validateSubjects_eq_ok {subjects : List String} {rows : List (String × WorkerEnrollment)} :
    validateSubjects subjects rows = .ok () ↔
      (∀ row ∈ rows, workerIdPattern row.1) ∧
        (rows.map fun row => row.2.identitySubject).Nodup ∧
        ∀ row ∈ rows, row.2.identitySubject ∉ subjects := by
  induction rows generalizing subjects with
  | nil => simp [validateSubjects]
  | cons row rest ih =>
      obtain ⟨workerId, enrollment⟩ := row
      simp only [validateSubjects, bind_ok_iff, exists_unit_iff, require_eq_ok, decide_eq_true_eq,
        ih, List.forall_mem_cons, List.map_cons, List.nodup_cons, List.mem_map, not_exists, not_and]
      simp only [List.mem_cons, not_or]
      constructor
      · rintro ⟨hid, hnew, hids, hnodup, hfresh⟩
        exact ⟨⟨hid, hids⟩, ⟨fun other hother => (hfresh other hother).1, hnodup⟩, hnew,
          fun other hother => (hfresh other hother).2⟩
      · rintro ⟨⟨hid, hids⟩, ⟨hdistinct, hnodup⟩, hnew, hfresh⟩
        exact ⟨hid, hnew, hids, hnodup, fun other hother =>
          ⟨hdistinct other hother, hfresh other hother⟩⟩

/-! ### Every failure is a `ValueError` -/

theorem raises_uniqueObject (pairs : List (String × JsonValue)) :
    Raises Exc.IsValueError (uniqueObject pairs) := by
  unfold uniqueObject
  apply raises_foldlM
  intro result pair _
  exact (raises_require _ _).bind fun _ _ => raises_pure _

mutual

theorem raises_hooked (value : JsonValue) : Raises Exc.IsValueError (hooked value) := by
  cases value with
  | list items =>
      rw [hooked]
      exact (raises_hookedItems items).bind fun _ _ => raises_pure _
  | dict members =>
      rw [hooked]
      exact (raises_hookedMembers members).bind fun pairs _ =>
        (raises_uniqueObject pairs).bind fun _ _ => raises_pure _
  | null | bool b | int n | float f | str text => exact raises_ok _

theorem raises_hookedItems (items : List JsonValue) :
    Raises Exc.IsValueError (hookedItems items) := by
  cases items with
  | nil => exact raises_ok _
  | cons item rest =>
      rw [hookedItems]
      exact (raises_hooked item).bind fun _ _ =>
        (raises_hookedItems rest).bind fun _ _ => raises_pure _

theorem raises_hookedMembers (members : List (String × JsonValue)) :
    Raises Exc.IsValueError (hookedMembers members) := by
  cases members with
  | nil => exact raises_ok _
  | cons member rest =>
      obtain ⟨name, value⟩ := member
      rw [hookedMembers]
      exact (raises_hooked value).bind fun _ _ =>
        (raises_hookedMembers rest).bind fun _ _ => raises_pure _

end

theorem raises_enrollmentOf (identitySubject tenantId : JsonValue) :
    Raises Exc.IsValueError (enrollmentOf identitySubject tenantId) := by
  have hnew (subject : String) (tenant : Option String) :
      Raises Exc.IsValueError (WorkerEnrollment.new subject tenant) := by
    rw [WorkerEnrollment.new]
    split
    · split
      · exact raises_ok _
      · exact raises_error ⟨_, rfl⟩
    · exact raises_error ⟨_, rfl⟩
  unfold enrollmentOf
  split
  · exact hnew _ _
  · exact hnew _ _
  · split <;> exact raises_error ⟨_, rfl⟩
  · exact raises_error ⟨_, rfl⟩

theorem raises_enrollmentEntry (value : JsonValue) :
    Raises Exc.IsValueError (enrollmentEntry value) := by
  unfold enrollmentEntry
  split
  · exact (raises_require _ _).bind fun _ _ => raises_enrollmentOf _ _
  · exact raises_error ⟨_, rfl⟩

theorem raises_validateSubjects (subjects : List String)
    (rows : List (String × WorkerEnrollment)) :
    Raises Exc.IsValueError (validateSubjects subjects rows) := by
  induction rows generalizing subjects with
  | nil => exact raises_ok _
  | cons row rest ih =>
      obtain ⟨workerId, enrollment⟩ := row
      exact (raises_require _ _).bind fun _ _ => (raises_require _ _).bind fun _ _ => ih _

theorem raises_parsedEnrollments (parse : String → Option JsonValue) (text : String) :
    Raises Exc.IsValueError (parsedEnrollments parse text) := by
  unfold parsedEnrollments
  apply Raises.bind
  · unfold loadedUnique
    cases parse text with
    | none => exact raises_error ⟨_, rfl⟩
    | some document => exact raises_hooked document
  · intro data _
    cases data with
    | dict members =>
        apply Raises.bind
        · apply raises_foldlM
          intro enrollments member _
          exact (raises_enrollmentEntry member.2).bind fun _ _ => raises_pure _
        · intro enrollments _
          exact (raises_validateSubjects _ _).bind fun _ _ => raises_pure _
    | null | bool _ | int _ | float _ | str _ | list _ => exact raises_error ⟨_, rfl⟩

/-! ### Admission of a configuration -/

theorem parsedEnrollments_eq_ok {parse : String → Option JsonValue} {text : String}
    {enrollments : Dict String WorkerEnrollment} :
    parsedEnrollments parse text = .ok enrollments ↔
      ∃ members, parse text = some (.dict members) ∧ (JsonValue.dict members).wellFormed ∧
        List.Forall₂ RowOf members enrollments.rows ∧
        (∀ row ∈ enrollments.rows, workerIdPattern row.1) ∧
        (enrollments.rows.map fun row => row.2.identitySubject).Nodup := by
  have hentries {members : List (String × JsonValue)} {d : Dict String WorkerEnrollment}
      (hnodup : (members.map Prod.fst).Nodup) :
      enrollmentEntries members = .ok d ↔ List.Forall₂ RowOf members d.rows := by
    rw [enrollmentEntries, foldlM_enrollmentEntries hnodup fun _ _ h => (by cases h)]
    constructor
    · rintro ⟨rows, hrows, hd⟩
      rw [hd]
      exact hrows
    · exact fun hrows => ⟨_, hrows, rfl⟩
  have hvalidate {d : Dict String WorkerEnrollment} :
      validateEnrollments d = .ok enrollments ↔ d = enrollments ∧
        (∀ row ∈ d.rows, workerIdPattern row.1) ∧
        (d.rows.map fun row => row.2.identitySubject).Nodup := by
    simp only [validateEnrollments, bind_ok_iff, exists_unit_iff, validateSubjects_eq_ok,
      pure_ok_iff]
    constructor
    · rintro ⟨⟨hids, hsubjects, -⟩, rfl⟩
      exact ⟨rfl, hids, hsubjects⟩
    · rintro ⟨rfl, hids, hsubjects⟩
      exact ⟨⟨hids, hsubjects, fun _ _ => List.not_mem_nil⟩, rfl⟩
  rw [parsedEnrollments, loadedUnique]
  cases hparse : parse text with
  | none => simp [bind, Except.bind]
  | some document =>
      simp only [bind_ok_iff, hooked_eq_ok, Option.some_inj]
      constructor
      · rintro ⟨data, ⟨hform, rfl⟩, h⟩
        split at h
        · rename_i members
          obtain ⟨d, hd, hvalid⟩ := bind_ok_iff.mp h
          obtain ⟨rfl, hids, hsubjects⟩ := hvalidate.mp hvalid
          exact ⟨members, rfl, hform, (hentries (JsonValue.wellFormed_dict.mp hform).1).mp hd,
            hids, hsubjects⟩
        · cases h
      · rintro ⟨members, rfl, hform, hrows, hids, hsubjects⟩
        refine ⟨_, ⟨hform, rfl⟩, bind_ok_iff.mpr ⟨enrollments, ?_, ?_⟩⟩
        · exact (hentries (JsonValue.wellFormed_dict.mp hform).1).mpr hrows
        · exact hvalidate.mpr ⟨rfl, hids, hsubjects⟩

/-- The members of a document that admits its workers: no object repeats a name, each member is a
worker's id with its subject and its tenant, and no two workers share a subject. -/
structure AdmitsWorkers (members : List (String × JsonValue)) : Prop where
  unique : (JsonValue.dict members).wellFormed
  workerIds : ∀ member ∈ members, workerIdPattern member.1
  entries : ∀ member ∈ members, ∃ enrollment : WorkerEnrollment, enrollment.DescribedBy member.2
  subjects : members.Pairwise fun member other => ∀ enrollment enrollment' : WorkerEnrollment,
    enrollment.DescribedBy member.2 → enrollment'.DescribedBy other.2 →
      enrollment.identitySubject ≠ enrollment'.identitySubject

theorem enrollmentsFromJson_eq_ok {parse : String → Option JsonValue} {text : String}
    (hne : text ≠ "") {enrollments : Dict String WorkerEnrollment} :
    enrollmentsFromJson parse (some text) = .ok enrollments ↔
      parsedEnrollments parse text = .ok enrollments := by
  unfold enrollmentsFromJson
  split
  · rename_i heq
    cases heq
  · rename_i heq
    exact absurd (Option.some.inj heq) hne
  · rename_i heq
    cases heq
    cases hparsed : parsedEnrollments parse text with
    | ok d => rfl
    | error error =>
        obtain ⟨reason, rfl⟩ := (raises_parsedEnrollments parse text).of_eq hparsed
        constructor <;> intro h <;> cases h

theorem RowOf.of_member {members : List (String × JsonValue)}
    {rows : List (String × WorkerEnrollment)} (h : List.Forall₂ RowOf members rows)
    {member : String × JsonValue} (hmember : member ∈ members) : ∃ row ∈ rows, RowOf member row := by
  induction h with
  | nil => cases hmember
  | cons hrow _ ih =>
      rcases List.mem_cons.mp hmember with rfl | hmember
      · exact ⟨_, List.mem_cons_self, hrow⟩
      · obtain ⟨row, hrow', hof⟩ := ih hmember
        exact ⟨row, List.mem_cons_of_mem _ hrow', hof⟩

theorem RowOf.of_row {members : List (String × JsonValue)}
    {rows : List (String × WorkerEnrollment)} (h : List.Forall₂ RowOf members rows)
    {row : String × WorkerEnrollment} (hrow : row ∈ rows) :
    ∃ member ∈ members, RowOf member row := by
  induction h with
  | nil => cases hrow
  | cons hof _ ih =>
      rcases List.mem_cons.mp hrow with rfl | hrow
      · exact ⟨_, List.mem_cons_self, hof⟩
      · obtain ⟨member, hmember, hof'⟩ := ih hrow
        exact ⟨member, List.mem_cons_of_mem _ hmember, hof'⟩

/-- The rows of a mapping that the members describe, and the members on their own. -/
theorem admitsWorkers_of_rows {members : List (String × JsonValue)}
    {rows : List (String × WorkerEnrollment)} (hform : (JsonValue.dict members).wellFormed)
    (hrows : List.Forall₂ RowOf members rows) (hids : ∀ row ∈ rows, workerIdPattern row.1)
    (hsubjects : (rows.map fun row => row.2.identitySubject).Nodup) : AdmitsWorkers members := by
  refine ⟨hform, ?_, ?_, ?_⟩
  · intro member hmember
    obtain ⟨row, hrow, hof⟩ := RowOf.of_member hrows hmember
    exact hof.1 ▸ hids row hrow
  · intro member hmember
    obtain ⟨row, -, hof⟩ := RowOf.of_member hrows hmember
    exact ⟨row.2, hof.2⟩
  · clear hform hids
    induction hrows with
    | nil => exact List.Pairwise.nil
    | @cons member row members rows hrow hrest ih =>
        rw [List.map_cons, List.nodup_cons] at hsubjects
        refine List.Pairwise.cons (fun other hother enrollment enrollment' hfirst hsecond => ?_)
          (ih hsubjects.2)
        obtain rfl := hrow.2.unique hfirst
        intro heq
        obtain ⟨row', hrow', hof⟩ := RowOf.of_member hrest hother
        obtain rfl := hof.2.unique hsecond
        exact hsubjects.1 (heq ▸ List.mem_map_of_mem hrow')

theorem AdmitsWorkers.rows {members : List (String × JsonValue)} (h : AdmitsWorkers members) :
    ∃ enrollments : Dict String WorkerEnrollment, List.Forall₂ RowOf members enrollments.rows ∧
      (∀ row ∈ enrollments.rows, workerIdPattern row.1) ∧
      (enrollments.rows.map fun row => row.2.identitySubject).Nodup := by
  have hdescribed : ∃ rows, List.Forall₂ RowOf members rows := by
    have hentries := h.entries
    clear h
    induction members with
    | nil => exact ⟨[], List.Forall₂.nil⟩
    | cons member rest ih =>
        rw [List.forall_mem_cons] at hentries
        obtain ⟨enrollment, hdescribes⟩ := hentries.1
        obtain ⟨rows, hrows⟩ := ih hentries.2
        exact ⟨(member.1, enrollment) :: rows, List.Forall₂.cons ⟨rfl, hdescribes⟩ hrows⟩
  obtain ⟨rows, hrows⟩ := hdescribed
  have hkeys : rows.map Prod.fst = members.map Prod.fst := by
    clear h
    induction hrows with
    | nil => rfl
    | cons hrow _ ih => rw [List.map_cons, List.map_cons, hrow.1, ih]
  have hnodup : (rows.map Prod.fst).Nodup :=
    hkeys ▸ (JsonValue.wellFormed_dict.mp h.unique).1
  refine ⟨⟨rows, hnodup⟩, hrows, ?_, ?_⟩
  · intro row hrow
    obtain ⟨member, hmember, hof⟩ := RowOf.of_row hrows hrow
    rw [hof.1]
    exact h.workerIds member hmember
  · show (rows.map fun row => row.2.identitySubject).Nodup
    have hsubjects := h.subjects
    clear h hkeys hnodup
    induction hrows with
    | nil => exact List.nodup_nil
    | cons hrow hrest ih =>
        rw [List.pairwise_cons] at hsubjects
        rw [List.map_cons, List.nodup_cons]
        refine ⟨fun hmem => ?_, ih hsubjects.2⟩
        obtain ⟨row', hrow', heq⟩ := List.mem_map.mp hmem
        obtain ⟨other, hother, hof⟩ := RowOf.of_row hrest hrow'
        exact hsubjects.1 other hother _ _ hrow.2 hof.2 heq.symm

/-- What the parser of the configuration does with a text: it admits the well-formed allowlists,
maps each worker to what its member says, and reports anything else by a fixed message. -/
structure ParsesAllowlists (parse : String → Option JsonValue) (text : String) : Prop where
  admits : (∃ enrollments, enrollmentsFromJson parse (some text) = .ok enrollments) ↔
    ∃ members, parse text = some (.dict members) ∧ AdmitsWorkers members
  maps : ∀ enrollments members, enrollmentsFromJson parse (some text) = .ok enrollments →
    parse text = some (.dict members) → ∀ workerId enrollment,
      enrollments.lookup workerId = some enrollment ↔
        ∃ value, (workerId, value) ∈ members ∧ enrollment.DescribedBy value
  reports : (∀ enrollments, enrollmentsFromJson parse (some text) ≠ .ok enrollments) →
    enrollmentsFromJson parse (some text) =
      .error (.valueError "invalid OGWP_WORKER_ENROLLMENTS configuration")

/-- The enrolment configuration admits exactly the well-formed allowlists. -/
theorem parses_allowlists (parse : String → Option JsonValue) {text : String} (hne : text ≠ "") :
    ParsesAllowlists parse text := by
  constructor
  · simp only [enrollmentsFromJson_eq_ok hne, parsedEnrollments_eq_ok]
    constructor
    · rintro ⟨enrollments, members, hparse, hform, hrows, hids, hsubjects⟩
      exact ⟨members, hparse, admitsWorkers_of_rows hform hrows hids hsubjects⟩
    · rintro ⟨members, hparse, hadmits⟩
      obtain ⟨enrollments, hrows⟩ := hadmits.rows
      exact ⟨enrollments, members, hparse, hadmits.unique, hrows⟩
  · intro enrollments members h hparse workerId enrollment
    rw [enrollmentsFromJson_eq_ok hne, parsedEnrollments_eq_ok] at h
    obtain ⟨members', hparse', hform, hrows, -, -⟩ := h
    rw [hparse, Option.some_inj, JsonValue.dict.injEq] at hparse'
    subst hparse'
    rw [Dict.lookup_eq_some_iff]
    constructor
    · intro hrow
      obtain ⟨member, hmember, hof⟩ := RowOf.of_row hrows hrow
      obtain ⟨rfl, hdescribes⟩ := hof
      exact ⟨member.2, hmember, hdescribes⟩
    · rintro ⟨value, hmember, hdescribes⟩
      obtain ⟨⟨workerId', enrollment'⟩, hrow, rfl, hdescribes'⟩ := RowOf.of_member hrows hmember
      obtain rfl := hdescribes.unique hdescribes'
      exact hrow
  · intro hnone
    cases hparsed : parsedEnrollments parse text with
    | ok enrollments => exact absurd ((enrollmentsFromJson_eq_ok hne).mpr hparsed) (hnone _)
    | error error =>
        obtain ⟨reason, rfl⟩ := (raises_parsedEnrollments parse text).of_eq hparsed
        unfold enrollmentsFromJson
        split
        · rename_i heq
          cases heq
        · rename_i heq
          exact absurd (Option.some.inj heq) hne
        · rename_i heq
          cases heq
          rw [hparsed]
          rfl

/-- `{"worker-a": {"identity_subject": "static:worker-a", "tenant_id": null}, "worker-b":
{"identity_subject": "static:worker-b", "tenant_id": "tenant-1"}}` -/
def smallConfiguration : String :=
  "\x7b\"worker-a\": \x7b\"identity_subject\": \"static:worker-a\", \"tenant_id\": null\x7d, " ++
    "\"worker-b\": \x7b\"identity_subject\": \"static:worker-b\", \"tenant_id\": \"tenant-1\"\x7d\x7d"

/-- The parse of the small configuration; no other text is parsed. -/
def smallParse (text : String) : Option JsonValue :=
  if text = smallConfiguration then
    some (.dict [
      ("worker-a", .dict [("identity_subject", .str "static:worker-a"), ("tenant_id", .null)]),
      ("worker-b", .dict
        [("identity_subject", .str "static:worker-b"), ("tenant_id", .str "tenant-1")])])
  else none

theorem parses_allowlists_small : ParsesAllowlists smallParse smallConfiguration :=
  parses_allowlists smallParse (by decide)

end GpuWorkerPool
