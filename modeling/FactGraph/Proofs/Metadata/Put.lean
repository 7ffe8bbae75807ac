import FactGraph.Proofs.Metadata.Reading

/-!
# Puts

A put replaces what the node said before by a description, and succeeds if the description is in
order (`Store.Intact.exists_run_putDataset` and the like). Whatever the store held, the description
is read back, and other nodes are read as before, unless the node is the id of an edge that was
removed (`Database.KeepsOthers`). Nothing else may be stored under the ids of the description
(`Database.Admits`).

Of qualifiers with one id only one stays. Ids are short enough for that: there is a variable with
two qualifiers that loses one (`Store.putVariable_loses_qualifier`).
-/

namespace FactGraph

/-! ## Checks -/

theorem checkNode_of_isBlankText {field value : String} (h : Text.isBlankText value = true) :
    checkNode field value = .error (.unset field) := by
  rw [checkNode, checkSet, if_pos h]
  rfl

section Checks

variable {d : Dataset} {v : Variable} {q : QualifierProperty} {statements : List Statement}

theorem Dataset.not_isBlankText_of_check (h : d.check = .ok ()) :
    Text.isBlankText d.node = false := by
  by_contra hblank
  rw [check, checkNode_of_isBlankText (Bool.not_eq_false _ ▸ hblank)] at h
  cases h

theorem Variable.not_isBlankText_of_check (h : v.check = .ok ()) :
    Text.isBlankText v.node = false := by
  by_contra hblank
  rw [check, checkNode_of_isBlankText (Bool.not_eq_false _ ▸ hblank)] at h
  cases h

theorem QualifierProperty.not_isBlankText_of_check (h : q.check = .ok ()) :
    Text.isBlankText q.property = false := by
  by_contra hblank
  rw [check, checkNode_of_isBlankText (Bool.not_eq_false _ ▸ hblank)] at h
  cases h

theorem Dataset.statements_eq_ok_iff :
    d.statements = .ok statements ↔
      d.check = .ok () ∧ statementsAbout d.node d.said = statements := by
  rw [Dataset.statements]
  cases d.check <;> simp [Except.mapError, bind, Except.bind]

theorem Variable.statements_eq_ok_iff :
    v.statements = .ok statements ↔
      v.check = .ok () ∧ statementsAbout v.node v.said = statements := by
  rw [Variable.statements]
  cases v.check <;> simp [Except.mapError, bind, Except.bind]

theorem QualifierProperty.statements_eq_ok_iff :
    q.statements = .ok statements ↔
      q.check = .ok () ∧ statementsAbout q.property q.said = statements := by
  rw [QualifierProperty.statements]
  cases q.check <;> simp [bind, Except.bind]

end Checks

namespace Database

/-- Of nodes other than the one, `other` finds what `db` finds, unless the node is the id of an edge
that is not there any more. -/
def KeepsOthers (db : Database) (node : String) (other : Database) : Prop :=
  ∀ n ≠ node, (∀ e ∈ db.tables.edges.rows, e.id = n → e ∈ other.tables.edges.rows) →
    other.findDataset n = db.findDataset n ∧ other.findVariable n = db.findVariable n

theorem Replaced.keepsOthers {db other : Database} {node : String} {fields : List String}
    {statements : List Statement} (h : db.Replaced node fields statements other) :
    db.KeepsOthers node other :=
  fun n hn hremains => ⟨(h.others n hn hremains).findDataset, (h.others n hn hremains).findVariable⟩

/-- Where no id has a hyphen, any description is admitted. -/
theorem Intact.admits_of_not_mem {db : Database} (h : db.Intact)
    (hids : ∀ e ∈ db.tables.edges.rows, '-' ∉ e.id.toList) (node : String)
    (said : List (String × Literal)) : db.Admits (statementsAbout node said) := by
  intro x hx y hy
  obtain ⟨label, l, -, rfl⟩ := mem_statementsAbout.1 hx
  obtain ⟨hholds, hid⟩ := h.statement_eq_ok_iff.1 hy
  exact absurd (hid ▸ hyphen_mem_edgeId node label l.encode 0) (hids y.edge hholds.edge)

end Database

namespace Store

variable {s s' : Store} {stats : ImportStats}

/-! ## Success -/

variable {d : Dataset} {v : Variable} {q : QualifierProperty}

theorem run_replace_of_ok {node : String} {fields : List String}
    {e : Except StoreError (List Statement)} {statements : List Statement}
    (he : e = .ok statements) :
    s.run (do StoreM.replace node fields (← e)) =
      s.run (StoreM.replace node fields statements) := by
  rw [run_bind, run_liftExcept, he]

theorem run_putDataset (hcheck : d.check = .ok ()) : s.run (StoreM.putDataset d) =
    s.run (StoreM.replace d.node Dataset.fields (statementsAbout d.node d.said)) :=
  run_replace_of_ok (Dataset.statements_eq_ok_iff.2 ⟨hcheck, rfl⟩)

theorem run_putVariable (hcheck : v.check = .ok ())
    (hdataset : s.database.findDataset v.datasetNode = .ok (some d)) :
    s.run (StoreM.putVariable v) =
      s.run (StoreM.replace v.node Variable.fields (statementsAbout v.node v.said)) := by
  have hfound : s.run (StoreM.read (·.findDataset v.datasetNode)) = (.ok (some d), s) := by
    rw [run_read, hdataset]
  rw [StoreM.putVariable, run_bind_ok hfound, if_neg (by simp)]
  exact run_replace_of_ok (Variable.statements_eq_ok_iff.2 ⟨hcheck, rfl⟩)

theorem run_putProperty (hcheck : q.check = .ok ()) : s.run (StoreM.putProperty q) =
    s.run (StoreM.replace q.property QualifierProperty.fields
      (statementsAbout q.property q.said)) :=
  run_replace_of_ok (QualifierProperty.statements_eq_ok_iff.2 ⟨hcheck, rfl⟩)

theorem of_run_putDataset_ok (hrun : s.run (StoreM.putDataset d) = (.ok stats, s')) :
    s.run (StoreM.replace d.node Dataset.fields (statementsAbout d.node d.said)) =
      (.ok stats, s') := by
  obtain ⟨_, hstatements, hrun⟩ := of_run_liftExcept_ok hrun
  obtain ⟨-, rfl⟩ := Dataset.statements_eq_ok_iff.1 hstatements
  exact hrun

theorem of_run_putVariable_ok (hrun : s.run (StoreM.putVariable v) = (.ok stats, s')) :
    s.run (StoreM.replace v.node Variable.fields (statementsAbout v.node v.said)) =
      (.ok stats, s') := by
  obtain ⟨found, -, hrun⟩ := of_run_read_ok hrun
  cases found with
  | none =>
    rw [if_pos Option.isNone_none, run_bind_error (run_throw _)] at hrun
    cases hrun
  | some d =>
    rw [if_neg (by simp)] at hrun
    obtain ⟨_, hstatements, hrun⟩ := of_run_liftExcept_ok hrun
    obtain ⟨-, rfl⟩ := Variable.statements_eq_ok_iff.1 hstatements
    exact hrun

theorem of_run_putProperty_ok (hrun : s.run (StoreM.putProperty q) = (.ok stats, s')) :
    s.run (StoreM.replace q.property QualifierProperty.fields (statementsAbout q.property q.said)) =
      (.ok stats, s') := by
  obtain ⟨_, hstatements, hrun⟩ := of_run_liftExcept_ok hrun
  obtain ⟨-, rfl⟩ := QualifierProperty.statements_eq_ok_iff.1 hstatements
  exact hrun

namespace Intact

variable (h : s.Intact)

include h

/-- **A dataset that is in order can be put.** -/
theorem exists_run_putDataset (hcheck : d.check = .ok ()) :
    ∃ stats s', s.run (StoreM.putDataset d) = (.ok stats, s') := by
  rw [run_putDataset hcheck]
  exact h.exists_run_replace _ _ (d.isDescription.check (Dataset.not_isBlankText_of_check hcheck))
    d.isDescription.storable

/-- **A variable that is in order can be put**, if its dataset is there. -/
theorem exists_run_putVariable (hcheck : v.check = .ok ())
    (hdataset : s.database.findDataset v.datasetNode = .ok (some d)) :
    ∃ stats s', s.run (StoreM.putVariable v) = (.ok stats, s') := by
  rw [run_putVariable hcheck hdataset]
  exact h.exists_run_replace _ _ (v.isDescription.check (Variable.not_isBlankText_of_check hcheck))
    v.isDescription.storable

/-- **A qualifier property that is in order can be put.** -/
theorem exists_run_putProperty (hcheck : q.check = .ok ()) :
    ∃ stats s', s.run (StoreM.putProperty q) = (.ok stats, s') := by
  rw [run_putProperty hcheck]
  exact h.exists_run_replace _ _
    (q.isDescription.check (QualifierProperty.not_isBlankText_of_check hcheck))
    q.isDescription.storable

/-! ## Replacement -/

theorem replaced {node : String} {fields : List String} {said : List (String × Literal)}
    (hsaid : IsDescription said) (hadmits : s.database.Admits (statementsAbout node said))
    (hrun : s.run (StoreM.replace node fields (statementsAbout node said)) = (.ok stats, s')) :
    s'.database.Intact ∧
      s.database.Replaced node fields (statementsAbout node said) s'.database := by
  have hafter := (h.of_replace hrun).database
  refine ⟨hafter, (h.exchanged hrun).replaced h.database hafter hadmits (fun x hx => ?_)
    (hsaid.holds hafter)⟩
  obtain ⟨_, _, _, rfl⟩ := mem_statementsAbout.1 hx
  rfl

end Intact

/-- **Descriptions that are put are read back, whatever was stored before.** In an intact store in
which nothing else is stored under the ids of the description:

* a dataset that was put is found by its node, as it is, and some dataset by its short name;
* a variable that was put is found by its node, with its qualifiers in the order of their ids, one
  of each id and all of them if different qualifiers have different ids; by its dataset and its
  property some node is found that is not after it;
* a qualifier property that was put has its label, and its declared data type and no other;

and of other nodes the same is found as before, unless the node is the id of an edge that was
removed. -/
theorem puts_read_back (s : Store) (h : s.Intact) (s' : Store) (stats : ImportStats) :
    (∀ d : Dataset, s.database.Admits (statementsAbout d.node d.said) →
      s.run (StoreM.putDataset d) = (.ok stats, s') →
        s'.database.findDataset d.node = .ok (some d) ∧
        (∃ found, s'.database.datasetByShortName? d.shortName = .ok (some found)) ∧
        s.database.KeepsOthers d.node s'.database) ∧
    (∀ v : Variable, s.database.Admits (statementsAbout v.node v.said) →
      s.run (StoreM.putVariable v) = (.ok stats, s') →
        (∃ qs, s'.database.findVariable v.node = .ok (some { v with qualifiers := qs }) ∧
          v.HasQualifiers qs ∧
          ((∀ a ∈ v.qualifiers, ∀ b ∈ v.qualifiers, edgeId v.node Vocabulary.hasQualifier a 0 =
              edgeId v.node Vocabulary.hasQualifier b 0 → a = b) →
            ∀ q, q ∈ qs ↔ q ∈ v.qualifiers)) ∧
        (∃ found ≤ v.node,
          s'.database.variableNode? v.datasetNode v.property = .ok (some found)) ∧
        s.database.KeepsOthers v.node s'.database) ∧
    (∀ q : QualifierProperty, s.database.Admits (statementsAbout q.property q.said) →
      s.run (StoreM.putProperty q) = (.ok stats, s') →
        s'.database.nodeLabel q.property = .ok (some q.label) ∧
        s'.database.lookup q.property Vocabulary.declaredDatatype =
          .ok (q.declared.toList.map fun t =>
            (statementAbout q.property Vocabulary.declaredDatatype (.symbol t)).edge) ∧
        s.database.KeepsOthers q.property s'.database) := by
  refine ⟨fun d hadmits hrun => ?_, fun v hadmits hrun => ?_, fun q hadmits hrun => ?_⟩
  · obtain ⟨hafter, hreplaced⟩ :=
      h.replaced d.isDescription hadmits (of_run_putDataset_ok hrun)
    exact ⟨hreplaced.findDataset hafter, hreplaced.exists_datasetByShortName? hafter,
      hreplaced.keepsOthers⟩
  · obtain ⟨hafter, hreplaced⟩ :=
      h.replaced v.isDescription hadmits (of_run_putVariable_ok hrun)
    obtain ⟨qs, hfound, hqualifiers⟩ := hreplaced.findVariable hafter
    exact ⟨⟨qs, hfound, hqualifiers, hqualifiers.mem_iff⟩, hreplaced.exists_variableNode? hafter,
      hreplaced.keepsOthers⟩
  · obtain ⟨hafter, hreplaced⟩ :=
      h.replaced q.isDescription hadmits (of_run_putProperty_ok hrun)
    obtain ⟨hlabel, hdeclared⟩ := hreplaced.nodeLabel_lookup hafter
    exact ⟨hlabel, hdeclared, hreplaced.keepsOthers⟩

/-- A dataset, a variable of it with a qualifier said twice, and a qualifier property, each put into
a store in which the variable has another label. -/
theorem puts_read_back_label :
    let x : Statement := ⟨⟨"x", "D", "P31", "Q1172284", .symbol⟩, .symbol "Q1172284"⟩
    let y : Statement := ⟨⟨"y", "V", "label", "\"old\"", .string⟩, .string "old" none⟩
    let s := (fresh false false .standard .idempotent "now").afterCall (.insert .idempotent [x, y])
    let d : Dataset := ⟨"D", "d", "name", "text", "http://d"⟩
    let v : Variable := ⟨"V", "v", "new", "D", "P1", none, ["P585", "P585"]⟩
    let q : QualifierProperty := ⟨"P585", "point in time", some "Time"⟩
    (∃ stats s', s.run (StoreM.putDataset d) = (.ok stats, s') ∧
      s'.database.findDataset "D" = .ok (some d)) ∧
    (∃ stats s' qs, s.run (StoreM.putVariable v) = (.ok stats, s') ∧
      s'.database.findVariable "V" = .ok (some { v with qualifiers := qs }) ∧
      ∀ r, r ∈ qs ↔ r = "P585") ∧
    ∃ stats s', s.run (StoreM.putProperty q) = (.ok stats, s') ∧
      s'.database.nodeLabel "P585" = .ok (some "point in time") := by
  intro x y s d v q
  have h : s.Intact := (intact_fresh _ _ _ _ _).afterCall _
  have hrows : s.database.tables.edges.rows = [x.edge, y.edge] := by decide +kernel
  have hids : ∀ e ∈ s.database.tables.edges.rows, '-' ∉ e.id.toList := by
    rw [hrows]
    decide
  have hdataset : s.database.findDataset "D" = .ok (some ⟨"D", "", "", "", ""⟩) := by
    decide +kernel
  have hadmits := h.database.admits_of_not_mem hids
  obtain ⟨stats, s', hrun⟩ := h.exists_run_putDataset (d := d) (by decide)
  obtain ⟨stats₁, s₁, hrun₁⟩ := h.exists_run_putVariable (v := v) (by decide) hdataset
  obtain ⟨stats₂, s₂, hrun₂⟩ := h.exists_run_putProperty (q := q) (by decide)
  obtain ⟨hfound, -⟩ := (puts_read_back s h s' stats).1 d (hadmits _ _) hrun
  obtain ⟨⟨qs, hfound₁, -, hall⟩, -⟩ := (puts_read_back s h s₁ stats₁).2.1 v (hadmits _ _) hrun₁
  obtain ⟨hlabel, -⟩ := (puts_read_back s h s₂ stats₂).2.2 q (hadmits _ _) hrun₂
  have hids : ∀ a ∈ v.qualifiers, ∀ b ∈ v.qualifiers, edgeId v.node Vocabulary.hasQualifier a 0 =
      edgeId v.node Vocabulary.hasQualifier b 0 → a = b := by
    simp [v]
  refine ⟨⟨stats, s', hrun, hfound⟩, ⟨stats₁, s₁, qs, hrun₁, hfound₁, fun r => ?_⟩,
    stats₂, s₂, hrun₂, hlabel⟩
  rw [hall hids r]
  simp [v]

/-- **Two qualifiers have one id, and one of them is lost.** In a store with nothing under any id of
the variable, it is put, and what is found is not the variable with the qualifiers it had. -/
theorem putVariable_loses_qualifier :
    let x : Statement := ⟨⟨"x", "D", "P31", "Q1172284", .symbol⟩, .symbol "Q1172284"⟩
    let s := (fresh false false .standard .idempotent "now").afterCall (.insert .idempotent [x])
    let v : Variable :=
      ⟨"V", "v", "v", "D", "P1", none, ["P7696193467073771205", "P9281504140135374823"]⟩
    s.Intact ∧ s.database.Admits (statementsAbout v.node v.said) ∧
      ∃ stats s', s.run (StoreM.putVariable v) = (.ok stats, s') ∧
        ¬∃ qs, s'.database.findVariable v.node = .ok (some { v with qualifiers := qs }) ∧
          ∀ q, q ∈ qs ↔ q ∈ v.qualifiers := by
  intro x s v
  have h : s.Intact := (intact_fresh _ _ _ _ _).afterCall _
  have hrows : s.database.tables.edges.rows = [x.edge] := by decide +kernel
  have hids : ∀ e ∈ s.database.tables.edges.rows, '-' ∉ e.id.toList := by
    rw [hrows]
    decide
  have hdataset : s.database.findDataset "D" = .ok (some ⟨"D", "", "", "", ""⟩) := by
    decide +kernel
  have hsame : edgeId "V" Vocabulary.hasQualifier "P7696193467073771205" 0 =
      edgeId "V" Vocabulary.hasQualifier "P9281504140135374823" 0 := by
    decide +kernel
  have hadmits := h.database.admits_of_not_mem hids v.node v.said
  obtain ⟨stats, s', hrun⟩ := h.exists_run_putVariable (v := v) (by decide) hdataset
  refine ⟨h, hadmits, stats, s', hrun, ?_⟩
  rintro ⟨qs, hfound, hall⟩
  obtain ⟨hafter, hreplaced⟩ := h.replaced v.isDescription hadmits (of_run_putVariable_ok hrun)
  obtain ⟨read, hread, hqualifiers⟩ := hreplaced.findVariable hafter
  have hqs : read = qs := by
    have hfoundSame := hread.symm.trans hfound
    simpa using hfoundSame
  subst hqs
  exact absurd (hqualifiers.eq_of_id_eq ((hall _).2 (by simp [v])) ((hall _).2 (by simp [v])) hsame)
    (by decide)

end Store

end FactGraph
