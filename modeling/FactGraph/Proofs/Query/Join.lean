import FactGraph.Proofs.Query.Scope

/-!
# Environments of joined tables

What joins make of an environment. A join binds its own name and leaves the others alone, so what it
found is still there in the end, as long as no name is joined twice and conditions use names that
are joined before (`Tables.settles_of_mem_joined`). The converse is that an environment can be found
in which each name stands for what is asked for, if each join can bind it
(`Tables.exists_mem_joined_of_extend`): given records (`Tables.exists_mem_joined`), or what other
joins have found (`Tables.exists_mem_joined_agreeing`). Inner joins need a partner, left joins never
fail.

Without a limit the rows of a query are those of its first table's rows, one after the other, in
some order (`Plan.rows_perm`).
-/

namespace FactGraph

/-! ## Names that are looked up -/

namespace Environment

variable {env env' : Environment} {o : Operand}

theorem cell_congr (h : env.lookup o.source = env'.lookup o.source) : env.cell o = env'.cell o := by
  rw [cell, cell, h]

theorem text?_congr (h : env.lookup o.source = env'.lookup o.source) :
    env.text? o = env'.text? o := by
  rw [text?, text?, cell_congr h]

theorem isAmong_congr (h : env.lookup o.source = env'.lookup o.source) (t : Tables)
    (texts : List String) : env.isAmong t o texts = env'.isAmong t o texts := by
  rw [isAmong, isAmong, text?_congr h]

theorem isText_congr (h : env.lookup o.source = env'.lookup o.source) (t : Tables)
    (text : String) : env.isText t o text = env'.isText t o text := by
  rw [isText, isText, text?_congr h]

theorem sameText_congr {a b : Operand} (ha : env.lookup a.source = env'.lookup a.source)
    (hb : env.lookup b.source = env'.lookup b.source) : env.sameText a b = env'.sameText a b := by
  rw [sameText, sameText, text?_congr ha, text?_congr hb]

theorem sameText_iff {a b : Operand} :
    env.sameText a b = true ↔ ∃ text, env.text? a = some text ∧ env.text? b = some text := by
  unfold sameText
  cases env.text? a <;> cases env.text? b <;> simp [eq_comm]

theorem exists_of_text? {text : String} (h : env.text? o = some text) :
    ∃ record, env.lookup o.source = some (some record) ∧
      (record.cell o.column).text? = some text := by
  unfold text? cell at h
  split at h
  next record hlookup => exact ⟨record, hlookup, h⟩
  next => exact nomatch h

theorem text?_of_lookup {record : Record} (h : env.lookup o.source = some (some record)) :
    env.text? o = (record.cell o.column).text? := by
  rw [text?, cell, h]

end Environment

theorem Expr.eval_congr {env env' : Environment} {expr : Expr}
    (h : ∀ a ∈ expr.sources, env.lookup a = env'.lookup a) : expr.eval env = expr.eval env' := by
  cases expr with
  | operand o => exact Environment.cell_congr (h _ List.mem_cons_self)
  | firstOf a b =>
    have ha := Environment.cell_congr (o := a) (h _ List.mem_cons_self)
    have hb := Environment.cell_congr (o := b) (h _ (List.mem_cons_of_mem _ List.mem_cons_self))
    rw [eval, eval, ha, hb]
  | point source =>
    have hcell (column : Column) := Environment.cell_congr (o := ⟨source, column⟩)
      (h source List.mem_cons_self)
    simp only [eval, hcell]

theorem Condition.holds_congr {t : Tables} {env env' : Environment} {condition : Condition}
    (h : ∀ a ∈ condition.sources, env.lookup a = env'.lookup a) :
    condition.holds t env = condition.holds t env' := by
  cases condition with
  | valueOf value edge =>
    exact Environment.sameText_congr (h _ List.mem_cons_self)
      (h _ (List.mem_cons_of_mem _ List.mem_cons_self))
  | about edge node label =>
    have hedge := h edge List.mem_cons_self
    have hnode := h node.source (List.mem_cons_of_mem _ List.mem_cons_self)
    rw [holds, holds, Environment.sameText_congr hedge hnode, Environment.isText_congr hedge]
  | firstLabel edge node =>
    have hedge := h edge List.mem_cons_self
    have hnode := h node.source (List.mem_cons_of_mem _ List.mem_cons_self)
    rw [holds, holds, Environment.sameText_congr hedge hnode, Environment.isText_congr hedge,
      Environment.text?_congr hnode]
    simp only [Environment.isText_congr (o := ⟨edge, .id⟩) hedge]
  | equals operand text => exact Environment.isText_congr (h _ List.mem_cons_self) t text
  | anyIn alternatives =>
    have hany : alternatives.any (fun a => env.isAmong t a.1 a.2) =
        alternatives.any fun a => env'.isAmong t a.1 a.2 := by
      rw [Bool.eq_iff_iff, List.any_eq_true, List.any_eq_true]
      refine exists_congr fun a => and_congr_right fun ha => ?_
      rw [Environment.isAmong_congr (h a.1.source (List.mem_map.2 ⟨a, ha, rfl⟩))]
    simp only [holds, hany]

/-! ## What joins make of an environment -/

theorem PlanJoin.mem_extend {t : Tables} {records : List Record} {j : PlanJoin}
    {env env' : Environment} :
    env' ∈ PlanJoin.extend t records j env ↔
      (∃ r ∈ records, env' = (j.source, some r) :: env ∧ j.condition.holds t env' = true) ∨
      (j.kind = .left ∧ env' = (j.source, none) :: env ∧
        ∀ r ∈ records, j.condition.holds t ((j.source, some r) :: env) = false) := by
  have hfound : env' ∈ (records.map fun r => (j.source, some r) :: env).filter
      (fun env => j.condition.holds t env) ↔
      ∃ r ∈ records, env' = (j.source, some r) :: env ∧ j.condition.holds t env' = true := by
    rw [List.mem_filter, List.mem_map]
    constructor
    · rintro ⟨⟨r, hr, rfl⟩, hholds⟩
      exact ⟨r, hr, rfl, hholds⟩
    · rintro ⟨r, hr, rfl, hholds⟩
      exact ⟨⟨r, hr, rfl⟩, hholds⟩
  unfold extend
  cases hkind : j.kind with
  | inner => simpa using hfound
  | left =>
    -- A left join keeps the environment without a record only if no record does.
    by_cases hnone : ∀ r ∈ records, j.condition.holds t ((j.source, some r) :: env) = false
    · have hempty : (records.map fun r => (j.source, some r) :: env).filter
          (fun env => j.condition.holds t env) = [] := by
        simpa [List.filter_eq_nil_iff] using hnone
      have hno : ¬∃ r ∈ records, env' = (j.source, some r) :: env ∧
          j.condition.holds t env' = true := by
        rintro ⟨r, hr, rfl, hholds⟩
        exact absurd hholds (by simp [hnone r hr])
      simpa [hempty, hno] using fun _ => hnone
    · have hsome : ((records.map fun r => (j.source, some r) :: env).filter
          (fun env => j.condition.holds t env)).isEmpty = false := by
        simpa [List.filter_eq_nil_iff] using hnone
      simp only [hsome, Bool.false_eq_true, if_false, hfound, hnone, and_false, or_false]

theorem PlanJoin.eq_cons_of_mem_extend {t : Tables} {records : List Record} {j : PlanJoin}
    {env env' : Environment} (h : env' ∈ PlanJoin.extend t records j env) :
    ∃ binding, env' = (j.source, binding) :: env := by
  obtain ⟨r, -, rfl, -⟩ | ⟨-, rfl, -⟩ := PlanJoin.mem_extend.1 h
  · exact ⟨_, rfl⟩
  · exact ⟨_, rfl⟩

theorem PlanJoin.exists_mem_extend_of_left (t : Tables) (records : List Record) {j : PlanJoin}
    (hleft : j.kind = .left) (env : Environment) :
    ∃ binding, (j.source, binding) :: env ∈ PlanJoin.extend t records j env := by
  by_cases h : ∃ r ∈ records, j.condition.holds t ((j.source, some r) :: env) = true
  · obtain ⟨r, hr, hholds⟩ := h
    exact ⟨some r, PlanJoin.mem_extend.2 (.inl ⟨r, hr, rfl, hholds⟩)⟩
  · refine ⟨none, PlanJoin.mem_extend.2 (.inr ⟨hleft, rfl, fun r hr => ?_⟩)⟩
    exact Bool.eq_false_iff.2 fun hholds => h ⟨r, hr, hholds⟩

namespace Environment

theorem lookup_cons_of_ne {a b : Alias} (h : a ≠ b) (binding : Option Record)
    (env : Environment) : List.lookup a ((b, binding) :: env) = List.lookup a env := by
  rw [List.lookup_cons, beq_false_of_ne h]

theorem lookup_cons_congr {a b : Alias} {binding : Option Record} {env env' : Environment}
    (h : a ≠ b → env.lookup a = env'.lookup a) :
    List.lookup a ((b, binding) :: env) = List.lookup a ((b, binding) :: env') := by
  by_cases heq : a = b
  · rw [heq, List.lookup_cons_self, List.lookup_cons_self]
  · rw [lookup_cons_of_ne heq, lookup_cons_of_ne heq]
    exact h heq

theorem forall_lookup_cons {P : Alias → Option (Option Record) → Prop} {names : List Alias}
    {b : Alias} {binding : Option Record} {env : Environment} (hnew : b ∉ names)
    (hbinding : P b (some binding)) (henv : ∀ a ∈ names, P a (env.lookup a)) :
    ∀ a ∈ b :: names, P a (List.lookup a ((b, binding) :: env)) := by
  refine List.forall_mem_cons.2 ⟨?_, fun a ha => ?_⟩
  · rwa [List.lookup_cons_self]
  · rw [lookup_cons_of_ne fun heq : a = b => hnew (heq ▸ ha)]
    exact henv a ha

end Environment

namespace Tables

variable {t : Tables} {joins : List PlanJoin} {env env' : Environment}

/-- The environments that joins make of one. -/
def joined (t : Tables) : List PlanJoin → Environment → List Environment
  | [], env => [env]
  | j :: joins, env => (PlanJoin.extend t (t.records j.table) j env).flatMap (t.joined joins)

theorem joined_append (first second : List PlanJoin) (env : Environment) :
    t.joined (first ++ second) env = (t.joined first env).flatMap (t.joined second) := by
  induction first generalizing env with
  | nil => simp [joined]
  | cons j first ih =>
    simp only [List.cons_append, joined, List.flatMap_assoc]
    exact List.flatMap_congr fun env _ => ih env

theorem foldl_extend_eq (joins : List PlanJoin) (envs : List Environment) :
    joins.foldl (fun envs j => envs.flatMap (PlanJoin.extend t (t.records j.table) j)) envs =
      envs.flatMap (t.joined joins) := by
  induction joins generalizing envs with
  | nil => simp [joined]
  | cons j joins ih => rw [List.foldl_cons, ih, List.flatMap_assoc]; rfl

theorem lookup_of_mem_joined (h : env' ∈ t.joined joins env) {a : Alias}
    (ha : a ∉ joins.map (·.source)) : env'.lookup a = env.lookup a := by
  induction joins generalizing env with
  | nil => rw [List.mem_singleton.1 h]
  | cons j joins ih =>
    obtain ⟨middle, hmiddle, hrest⟩ := List.mem_flatMap.1 h
    obtain ⟨binding, rfl⟩ := PlanJoin.eq_cons_of_mem_extend hmiddle
    rw [List.map_cons, List.mem_cons, not_or] at ha
    rw [ih hrest ha.2, Environment.lookup_cons_of_ne ha.1]

/-- The environment has under the name of a join what the join finds there: a record of its table
that meets the condition, or none where it is a left join and no record does. -/
def Settles (t : Tables) (j : PlanJoin) (env : Environment) : Prop :=
  (∃ r ∈ t.records j.table, env.lookup j.source = some (some r) ∧
    j.condition.holds t env = true) ∨
  (j.kind = .left ∧ env.lookup j.source = some none ∧
    ∀ r ∈ t.records j.table, j.condition.holds t ((j.source, some r) :: env) = false)

/-- **What a join found is still there in the end.** -/
theorem settles_of_mem_joined (names : List Alias)
    (hnodup : (names ++ joins.map (·.source)).Nodup)
    (hscope : joinsScoped names joins = true) (h : env' ∈ t.joined joins env) {j : PlanJoin}
    (hj : j ∈ joins) : t.Settles j env' := by
  induction joins generalizing names env with
  | nil => simp at hj
  | cons first joins ih =>
    obtain ⟨middle, hmiddle, hrest⟩ := List.mem_flatMap.1 h
    have hnodup' : (first.source :: names ++ joins.map (·.source)).Nodup :=
      (List.perm_middle.nodup_iff).1 hnodup
    simp only [joinsScoped, Bool.and_eq_true, List.all_eq_true, decide_eq_true_eq] at hscope
    rcases List.mem_cons.1 hj with rfl | hj
    · have hlater {a : Alias} (ha : a ∈ j.source :: names) : env'.lookup a = middle.lookup a :=
        lookup_of_mem_joined hrest fun hmem =>
          (List.nodup_append.1 hnodup').2.2 a ha a hmem rfl
      rw [Settles, hlater List.mem_cons_self,
        Condition.holds_congr fun a ha => hlater (hscope.1 a ha)]
      obtain ⟨r, hr, rfl, hholds⟩ | ⟨hleft, rfl, hnone⟩ := PlanJoin.mem_extend.1 hmiddle
      · exact .inl ⟨r, hr, List.lookup_cons_self, hholds⟩
      · refine .inr ⟨hleft, List.lookup_cons_self, fun r hr => ?_⟩
        rw [← hnone r hr]
        refine Condition.holds_congr fun a ha => Environment.lookup_cons_congr fun hne => ?_
        rw [hlater (hscope.1 a ha), Environment.lookup_cons_of_ne hne]
    · exact ih _ hnodup' hscope.2 hrest hj

/-- A name stands for a record of its table that meets the condition of its join, or for none where
the join is a left one. -/
theorem mem_joined_cases (names : List Alias)
    (hnodup : (names ++ joins.map (·.source)).Nodup)
    (hscope : joinsScoped names joins = true) (h : env' ∈ t.joined joins env) {j : PlanJoin}
    (hj : j ∈ joins) :
    (∃ r ∈ t.records j.table, env'.lookup j.source = some (some r) ∧
      j.condition.holds t env' = true) ∨
    (j.kind = .left ∧ env'.lookup j.source = some none) :=
  (settles_of_mem_joined names hnodup hscope h hj).imp_right fun hnone => ⟨hnone.1, hnone.2.1⟩

/-- **What is asked for under each name can be bound by joins**, if each of them can bind it where
the names before it have what is asked for. -/
theorem exists_mem_joined_of_extend (asks : Alias → Option (Option Record) → Prop)
    (names : List Alias) (hnodup : (names ++ joins.map (·.source)).Nodup)
    (hscope : joinsScoped names joins = true) (henv : ∀ a ∈ names, asks a (env.lookup a))
    (hextend : ∀ j ∈ joins, ∀ (names : List Alias) (env : Environment), j.source ∉ names →
      j.condition.sources ⊆ j.source :: names → (∀ a ∈ names, asks a (env.lookup a)) →
      ∃ binding, (j.source, binding) :: env ∈ PlanJoin.extend t (t.records j.table) j env ∧
        asks j.source (some binding)) :
    ∃ env' ∈ t.joined joins env,
      ∀ a ∈ names ++ joins.map (·.source), asks a (env'.lookup a) := by
  -- On the joins, with any environment that has what is asked for under the names so far; a join
  -- adds its own name to these.
  induction joins generalizing names env with
  | nil => exact ⟨env, List.mem_singleton_self _, by simpa using henv⟩
  | cons j joins ih =>
    have hnodup' : (j.source :: names ++ joins.map (·.source)).Nodup :=
      (List.perm_middle.nodup_iff).1 hnodup
    have hnew : j.source ∉ names := fun h =>
      (List.nodup_append.1 hnodup).2.2 _ h _ List.mem_cons_self rfl
    simp only [joinsScoped, Bool.and_eq_true, List.all_eq_true, decide_eq_true_eq] at hscope
    obtain ⟨binding, hmem, hbinding⟩ :=
      hextend j List.mem_cons_self names env hnew hscope.1 henv
    obtain ⟨env', henv', hall⟩ := ih (j.source :: names) hnodup' hscope.2
      (Environment.forall_lookup_cons hnew hbinding henv)
      fun other hother => hextend other (List.mem_cons_of_mem _ hother)
    refine ⟨env', List.mem_flatMap.2 ⟨_, hmem, henv'⟩, fun a ha => hall a ?_⟩
    exact List.perm_middle.mem_iff.1 ha

/-- The environment has the records that are wished for under these names. -/
def Fulfils (wish : Alias → Option Record) (names : List Alias) (env : Environment) : Prop :=
  ∀ a ∈ names, ∀ r, wish a = some r → env.lookup a = some (some r)

/-- The join can bind what is wished for under its name: it is a left join without a wish, or
admits some record as long as the names that it uses stand for what is wished. -/
def Admits (t : Tables) (wish : Alias → Option Record) (j : PlanJoin) : Prop :=
  (j.kind = .left ∧ wish j.source = none) ∨
    ∃ r ∈ t.records j.table, (∀ wished, wish j.source = some wished → wished = r) ∧
      ∀ env : Environment, env.lookup j.source = some (some r) →
        Fulfils wish j.condition.sources env → j.condition.holds t env = true

/-- **Joins can be made to bind given records** that each of them admits. -/
theorem exists_mem_joined (names : List Alias) (wish : Alias → Option Record)
    (hnodup : (names ++ joins.map (·.source)).Nodup) (hscope : joinsScoped names joins = true)
    (henv : Fulfils wish names env) (hjoins : ∀ j ∈ joins, t.Admits wish j) :
    ∃ env' ∈ t.joined joins env, Fulfils wish (names ++ joins.map (·.source)) env' := by
  refine exists_mem_joined_of_extend
    (fun a binding => ∀ wished, wish a = some wished → binding = some (some wished))
    names hnodup hscope henv fun j hj names env hnew hsources henv => ?_
  rcases hjoins j hj with ⟨hleft, hnone⟩ | ⟨r, hr, hwish, hholds⟩
  · obtain ⟨binding, hmem⟩ := PlanJoin.exists_mem_extend_of_left t (t.records j.table) hleft env
    refine ⟨binding, hmem, fun r hr => ?_⟩
    exact absurd (hnone.symm.trans hr) (by simp)
  · have hbinding : ∀ wished, wish j.source = some wished → some (some r) = some (some wished) :=
      fun wished hwished => by rw [hwish wished hwished]
    have hfulfils : Fulfils wish (j.source :: names) ((j.source, some r) :: env) :=
      Environment.forall_lookup_cons
        (P := fun a binding => ∀ wished, wish a = some wished → binding = some (some wished))
        hnew hbinding henv
    refine ⟨some r, PlanJoin.mem_extend.2 (.inl ⟨r, hr, rfl, ?_⟩), hbinding⟩
    exact hholds _ List.lookup_cons_self fun a ha => hfulfils a (hsources ha)

/-- **Joins can be made to bind what others found under some names**, if they find it there as well
and bind the other names by left joins. -/
theorem exists_mem_joined_agreeing (names known : List Alias) {found : Environment}
    (hnodup : (names ++ joins.map (·.source)).Nodup) (hscope : joinsScoped names joins = true)
    (henv : ∀ a ∈ names, a ∈ known → env.lookup a = found.lookup a)
    (hknown : ∀ j ∈ joins, j.source ∈ known →
      j.condition.sources ⊆ known ∧ t.Settles j found)
    (hleft : ∀ j ∈ joins, j.source ∉ known → j.kind = .left) :
    ∃ env' ∈ t.joined joins env,
      ∀ a ∈ names ++ joins.map (·.source), a ∈ known → env'.lookup a = found.lookup a := by
  refine exists_mem_joined_of_extend (fun a binding => a ∈ known → binding = found.lookup a)
    names hnodup hscope henv fun j hj names env hnew hsources henv => ?_
  -- Under a known name the join finds what the other environment has found. Under any other it is a
  -- left join, which cannot fail.
  by_cases hsource : j.source ∈ known
  · obtain ⟨hsub, hsettles⟩ := hknown j hj hsource
    have hbound {binding : Option Record} (hlookup : found.lookup j.source = some binding) :
        ∀ a ∈ j.source :: names, a ∈ known →
          List.lookup a ((j.source, binding) :: env) = found.lookup a :=
      Environment.forall_lookup_cons
        (P := fun a binding => a ∈ known → binding = found.lookup a) hnew
        (fun _ => hlookup.symm) henv
    rcases hsettles with ⟨r, hr, hlookup, hholds⟩ | ⟨hkind, hlookup, hnone⟩
    · refine ⟨some r, PlanJoin.mem_extend.2 (.inl ⟨r, hr, rfl, ?_⟩), fun _ => hlookup.symm⟩
      rw [← hholds]
      exact Condition.holds_congr fun a ha => hbound hlookup a (hsources ha) (hsub ha)
    · refine ⟨none, PlanJoin.mem_extend.2 (.inr ⟨hkind, rfl, fun r hr => ?_⟩),
        fun _ => hlookup.symm⟩
      rw [← hnone r hr]
      refine Condition.holds_congr fun a ha => Environment.lookup_cons_congr fun hne => ?_
      exact henv a ((List.mem_cons.1 (hsources ha)).resolve_left hne) (hsub ha)
  · obtain ⟨binding, hmem⟩ := PlanJoin.exists_mem_extend_of_left t (t.records j.table)
      (hleft j hj hsource) env
    exact ⟨binding, hmem, fun h => absurd h hsource⟩

theorem edgeList_perm (t : Tables) : t.edgeList.Perm t.edges.rows := by
  unfold edgeList TextEncoding.arrange
  split
  · exact .refl _
  · exact List.mergeSort_perm ..

theorem mem_records_edges {record : Record} :
    record ∈ t.records .edges ↔ ∃ e ∈ t.edges.rows, record = .edge e := by
  simp only [records, List.mem_map, (edgeList_perm t).mem_iff, eq_comm]

end Tables

/-! ## Rows -/

namespace Plan

variable (plan : Plan) (t : Tables)

/-- The joined environments of a row of the first table that meet the conditions. -/
def environmentsOf (e : Edge) : List Environment :=
  (t.joined plan.joins [(plan.base, some (.edge e))]).filter fun env =>
    plan.conditions.all (·.holds t env)

/-- The output of an environment. -/
def rowOf (env : Environment) : List Cell := plan.columns.map (·.2.eval env)

/-- The rows that an edge of the first table contributes. -/
def rowsOf (e : Edge) : List (List Cell) := (plan.environmentsOf t e).map plan.rowOf

theorem environments_eq : environments plan t = t.edgeList.flatMap (environmentsOf plan t) := by
  have hstart : (t.records .edges).map (fun record => [(plan.base, some record)]) =
      t.edgeList.map fun e => [(plan.base, some (.edge e))] := by
    rw [Tables.records, List.map_map]
    rfl
  simp only [environments, hstart, Tables.foldl_extend_eq, List.flatMap_map, List.filter_flatMap]
  rfl

theorem selected_perm (hlimit : plan.limit = none) :
    (plan.selected t).Perm (environments plan t) := by
  simp only [selected, hlimit]
  exact List.mergeSort_perm ..

/-- **Without a limit, a query has the rows that each edge contributes.** -/
theorem rows_perm (hlimit : plan.limit = none) :
    (plan.rows t).Perm (t.edges.rows.flatMap (plan.rowsOf t)) := by
  have hrows : (environments plan t).map plan.rowOf = t.edgeList.flatMap (plan.rowsOf t) := by
    rw [environments_eq, List.map_flatMap]
    rfl
  exact (((selected_perm plan t hlimit).map plan.rowOf).trans (.of_eq hrows)).trans
    (t.edgeList_perm.flatMap_right _)

/-- Every row is the output of an environment of a stored edge, limit or not. -/
theorem exists_environmentsOf {row : List Cell} (hrow : row ∈ plan.rows t) :
    ∃ e ∈ t.edges.rows, ∃ env ∈ plan.environmentsOf t e, row = plan.rowOf env := by
  obtain ⟨env, henv, rfl⟩ := List.mem_map.1 hrow
  have hmem : env ∈ environments plan t := by
    unfold selected at henv
    split at henv
    · exact List.mem_mergeSort.1 (List.mem_of_mem_take henv)
    · exact List.mem_mergeSort.1 henv
  rw [environments_eq] at hmem
  obtain ⟨e, he, henv⟩ := List.mem_flatMap.1 hmem
  exact ⟨e, t.edgeList_perm.mem_iff.1 he, env, henv, rfl⟩

/-! ## Plans that can be evaluated -/

/-- No two tables are joined under one name, and names are used only where a table is joined. -/
structure IsScoped (plan : Plan) : Prop where
  nodup : plan.sources.Nodup
  wellScoped : plan.wellScoped = true

namespace IsScoped

variable {plan : Plan} {t : Tables} {e : Edge} {env : Environment}

theorem joinsScoped (h : plan.IsScoped) : joinsScoped [plan.base] plan.joins = true :=
  (wellScoped_iff.1 h.wellScoped).1

theorem sources_column (h : plan.IsScoped) {column : String × Expr}
    (hcolumn : column ∈ plan.columns) : column.2.sources ⊆ plan.sources :=
  (wellScoped_iff.1 h.wellScoped).2.1 column hcolumn

theorem sources_condition (h : plan.IsScoped) {condition : Condition}
    (hcondition : condition ∈ plan.conditions) : condition.sources ⊆ plan.sources :=
  (wellScoped_iff.1 h.wellScoped).2.2.1 condition hcondition

theorem sources_join (h : plan.IsScoped) {j : PlanJoin} (hj : j ∈ plan.joins) :
    j.condition.sources ⊆ plan.sources := by
  intro a ha
  rcases mem_of_joinsScoped h.joinsScoped hj ha with hbase | hsource
  · exact List.mem_cons.2 (.inl (List.mem_singleton.1 hbase))
  · exact List.mem_cons_of_mem _ hsource

theorem settles (h : plan.IsScoped)
    (henv : env ∈ t.joined plan.joins [(plan.base, some (.edge e))]) {j : PlanJoin}
    (hj : j ∈ plan.joins) : t.Settles j env :=
  Tables.settles_of_mem_joined [plan.base] h.nodup h.joinsScoped henv hj

theorem lookup_base (h : plan.IsScoped)
    (henv : env ∈ t.joined plan.joins [(plan.base, some (.edge e))]) :
    env.lookup plan.base = some (some (.edge e)) := by
  rw [Tables.lookup_of_mem_joined henv (List.nodup_cons.1 h.nodup).1]
  exact List.lookup_cons_self

end IsScoped

theorem isScoped_assembled {property dataset : String} {qualifiers : List Qualifier}
    {columns : List String} {places : PlaceFilter} {limit : Int64}
    (hnames : (qualifiers.map (·.name)).Nodup)
    (hall : JoinsAll qualifiers columns places) :
    (assembled property dataset qualifiers columns places limit).IsScoped :=
  ⟨nodup_sources_assembled, wellScoped_of_joinsAll hnames hall⟩

end Plan

end FactGraph
