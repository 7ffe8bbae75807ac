import Mathlib.Data.Multiset.Bind
import FactGraph.Proofs.Query.Places
import FactGraph.Proofs.Store.Table

/-!
# Joins that find at most one record

A value is found by the id of its edge, and a label by the id of the first one, so that these joins
find at most one record, whatever else is joined (`Tables.Determines`). Left joins of this kind
neither repeat nor drop what is joined before, and what they find follows from it.

So **plans that differ only in such joins have environments that can be matched, each with one that
has the same under the names that both have** (`Plan.SameBut.environmentsOf_rel`). Since no
environment of a plan occurs twice, it is enough to find one for each in both directions.
-/

namespace FactGraph

/-- Different things can be matched if each has a partner, and none has two. -/
theorem rel_of_partners {α β : Type} {r : α → β → Prop} {as : Multiset α} {bs : Multiset β}
    (has : as.Nodup) (hbs : bs.Nodup) (hleft : ∀ a ∈ as, ∃ b ∈ bs, r a b)
    (hright : ∀ b ∈ bs, ∃ a ∈ as, r a b)
    (honeLeft : ∀ a ∈ as, ∀ a' ∈ as, ∀ b ∈ bs, r a b → r a' b → a = a')
    (honeRight : ∀ a ∈ as, ∀ b ∈ bs, ∀ b' ∈ bs, r a b → r a b' → b = b') :
    Multiset.Rel r as bs := by
  -- On the first multiset: its member and the partner are taken out, and what is left still has the
  -- property, since neither is the partner of another.
  induction as using Multiset.induction_on generalizing bs with
  | empty =>
    rw [Multiset.rel_zero_left]
    refine Multiset.eq_zero_of_forall_notMem fun b hb => ?_
    obtain ⟨a, ha, -⟩ := hright b hb
    exact Multiset.notMem_zero a ha
  | cons a as ih =>
    obtain ⟨b, hb, hab⟩ := hleft a (Multiset.mem_cons_self a as)
    obtain ⟨rest, rfl⟩ := Multiset.exists_cons_of_mem hb
    obtain ⟨hanew, has⟩ := Multiset.nodup_cons.1 has
    obtain ⟨hbnew, hrest⟩ := Multiset.nodup_cons.1 hbs
    refine Multiset.Rel.cons hab (ih has hrest (fun x hx => ?_) (fun y hy => ?_) ?_ ?_)
    · obtain ⟨y, hy, hxy⟩ := hleft x (Multiset.mem_cons_of_mem hx)
      refine ⟨y, (Multiset.mem_cons.1 hy).resolve_left ?_, hxy⟩
      rintro rfl
      exact hanew (honeLeft a (Multiset.mem_cons_self a as) x (Multiset.mem_cons_of_mem hx) y hb hab
        hxy ▸ hx)
    · obtain ⟨x, hx, hxy⟩ := hright y (Multiset.mem_cons_of_mem hy)
      refine ⟨x, (Multiset.mem_cons.1 hx).resolve_left ?_, hxy⟩
      rintro rfl
      exact hbnew (honeRight x (Multiset.mem_cons_self x as) b hb y (Multiset.mem_cons_of_mem hy)
        hab hxy ▸ hy)
    · exact fun x hx x' hx' y hy => honeLeft x (Multiset.mem_cons_of_mem hx) x'
        (Multiset.mem_cons_of_mem hx') y (Multiset.mem_cons_of_mem hy)
    · exact fun x hx y hy y' hy' => honeRight x (Multiset.mem_cons_of_mem hx) y
        (Multiset.mem_cons_of_mem hy) y' (Multiset.mem_cons_of_mem hy')

theorem rel_flatMap {α β γ : Type} {r : β → γ → Prop} {f : α → List β} {g : α → List γ} (l : List α)
    (h : ∀ x, Multiset.Rel r (f x : Multiset β) (g x)) :
    Multiset.Rel r (l.flatMap f : Multiset β) (l.flatMap g) := by
  rw [← Multiset.coe_bind, ← Multiset.coe_bind]
  refine Multiset.rel_bind (r := (· = ·)) ?_ Multiset.rel_eq_refl
  rintro x _ rfl
  exact h x

namespace Tables

variable {t : Tables} {j : PlanJoin} {joins : List PlanJoin} {env env' : Environment}
  {start found found' : Environment}

/-! ## Joins -/

/-- At most one record of its table meets the condition of the join, whatever else is joined. -/
def Determines (t : Tables) (j : PlanJoin) : Prop :=
  ∀ env : Environment, ∀ r ∈ t.records j.table, ∀ r' ∈ t.records j.table,
    j.condition.holds t ((j.source, some r) :: env) = true →
    j.condition.holds t ((j.source, some r') :: env) = true → r = r'

theorem determines_valueOf {joinKind : JoinKind} {kind : ValueKind} {value edge : Alias}
    (hne : edge ≠ value) :
    t.Determines ⟨joinKind, .values kind, value, .valueOf value edge⟩ := by
  intro env r hr r' hr' hholds hholds'
  obtain ⟨row, hrow, rfl⟩ := List.mem_map.1 hr
  obtain ⟨row', hrow', rfl⟩ := List.mem_map.1 hr'
  have hid (binding : Option Record) :
      Environment.text? ((value, binding) :: env) ⟨edge, .id⟩ = env.text? ⟨edge, .id⟩ :=
    Environment.text?_congr (Environment.lookup_cons_of_ne hne _ _)
  rw [Condition.holds_valueOf_iff List.lookup_cons_self, hid] at hholds hholds'
  rw [Table.eq_of_key_eq hrow hrow' (Option.some.inj (hholds.symm.trans hholds'))]

theorem determines_firstLabel {joinKind : JoinKind} {edge : Alias} {node : Operand}
    (hne : node.source ≠ edge) :
    t.Determines ⟨joinKind, .edges, edge, .firstLabel edge node⟩ := by
  intro env r hr r' hr' hholds hholds'
  obtain ⟨x, hx, rfl⟩ := mem_records_edges.1 hr
  obtain ⟨x', hx', rfl⟩ := mem_records_edges.1 hr'
  -- The condition names the first label of the node by its id, and ids are keys.
  have hfirst {x : Edge} (h : (Condition.firstLabel edge node).holds t
      ((edge, some (.edge x)) :: env) = true) :
      ((env.text? node).bind t.firstLabel).map t.kept = some x.id := by
    have hnode : Environment.text? ((edge, some (.edge x)) :: env) node = env.text? node :=
      Environment.text?_congr (Environment.lookup_cons_of_ne hne _ _)
    have hid : Environment.text? ((edge, some (.edge x)) :: env) ⟨edge, .id⟩ = some x.id :=
      Environment.text?_of_edge List.lookup_cons_self rfl
    simp only [Condition.holds, Bool.and_eq_true, hnode] at h
    cases hlabel : (env.text? node).bind t.firstLabel with
    | none => simp [hlabel] at h
    | some id => simpa [hlabel, Environment.isText, hid, eq_comm] using h.2
  rw [Table.eq_of_key_eq hx hx'
    (Option.some.inj ((hfirst hholds).symm.trans (hfirst hholds')))]

theorem determines_labelJoins {edge text : Alias} {node : Operand} (hnode : node.source ≠ edge)
    (htext : edge ≠ text) : ∀ j ∈ labelJoins edge text node, t.Determines j := by
  simp only [labelJoins, List.forall_mem_cons, List.not_mem_nil, IsEmpty.forall_iff, implies_true,
    and_true]
  exact ⟨determines_firstLabel hnode, determines_valueOf htext⟩

/-- **What such a join finds follows from what its condition uses.** -/
theorem Determines.lookup_eq (h : t.Determines j) (hsettles : t.Settles j env)
    (hsettles' : t.Settles j env')
    (hagree : ∀ a ∈ j.condition.sources, a ≠ j.source → env.lookup a = env'.lookup a) :
    env.lookup j.source = env'.lookup j.source := by
  have hmove {env env' : Environment} {r : Record}
      (hagree : ∀ a ∈ j.condition.sources, a ≠ j.source → env.lookup a = env'.lookup a)
      (hlookup : env.lookup j.source = some (some r)) :
      j.condition.holds t ((j.source, some r) :: env') = j.condition.holds t env := by
    refine Condition.holds_congr fun a ha => ?_
    by_cases heq : a = j.source
    · rw [heq, List.lookup_cons_self, hlookup]
    · rw [Environment.lookup_cons_of_ne heq, hagree a ha heq]
  have hflip : ∀ a ∈ j.condition.sources, a ≠ j.source → env'.lookup a = env.lookup a :=
    fun a ha hne => (hagree a ha hne).symm
  -- If only one of them had found a record, it would do for the other as well.
  rcases hsettles with ⟨r, hr, hlookup, hholds⟩ | ⟨-, hlookup, hnone⟩
  · rcases hsettles' with ⟨r', hr', hlookup', hholds'⟩ | ⟨-, -, hnone'⟩
    · rw [hlookup, hlookup', h env r hr r' hr' ((hmove (fun _ _ _ => rfl) hlookup).trans hholds)
        ((hmove hflip hlookup').trans hholds')]
    · exact nomatch (hnone' r hr).symm.trans ((hmove hagree hlookup).trans hholds)
  · rcases hsettles' with ⟨r', hr', hlookup', hholds'⟩ | ⟨-, hlookup', -⟩
    · exact nomatch (hnone r' hr').symm.trans ((hmove hflip hlookup').trans hholds')
    · rw [hlookup, hlookup']

theorem lookup_eq_of_labelJoins {edge text : Alias} {node : Operand} (hnode : node.source ≠ edge)
    (htext : edge ≠ text) (hsettles : ∀ j ∈ labelJoins edge text node, t.Settles j env)
    (hsettles' : ∀ j ∈ labelJoins edge text node, t.Settles j env')
    (hagree : env.lookup node.source = env'.lookup node.source) :
    ∀ a ∈ [edge, text], env.lookup a = env'.lookup a := by
  simp only [labelJoins, List.forall_mem_cons, List.not_mem_nil, IsEmpty.forall_iff, implies_true,
    and_true] at hsettles hsettles' ⊢
  have hedge : env.lookup edge = env'.lookup edge := by
    refine (determines_firstLabel hnode).lookup_eq hsettles.1 hsettles'.1 fun a ha hne => ?_
    rcases List.mem_pair.1 ha with rfl | rfl
    · exact absurd rfl hne
    · exact hagree
  refine ⟨hedge, (determines_valueOf htext).lookup_eq hsettles.2 hsettles'.2 fun a ha hne => ?_⟩
  rcases List.mem_pair.1 ha with rfl | rfl
  · exact absurd rfl hne
  · exact hedge

/-! ## Environments -/

/-- A join of this kind extends an environment in at most one way. -/
theorem Determines.eq_of_mem_extend (h : t.Determines j)
    (hfound : found ∈ PlanJoin.extend t (t.records j.table) j start)
    (hfound' : found' ∈ PlanJoin.extend t (t.records j.table) j start) : found = found' := by
  obtain ⟨r, hr, rfl, hholds⟩ | ⟨-, rfl, hnone⟩ := PlanJoin.mem_extend.1 hfound
  · obtain ⟨r', hr', rfl, hholds'⟩ | ⟨-, -, hnone'⟩ := PlanJoin.mem_extend.1 hfound'
    · rw [h start r hr r' hr' hholds hholds']
    · exact nomatch (hnone' r hr).symm.trans hholds
  · obtain ⟨r', hr', rfl, hholds'⟩ | ⟨-, rfl, -⟩ := PlanJoin.mem_extend.1 hfound'
    · exact nomatch (hnone r' hr').symm.trans hholds'
    · rfl

theorem lookup_of_mem_joined_cons {binding : Option Record}
    (hnew : j.source ∉ joins.map (·.source))
    (h : env ∈ t.joined joins ((j.source, binding) :: start)) :
    env.lookup j.source = some binding := by
  rw [lookup_of_mem_joined h hnew, List.lookup_cons_self]

/-- **Environments that are joined to the same are the same if they agree on what is not
determined.** -/
theorem eq_of_mem_joined (hnodup : (joins.map (·.source)).Nodup)
    (henv : env ∈ t.joined joins start) (henv' : env' ∈ t.joined joins start)
    (hagree : ∀ j ∈ joins, t.Determines j ∨ env.lookup j.source = env'.lookup j.source) :
    env = env' := by
  -- On the joins: each binds the same in both, as it is determined or agrees, and no later join
  -- binds its name again.
  induction joins generalizing start with
  | nil => rw [List.mem_singleton.1 henv, List.mem_singleton.1 henv']
  | cons j joins ih =>
    obtain ⟨found, hfound, hrest⟩ := List.mem_flatMap.1 henv
    obtain ⟨found', hfound', hrest'⟩ := List.mem_flatMap.1 henv'
    obtain ⟨hnew, hnodup⟩ := List.nodup_cons.1 hnodup
    have hsame : found = found' := by
      rcases hagree j List.mem_cons_self with hdetermined | hlookup
      · exact hdetermined.eq_of_mem_extend hfound hfound'
      · obtain ⟨binding, rfl⟩ := PlanJoin.eq_cons_of_mem_extend hfound
        obtain ⟨binding', rfl⟩ := PlanJoin.eq_cons_of_mem_extend hfound'
        rw [lookup_of_mem_joined_cons hnew hrest, lookup_of_mem_joined_cons hnew hrest'] at hlookup
        rw [Option.some.inj hlookup]
    exact ih hnodup hrest (hsame ▸ hrest') fun j hj => hagree j (List.mem_cons_of_mem _ hj)

theorem nodup_records (t : Tables) (table : TableName) : (t.records table).Nodup := by
  cases table with
  | edges =>
    refine List.Nodup.map (fun _ _ h => Record.edge.inj h) ?_
    exact t.edgeList_perm.nodup_iff.2 (Table.nodup_rows _)
  | values kind =>
    exact (Table.nodup_rows _).map fun _ _ h => eq_of_heq (Record.value.inj h).2
  | version => exact List.nodup_nil
  | history => exact List.nodup_nil

theorem nodup_extend (t : Tables) (j : PlanJoin) (start : Environment) :
    (PlanJoin.extend t (t.records j.table) j start).Nodup := by
  have hfound : (((t.records j.table).map fun r => (j.source, some r) :: start).filter
      fun env => j.condition.holds t env).Nodup := by
    refine ((t.nodup_records j.table).map fun r r' h => ?_).filter _
    exact Option.some.inj (Prod.mk.inj (List.cons.inj h).1).2
  simp only [PlanJoin.extend]
  split
  · exact hfound
  · split
    · exact List.nodup_singleton _
    · exact hfound

theorem nodup_joined (hnodup : (joins.map (·.source)).Nodup) (start : Environment) :
    (t.joined joins start).Nodup := by
  induction joins generalizing start with
  | nil => exact List.nodup_singleton _
  | cons j joins ih =>
    obtain ⟨hnew, hnodup⟩ := List.nodup_cons.1 hnodup
    refine List.nodup_flatMap.2 ⟨fun found _ => ih hnodup found, ?_⟩
    -- Environments that differ at this join differ to the end, since its name is not bound again.
    refine (t.nodup_extend j start).imp_of_mem ?_
    intro found found' hfound hfound' hne env hmem hmem'
    obtain ⟨binding, rfl⟩ := PlanJoin.eq_cons_of_mem_extend hfound
    obtain ⟨binding', rfl⟩ := PlanJoin.eq_cons_of_mem_extend hfound'
    have hsame := (lookup_of_mem_joined_cons hnew hmem).symm.trans
      (lookup_of_mem_joined_cons hnew hmem')
    exact hne (by rw [Option.some.inj hsame])

end Tables

/-! ## Plans -/

namespace Plan

/-- What stands under these names follows from what stands under the others: their joins are left
ones that find at most one record, and nothing else uses them. -/
structure Determines (plan : Plan) (t : Tables) (names : List Alias) : Prop where
  base : plan.base ∉ names
  left : ∀ j ∈ plan.joins, j.source ∈ names → j.kind = .left
  determined : ∀ j ∈ plan.joins, j.source ∈ names → t.Determines j
  joins : ∀ j ∈ plan.joins, j.source ∉ names → ∀ a ∈ j.condition.sources, a ∉ names
  conditions : ∀ condition ∈ plan.conditions, ∀ a ∈ condition.sources, a ∉ names

/-- Both plans are the same apart from the joins under these names and from what they show. -/
structure SameBut (names : List Alias) (plan other : Plan) : Prop where
  base : plan.base = other.base
  conditions : plan.conditions = other.conditions
  joins : ∀ j, j.source ∉ names → (j ∈ plan.joins ↔ j ∈ other.joins)

/-- The names of a plan other than these. -/
def sourcesBut (plan : Plan) (names : List Alias) : List Alias :=
  plan.sources.filter (· ∉ names)

variable {plan other : Plan} {t : Tables} {names : List Alias} {e : Edge} {env env' : Environment}
  {a : Alias}

theorem mem_sourcesBut : a ∈ plan.sourcesBut names ↔ a ∈ plan.sources ∧ a ∉ names := by
  simp [sourcesBut]

theorem IsScoped.nodup_environmentsOf (h : plan.IsScoped) : (plan.environmentsOf t e).Nodup :=
  (Tables.nodup_joined (List.nodup_cons.1 h.nodup).2 _).filter _

/-- Environments of an edge are the same if they agree on what is not determined. -/
theorem IsScoped.eq_of_mem_environmentsOf (h : plan.IsScoped)
    (henv : env ∈ plan.environmentsOf t e) (henv' : env' ∈ plan.environmentsOf t e)
    (hagree : ∀ j ∈ plan.joins, t.Determines j ∨ env.lookup j.source = env'.lookup j.source) :
    env = env' :=
  Tables.eq_of_mem_joined (List.nodup_cons.1 h.nodup).2 (List.mem_filter.1 henv).1
    (List.mem_filter.1 henv').1 hagree

theorem Determines.eq_of_agree (h : plan.Determines t names) (hscoped : plan.IsScoped)
    (henv : env ∈ plan.environmentsOf t e) (henv' : env' ∈ plan.environmentsOf t e)
    (hagree : ∀ a ∈ plan.sourcesBut names, env.lookup a = env'.lookup a) : env = env' := by
  refine hscoped.eq_of_mem_environmentsOf henv henv' fun j hj => ?_
  by_cases hmem : j.source ∈ names
  · exact .inl (h.determined j hj hmem)
  · refine .inr (hagree _ (mem_sourcesBut.2 ⟨?_, hmem⟩))
    exact List.mem_cons_of_mem _ (List.mem_map.2 ⟨j, hj, rfl⟩)

namespace SameBut

theorem symm (h : SameBut names plan other) : SameBut names other plan :=
  ⟨h.base.symm, h.conditions.symm, fun j hj => (h.joins j hj).symm⟩

theorem mem_sourcesBut_iff (h : SameBut names plan other) :
    a ∈ plan.sourcesBut names ↔ a ∈ other.sourcesBut names := by
  have hsub {plan other : Plan} (h : SameBut names plan other)
      (ha : a ∈ plan.sourcesBut names) : a ∈ other.sourcesBut names := by
    obtain ⟨hsource, hnew⟩ := mem_sourcesBut.1 ha
    refine mem_sourcesBut.2 ⟨?_, hnew⟩
    rcases List.mem_cons.1 hsource with rfl | hjoined
    · exact List.mem_cons.2 (.inl h.base)
    · obtain ⟨j, hj, rfl⟩ := List.mem_map.1 hjoined
      exact List.mem_cons_of_mem _ (List.mem_map.2 ⟨j, (h.joins j hnew).1 hj, rfl⟩)
  exact ⟨hsub h, hsub h.symm⟩

/-- **What one of the plans joins, the other one joins too.** -/
theorem exists_agreeing (h : SameBut names plan other) (hplan : plan.IsScoped)
    (hother : other.IsScoped) (hdetermines : plan.Determines t names)
    (hdetermines' : other.Determines t names) (henv : env ∈ plan.environmentsOf t e) :
    ∃ env' ∈ other.environmentsOf t e,
      ∀ a ∈ plan.sourcesBut names, env.lookup a = env'.lookup a := by
  obtain ⟨hjoined, hmeets⟩ := List.mem_filter.1 henv
  obtain ⟨env', henv', hall⟩ : ∃ env' ∈ t.joined other.joins [(other.base, some (.edge e))],
      ∀ a ∈ other.sources, a ∈ plan.sourcesBut names → env'.lookup a = env.lookup a := by
    refine Tables.exists_mem_joined_agreeing [other.base] (plan.sourcesBut names) hother.nodup
      hother.joinsScoped (List.forall_mem_singleton.2 fun _ => ?_) (fun j hj hsource => ?_)
      fun j hj hsource => ?_
    · rw [List.lookup_cons_self, ← h.base, hplan.lookup_base hjoined]
    · have hnew := (mem_sourcesBut.1 hsource).2
      have hmem := (h.joins j hnew).2 hj
      refine ⟨fun a ha => mem_sourcesBut.2 ⟨hplan.sources_join hmem ha, ?_⟩,
        hplan.settles hjoined hmem⟩
      exact hdetermines.joins j hmem hnew a ha
    · refine hdetermines'.left j hj (by_contra fun hnew => hsource ?_)
      refine h.mem_sourcesBut_iff.2 (mem_sourcesBut.2 ⟨?_, hnew⟩)
      exact List.mem_cons_of_mem _ (List.mem_map.2 ⟨j, hj, rfl⟩)
  have hagree : ∀ a ∈ plan.sourcesBut names, env.lookup a = env'.lookup a := fun a ha =>
    (hall a (mem_sourcesBut.1 (h.mem_sourcesBut_iff.1 ha)).1 ha).symm
  refine ⟨env', List.mem_filter.2 ⟨henv', ?_⟩, hagree⟩
  rw [← h.conditions]
  refine List.all_eq_true.2 fun condition hcondition => ?_
  rw [← List.all_eq_true.1 hmeets condition hcondition]
  refine (Condition.holds_congr fun a ha => hagree a (mem_sourcesBut.2 ⟨?_, ?_⟩)).symm
  · exact hplan.sources_condition hcondition ha
  · exact hdetermines.conditions condition hcondition a ha

/-- **The environments of both plans can be matched**, each with one that has the same under the
names that both plans have. -/
theorem environmentsOf_rel (h : SameBut names plan other) (hplan : plan.IsScoped)
    (hother : other.IsScoped) (hdetermines : plan.Determines t names)
    (hdetermines' : other.Determines t names) (e : Edge) :
    Multiset.Rel (fun env env' : Environment =>
        ∀ a ∈ plan.sourcesBut names, env.lookup a = env'.lookup a)
      (plan.environmentsOf t e : Multiset Environment) (other.environmentsOf t e) := by
  refine rel_of_partners hplan.nodup_environmentsOf hother.nodup_environmentsOf
    (fun env henv => ?_) (fun env' henv' => ?_)
    (fun env henv found hfound env' _ hagree hagree' => ?_)
    fun env _ env' henv' found hfound hagree hagree' => ?_
  · exact h.exists_agreeing hplan hother hdetermines hdetermines' henv
  · obtain ⟨env, henv, hagree⟩ :=
      h.symm.exists_agreeing hother hplan hdetermines' hdetermines henv'
    exact ⟨env, henv, fun a ha => (hagree a (h.mem_sourcesBut_iff.1 ha)).symm⟩
  · exact hdetermines.eq_of_agree hplan henv hfound fun a ha =>
      (hagree a ha).trans (hagree' a ha).symm
  · refine hdetermines'.eq_of_agree hother henv' hfound fun a ha => ?_
    have hmem := h.mem_sourcesBut_iff.2 ha
    exact (hagree a hmem).symm.trans (hagree' a hmem)

end SameBut

end Plan

end FactGraph
