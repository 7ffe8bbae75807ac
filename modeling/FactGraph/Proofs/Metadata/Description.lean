import FactGraph.Proofs.Row.DerivedId
import FactGraph.Proofs.Store.Replacement

/-!
# Descriptions read back

The statements of a description have derived ids, in which the label comes before sixteen digits; so
statements of one node with the same id have the same label (`label_eq_of_edgeId_eq`). When they
have been put in the place of what a node said, a field that is said once is read as it is said
(`Database.Replaced.textOf_of_said`), a field that is not said is not read, and a field that is said
several times is read in the order of the ids (`Database.Replaced.edgesOf_of_said`).
-/

namespace FactGraph

/-! ## Ids -/

/-- **Ids of one node with other labels are other ids.** -/
theorem label_eq_of_edgeId_eq {node label label' node2 node2' : String} {k k' : Nat}
    (h : edgeId node label node2 k = edgeId node label' node2' k') : label = label' := by
  have hchars := congrArg String.toList h
  simp only [edgeId, String.toList_append, String.toList_ofList] at hchars
  obtain ⟨hfront, -⟩ := List.append_inj' hchars (by rw [Digest.length_stem, Digest.length_stem])
  have hlabels := List.append_cancel_right hfront
  simp only [List.append_assoc, List.append_cancel_left_eq] at hlabels
  exact String.toList_inj.1 hlabels

/-! ## Statements -/

variable {node label : String} {said : List (String × Literal)} {x y : Statement} {l : Literal}

/-- The statement of a node that says a literal under a label. -/
def statementAbout (node label : String) (l : Literal) : Statement :=
  .ofLiteral (edgeId node label l.encode 0) node label l

theorem mem_statementsAbout : x ∈ statementsAbout node said ↔
    ∃ label l, (label, l) ∈ said ∧ statementAbout node label l = x := by
  simp [statementsAbout, statementAbout]

/-- The literal is said under the label, and no other is. -/
def SaidOnce (said : List (String × Literal)) (label : String) (l : Literal) : Prop :=
  (label, l) ∈ said ∧ ∀ l', (label, l') ∈ said → l' = l

theorem saidOnce_of_nodup {p : String → Bool}
    (h : ((said.filter fun pair => p pair.1).map (·.1)).Nodup) (hp : p label = true)
    (hl : (label, l) ∈ said) : SaidOnce said label l := by
  refine ⟨hl, fun l' hl' => ?_⟩
  have hsame := List.inj_on_of_nodup_map h (List.mem_filter.2 ⟨hl', hp⟩)
    (List.mem_filter.2 ⟨hl, hp⟩) rfl
  exact (Prod.mk.inj hsame).2

@[simp] theorem Literal.encode_symbol (t : String) : (Literal.symbol t).encode = t :=
  String.ofList_toList

/-- A literal of a description: a text or a symbol. -/
def Literal.IsWord (l : Literal) : Prop := (∃ t, l = .text t) ∨ ∃ t, l = .symbol t

/-- Words are said, under labels that are not blank. -/
def IsDescription (said : List (String × Literal)) : Prop :=
  ∀ pair ∈ said, pair.2.IsWord ∧ Text.isBlankText pair.1 = false

theorem hyphen_mem_edgeId (node label node2 : String) (k : Nat) :
    '-' ∈ (edgeId node label node2 k).toList := by
  simp [edgeId, String.toList_append]

theorem Statement.check_of_not_isBlank (hid : Text.isBlankText x.edge.id = false)
    (hnode : Text.isBlankText x.edge.node1 = false)
    (hlabel : Text.isBlankText x.edge.label = false) (hkind : x.edge.kind = x.value.kind) :
    x.check = .ok () := by
  simp [check, hid, hnode, hlabel, hkind]

namespace IsDescription

variable (hsaid : IsDescription said)

include hsaid

theorem check (hnode : Text.isBlankText node = false) :
    ∀ x ∈ statementsAbout node said, x.check = .ok () := by
  intro x hx
  obtain ⟨label, l, hl, rfl⟩ := mem_statementsAbout.1 hx
  refine Statement.check_of_not_isBlank ?_ hnode (hsaid _ hl).2 (by cases l <;> rfl)
  exact List.all_eq_false.2 ⟨'-', hyphen_mem_edgeId .., by decide⟩

theorem storable : ∀ x ∈ statementsAbout node said, Update.Storable x := by
  intro x hx
  obtain ⟨label, l, hl, rfl⟩ := mem_statementsAbout.1 hx
  rcases (hsaid _ hl).1 with ⟨t, rfl⟩ | ⟨t, rfl⟩ <;> exact Update.storable_of_hasNaN rfl

theorem holds {db : Database} (h : db.Intact) :
    ∀ x ∈ statementsAbout node said, db.tables.Stores x → db.Holds x := by
  intro x hx hstores
  obtain ⟨label, l, hl, rfl⟩ := mem_statementsAbout.1 hx
  rcases (hsaid _ hl).1 with ⟨t, rfl⟩ | ⟨t, rfl⟩ <;>
    exact h.holds_of_stores hstores rfl trivial rfl

end IsDescription

theorem label_eq_of_id_eq (hx : x ∈ statementsAbout node said)
    (hy : y ∈ statementsAbout node said) (h : y.edge.id = x.edge.id) :
    y.edge.label = x.edge.label := by
  obtain ⟨_, _, _, rfl⟩ := mem_statementsAbout.1 hx
  obtain ⟨_, _, _, rfl⟩ := mem_statementsAbout.1 hy
  exact label_eq_of_edgeId_eq h

namespace Database

/-! ## Reading -/

variable {db other : Database} {fields : List String}

namespace Replaced

variable (h : db.Replaced node fields (statementsAbout node said) other)

include h

/-- **What is said once under a label is there.** -/
theorem holds_of_said (honce : SaidOnce said label l) :
    other.Holds (statementAbout node label l) := by
  obtain ⟨hl, honce⟩ := honce
  have hmem := mem_statementsAbout.2 ⟨label, l, hl, (rfl : statementAbout node label l = _)⟩
  obtain ⟨y, hy, hid, hholds⟩ := h.said _ hmem
  have hlabel : y.edge.label = label := label_eq_of_id_eq hmem hy hid
  obtain ⟨label', l', hl', rfl⟩ := mem_statementsAbout.1 hy
  obtain rfl : label' = label := hlabel
  rwa [honce l' hl'] at hholds

theorem edgesOf_of_saidOnce (hlabel : label ∈ fields) (honce : SaidOnce said label l) :
    other.edgesOf node label = [(statementAbout node label l).edge] := by
  refine edgesOf_eq_singleton fun e => ⟨fun he => ?_, ?_⟩
  · obtain ⟨hrow, hnode, rfl⟩ := mem_edgesOf.1 he
    obtain ⟨x, hx, rfl, -⟩ := h.own e hrow hnode hlabel
    obtain ⟨label', l', hl', rfl⟩ := mem_statementsAbout.1 hx
    rw [honce.2 l' hl']
    rfl
  · rintro rfl
    exact mem_edgesOf.2 ⟨(h.holds_of_said honce).edge, rfl, rfl⟩

theorem edgesOf_of_unsaid (hlabel : label ∈ fields) (hnone : ∀ l, (label, l) ∉ said) :
    other.edgesOf node label = [] := by
  refine List.eq_nil_iff_forall_not_mem.2 fun e he => ?_
  obtain ⟨hrow, hnode, rfl⟩ := mem_edgesOf.1 he
  obtain ⟨x, hx, rfl, -⟩ := h.own e hrow hnode hlabel
  obtain ⟨label', l', hl', rfl⟩ := mem_statementsAbout.1 hx
  exact hnone l' hl'

theorem any_edgesOf_of_said (honce : SaidOnce said label l) :
    (other.edgesOf node label).any (·.node2 = l.encode) = true :=
  List.any_eq_true.2 ⟨(statementAbout node label l).edge,
    mem_edgesOf.2 ⟨(h.holds_of_said honce).edge, rfl, rfl⟩, decide_eq_true rfl⟩

variable (hother : other.Intact)

include hother

/-- **A field that is said once is read as it is said.** -/
theorem textOf_of_said (hlabel : label ∈ fields) (honce : SaidOnce said label l) {t : String}
    (ht : l = .text t ∨ l = .symbol t) : other.textOf node label = .ok (some t) := by
  rw [textOf, hother.statements_eq, h.edgesOf_of_saidOnce hlabel honce, List.mapM_cons,
    (h.holds_of_said honce).attach]
  rcases ht with rfl | rfl <;> rfl

theorem fieldText_of_said (hlabel : label ∈ fields) (honce : SaidOnce said label l) {t : String}
    (ht : l = .text t ∨ l = .symbol t) : other.fieldText node label = .ok t := by
  rw [fieldText, h.textOf_of_said hother hlabel honce ht]
  rfl

/-- **A field that is not said is not read.** -/
theorem textOf_of_unsaid (hlabel : label ∈ fields) (hnone : ∀ l, (label, l) ∉ said) :
    other.textOf node label = .ok none := by
  rw [textOf, hother.statements_eq, h.edgesOf_of_unsaid hlabel hnone]
  rfl

theorem isInstance_of_said {classNode : String}
    (honce : SaidOnce said Vocabulary.instanceOf (.symbol classNode)) :
    other.isInstance node classNode = .ok true := by
  have hany := h.any_edgesOf_of_said honce
  rw [Literal.encode_symbol] at hany
  rw [isInstance, hother.lookup_eq]
  exact congrArg Except.ok hany

theorem exists_subjects_of_said (honce : SaidOnce said label l) :
    ∃ nodes, other.subjects label l.encode = .ok nodes ∧ node ∈ nodes ∧
      nodes.Pairwise (· < ·) := by
  refine ⟨_, hother.subjects_eq label l.encode, Table.mem_sortedTexts.2 ?_,
    Table.pairwise_sortedTexts _⟩
  exact List.mem_map.2 ⟨(statementAbout node label l).edge,
    List.mem_filter.2 ⟨(h.holds_of_said honce).edge, decide_eq_true ⟨rfl, rfl⟩⟩, rfl⟩

omit hother

/-- **A field that is said several times is read in the order of the ids**, one of each id. -/
theorem edgesOf_of_said (hlabel : label ∈ fields)
    (hsymbol : ∀ l, (label, l) ∈ said → ∃ t, l = .symbol t) :
    let texts := (other.edgesOf node label).map Edge.node2
    texts.Pairwise (fun a b => edgeId node label a 0 < edgeId node label b 0) ∧
      (∀ t ∈ texts, (label, .symbol t) ∈ said) ∧
      ∀ t, (label, .symbol t) ∈ said →
        ∃ u ∈ texts, edgeId node label u 0 = edgeId node label t 0 := by
  -- An edge of the node under one of its labels was stored with the description, so its id is
  -- derived from its value.
  have hedge : ∀ e ∈ other.edgesOf node label,
      (label, .symbol e.node2) ∈ said ∧ e.id = edgeId node label e.node2 0 := by
    intro e he
    obtain ⟨hrow, hnode, rfl⟩ := mem_edgesOf.1 he
    obtain ⟨x, hx, rfl, -⟩ := h.own e hrow hnode hlabel
    obtain ⟨label', l', hl', rfl⟩ := mem_statementsAbout.1 hx
    obtain ⟨t, rfl⟩ := hsymbol l' hl'
    simpa [statementAbout, Statement.ofLiteral] using hl'
  refine ⟨?_, ?_, ?_⟩
  · have hascending : (other.edgesOf node label).Pairwise fun a b => a.id < b.id :=
      other.tables.edges.ascending.filter _
    refine List.pairwise_map.2 (hascending.imp_of_mem fun ha hb hlt => ?_)
    rwa [← (hedge _ ha).2, ← (hedge _ hb).2]
  · intro t ht
    obtain ⟨e, he, rfl⟩ := List.mem_map.1 ht
    exact (hedge e he).1
  · intro t ht
    have hmem := mem_statementsAbout.2
      ⟨label, _, ht, (rfl : statementAbout node label (.symbol t) = _)⟩
    obtain ⟨y, hy, hid, hholds⟩ := h.said _ hmem
    have hyLabel : y.edge.label = label := label_eq_of_id_eq hmem hy hid
    have hyNode : y.edge.node1 = node := by
      obtain ⟨_, _, _, rfl⟩ := mem_statementsAbout.1 hy
      rfl
    have hyEdge : y.edge ∈ other.edgesOf node label :=
      mem_edgesOf.2 ⟨hholds.edge, hyNode, hyLabel⟩
    refine ⟨_, List.mem_map_of_mem hyEdge, ?_⟩
    rw [← (hedge _ hyEdge).2, hid]
    simp [statementAbout, Statement.ofLiteral]

end Replaced

end Database

end FactGraph
